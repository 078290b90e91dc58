import Tether.Proofs.Link.Finding
import Tether.Proofs.Link.Serving

/-! A reply, once it is made, is the reply of its request for good; and what makes the reply to a hello is
the serving of it, and nothing else. -/
namespace Tether

@[simp] theorem Connection.admits_hello (c : Connection) : c.admits .hello = true := by
  simp [admits]

namespace Endpoint

variable {codec : Codec} {e e' : Endpoint} {k : Nat} {t : Serve} {reply : Reply}

/-- A request whose reply is there had that reply before. -/
def Stood (e : Endpoint) (k : Nat) (t : Serve) (reply : Reply) : Prop :=
  ∃ t', e.serves[k]? = some t' ∧ t'.request = t.request ∧ t'.reply? = some reply

theorem Stood.of_same (hserves : e'.serves = e.serves) (hk : e'.serves[k]? = some t)
    (hr : t.reply? = some reply) : e.Stood k t reply := ⟨t,hserves ▸ hk,rfl,hr⟩

theorem reply?_abandon (hr : (abandon t).reply? = some reply) : t.reply? = some reply := by
  rcases t with ⟨request,b,stage⟩
  cases stage with
  | answered _ => exact hr
  | failed _ _ => exact hr
  | _ => simp [abandon,Serve.reply?] at hr

theorem stood_of_abandon (hk : (e.serves.map abandon)[k]? = some t) (hr : t.reply? = some reply) :
    e.Stood k t reply := by
  rw [List.getElem?_map,Option.map_eq_some_iff] at hk
  obtain ⟨t',ht',rfl⟩ := hk
  exact ⟨t',ht',(request_abandon t').symm,reply?_abandon hr⟩

theorem stood_of_set {j : Nat} {x y : Serve} (hj : e.serves[j]? = some x)
    (hk : (e.serves.set j y)[k]? = some t) (hr : t.reply? = some reply) (hrequest : y.request = x.request)
    (hreply : y.request = t.request → y.reply? = some reply → x.reply? = some reply) :
    e.Stood k t reply := by
  by_cases hjk : j = k
  · subst hjk
    rw [List.getElem?_set_self (List.getElem?_eq_some_iff.mp hj).1,Option.some.injEq] at hk
    subst hk
    exact ⟨x,hj,hrequest.symm,hreply rfl hr⟩
  · rw [List.getElem?_set_ne hjk] at hk
    exact ⟨t,hk,rfl,hr⟩

theorem Begins.serves (h : e.Begins e') : e'.serves = e.serves := by
  cases h <;> rfl

theorem serves_write (e : Endpoint) (i : Nat) (nonces : NonceSupply) (tear : Option Tear) :
    (e.write codec i nonces tear).serves = e.serves := by
  rcases e.write_cases codec i nonces tear with hsame | ⟨e₁,x,hputs,hwrite⟩
  · rw [hsame]
  · rw [hwrite]
    exact hputs.serves

theorem stood_of_decode (hk : (e.decode codec).serves[k]? = some t) (hr : t.reply? = some reply) :
    e.Stood k t reply := by
  have hd := decodes codec e
  generalize e.decode codec = e',notes codec e (.move .decode) = found at hd hk
  cases hd with
  | found d ra f m =>
    unfold route at hk
    split at hk
    · exact ⟨t,hk,rfl,hr⟩
    · rcases Nat.lt_or_ge k e.serves.length with hlt | hge
      · rw [List.getElem?_append_left hlt] at hk
        exact ⟨t,hk,rfl,hr⟩
      · rw [List.getElem?_append_right hge] at hk
        obtain rfl := List.mem_singleton.mp (List.mem_of_getElem? hk)
        simp [Serve.reply?] at hr
  | refused => exact stood_of_abandon hk hr
  | malformed => exact stood_of_abandon hk hr
  | _ => exact ⟨t,hk,rfl,hr⟩

theorem stood_of_respond {j : Nat} {nonces : NonceSupply} {tear : Option Tear}
    (hk : (e.respond codec j nonces tear).serves[k]? = some t) (hr : t.reply? = some reply) :
    e.Stood k t reply := by
  rcases e.respond_cases codec j nonces tear with hsame | ⟨e₁,x,y,hputs,hj,hrequest,hmade,hrespond⟩
  · rw [hsame] at hk
    exact ⟨t,hk,rfl,hr⟩
  · simp only [hrespond,setServe,hputs.serves] at hk
    exact stood_of_set hj hk hr hrequest fun _ h => hmade ▸ h

theorem stood_of_serve {result : Option (Except LinkError Reply)}
    (hother : ∀ request b, e.serves[k]? = some ⟨request,b,.running⟩ → request.tag ≠ .hello)
    (hk : (e.serve k result).serves[k]? = some t) (htag : t.request.tag = .hello)
    (hr : t.reply? = some reply) : e.Stood k t reply := by
  unfold serve at hk
  split at hk
  · rename_i request b hj
    simp only [setServe,List.getElem?_set_self (List.getElem?_eq_some_iff.mp hj).1,
      Option.some.injEq] at hk
    subst hk
    exact absurd htag (hother request b hj)
  · exact ⟨t,hk,rfl,hr⟩

/-- The reply to a hello was there before any move but the one that serves it. -/
theorem stood_of_step {move : Move} (hmove : ∀ result, move ≠ .serve k result)
    (hk : (e.step codec move).serves[k]? = some t) (htag : t.request.tag = .hello)
    (hr : t.reply? = some reply) : e.Stood k t reply := by
  cases move with
  | greet data => exact .of_same (e.begins_launch ..).serves hk hr
  | call tag data => exact .of_same (e.begins_begin ..).serves hk hr
  | upload path name size => exact .of_same (e.begins_upload codec path name size).serves hk hr
  | write i nonces tear => exact .of_same (e.serves_write ..) hk hr
  | fill i got =>
    refine .of_same ?_ hk hr
    simp only [step,fill]
    (repeat' split) <;> rfl
  | forget i =>
    refine .of_same ?_ hk hr
    simp only [step,forget]
    split <;> rfl
  | collect i =>
    refine .of_same ?_ hk hr
    simp only [step,collect]
    (repeat' split) <;> rfl
  | leave i =>
    refine .of_same ?_ hk hr
    simp only [step,leave]
    split <;> rfl
  | decode => exact stood_of_decode hk hr
  | stop reason => exact stood_of_abandon hk hr
  | shut =>
    refine .of_same ?_ hk hr
    simp only [step]
    split <;> rfl
  | gate j =>
    simp only [step,gate] at hk
    split at hk
    · rename_i request b hj
      split at hk
      · exact stood_of_set hj hk hr rfl fun _ h => by simp [Serve.reply?] at h
      · rename_i hadmits
        -- a hello is never turned away
        refine stood_of_set hj hk hr rfl fun hrequest _ => absurd ?_ hadmits
        have hhello : request.tag = .hello := (congrArg Message.tag hrequest).trans htag
        rw [hhello,Connection.admits_hello]
    · exact ⟨t,hk,rfl,hr⟩
  | serve j result =>
    have hjk : j ≠ k := fun h => hmove result (h ▸ rfl)
    simp only [step,serve] at hk
    split at hk
    · exact ⟨t,(List.getElem?_set_ne hjk).symm.trans hk,rfl,hr⟩
    · exact ⟨t,hk,rfl,hr⟩
  | crash j =>
    simp only [step,crash] at hk
    split at hk
    · rename_i request b hj
      exact stood_of_set hj hk hr rfl fun _ h => by simp [Serve.reply?] at h
    · exact ⟨t,hk,rfl,hr⟩
  | respond j nonces tear => exact stood_of_respond hk hr
  | _ => exact ⟨t,hk,rfl,hr⟩

end Endpoint
end Tether
