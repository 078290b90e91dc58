import Tether.Proofs.Cluster.Mirrors
import Tether.Proofs.Link.Hearing
import Tether.Proofs.Link.Serving

/-! How a call goes on, one move at a time: it is written or refused, it comes to an outcome that it takes,
or whoever made it goes away; only then does it give its ticket back. -/
namespace Tether

/-- The call waits for nothing more. -/
def CallStage.Over : CallStage → Prop
  | .opened | .sent => False
  | _ => True

/-- Why a message was not put on the stream: it cannot be encoded, the write broke off, or the link was on
its way to be closed. -/
inductive Unwritten (codec : Codec) (link : Connection) (m : Message) : LinkError → Prop
  | unfit (nonces : NonceSupply) (error : LinkError) :
    (codec.emitMessage nonces.1 m).fault = some error → Unwritten codec link m error
  | torn (fault : IoFault) : Unwritten codec link m (.lost (tornReason fault))
  | closed (reason : String) : link.closeReason = some reason → Unwritten codec link m (.lost reason)
  | closing : Unwritten codec link m (.lost "connection closed")

theorem Unwritten.onward {codec : Codec} {link link' : Connection} {m : Message} {error : LinkError}
    (h : Unwritten codec link m error) (ho : link.Onward link') : Unwritten codec link' m error := by
  cases h with
  | unfit nonces error hf => exact .unfit nonces error hf
  | torn fault => exact .torn fault
  | closed reason hr => exact .closed reason (ho.reason reason hr)
  | closing => exact .closing

theorem unwritten_lostError (codec : Codec) (link : Connection) (m : Message) :
    Unwritten codec link m link.lostError := by
  unfold Connection.lostError
  cases hr : link.closeReason with
  | none => exact .closing
  | some reason => exact .closed reason hr

namespace Endpoint

variable {codec : Codec} {e e' : Endpoint} {i : Nat}

structure Passes (e e' : Endpoint) (i : Nat) : Prop where
  errand : e'.errands[i]? = e.errands[i]?
  released : i ∈ e'.session.released → i ∈ e.session.released

theorem Passes.refl (e : Endpoint) (i : Nat) : e.Passes e i := ⟨rfl,id⟩

theorem Stays.passes (h : e.Stays e') (i : Nat) : e.Passes e' i := ⟨by rw [h.errands],fun hr => h.released ▸ hr⟩

theorem Passes.setErrand (h : e.Passes e' i) {j : Nat} (hj : j ≠ i) (x : Errand) :
    e.Passes (e'.setErrand j x) i :=
  ⟨(List.getElem?_set_ne hj).trans h.errand,h.released⟩

theorem Passes.release (h : e.Passes e' i) {j : Nat} (hj : j ≠ i) : e.Passes (e'.release j) i :=
  ⟨h.errand,fun hr => h.released ((Session.released_release hr).resolve_right (Ne.symm hj))⟩

theorem Begins.passes (h : e.Begins e') (hi : i < e.errands.length) : e.Passes e' i := by
  cases h with
  | refused => exact .refl e i
  | started tag x =>
    exact ⟨List.getElem?_append_left hi,fun hr => Session.released_step (a := .start tag) (by simp) ▸ hr⟩

theorem passes_write {j : Nat} (hj : j ≠ i) (e : Endpoint) (nonces : NonceSupply) (tear : Option Tear) :
    e.Passes (e.write codec j nonces tear) i := by
  rcases e.write_cases codec j nonces tear with hsame | ⟨e₁,x,hputs,hwrite⟩
  · rw [hsame]
    exact .refl e i
  · rw [hwrite]
    exact (hputs.stays.passes i).setErrand hj x

theorem passes_decode (e : Endpoint) (i : Nat) : e.Passes (e.decode codec) i := by
  have hd := decodes codec e
  generalize e.decode codec = e',notes codec e (.move .decode) = found at hd ⊢
  cases hd with
  | found d ra f m =>
    unfold route
    split <;> exact ⟨rfl,id⟩
  | _ => exact ⟨rfl,id⟩

theorem passes_respond (e : Endpoint) (i k : Nat) (nonces : NonceSupply) (tear : Option Tear) :
    e.Passes (e.respond codec k nonces tear) i := by
  rcases e.respond_cases codec k nonces tear with hsame | ⟨e₁,t,t',hputs,-,-,-,hrespond⟩
  · rw [hsame]
    exact .refl e i
  · rw [hrespond]
    exact ⟨(hputs.stays.passes i).errand,(hputs.stays.passes i).released⟩

def Move.errand? : Move → Option Nat
  | .write i _ _ | .fill i _ | .forget i | .collect i | .leave i => some i
  | _ => none

/-- A move does nothing to a request that it is not made for. -/
theorem passes_step (hi : i < e.errands.length) {move : Move} (hmove : move.errand? ≠ some i) :
    e.Passes (e.step codec move) i := by
  have hne : ∀ {j : Nat}, move.errand? = some j → j ≠ i := fun hj he => hmove (he ▸ hj)
  have hlink : ∀ (a : Session.Act), (∀ k, a ≠ .release k) →
      e.Passes { e with session := e.session.step a } i :=
    fun a ha => ⟨rfl,fun hr => Session.released_step ha ▸ hr⟩
  cases move with
  | close reason => exact ⟨rfl,id⟩
  | proceed k => exact hlink (.proceed k) (by simp)
  | ready peer => exact hlink (.ready peer) (by simp)
  | handshake => exact hlink .handshake (by simp)
  | greet data => exact (e.begins_launch ..).passes hi
  | call tag data => exact (e.begins_begin ..).passes hi
  | upload path name size => exact (e.begins_upload codec path name size).passes hi
  | write j nonces tear => exact passes_write (hne rfl) e nonces tear
  | fill j got =>
    simp only [step,fill]
    (repeat' split) <;> first
      | exact .refl e i
      | exact (Passes.refl e i).setErrand (hne rfl) _
      | exact ⟨List.getElem?_set_ne (hne rfl),id⟩
  | forget j =>
    simp only [step,forget]
    split <;> first
      | exact .refl e i
      | exact (Passes.refl e i).release (hne rfl)
  | collect j =>
    simp only [step,collect]
    (repeat' split) <;> first
      | exact .refl e i
      | exact ((Passes.refl e i).setErrand (hne rfl) _).release (hne rfl)
  | leave j =>
    simp only [step,leave]
    split <;> first
      | exact .refl e i
      | exact ((Passes.refl e i).setErrand (hne rfl) _).release (hne rfl)
  | decode => exact e.passes_decode i
  | stop reason => exact ⟨rfl,id⟩
  | shut =>
    simp only [step]
    split <;> exact ⟨rfl,id⟩
  | gate k =>
    simp only [step,gate]
    (repeat' split) <;> exact ⟨rfl,id⟩
  | serve k result =>
    simp only [step,serve]
    split <;> exact ⟨rfl,id⟩
  | crash k =>
    simp only [step,crash]
    split <;> exact ⟨rfl,id⟩
  | respond k nonces tear => exact e.passes_respond i k nonces tear

/-! ### A call -/

variable {ticket : Ticket} {tag : Tag} {data : List UInt8} {stage : CallStage}

inductive Becomes (codec : Codec) (e : Endpoint) (move : Move) (i : Nat) (ticket : Ticket) (tag : Tag)
    (data : List UInt8) : CallStage → CallStage → Prop
  | same (stage : CallStage) : Becomes codec e move i ticket tag data stage stage
  | sent (nonces : NonceSupply) (tear : Option Tear) : move = .write i nonces tear →
    Becomes codec e move i ticket tag data .opened .sent
  | refused (error : LinkError) (nonces : NonceSupply) (tear : Option Tear) :
    Unwritten codec e.session.link ⟨ticket.counter,tag,false,data⟩ error → move = .write i nonces tear →
    Becomes codec e move i ticket tag data .opened (.refused error)
  | ended (outcome : Outcome) : move = .collect i → e.session.link.outcome? ticket = some outcome →
    Becomes codec e move i ticket tag data .sent (.ended outcome)
  | left (stage : CallStage) : stage = .opened ∨ stage = .sent →
    Becomes codec e move i ticket tag data stage .left

/-- A call goes on, and its ticket is given back only when it is over. -/
structure Goes (codec : Codec) (e : Endpoint) (move : Move) (i : Nat) (ticket : Ticket) (tag : Tag)
    (data : List UInt8) (stage stage' : CallStage) (e' : Endpoint) : Prop where
  errand : e'.errands[i]? = some (.call ticket tag data stage')
  becomes : Becomes codec e move i ticket tag data stage stage'
  released : i ∈ e'.session.released → i ∈ e.session.released ∨ stage'.Over

theorem Passes.goes {move : Move} (h : e.Passes e' i)
    (hx : e.errands[i]? = some (.call ticket tag data stage)) :
    Goes codec e move i ticket tag data stage stage e' :=
  ⟨h.errand.trans hx,.same stage,fun hr => .inl (h.released hr)⟩

theorem unwritten_of_writeMessage {nonces : NonceSupply} {m : Message} {tear : Option Tear}
    {error : LinkError} (h : e.writeMessage codec nonces m tear = (e',.error error)) :
    Unwritten codec e.session.link m error := by
  rcases Option.eq_none_or_eq_some (codec.emitMessage nonces.1 m).fault with hf | ⟨fault,hf⟩
  · rw [writeMessage_of_encodable e hf] at h
    unfold put at h
    split at h
    · obtain ⟨-,he⟩ := Prod.mk.inj h
      rw [← Except.error.inj he]
      exact unwritten_lostError ..
    · rcases tear with _ | ⟨kept,fault⟩
      · simp at h
      · obtain ⟨-,he⟩ := Prod.mk.inj h
        rw [← Except.error.inj he]
        exact .torn fault
  · rw [writeMessage_of_fault e hf] at h
    obtain ⟨-,he⟩ := Prod.mk.inj h
    rw [← Except.error.inj he]
    exact .unfit nonces fault hf

theorem goes_write (hx : e.errands[i]? = some (.call ticket tag data stage)) (nonces : NonceSupply)
    (tear : Option Tear) : ∃ stage', Goes codec e (.write i nonces tear) i ticket tag data stage stage'
      (e.write codec i nonces tear) := by
  have hi := (List.getElem?_eq_some_iff.mp hx).1
  cases stage with
  | opened =>
    simp only [write,hx]
    have hw := (e.puts_writeMessage codec nonces ⟨ticket.counter,tag,false,data⟩ tear).stays
    rcases hr : e.writeMessage codec nonces ⟨ticket.counter,tag,false,data⟩ tear with ⟨e₁,error | ⟨⟩⟩
    all_goals
      rw [hr] at hw
      have hset := e₁.getElem?_setErrand (hw.errands ▸ hi)
      have hreleased : i ∈ e₁.session.released → i ∈ e.session.released := (hw.passes i).released
    · exact ⟨.refused error,hset _,.refused error nonces tear (unwritten_of_writeMessage hr) rfl,
        fun h => .inl (hreleased h)⟩
    · exact ⟨.sent,hset _,.sent nonces tear rfl,fun h => .inl (hreleased h)⟩
  | _ =>
    simp only [write,hx]
    exact ⟨_,(Passes.refl e i).goes hx⟩

/-- A call after any move. -/
theorem exists_goes (codec : Codec) (hx : e.errands[i]? = some (.call ticket tag data stage)) (move : Move) :
    ∃ stage', Goes codec e move i ticket tag data stage stage' (e.step codec move) := by
  have hi := (List.getElem?_eq_some_iff.mp hx).1
  have hset := e.getElem?_setErrand hi
  by_cases hmove : move.errand? = some i
  · cases move with
    | write j nonces tear =>
      obtain rfl := Option.some.inj hmove
      exact goes_write hx nonces tear
    | fill j got =>
      obtain rfl := Option.some.inj hmove
      simp only [step,fill,hx]
      exact ⟨stage,(Passes.refl e j).goes hx⟩
    | forget j =>
      obtain rfl := Option.some.inj hmove
      simp only [step,forget,hx]
      cases stage with
      | refused error => exact ⟨.refused error,hx,.same _,fun _ => .inr trivial⟩
      | _ => exact ⟨_,(Passes.refl e j).goes hx⟩
    | collect j =>
      obtain rfl := Option.some.inj hmove
      cases stage with
      | sent =>
        cases ho : e.session.link.outcome? ticket with
        | none =>
          simp only [step,collect,hx,ho]
          exact ⟨.sent,(Passes.refl e j).goes hx⟩
        | some outcome =>
          simp only [step,collect,hx,ho]
          exact ⟨.ended outcome,hset _,.ended outcome rfl ho,fun _ => .inr trivial⟩
      | _ =>
        simp only [step,collect,hx]
        exact ⟨_,(Passes.refl e j).goes hx⟩
    | leave j =>
      obtain rfl := Option.some.inj hmove
      simp only [step,leave,hx]
      cases stage with
      | opened => exact ⟨.left,hset _,.left _ (.inl rfl),fun _ => .inr trivial⟩
      | sent => exact ⟨.left,hset _,.left _ (.inr rfl),fun _ => .inr trivial⟩
      | _ => exact ⟨_,(Passes.refl e j).goes hx⟩
    | _ => simp [Move.errand?] at hmove
  · exact ⟨stage,(passes_step hi hmove).goes hx⟩

/-- Where there is a call after a step there was that call before, unless it has just been started. -/
theorem Step.exists_call {move : Move} (h : Step codec move e e')
    (hx : e'.errands[i]? = some (.call ticket tag data stage)) :
    (e.errands.length ≤ i ∧ stage = .opened ∧ e'.session.released = e.session.released) ∨
      ∃ before, e.errands[i]? = some (.call ticket tag data before) := by
  have hset : ∀ {j : Nat} {x y : Errand} {chunks : List Chunk}, e.errands[j]? = some x →
      Advance codec e x y chunks → (e.errands.set j y)[i]? = some (.call ticket tag data stage) →
      ∃ before, e.errands[i]? = some (.call ticket tag data before) := by
    intro j x y chunks hj ha hy
    by_cases hji : j = i
    · subst hji
      rw [List.getElem?_set_self (List.getElem?_eq_some_iff.mp hj).1,Option.some.injEq] at hy
      subst hy
      cases ha <;> exact ⟨_,hj⟩
    · exact ⟨stage,(List.getElem?_set_ne hji).symm.trans hy⟩
  cases h with
  | began tag' link ticket' x _ hf =>
    have hx' : (e.errands ++ [x])[i]? = some (.call ticket tag data stage) := hx
    rcases Nat.lt_or_ge i e.errands.length with hlt | hge
    · rw [List.getElem?_append_left hlt] at hx'
      exact .inr ⟨stage,hx'⟩
    · rw [List.getElem?_append_right hge] at hx'
      obtain rfl := List.mem_singleton.mp (List.mem_of_getElem? hx')
      refine .inl ⟨hge,?_,Session.released_step (a := .start tag') (by simp)⟩
      cases hf
      rfl
  | errand j x y acts hj ha => exact .inr (hset hj ha hx)
  | wrote j x y acts chunks tear hj ha =>
    rw [conclude,errands_extend] at hx
    exact .inr (hset hj ha hx)
  | found decoder reassembler frame m =>
    unfold route at hx
    split at hx <;> exact .inr ⟨stage,hx⟩
  | replied k request b reply nonces tear =>
    rw [setServe,errands_extend] at hx
    exact .inr ⟨stage,hx⟩
  | _ => exact .inr ⟨stage,hx⟩

theorem Becomes.eq_of_over {move : Move} {stage' : CallStage}
    (h : Becomes codec e move i ticket tag data stage stage') (hover : stage.Over) : stage' = stage := by
  cases h with
  | same => rfl
  | left stage hstage => rcases hstage with rfl | rfl <;> exact hover.elim
  | _ => exact hover.elim

end Endpoint
end Tether
