import Tether.Proofs.Link.Moves

/-! What a write touches: the stream, and the closing of the link when it breaks off. A request that is begun
is added to the others, and one that writes, or a reply that is written, gets its next state; nothing else
changes. -/
namespace Tether

namespace Endpoint

variable {e e' : Endpoint}

/-- Bytes were put on the stream, or refused. -/
structure Puts (e e' : Endpoint) : Prop where
  errands : e'.errands = e.errands
  serves : e'.serves = e.serves
  inbound : e'.inbound = e.inbound
  reading : e'.reading = e.reading
  routed : e'.routed = e.routed
  link : e'.session.link = e.session.link
  tickets : e'.session.tickets = e.session.tickets
  released : e'.session.released = e.session.released

theorem Puts.refl (e : Endpoint) : e.Puts e := ⟨rfl,rfl,rfl,rfl,rfl,rfl,rfl,rfl⟩

theorem puts_put (e : Endpoint) (bytes : List UInt8) (chunks : List Chunk) (tear : Option Tear) :
    e.Puts (e.put bytes chunks tear).1 := by
  unfold put
  split
  · exact .refl e
  · cases tear <;> exact ⟨rfl,rfl,rfl,rfl,rfl,rfl,rfl,rfl⟩

theorem puts_writeMessage (codec : Codec) (e : Endpoint) (nonces : NonceSupply) (m : Message)
    (tear : Option Tear) : e.Puts (e.writeMessage codec nonces m tear).1 := by
  unfold writeMessage
  simp only
  split
  · exact .refl e
  · exact e.puts_put ..

/-- A request was begun, or turned down. -/
inductive Begins (e : Endpoint) : Endpoint → Prop
  | refused : Begins e e
  | started (tag : Tag) (x : Errand) :
    Begins e { e with session := e.session.step (.start tag), errands := e.errands ++ [x] }

theorem begins_launch (e : Endpoint) (tag : Tag) (f : Ticket → Errand) : e.Begins (e.launch tag f) := by
  unfold launch
  split
  · exact .refused
  · exact .started tag _

theorem begins_begin (e : Endpoint) (tag : Tag) (f : Ticket → Errand) : e.Begins (e.begin tag f) := by
  unfold begin
  split
  · exact .refused
  · exact e.begins_launch tag f

theorem begins_upload (codec : Codec) (e : Endpoint) (path name : String) (size : Nat) :
    e.Begins (e.upload codec path name size) := by
  unfold upload
  split
  · exact .refused
  · exact e.begins_begin ..

theorem write_cases (codec : Codec) (e : Endpoint) (i : Nat) (nonces : NonceSupply) (tear : Option Tear) :
    e.write codec i nonces tear = e ∨
      ∃ e₁ x, e.Puts e₁ ∧ e.write codec i nonces tear = e₁.setErrand i x := by
  unfold write
  split
  · rename_i ticket tag data _
    have hputs := e.puts_writeMessage codec nonces ⟨ticket.counter,tag,false,data⟩ tear
    rcases hr : e.writeMessage codec nonces ⟨ticket.counter,tag,false,data⟩ tear with ⟨e₁,result⟩
    rw [hr] at hputs
    cases result <;> exact .inr ⟨e₁,_,hputs,rfl⟩
  · split
    · rename_i u _ _ place piece _
      split
      · exact .inr ⟨e,_,.refl e,rfl⟩
      · rename_i bytes _
        have hputs := e.puts_put bytes [⟨place,nonces.1 u.index,piece⟩] tear
        rcases hr : e.put bytes [⟨place,nonces.1 u.index,piece⟩] tear with ⟨e₁,result⟩
        rw [hr] at hputs
        cases result <;> exact .inr ⟨e₁,_,hputs,rfl⟩
    · exact .inl rfl
  · exact .inl rfl

theorem respond_cases (codec : Codec) (e : Endpoint) (k : Nat) (nonces : NonceSupply) (tear : Option Tear) :
    e.respond codec k nonces tear = e ∨
      ∃ e₁ t t', e.Puts e₁ ∧ e.serves[k]? = some t ∧ t'.request = t.request ∧ t'.reply? = t.reply? ∧
        e.respond codec k nonces tear = e₁.setServe k t' := by
  unfold respond
  split
  · rename_i request b reply hk
    have hputs := e.puts_writeMessage codec nonces (reply.message request.counter) tear
    rcases hr : e.writeMessage codec nonces (reply.message request.counter) tear with ⟨e₁,result⟩
    rw [hr] at hputs
    rcases result with error | ⟨⟩
    · exact .inr ⟨e₁,_,⟨request,b,.failed reply error⟩,hputs,hk,rfl,rfl,rfl⟩
    · exact .inr ⟨e₁,_,⟨request,b,.answered reply⟩,hputs,hk,rfl,rfl,rfl⟩
  · exact .inl rfl

end Endpoint
end Tether
