import Tether.Wire.Tag

/-! Requests that wait for their reply. Each one owns a slot, entered under its counter; an entry
leaves the table when it is resolved, cancelled, or failed together with all others, and only the
first and the last of these deliver something to its slot. -/
namespace Tether

/-- What a request comes to: the reply's tag and payload, or an error. -/
abbrev Outcome := Except LinkError (Tag × List UInt8)

structure PendingEntry where
  id : UInt32
  tag : Tag
  slot : Nat
deriving DecidableEq, Repr

/-- An outcome on its way to a slot. -/
structure Delivery where
  slot : Nat
  outcome : Outcome

structure Pending where
  entries : List PendingEntry := []
  closed : Option String := none
  resolved : Nat := 0
  nextSlot : Nat := 0
deriving DecidableEq, Repr, Inhabited

namespace Pending

def find? (p : Pending) (id : UInt32) : Option PendingEntry := p.entries.find? (·.id == id)

def contains (p : Pending) (id : UInt32) : Bool := (p.find? id).isSome

def length (p : Pending) : Nat := p.entries.length

def erase (p : Pending) (id : UInt32) : Pending :=
  { p with entries := p.entries.filter (·.id != id) }

def register (p : Pending) (id : UInt32) (tag : Tag) : Except LinkError (Pending × Nat) :=
  match p.closed with
  | some reason => .error (.lost reason)
  | none =>
    if p.contains id then .error (.protocol (.outstanding id))
    else .ok
      ({ p with entries := p.entries ++ [⟨id,tag,p.nextSlot⟩], nextSlot := p.nextSlot + 1 },
        p.nextSlot)

def resolve (p : Pending) (id : UInt32) (outcome : Outcome) : Pending × Option Delivery :=
  match p.find? id with
  | none => (p,none)
  | some entry => ({ p.erase id with resolved := p.resolved + 1 },some ⟨entry.slot,outcome⟩)

def cancel (p : Pending) (id : UInt32) : Pending × Option PendingEntry := (p.erase id,p.find? id)

/-- Closes the table for good, under the reason of the first call, and fails what it holds, under
the reason of this one. -/
def failAll (p : Pending) (reason : String) : Pending × List Delivery :=
  ({ p with
      entries := []
      closed := some (p.closed.getD reason)
      resolved := p.resolved + p.length },
    p.entries.map fun e => ⟨e.slot,.error (.lost reason)⟩)

end Pending

/-- The receiving end of a request: nothing has come, an outcome lies ready, no outcome can come any
more, or the receiver has gone. -/
inductive ReplySlot
  | waiting
  | holding (outcome : Outcome)
  | closed
  | abandoned

abbrev Mailbox := List ReplySlot

namespace Mailbox

def slot (m : Mailbox) (n : Nat) : ReplySlot := m.getD n .closed

def deliver (m : Mailbox) (d : Delivery) : Mailbox :=
  match m.slot d.slot with
  | .waiting => m.set d.slot (.holding d.outcome)
  | _ => m

def release (m : Mailbox) (n : Nat) : Mailbox :=
  match m.slot n with
  | .waiting => m.set n .closed
  | _ => m

def take (m : Mailbox) (n : Nat) : Mailbox × Option Outcome :=
  match m.slot n with
  | .holding outcome => (m.set n .closed,some outcome)
  | _ => (m,none)

def abandon (m : Mailbox) (n : Nat) : Mailbox := m.set n .abandoned

end Mailbox
end Tether
