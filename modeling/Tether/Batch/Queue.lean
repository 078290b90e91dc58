import Tether.Batch.Event

/-! The queue between those who send events and the one who batches them. Events go out on one side in
the order they came; on the other side each has a slot, opened when the event is accepted, filled by
the first answer and emptied by the first reader.

A waiter does not look at its slot again and again. It looks once, registers at the slot's bell, looks
a second time and then sleeps until the bell rings; each of these is a step of its own, and other
tasks may come between any two of them. -/
namespace Tether

inductive EventSlot
  | pending (bell : Nat)
  | ready (answer : Json)
deriving Repr

structure EventQueue where
  queued : List Event := []
  isOpen : Bool := true
  slots : List (Uid × EventSlot) := []
  nextBell : Nat := 0
  /-- Waiters registered at a bell that has not rung since. -/
  registered : List (Nat × Nat) := []
deriving Repr, Inhabited

namespace EventQueue

def slot? (q : EventQueue) (uid : Uid) : Option EventSlot := q.slots.lookup uid

def eraseSlot (q : EventQueue) (uid : Uid) : EventQueue :=
  { q with slots := q.slots.filter fun s => s.1 != uid }

def setSlot (q : EventQueue) (uid : Uid) (slot : EventSlot) : EventQueue :=
  { q with slots := q.slots.map fun s => if s.1 == uid then (uid,slot) else s }

def ring (q : EventQueue) (bell : Nat) : EventQueue :=
  { q with registered := q.registered.filter fun r => r.2 != bell }

def send (q : EventQueue) (e : Event) : Except BatchError EventQueue :=
  if !q.isOpen then .error .queueClosed
  else if (q.slot? e.uid).isSome then .error (.duplicate e.uid)
  else .ok { q with
    queued := q.queued ++ [e]
    slots := q.slots ++ [(e.uid,.pending q.nextBell)]
    nextBell := q.nextBell + 1 }

def take (q : EventQueue) : EventQueue × Option Event :=
  match q.queued with
  | [] => (q,none)
  | e :: rest => ({ q with queued := rest },some e)

/-- Fills the slot of a pending event; any other answer is dropped. -/
def answer (q : EventQueue) (e : Event) : EventQueue × Bool :=
  match q.slot? e.uid with
  | some (.pending bell) => ((q.setSlot e.uid (.ready e.msg)).ring bell,true)
  | _ => (q,false)

def isPending (q : EventQueue) (uid : Uid) : Bool :=
  match q.slot? uid with
  | some (.pending _) => true
  | _ => false

/-- What a look at a slot shows. An answer found there is taken out. -/
inductive Look
  | gone
  | ready (answer : Json)
  | pending (bell : Nat)

def look (q : EventQueue) (uid : Uid) : EventQueue × Look :=
  match q.slot? uid with
  | some (.pending bell) => (q,.pending bell)
  | some (.ready answer) => (q.eraseSlot uid,.ready answer)
  | none => (q,.gone)

def collect (q : EventQueue) (uid : Uid) : EventQueue × Option Json :=
  match q.look uid with
  | (q,.ready answer) => (q,some answer)
  | (q,_) => (q,none)

/-- Takes the slot away, which comes before the bell. -/
def dropSlot (q : EventQueue) (uid : Uid) : EventQueue × Option EventSlot :=
  (q.eraseSlot uid,q.slot? uid)

/-- Gives an event up; a later answer finds no slot. -/
def forget (q : EventQueue) (uid : Uid) : EventQueue × Bool :=
  match q.dropSlot uid with
  | (q,some (.pending bell)) => (q.ring bell,true)
  | (q,some (.ready _)) => (q,true)
  | (q,none) => (q,false)

def outstanding (q : EventQueue) : Nat := q.slots.length

def shown (q : EventQueue) : String :=
  s!"MuxDemuxQueue \x7b open: {q.isOpen}, slots: {q.outstanding} \x7d"

def close (q : EventQueue) : EventQueue := { q with isOpen := false }

def register (q : EventQueue) (waiter bell : Nat) : EventQueue :=
  { q with registered := (waiter,bell) :: q.registered }

def unregister (q : EventQueue) (waiter : Nat) : EventQueue :=
  { q with registered := q.registered.filter fun r => r.1 != waiter }

def isRegistered (q : EventQueue) (waiter : Nat) : Bool := q.registered.any fun r => r.1 == waiter

end EventQueue

inductive WaitStage
  | looking
  | enabling (bell : Nat)
  | checking
  | parked
  | finished (answer : Option Json)
deriving Repr

namespace WaitStage

/-- One step of a waiter for `uid`; a parked one moves only after its bell has rung. -/
def step (uid : Uid) (waiter : Nat) (q : EventQueue) : WaitStage → EventQueue × WaitStage
  | .looking => match q.look uid with
    | (q,.gone) => (q,.finished none)
    | (q,.ready answer) => (q,.finished (some answer))
    | (q,.pending bell) => (q,.enabling bell)
  | .enabling bell => (q.register waiter bell,.checking)
  | .checking => match q.look uid with
    | (q,.gone) => (q.unregister waiter,.finished none)
    | (q,.ready answer) => (q.unregister waiter,.finished (some answer))
    | (q,.pending _) => (q,.parked)
  | .parked => if q.isRegistered waiter then (q,.parked) else (q,.looking)
  | .finished answer => (q,.finished answer)

def run (uid : Uid) (waiter : Nat) : Nat → EventQueue → WaitStage → EventQueue × WaitStage
  | 0, q, stage => (q,stage)
  | fuel + 1, q, stage => match stage with
    | .finished answer => (q,.finished answer)
    | .parked =>
      if q.isRegistered waiter then (q,.parked) else run uid waiter fuel q .looking
    | stage =>
      let (q,stage) := step uid waiter q stage
      run uid waiter fuel q stage

/-- A waiter that is not disturbed settles within so many steps. -/
def settleSteps : Nat := 8

end WaitStage
end Tether
