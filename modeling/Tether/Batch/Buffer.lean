import Tether.Batch.Event

/-! Events gathered for the next batch. The buffer knows how many bytes their bodies take as JSON, and
is full when either limit is reached. -/
namespace Tether

structure BatchLimits where
  elements : Nat := 6
  size : Nat := 30000
deriving DecidableEq, Repr, Inhabited

/-- The events, the latest one first, and the bytes of their bodies. -/
structure BatchBuffer where
  latest : List Event := []
  size : Nat := 0
deriving Repr, Inhabited

namespace BatchBuffer

def events (b : BatchBuffer) : List Event := b.latest.reverse

def length (b : BatchBuffer) : Nat := b.latest.length

def isEmpty (b : BatchBuffer) : Bool := b.latest.isEmpty

def add (b : BatchBuffer) (e : Event) : BatchBuffer := ⟨e :: b.latest,b.size + e.msg.size⟩

def countReached (limits : BatchLimits) (b : BatchBuffer) : Bool := limits.elements ≤ b.length

def sizeReached (limits : BatchLimits) (b : BatchBuffer) : Bool := limits.size ≤ b.size

def isFull (limits : BatchLimits) (b : BatchBuffer) : Bool :=
  b.countReached limits || b.sizeReached limits

def take (b : BatchBuffer) : List Event × BatchBuffer := (b.events,{})

end BatchBuffer
end Tether
