import Tether.Number.Binary64

/-! How long to wait before dialing again. A policy is asked with the number of attempts that have
failed in a row, zero right after a session, and answers with a delay or gives up. -/
namespace Tether

/-- A span of time in whole nanoseconds. -/
structure Span where
  nanos : Nat
deriving DecidableEq, Repr, Inhabited

namespace Span

def ofMillis (ms : Nat) : Span := ⟨ms * 1000000⟩
def ofSeconds (s : Nat) : Span := ⟨s * 1000000000⟩
def millis (s : Span) : Nat := s.nanos / 1000000
def seconds (s : Span) : Nat := s.nanos / 1000000000

end Span

structure FixedDelay where
  delay : Span := .ofSeconds 10
  maxAttempts : Option UInt32 := none
deriving DecidableEq, Repr

structure Backoff where
  initial : Span := .ofMillis 500
  max : Span := .ofSeconds 60
  multiplier : Binary64 := .ofNat 2
  jitter : Bool := true
  maxAttempts : Option UInt32 := none
deriving DecidableEq, Repr

def exhausted (maxAttempts : Option UInt32) (failures : UInt32) : Bool :=
  match maxAttempts with
  | some m => m ≤ failures
  | none => false

namespace Backoff

def millisLimit : Nat := UInt64.size - 1

/-- Growth stops at the sixty-fourth failure. -/
def power (failures : UInt32) : Nat := min (failures.toNat - 1) 63

/-- Initial delay times a power of the multiplier, capped, in whole milliseconds. -/
def base (b : Backoff) (failures : UInt32) : Nat :=
  let grown := (Binary64.ofNat b.initial.millis).mul (b.multiplier.pow (power failures))
  (grown.min (.ofNat b.max.millis)).truncate millisLimit

/-- The most that jitter may add. -/
def jitterMax (b : Backoff) (base : Nat) : Nat := if b.jitter ∧ 1 < base then base / 2 else 0

/-- The delay for a draw of the jitter; a draw over the most counts as the most. -/
def delay (b : Backoff) (failures : UInt32) (draw : Nat) : Span :=
  let base := b.base failures
  .ofMillis (min millisLimit (base + min draw (b.jitterMax base)))

end Backoff

inductive RetryPolicy
  | fixed (policy : FixedDelay)
  | backoff (policy : Backoff)
deriving DecidableEq, Repr

/-- The delay before the next attempt, or none to give up. -/
def RetryPolicy.next (policy : RetryPolicy) (failures : UInt32) (draw : Nat) : Option Span :=
  match policy with
  | .fixed p => if exhausted p.maxAttempts failures then none else some p.delay
  | .backoff p =>
    if exhausted p.maxAttempts failures then none else some (p.delay failures draw)

end Tether
