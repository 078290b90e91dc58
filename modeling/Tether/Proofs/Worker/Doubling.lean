import Tether.Node.Settings
import Tether.Proofs.Number.Exact
import Tether.Retry

/-! Delays that double with each failure. Before jitter they are a power of two times the first one, up to
the cap, and grow with the failures. Jitter comes after the cap: it may add half of the delay, also to one that
has come to the cap, so that the cap holds for every draw just where the delay and its half stay below it. -/
namespace Tether

theorem Span.nanos_ofMillis_le_iff (ms : Nat) (s : Span) : (ofMillis ms).nanos ≤ s.nanos ↔ ms ≤ s.millis :=
  (Nat.le_div_iff_mul_le (by decide)).symm

namespace Backoff

/-- A policy that doubles, never gives up, and has spans of fewer than 2^53 milliseconds. -/
structure Doubles (b : Backoff) : Prop where
  multiplier : b.multiplier = .ofNat 2
  unlimited : b.maxAttempts = none
  initial : b.initial.millis < 2^53
  max : b.max.millis < 2^53

/-- The delay before jitter, in milliseconds. -/
def capped (b : Backoff) (failures : UInt32) : Nat :=
  min (b.initial.millis * 2^min (failures.toNat - 1) 63) b.max.millis

variable {b : Backoff}

theorem capped_le (b : Backoff) (failures : UInt32) : b.capped failures ≤ b.max.millis := Nat.min_le_right _ _

theorem capped_mono (b : Backoff) {failures later : UInt32} (h : failures ≤ later) :
    b.capped failures ≤ b.capped later := by
  have hfailures : failures.toNat ≤ later.toNat := UInt32.le_iff_toNat_le.mp h
  have hpower : 2^min (failures.toNat - 1) 63 ≤ 2^min (later.toNat - 1) 63 :=
    Nat.pow_le_pow_right (by decide) (by omega)
  have hgrown := Nat.mul_le_mul_left b.initial.millis hpower
  unfold capped
  omega

theorem Doubles.base_eq (h : b.Doubles) (failures : UInt32) : b.base failures = b.capped failures := by
  have hpower : power failures ≤ 971 := (Nat.min_le_right _ _).trans (by decide)
  have hgrown := (Binary64.holds_ofNat h.initial).mul (Binary64.holds_pow_two hpower)
    (Binary64.fits_natCast_mul_two_pow h.initial hpower)
  have hcapped := hgrown.min (Binary64.holds_ofNat h.max)
  have hwhole : ((b.initial.millis : ℚ) * 2^power failures) ⊓ b.max.millis = (b.capped failures : Nat) := by
    rw [capped,Nat.cast_min,Nat.cast_mul,Nat.cast_pow,Nat.cast_ofNat,power]
  have hlimit : b.capped failures ≤ millisLimit := (b.capped_le failures).trans (h.max.le.trans (by decide))
  simp only [base,h.multiplier]
  rw [hcapped.truncate,hwhole,Nat.floor_natCast]
  exact Nat.min_eq_right hlimit

theorem jitterMax_eq (b : Backoff) (base : Nat) : b.jitterMax base = if b.jitter then base / 2 else 0 := by
  unfold jitterMax
  cases b.jitter with
  | false => simp
  | true =>
    by_cases hbase : 1 < base
    · simp [hbase]
    · simp only [hbase,and_false,if_false,if_true]
      omega

theorem Doubles.delay_eq (h : b.Doubles) (failures : UInt32) (draw : Nat) : b.delay failures draw =
    .ofMillis (b.capped failures + min draw (if b.jitter then b.capped failures / 2 else 0)) := by
  have hcap := b.capped_le failures
  have hmax := h.max
  rw [delay,h.base_eq,jitterMax_eq,Nat.min_eq_right]
  simp only [millisLimit,UInt64.size]
  split <;> omega

theorem Doubles.next_eq (h : b.Doubles) (failures : UInt32) (draw : Nat) :
    RetryPolicy.next (.backoff b) failures draw = some (b.delay failures draw) := by
  simp [RetryPolicy.next,exhausted,h.unlimited]

theorem Doubles.delay_of_plain (h : b.Doubles) (hplain : b.jitter = false) (failures : UInt32) (draw : Nat) :
    b.delay failures draw = .ofMillis (b.capped failures) := by
  rw [h.delay_eq,hplain,if_neg (by decide),Nat.min_zero,Nat.add_zero]

theorem Doubles.exists_draw_iff (h : b.Doubles) (hjitter : b.jitter = true) (failures : UInt32) (s : Span) :
    (∃ draw, b.delay failures draw = s) ↔ ∃ ms, s = .ofMillis ms ∧
      b.capped failures ≤ ms ∧ ms ≤ b.capped failures + b.capped failures / 2 := by
  simp only [h.delay_eq,hjitter,if_true]
  constructor
  · rintro ⟨draw,rfl⟩
    exact ⟨_,rfl,Nat.le_add_right _ _,Nat.add_le_add_left (Nat.min_le_right _ _) _⟩
  · rintro ⟨ms,rfl,hlow,hhigh⟩
    exact ⟨ms - b.capped failures,congrArg Span.ofMillis (by omega)⟩

theorem Doubles.within_max_iff (h : b.Doubles) (hjitter : b.jitter = true) (failures : UInt32) :
    (∀ draw, (b.delay failures draw).nanos ≤ b.max.nanos) ↔
      b.capped failures + b.capped failures / 2 ≤ b.max.millis := by
  simp only [h.delay_eq,hjitter,if_true,Span.nanos_ofMillis_le_iff]
  constructor
  · intro hall
    simpa using hall (b.capped failures / 2)
  · intro hmost draw
    exact (Nat.add_le_add_left (Nat.min_le_right _ _) _).trans hmost

/-- A policy that doubles always gives a delay. Without jitter it is the first delay times a power of two, up
to the cap; it never exceeds the cap and never decreases as failures grow. With jitter the delays are those
from that one to that one and its half, and they stay within the cap for every draw if and only if the longest
of them does. -/
theorem delayed_of_doubles (b : Backoff) (h : b.Doubles) :
    (∀ failures draw, RetryPolicy.next (.backoff b) failures draw = some (b.delay failures draw)) ∧
    (b.jitter = false → ∀ failures draw,
      b.delay failures draw = .ofMillis (b.capped failures) ∧ (b.delay failures draw).nanos ≤ b.max.nanos ∧
      ∀ later draw', failures ≤ later → (b.delay failures draw).nanos ≤ (b.delay later draw').nanos) ∧
    (b.jitter = true → ∀ failures,
      (∀ s, (∃ draw, b.delay failures draw = s) ↔ ∃ ms, s = .ofMillis ms ∧
        b.capped failures ≤ ms ∧ ms ≤ b.capped failures + b.capped failures / 2) ∧
      ((∀ draw, (b.delay failures draw).nanos ≤ b.max.nanos) ↔
        b.capped failures + b.capped failures / 2 ≤ b.max.millis)) := by
  refine ⟨h.next_eq,fun hplain failures draw => ?_,
    fun hjitter failures => ⟨h.exists_draw_iff hjitter failures,h.within_max_iff hjitter failures⟩⟩
  have hdelay := h.delay_of_plain hplain
  refine ⟨hdelay failures draw,?_,fun later draw' hlater => ?_⟩
  · rw [hdelay,Span.nanos_ofMillis_le_iff]
    exact b.capped_le failures
  · rw [hdelay,hdelay]
    exact Nat.mul_le_mul_right _ (b.capped_mono hlater)

/-- From half a second to a minute: the seventh failure in a row costs 32 seconds before jitter, which leaves
room for their half, and the eighth a minute, which does not. -/
theorem delayed_of_doubles_minute :
    ({ jitter := false } : Backoff).Doubles ∧ ({} : Backoff).Doubles ∧
      ({ jitter := false } : Backoff).delay 8 1 = .ofSeconds 60 ∧
      (∀ draw, (({} : Backoff).delay 7 draw).nanos ≤ ({} : Backoff).max.nanos) ∧
      ¬ ∀ draw, (({} : Backoff).delay 8 draw).nanos ≤ ({} : Backoff).max.nanos := by
  have hplain : ({ jitter := false } : Backoff).Doubles := ⟨rfl,rfl,by decide,by decide⟩
  have hjitter : ({} : Backoff).Doubles := ⟨rfl,rfl,by decide,by decide⟩
  obtain ⟨-,hdelay,-⟩ := delayed_of_doubles _ hplain
  obtain ⟨-,-,hdraws⟩ := delayed_of_doubles _ hjitter
  exact ⟨hplain,hjitter,(hdelay rfl 8 1).1,(hdraws rfl 7).2.mpr (by decide),
    mt (hdraws rfl 8).2.mp (by decide)⟩

/-- Settings with exponential pacing and a cap of a minute: the fourth failure in a row may cost a minute and
a half. -/
theorem overrun_of_exponential :
    let s : Node.Settings := { pacing := .exponential, reconnectDelay := 10, reconnectMax := 60 }
    let b : Backoff := { initial := .ofSeconds 10, max := .ofSeconds 60 }
    s.policy = .backoff b ∧ b.Doubles ∧ RetryPolicy.next s.policy 4 30000 = some (.ofSeconds 90) ∧
      ¬ ∀ failures draw delay, RetryPolicy.next s.policy failures draw = some delay →
        delay.nanos ≤ b.max.nanos := by
  intro s b
  have h : b.Doubles := ⟨rfl,rfl,by decide,by decide⟩
  have hdelay : b.delay 4 30000 = .ofSeconds 90 := by
    rw [h.delay_eq]
    decide
  have hnext : RetryPolicy.next s.policy 4 30000 = some (.ofSeconds 90) := by
    rw [← hdelay]
    exact h.next_eq 4 30000
  exact ⟨rfl,h,hnext,fun hall => absurd (hall 4 30000 _ hnext) (by decide)⟩

end Backoff
end Tether
