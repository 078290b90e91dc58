import Mathlib.Data.List.Infix
import Tether.Link.Keepalive

/-! Probes that fail in a row. What a tracker shows is told by the results so far alone, and so is whether
the loop goes on: a lost connection ends it, and so does a failure that is one too many since the last
success. -/
namespace Tether

namespace ProbeResult

/-- The failures since the last success. -/
def streak (results : List ProbeResult) : Nat :=
  (results.reverse.takeWhile (· != .answered)).count .failed

@[simp] theorem streak_nil : streak [] = 0 := rfl

@[simp] theorem streak_append_answered (results : List ProbeResult) : streak (results ++ [.answered]) = 0 := by
  simp [streak]

@[simp] theorem streak_append_failed (results : List ProbeResult) :
    streak (results ++ [.failed]) = streak results + 1 := by
  simp [streak]

@[simp] theorem streak_append_lost (results : List ProbeResult) (e : LinkError) :
    streak (results ++ [.lost e]) = streak results := by
  simp [streak]

/-- Results that the loop bears: the connection was not lost, and at no time had as many failed in a row as
may not be missed. -/
structure Bearable (maxMissed : UInt32) (results : List ProbeResult) : Prop where
  kept : ∀ e, .lost e ∉ results
  streaks : ∀ front, front <+: results → streak front < maxMissed.toNat

variable {maxMissed : UInt32} {results : List ProbeResult}

theorem bearable_nil (h : 1 ≤ maxMissed.toNat) : Bearable maxMissed [] :=
  ⟨by simp,fun front hfront => List.prefix_nil.mp hfront ▸ h⟩

theorem Bearable.streak_lt (h : Bearable maxMissed results) : streak results < maxMissed.toNat :=
  h.streaks results (List.prefix_refl _)

theorem Bearable.append (h : Bearable maxMissed results) {result : ProbeResult} (hkept : ∀ e, result ≠ .lost e)
    (hstreak : streak (results ++ [result]) < maxMissed.toNat) : Bearable maxMissed (results ++ [result]) := by
  refine ⟨fun e he => ?_,fun front hfront => ?_⟩
  · rcases List.mem_append.mp he with he | he
    · exact h.kept e he
    · exact hkept e (List.mem_singleton.mp he).symm
  · rcases List.prefix_concat_iff.mp hfront with rfl | hfront
    · exact hstreak
    · exact h.streaks front hfront

end ProbeResult

open ProbeResult

namespace Tracker

/-- What a tracker shows after these results. -/
structure Shows (settings : KeepaliveSettings) (results : List ProbeResult) (t : Tracker) : Prop where
  maxMissed : t.maxMissed = settings.maxMissed
  missed : t.missed.toNat = streak results
  received : t.received = results.count .answered
  failures : t.failures = results.count .failed
  enabled : t.health ≠ .disabled
  active : t.health = .active ↔ streak results = 0
  warning : t.health = .warning ↔ 1 ≤ streak results ∧ streak results ≤ settings.maxMissed.toNat - 1
  dead : t.health = .dead ↔ streak results = settings.maxMissed.toNat

variable {settings : KeepaliveSettings} {results : List ProbeResult} {t : Tracker}

theorem shows_start (henabled : settings.enabled = true) (hmax : 1 ≤ settings.maxMissed.toNat) :
    (start settings).Shows settings [] := by
  have hne : (0 : Nat) ≠ settings.maxMissed.toNat := Nat.ne_of_lt hmax
  constructor <;> simp [start,henabled,hne]

theorem Shows.recordSent (h : t.Shows settings results) : t.recordSent.Shows settings results :=
  ⟨h.maxMissed,h.missed,h.received,h.failures,h.enabled,h.active,h.warning,h.dead⟩

theorem Shows.recordReceived (h : t.Shows settings results) (hmax : 1 ≤ settings.maxMissed.toNat) :
    t.recordReceived.Shows settings (results ++ [.answered]) := by
  have hne : (0 : Nat) ≠ settings.maxMissed.toNat := Nat.ne_of_lt hmax
  constructor <;> simp [Tracker.recordReceived,h.maxMissed,h.received,h.failures,h.enabled,hne]

theorem Shows.lost (h : t.Shows settings results) (e : LinkError) :
    t.Shows settings (results ++ [.lost e]) := by
  refine ⟨h.maxMissed,?_,?_,?_,h.enabled,?_,?_,?_⟩
  · simpa using h.missed
  · simpa using h.received
  · simpa using h.failures
  · simpa using h.active
  · simpa using h.warning
  · simpa using h.dead

theorem Shows.recordFailure (h : t.Shows settings results) (hb : Bearable settings.maxMissed results) :
    t.recordFailure.Shows settings (results ++ [.failed]) := by
  have hlt := hb.streak_lt
  have hword : settings.maxMissed.toNat < 2^32 := settings.maxMissed.toNat_lt
  have hmissed : (t.missed + 1).toNat = streak results + 1 := by
    rw [UInt32.toNat_add,h.missed]
    exact Nat.mod_eq_of_lt (by simp; omega)
  have hdead : t.maxMissed ≤ t.missed + 1 ↔ streak results + 1 = settings.maxMissed.toNat := by
    rw [UInt32.le_iff_toNat_le,h.maxMissed,hmissed]
    omega
  refine ⟨h.maxMissed,?_,?_,?_,?_,?_,?_,?_⟩ <;>
    simp only [Tracker.recordFailure,streak_append_failed,if_neg h.enabled,hdead]
  · exact hmissed
  · simpa using h.received
  · simp [h.failures]
  · split <;> simp
  · split <;> simp
  · split <;> simp <;> omega
  · split <;> simp <;> omega

theorem Shows.isDead_iff (h : t.Shows settings results) :
    t.isDead = true ↔ streak results = settings.maxMissed.toNat := by
  rw [isDead,beq_iff_eq,h.dead]

/-- What the loop makes of one more result: it goes on, or it ends with the loss of the connection or with
the failure that was one too many. -/
inductive Settles (settings : KeepaliveSettings) (results : List ProbeResult) :
    ProbeResult → Tracker × ProbeVerdict → Prop
  | goesOn (result : ProbeResult) (t : Tracker) : Bearable settings.maxMissed (results ++ [result]) →
    t.Shows settings (results ++ [result]) → Settles settings results result (t,.goOn)
  | stops (e : LinkError) (t : Tracker) : t.Shows settings (results ++ [.lost e]) →
    Settles settings results (.lost e) (t,.stop e)
  | closes (t : Tracker) : t.Shows settings (results ++ [.failed]) →
    streak (results ++ [.failed]) = settings.maxMissed.toNat →
    Settles settings results .failed (t,.closeWith (.keepaliveExhausted settings.maxMissed))

theorem Shows.settles (h : t.Shows settings results) (hb : Bearable settings.maxMissed results)
    (result : ProbeResult) : Settles settings results result (t.settle result) := by
  have hpos : 1 ≤ settings.maxMissed.toNat := Nat.lt_of_le_of_lt (Nat.zero_le _) hb.streak_lt
  cases result with
  | answered => exact .goesOn _ _ (hb.append (by simp) (by rwa [streak_append_answered])) (h.recordReceived hpos)
  | lost e => exact .stops e t (h.lost e)
  | failed =>
    have hfailed := h.recordFailure hb
    simp only [settle]
    split
    · rename_i hdead
      have hstreak := hfailed.isDead_iff.mp hdead
      have hmissed : t.recordFailure.missed = settings.maxMissed :=
        UInt32.toNat_inj.mp (hfailed.missed.trans hstreak)
      rw [hmissed]
      exact .closes _ hfailed hstreak
    · rename_i halive
      have hne := mt hfailed.isDead_iff.mpr halive
      have hlt := hb.streak_lt
      refine .goesOn _ _ (hb.append (by simp) ?_) hfailed
      rw [streak_append_failed] at hne ⊢
      omega

end Tracker
end Tether
