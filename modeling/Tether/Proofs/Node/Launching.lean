import Mathlib.Tactic.MkIffOfInductiveProp
import Tether.Cluster.Script
import Tether.Node.Launch
import Tether.Proofs.Link.Refusing

/-! Whether settings that keep the rules are safe to run with. The rules see to it that a probe may fail and
that a chunk holds something. They do not ask about the delays: a ticker stops the program if its period is
none, or if it ends beyond what the clock can show. Nor do they see, in a release build, a chunk so long that
its length wraps when room for sealing is added: the rules let it pass for a short one. -/
namespace Tether

/-! ### Clocks and tickers -/

theorem Span.seconds_add_ofSeconds (s : Span) (n : Nat) : (s.add (ofSeconds n)).seconds = s.seconds + n :=
  Nat.add_mul_div_right s.nanos n (by decide)

theorem Span.millis_ofMillis_add (ms : Nat) (s : Span) : ((ofMillis ms).add s).millis = ms + s.millis := by
  rw [add,ofMillis,millis,Nat.add_comm,Nat.add_mul_div_right _ _ (by decide),Nat.add_comm]
  rfl

theorem Span.millis_ofMillis (ms : Nat) : (ofMillis ms).millis = ms := Nat.mul_div_cancel ms (by decide)

namespace Instant

variable {now due : Instant} {s : Span}

theorem add_eq_ok_iff : now.add s = .ok due ↔ due.elapsed = now.elapsed.add s := by
  constructor
  · intro h
    unfold add at h
    split at h
    · rw [← Except.ok.inj h]
    · cases h
  · intro h
    obtain ⟨elapsed,hrange⟩ := due
    obtain rfl : elapsed = now.elapsed.add s := h
    exact dif_pos hrange

theorem add_eq_error (h : limit ≤ (now.elapsed.add s).seconds) : now.add s = .error .instantOverflow :=
  dif_neg (Nat.not_lt.mpr h)

end Instant

namespace Ticker

variable {now due : Instant} {period : Span} {t : Ticker} {n : Nat}

theorem after_of_ok (h : now.add period = .ok due) : after now period = starting due period := by
  rw [after,h]
  rfl

theorem after_of_error {panic : Panic} (h : now.add period = .error panic) :
    after now period = .error panic := by
  rw [after,h]
  rfl

theorem due_of_after (h : after now period = .ok t) : t.due.elapsed = now.elapsed.add period := by
  cases hadd : now.add period with
  | error panic =>
    rw [after_of_error hadd] at h
    cases h
  | ok due =>
    rw [after_of_ok hadd,starting] at h
    split at h
    · rw [← Except.ok.inj h]
      exact Instant.add_eq_ok_iff.mp hadd
    · cases h

theorem millis_due {ms : Nat} (h : after now period = .ok t) (hnow : now.elapsed = .ofMillis ms) :
    t.due.elapsed.millis = ms + period.millis := by
  rw [due_of_after h,hnow,Span.millis_ofMillis_add]

/-- What comes of a ticker whose period is so many whole seconds. -/
structure Begins (now : Instant) (seconds : Nat) (result : Except Panic Ticker) : Prop where
  overflow : Instant.limit ≤ now.elapsed.seconds + seconds → result = .error .instantOverflow
  zero : seconds = 0 → result = .error .periodZero
  runs : seconds ≠ 0 → now.elapsed.seconds + seconds < Instant.limit → ∃ t, result = .ok t ∧
    t.period = .ofSeconds seconds ∧ t.due.elapsed = now.elapsed.add t.period

theorem begins_after (now : Instant) (seconds : Nat) : Begins now seconds (after now (.ofSeconds seconds)) := by
  have hsum := Span.seconds_add_ofSeconds now.elapsed seconds
  refine ⟨fun h => after_of_error (Instant.add_eq_error (hsum ▸ h)),?_,fun hzero h => ?_⟩
  · rintro rfl
    have hsame : now.add (.ofSeconds 0) = .ok now :=
      Instant.add_eq_ok_iff.mpr (by simp [Span.add,Span.ofSeconds])
    exact after_of_ok hsame
  · have hpositive : 0 < (Span.ofSeconds seconds).nanos :=
      Nat.mul_pos (Nat.pos_of_ne_zero hzero) (by decide)
    let due : Instant := ⟨now.elapsed.add (.ofSeconds seconds),hsum ▸ h⟩
    have hdue : now.add (.ofSeconds seconds) = .ok due := Instant.add_eq_ok_iff.mpr rfl
    exact ⟨⟨due,_,hpositive⟩,(after_of_ok hdue).trans (dif_pos hpositive),rfl,rfl⟩

theorem Begins.ok_iff {result : Except Panic Ticker} (h : Begins now n result) :
    (∃ t, result = .ok t) ↔ n ≠ 0 ∧ now.elapsed.seconds + n < Instant.limit := by
  constructor
  · rintro ⟨t,ht⟩
    refine ⟨fun h0 => ?_,Nat.lt_of_not_le fun hge => ?_⟩
    · rw [h.zero h0] at ht
      cases ht
    · rw [h.overflow hge] at ht
      cases ht
  · rintro ⟨hzero,hlt⟩
    obtain ⟨t,ht,-⟩ := h.runs hzero hlt
    exact ⟨t,ht⟩

end Ticker

theorem KeepaliveSettings.ticker_eq_some {k : KeepaliveSettings} {now : Instant} {t : Ticker}
    (h : k.ticker now = .ok (some t)) : k.enabled = true ∧ Ticker.after now k.interval = .ok t := by
  unfold ticker at h
  split at h
  · rename_i henabled
    cases hafter : Ticker.after now k.interval with
    | error panic =>
      rw [hafter] at h
      cases h
    | ok t' =>
      rw [hafter] at h
      cases h
      exact ⟨henabled,rfl⟩
  · cases h

/-! ### The loops that tick -/

namespace Cluster

variable {now : Instant} {t : Ticker}

theorem Probing.run_of_ticker {w : World} {p : Probing} (hp : p.stage = .unstarted)
    (hnow : now.elapsed = .ofMillis w.now) (ht : p.settings.ticker now = .ok (some t)) :
    p.run w = p.rest w t.due.elapsed.millis := by
  obtain ⟨henabled,hafter⟩ := KeepaliveSettings.ticker_eq_some ht
  rw [run,hp,Ticker.millis_due hafter hnow]
  exact if_pos henabled

theorem master_of_ticker {c : Cluster} {spec : MasterSpec} (hlistens : spec.listens = true)
    (hnow : now.elapsed = .ofMillis c.world.now) (ht : Ticker.after now (.ofMillis spec.interval) = .ok t) :
    ∃ world, master c spec =
      Cluster.add { c with world } (.admitting "server" { nextCheck := t.due.elapsed.millis }) := by
  have hdue : t.due.elapsed.millis = c.world.now + spec.interval := by
    rw [Ticker.millis_due ht hnow,Span.millis_ofMillis]
  rw [hdue,master]
  simp only [hlistens,if_true]
  exact ⟨_,rfl⟩

end Cluster

/-! ### Room for a file -/

namespace Upload

variable {limits : Limits} {path name : String}

theorem size_le_of_nameOf (h : nameOf path = .ok name) : name.utf8ByteSize ≤ FileBody.nameMax := by
  unfold nameOf at h
  split at h
  · cases h
  · dsimp only at h
    split at h
    · cases h
    · rename_i hsize
      obtain rfl := Except.ok.inj h
      exact Nat.le_of_not_lt hsize

theorem toNat_room (h : limits.chunkSize.toNat + name.utf8ByteSize + 2 < 2^64) :
    (room limits name).toNat = limits.chunkSize.toNat + name.utf8ByteSize + 2 := by
  have hsize : name.utf8ByteSize < 2^64 := by omega
  have hchunk : limits.chunkSize.toNat + name.utf8ByteSize < 2^64 := by omega
  rw [room,UInt64.toNat_add,UInt64.toNat_add,UInt64.toNat_ofNat',Nat.mod_eq_of_lt hsize,
    Nat.mod_eq_of_lt hchunk]
  exact Nat.mod_eq_of_lt h

/-- What comes of the room for a file of this name: it is there unless the length of a chunk wraps when it is
sealed, and then either the sum of the lengths wraps too or there is no such room. -/
structure Reserves (limits : Limits) (name : String) : Prop where
  fits : limits.chunkSize.toNat + Cipher.overhead < 2^64 →
    limits.chunkSize.toNat + name.utf8ByteSize + 2 < 2^64 ∧ ∃ room, reserve limits name = .ok room ∧
      room.toNat = limits.chunkSize.toNat + name.utf8ByteSize + 2
  wraps : 2^64 ≤ limits.chunkSize.toNat + Cipher.overhead →
    limits.chunkSize.toNat + name.utf8ByteSize + 2 < 2^64 → reserve limits name = .error .capacityOverflow

theorem reserves_of_passed (h : limits.Passed) (hframe : limits.framePayload.toNat < 2^32)
    (hname : name.utf8ByteSize ≤ FileBody.nameMax) : Reserves limits name := by
  have hover : Cipher.overhead = 28 := rfl
  have hmax : FileBody.nameMax = 65535 := rfl
  refine ⟨fun hfits => ?_,fun hwraps hsum => ?_⟩
  · have hroom := h.room hfits
    have hsum : limits.chunkSize.toNat + name.utf8ByteSize + 2 < 2^64 := by omega
    refine ⟨hsum,_,if_neg ?_,toNat_room hsum⟩
    rw [toNat_room hsum,roomMax]
    omega
  · refine if_pos ?_
    rw [toNat_room hsum,roomMax]
    omega

end Upload

/-! ### The rules -/

namespace Node

variable {files : FileView} {s : Settings} {workload : Workload} {w : WorkerSetup} {m : MasterSetup}

/-- Settings that keep every rule. -/
@[mk_iff]
structure Settings.Kept (s : Settings) : Prop where
  named : (Blank.trim s.name).isEmpty = false
  led : ¬(s.role = .worker ∧ s.masters = [])
  keyed : ∃ c, s.cipher = .ok c
  limited : s.limits.validate = .ok ()
  probed : s.keepaliveMaxMissed ≠ 0

theorem Settings.validate_eq_ok_iff : s.validate = .ok () ↔ s.Kept := by
  rw [kept_iff]
  unfold validate
  by_cases hn : (Blank.trim s.name).isEmpty
  · simp [hn,bind,Except.bind]
  by_cases hl : s.role = .worker ∧ s.masters = []
  · simp [hn,hl.1,hl.2,bind,Except.bind]
  cases hc : s.cipher with
  | error r => simp [hn,hl,bind,Except.bind]
  | ok c =>
    cases hv : s.limits.validate with
    | error fault => simp [hn,hl,bind,Except.bind,Except.mapError]
    | ok u =>
      by_cases hp : s.keepaliveMaxMissed = 0
      · simp [hn,hl,hp,bind,Except.bind,Except.mapError]
      · simp [hn,hl,hp,bind,Except.bind,Except.mapError,pure,Except.pure]

theorem Settings.framePayload_lt (s : Settings) : s.limits.framePayload.toNat < 2^32 := by
  change (4194304 : UInt64).toNat < 2^32
  decide

theorem WorkerSetup.of_eq_ok (h : WorkerSetup.of files s workload = .ok w) :
    w.keepalive = s.keepalive ∧ w.limits = s.limits := by
  unfold WorkerSetup.of at h
  simp only [bind,Except.bind] at h
  split at h
  · cases h
  · split at h
    · cases h
    · split at h
      · cases h
      · cases h
        exact ⟨rfl,rfl⟩

theorem MasterSetup.of_eq_ok (h : MasterSetup.of files s = .ok m) :
    m.checkInterval = .ofSeconds s.checkInterval.toNat ∧ m.limits = s.limits := by
  unfold MasterSetup.of at h
  simp only [bind,Except.bind] at h
  split at h
  · cases h
  · split at h
    · cases h
    · cases h
      exact ⟨rfl,rfl⟩

/-- Settings that keep the rules let a probe fail and put something into each chunk. For the rest they are safe
up to three things that the rules do not ask: the ticker of the probes on a worker's link, and that of a
master's checks, runs just if its period is not zero and ends on the clock; and the room for a file is there
just if a chunk with what sealing adds is no longer than a word. -/
theorem launched_of_validate (files : FileView) (s : Settings) : s.validate = .ok () →
    (∀ workload w, WorkerSetup.of files s workload = .ok w → w.limits = s.limits ∧
      1 ≤ w.keepalive.maxMissed.toNat ∧ ∀ now, ∃ result, w.keepalive.ticker now = result.map some ∧
        Ticker.Begins now s.keepaliveInterval.toNat result) ∧
    (∀ m, MasterSetup.of files s = .ok m → m.limits = s.limits ∧
      ∀ now, Ticker.Begins now s.checkInterval.toNat (m.ticker now)) ∧
    1 ≤ s.limits.chunkSize.toNat ∧
    ∀ path name, Upload.nameOf path = .ok name → Upload.Reserves s.limits name := by
  intro h
  have hkept := Settings.validate_eq_ok_iff.mp h
  have hpassed := Limits.passed_of_validate hkept.limited
  refine ⟨fun workload w hw => ?_,fun m hm => ?_,hpassed.chunk,fun path name hname => ?_⟩
  · obtain ⟨hkeepalive,hlimits⟩ := WorkerSetup.of_eq_ok hw
    rw [hkeepalive]
    refine ⟨hlimits,?_,fun now => ⟨_,rfl,Ticker.begins_after now _⟩⟩
    exact Nat.one_le_iff_ne_zero.mpr fun h0 => hkept.probed (UInt32.toNat_inj.mp h0)
  · obtain ⟨hinterval,hlimits⟩ := MasterSetup.of_eq_ok hm
    refine ⟨hlimits,fun now => ?_⟩
    rw [MasterSetup.ticker,hinterval]
    exact Ticker.begins_after now _
  · exact Upload.reserves_of_passed hpassed s.framePayload_lt (Upload.size_le_of_nameOf hname)

/-- Left at their defaults, the probes of a worker tick for the first time after half a minute. -/
theorem launched_of_validate_default :
    let files : FileView := fun _ => .error .notFound
    let s : Settings := {}
    s.validate = .ok () ∧ ∃ w t, WorkerSetup.of files s .idle = .ok w ∧
      w.keepalive.ticker .zero = .ok (some t) ∧ t.due.elapsed = .ofSeconds 29 := by
  intro files s
  have hs : s.validate = .ok () := by decide +kernel
  obtain ⟨hworker,-⟩ := launched_of_validate files s hs
  obtain ⟨-,-,hticker⟩ := hworker .idle _ rfl
  obtain ⟨result,hresult,hbegins⟩ := hticker .zero
  obtain ⟨t,rfl,hperiod,hdue⟩ := hbegins.runs (by decide) (by decide)
  refine ⟨hs,_,t,rfl,hresult,?_⟩
  rw [hdue,hperiod]
  exact congrArg Span.mk (Nat.zero_add _)

/-- Settings that keep the rules, each but for one field the default, and a worker, a master or an upload that
they stop. A build that checks for overflow does not get beyond checking the last, and lets in the others. -/
theorem stopped_of_validate :
    let files : FileView := fun _ => .error .notFound
    let restless : Settings := { keepaliveInterval := 0 }
    let silent : Settings := { keepaliveInterval := 18446744073709551615 }
    let alert : Settings := { checkInterval := 0 }
    let blind : Settings := { checkInterval := 18446744073709551615 }
    let long : Settings := { chunkSize := 18446744073709551588 }
    (∀ s ∈ [restless,silent,alert,blind], s.validate = .ok () ∧
      s.limits.validateIn Checked = .ok (.ok ())) ∧
    (∃ w, WorkerSetup.of files restless .idle = .ok w ∧
      ∀ now, w.keepalive.ticker now = .error .periodZero) ∧
    (∃ w, WorkerSetup.of files silent .idle = .ok w ∧
      ∀ now, w.keepalive.ticker now = .error .instantOverflow) ∧
    (∃ m, MasterSetup.of files alert = .ok m ∧ ∀ now, m.ticker now = .error .periodZero) ∧
    (∃ m, MasterSetup.of files blind = .ok m ∧ ∀ now, m.ticker now = .error .instantOverflow) ∧
    long.validate = .ok () ∧ long.limits.validateIn Checked = .error .overflow ∧
      Upload.reserve long.limits "notes.txt" = .error .capacityOverflow ∧
      2^64 ≤ long.limits.chunkSize.toNat + "notes-on-tickers-and-clocks.txt".utf8ByteSize + 2 := by
  intro files restless silent alert blind long
  have hlimit : Instant.limit ≤ 18446744073709551615 := by decide
  have hoverflow (now : Instant) : Ticker.after now (.ofSeconds 18446744073709551615) = .error .instantOverflow :=
    (Ticker.begins_after now _).overflow (Nat.le_add_left_of_le hlimit)
  have hzero (now : Instant) : Ticker.after now (.ofSeconds 0) = .error .periodZero :=
    (Ticker.begins_after now 0).zero rfl
  refine ⟨by decide +kernel,⟨_,rfl,fun now => ?_⟩,⟨_,rfl,fun now => ?_⟩,⟨_,rfl,hzero⟩,⟨_,rfl,hoverflow⟩,
    by decide +kernel,by decide +kernel,by decide +kernel,by decide +kernel⟩
  · exact congrArg (Except.map some) (hzero now)
  · exact congrArg (Except.map some) (hoverflow now)

end Node
end Tether
