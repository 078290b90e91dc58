import Tether.Proofs.Worker.Attempts

/-! The course of a worker's run: its attempts one after the other, what its policy is asked, what is
counted and what others are told. The policy may answer the same number differently from one question to
the next, and the sign to stop may be given, and seen, between any two steps. -/
namespace Tether

/-- A session that has begun: the report it has made, and whether its workload goes on. -/
structure Opened where
  peer : String
  report : Option Report := none
  working : Bool := true

structure Course where
  loop : WorkerLoop
  opened : Option Opened := none
  traffic : Traffic
  outputs : List WorkerOutput := []
  attempts : List Attempt := []
  /-- The numbers that the policy has been asked with. -/
  asked : List UInt32 := []

namespace Course

inductive Act
  | tell (input : WorkerInput)
  /-- The workload ends without a report. -/
  | rest
  | cancel
  | release
  | notice
  /-- Something is counted that the loop does not count. -/
  | count (event : TrafficEvent)

/-- The loop begins, with the sign to stop already given or not. -/
def start (stopping : Bool) (traffic : Traffic) : Course :=
  { loop := ({ stopping } : WorkerLoop).begin.1, outputs := ({ stopping } : WorkerLoop).begin.2, traffic }

def plan (policy : Nat → UInt32 → Option Span) (limit : Span) (c : Course) : WorkerPlan :=
  { policy := policy c.asked.length, greetingLimit := limit }

def openedBy (c : Course) (input : WorkerInput) : Option Opened :=
  match input,c.loop.stage with
  | .greeted peer,.greeting _ => some { peer }
  | .sessionEnded _,.session _ => none
  | .reported report,.session _ => c.opened.map ({ · with report := some report, working := false })
  | _,_ => c.opened

/-- The attempt that is over when the loop takes an input. -/
def attempt? (plan : WorkerPlan) (c : Course) (input : WorkerInput) : Option Attempt :=
  match c.loop.failure? plan input with
  | some e => some (.failed e)
  | none => match input,c.loop.stage with
    | .sessionEnded reason,.session _ =>
      c.opened.map fun o => .session o.peer o.report reason c.loop.stopping
    | _,_ => none

def take (plan : WorkerPlan) (c : Course) (input : WorkerInput) : Course :=
  { loop := (c.loop.step plan input).1
    opened := c.openedBy input
    traffic := c.traffic.countAll ((c.loop.step plan input).2.filterMap WorkerOutput.traffic?)
    outputs := c.outputs ++ (c.loop.step plan input).2
    attempts := c.attempts ++ (c.attempt? plan input).toList
    asked := c.asked ++ (c.loop.question? plan input).toList }

/-- A report comes from a workload that goes on. -/
def heeds (c : Course) : WorkerInput → Bool
  | .reported _ => c.opened.any Opened.working
  | _ => true

def step (policy : Nat → UInt32 → Option Span) (limit : Span) (c : Course) : Act → Course
  | .tell input => if c.heeds input then c.take (c.plan policy limit) input else c
  | .rest => { c with opened := c.opened.map ({ · with working := false }) }
  | .cancel => { c with loop := c.loop.cancel }
  | .release => { c with loop := c.loop.takeCurrent }
  | .notice => if c.loop.stopping then { c with loop := c.loop.notice } else c
  | .count event => if event = .reconnect then c else { c with traffic := c.traffic.count event }

def run (policy : Nat → UInt32 → Option Span) (limit : Span) (c : Course) (acts : List Act) : Course :=
  acts.foldl (step policy limit) c

@[simp] theorem run_nil (policy : Nat → UInt32 → Option Span) (limit : Span) (c : Course) :
    c.run policy limit [] = c := rfl

@[simp] theorem run_cons (policy : Nat → UInt32 → Option Span) (limit : Span) (c : Course) (a : Act)
    (acts : List Act) : c.run policy limit (a :: acts) = (c.step policy limit a).run policy limit acts := rfl

/-! ### How the loop stands -/

/-- Each of these attempts was asked about, and the policy let another one follow. -/
def Passed (policy : Nat → UInt32 → Option Span) (attempts : List Attempt) : Prop :=
  ∀ earlier a, earlier ++ [a] <+: attempts → a.asks = true ∧
    policy (Attempt.questions earlier).length (saturated (Attempt.streak (earlier ++ [a]))) ≠ none

theorem passed_nil (policy : Nat → UInt32 → Option Span) : Passed policy [] := by
  intro earlier a h
  simp at h

variable {policy : Nat → UInt32 → Option Span} {limit : Span} {c : Course}

theorem Passed.concat {attempts : List Attempt} {a : Attempt} (h : Passed policy attempts)
    (hasks : a.asks = true)
    (hanswer : policy (Attempt.questions attempts).length
      (saturated (Attempt.streak (attempts ++ [a]))) ≠ none) : Passed policy (attempts ++ [a]) := by
  intro earlier b hpart
  rcases List.prefix_concat_iff.mp hpart with heq | hold
  · obtain ⟨rfl,hb⟩ := List.append_inj' heq rfl
    obtain rfl := List.singleton_inj.mp hb
    exact ⟨hasks,hanswer⟩
  · exact h earlier b hold

/-- The last attempt is the last one for good: nobody could tell it from the end of the run. -/
def GivenUp (policy : Nat → UInt32 → Option Span) (attempts : List Attempt) (e : LinkError) : Prop :=
  ∃ earlier last, attempts = earlier ++ [last] ∧ last.error? = some e ∧ (e.isTransport = true →
    policy (Attempt.questions earlier).length (saturated (Attempt.streak attempts)) = none)

theorem Passed.not_givenUp {attempts : List Attempt} (h : Passed policy attempts) (e : LinkError) :
    ¬GivenUp policy attempts e := by
  rintro ⟨earlier,last,rfl,herror,hanswer⟩
  obtain ⟨hasks,hsome⟩ := h earlier last (List.prefix_refl _)
  refine hsome (hanswer ?_)
  simpa [Attempt.asks,herror] using hasks

/-- How the loop stands after its attempts. -/
inductive Standing (policy : Nat → UInt32 → Option Span) (c : Course) : Prop
  | running (hrunning : ∀ result, c.loop.stage ≠ .stopped result)
      (hfailures : c.loop.failures = if c.opened.isSome then 0 else saturated (Attempt.streak c.attempts))
      (hpassed : Passed policy c.attempts)
  | finished (hstage : c.loop.stage = .stopped (.ok ())) (hstopping : c.loop.stopping = true)
      (earlier : List Attempt) (hpassed : Passed policy earlier)
      (hlast : c.attempts = earlier ∨ ∃ a, c.attempts = earlier ++ [a] ∧ a.error? = none)
  | givenUp (e : LinkError) (hstage : c.loop.stage = .stopped (.error e))
      (hpassed : Passed policy c.attempts.dropLast) (hgiven : GivenUp policy c.attempts e)

theorem Passed.of_prefix {attempts all : List Attempt} (h : Passed policy all) (hpart : attempts <+: all) :
    Passed policy attempts :=
  fun earlier a hearlier => h earlier a (hearlier.trans hpart)

theorem GivenUp.error_eq {attempts earlier : List Attempt} {a : Attempt} {e : LinkError}
    (h : GivenUp policy attempts e) (hattempts : attempts = earlier ++ [a]) : a.error? = some e := by
  obtain ⟨earlier',last,hlast,herror,-⟩ := h
  obtain ⟨-,hsame⟩ := List.append_inj' (hattempts.symm.trans hlast) rfl
  rw [List.singleton_inj.mp hsame]
  exact herror

theorem Standing.error_iff (h : Standing policy c) (e : LinkError) :
    c.loop.stage = .stopped (.error e) ↔ GivenUp policy c.attempts e := by
  cases h with
  | running hrunning _ hpassed => exact iff_of_false (hrunning _) (hpassed.not_givenUp e)
  | finished hstage _ earlier hpassed hlast =>
    refine iff_of_false (by simp [hstage]) ?_
    rcases hlast with hsame | ⟨a,ha,hnone⟩
    · rw [hsame]
      exact hpassed.not_givenUp e
    · intro hgiven
      have herror := hgiven.error_eq ha
      rw [hnone] at herror
      cases herror
  | givenUp f hstage _ hgiven =>
    constructor
    · intro heq
      obtain rfl : f = e := by simpa using hstage.symm.trans heq
      exact hgiven
    · intro he
      obtain ⟨earlier,last,hlast,-,-⟩ := id hgiven
      obtain rfl : f = e := by simpa using (hgiven.error_eq hlast).symm.trans (he.error_eq hlast)
      exact hstage

theorem Standing.passed_dropLast (h : Standing policy c) : Passed policy c.attempts.dropLast := by
  cases h with
  | running _ _ hpassed => exact hpassed.of_prefix (List.dropLast_prefix _)
  | finished _ _ earlier hpassed hlast =>
    rcases hlast with hsame | ⟨a,ha,-⟩
    · rw [hsame]
      exact hpassed.of_prefix (List.dropLast_prefix _)
    · rw [ha,List.dropLast_concat]
      exact hpassed
  | givenUp e _ hpassed _ => exact hpassed

/-- After an attempt that another one may follow, the policy's answer decides how the loop stands. -/
theorem standing_of_consult {c' : Course} {w : WorkerLoop} {a : Attempt} {e : LinkError}
    (hpassed : Passed policy c.attempts) (hattempts : c'.attempts = c.attempts ++ [a])
    (herror : a.error? = some e) (htransport : e.isTransport = true)
    (hnumber : c.asked.length = (Attempt.questions c.attempts).length)
    (hfailures : w.failures = saturated (Attempt.streak (c.attempts ++ [a])))
    (hopened : c'.opened = none) (hloop : c'.loop = (w.consult (c.plan policy limit) e).1) :
    Standing policy c' := by
  have hasks : a.asks = true := by simp [Attempt.asks,herror,htransport]
  have hpolicy : (c.plan policy limit).policy w.failures =
      policy (Attempt.questions c.attempts).length (saturated (Attempt.streak (c.attempts ++ [a]))) := by
    rw [plan,hnumber,hfailures]
  rw [WorkerLoop.consult,hpolicy] at hloop
  cases hanswer : policy (Attempt.questions c.attempts).length
      (saturated (Attempt.streak (c.attempts ++ [a]))) with
  | none =>
    rw [hanswer] at hloop
    refine .givenUp e (by rw [hloop]; rfl) ?_ ⟨c.attempts,a,hattempts,herror,fun _ => ?_⟩
    · rw [hattempts,List.dropLast_concat]
      exact hpassed
    · rw [hattempts,hanswer]
  | some delay =>
    rw [hanswer] at hloop
    refine .running (by simp [hloop]) ?_ ?_
    · rw [hloop,hopened,hattempts]
      exact hfailures
    · rw [hattempts]
      exact hpassed.concat hasks (by simp [hanswer])

/-! ### What is asked, counted and told -/

structure Ledger (policy : Nat → UInt32 → Option Span) (before : UInt64) (c : Course) : Prop where
  asked : c.asked = (Attempt.questions c.attempts).map saturated
  waited : c.outputs.filterMap WorkerOutput.delay? = granted policy c.asked
  told : c.outputs.filterMap WorkerOutput.event? = c.attempts.flatMap Attempt.events ++
    c.opened.toList.flatMap fun o => Attempt.sessionEvents o.peer o.report
  counted : c.traffic.reconnects = before + .ofNat (c.attempts.countP Attempt.isLost)
  opened : c.opened.isSome = true ↔ ∃ link, c.loop.stage = .session link
  unreported : ∀ o, c.opened = some o → o.working = true → o.report = none

variable {before : UInt64}

theorem countAll_nil (t : Traffic) : t.countAll [] = t := rfl

theorem countAll_reconnect (t : Traffic) :
    (t.countAll [.reconnect]).reconnects = t.reconnects + 1 := rfl

theorem Ledger.length_asked (h : Ledger policy before c) :
    c.asked.length = (Attempt.questions c.attempts).length := by
  rw [h.asked,List.length_map]

theorem Ledger.opened_eq_none (h : Ledger policy before c)
    (hsession : ∀ link, c.loop.stage ≠ .session link) : c.opened = none := by
  refine Option.eq_none_iff_forall_ne_some.mpr fun o ho => ?_
  obtain ⟨link,hlink⟩ := h.opened.mp (by simp [ho])
  exact hsession link hlink

theorem openedBy_of_failure {plan : WorkerPlan} {input : WorkerInput} {e : LinkError}
    (h : c.loop.failure? plan input = some e) : c.openedBy input = c.opened := by
  cases input <;> first | rfl | simp [WorkerLoop.failure?] at h

theorem Standing.failures (h : Standing policy c) (hrunning : ∀ result, c.loop.stage ≠ .stopped result) :
    c.loop.failures = if c.opened.isSome then 0 else saturated (Attempt.streak c.attempts) := by
  cases h with
  | running _ hfailures _ => exact hfailures
  | finished hstage => exact absurd hstage (hrunning _)
  | givenUp e hstage => exact absurd hstage (hrunning _)

theorem Standing.passed (h : Standing policy c) (hrunning : ∀ result, c.loop.stage ≠ .stopped result) :
    Passed policy c.attempts := by
  cases h with
  | running _ _ hpassed => exact hpassed
  | finished hstage => exact absurd hstage (hrunning _)
  | givenUp e hstage => exact absurd hstage (hrunning _)

/-- An attempt is over: what is asked, waited for, told and counted at its end. -/
structure Concludes (policy : Nat → UInt32 → Option Span) (c c' : Course) (a : Attempt) : Prop where
  attempts : c'.attempts = c.attempts ++ [a]
  asked : c'.asked = c.asked ++
    if a.asks then [saturated (Attempt.streak (c.attempts ++ [a]))] else []
  waited : c'.outputs.filterMap WorkerOutput.delay? = c.outputs.filterMap WorkerOutput.delay? ++
    if a.asks then (policy c.asked.length (saturated (Attempt.streak (c.attempts ++ [a])))).toList else []
  told : ∃ last, c'.outputs.filterMap WorkerOutput.event? =
      c.outputs.filterMap WorkerOutput.event? ++ last ∧
    a.events = (c.opened.toList.flatMap fun o => Attempt.sessionEvents o.peer o.report) ++ last
  counted : c'.traffic.reconnects = c.traffic.reconnects + if a.isLost then 1 else 0
  opened : c'.opened = none
  session : ∀ link, c'.loop.stage ≠ .session link

theorem Ledger.conclude {c' : Course} {a : Attempt} (h : Ledger policy before c)
    (hend : Concludes policy c c' a) : Ledger policy before c' := by
  constructor
  · rw [hend.asked,hend.attempts,Attempt.questions_append,h.asked]
    split <;> simp
  · rw [hend.waited,hend.asked,h.waited]
    split
    · rw [granted_append]
    · simp
  · obtain ⟨last,hlast,hevents⟩ := hend.told
    rw [hlast,h.told,hend.attempts,hend.opened,List.flatMap_append,List.append_assoc,← hevents]
    simp
  · rw [hend.counted,h.counted,hend.attempts,List.countP_append,UInt64.ofNat_add,UInt64.add_assoc]
    cases hlost : a.isLost <;> simp [hlost]
  · simp [hend.opened,hend.session]
  · simp [hend.opened]

def openEvents (c : Course) : List WorkerEvent :=
  c.opened.toList.flatMap fun o => Attempt.sessionEvents o.peer o.report

/-- No attempt is over, and the policy is not asked. -/
structure Continues (c c' : Course) : Prop where
  attempts : c'.attempts = c.attempts
  asked : c'.asked = c.asked
  waited : c'.outputs.filterMap WorkerOutput.delay? = c.outputs.filterMap WorkerOutput.delay?
  told : ∃ new, c'.outputs.filterMap WorkerOutput.event? =
    c.outputs.filterMap WorkerOutput.event? ++ new ∧ c'.openEvents = c.openEvents ++ new
  counted : c'.traffic.reconnects = c.traffic.reconnects
  opened : c'.opened.isSome = true ↔ ∃ link, c'.loop.stage = .session link
  unreported : ∀ o, c'.opened = some o → o.working = true → o.report = none

theorem Ledger.continue {c' : Course} (h : Ledger policy before c) (hgoes : Continues c c') :
    Ledger policy before c' := by
  refine ⟨?_,?_,?_,?_,hgoes.opened,hgoes.unreported⟩
  · rw [hgoes.asked,hgoes.attempts,h.asked]
  · rw [hgoes.waited,hgoes.asked,h.waited]
  · obtain ⟨new,hnew,hopen⟩ := hgoes.told
    rw [hnew,h.told,hgoes.attempts,List.append_assoc]
    exact congrArg _ hopen.symm
  · rw [hgoes.counted,hgoes.attempts,h.counted]

structure Disciplined (policy : Nat → UInt32 → Option Span) (before : UInt64) (c : Course) : Prop
    extends Ledger policy before c where
  standing : Standing policy c

/-! ### Taking an input -/

theorem filterMap_outputs_take {α : Type} (plan : WorkerPlan) (c : Course) (input : WorkerInput)
    (f : WorkerOutput → Option α) : (c.take plan input).outputs.filterMap f =
      c.outputs.filterMap f ++ (c.loop.step plan input).2.filterMap f :=
  List.filterMap_append

theorem traffic_take {plan : WorkerPlan} {input : WorkerInput} {out : List WorkerOutput}
    (hout : (c.loop.step plan input).2 = out) (h : out.filterMap WorkerOutput.traffic? = []) :
    (c.take plan input).traffic = c.traffic := by
  rw [take,hout,h]
  rfl

theorem close_outputs {α : Type} (f : WorkerOutput → Option α) (hf : ∀ k reason, f (.close k reason) = none)
    (closes : List (Nat × String)) (out : List WorkerOutput) :
    (closes.map (fun c => WorkerOutput.close c.1 c.2) ++ out).filterMap f = out.filterMap f := by
  induction closes with
  | nil => rfl
  | cons c closes ih =>
    rw [List.map_cons,List.cons_append,List.filterMap_cons_none (hf _ _),ih]

theorem Disciplined.take_failed {input : WorkerInput} {e : LinkError} (h : Disciplined policy before c)
    (closes : List (Nat × String))
    (hfailure : c.loop.failure? (c.plan policy limit) input = some e)
    (hrunning : ∀ result, c.loop.stage ≠ .stopped result) (hsession : ∀ link, c.loop.stage ≠ .session link)
    (hstep : c.loop.step (c.plan policy limit) input =
      ((c.loop.fail (c.plan policy limit) e).1,closes.map (fun c => .close c.1 c.2) ++
        (c.loop.fail (c.plan policy limit) e).2)) :
    Disciplined policy before (c.take (c.plan policy limit) input) := by
  have hnone : c.opened = none := h.opened_eq_none hsession
  have hfailures : WorkerLoop.bump c.loop.failures =
      saturated (Attempt.streak (c.attempts ++ [.failed e])) := by
    have hfailures := h.standing.failures hrunning
    rw [hnone] at hfailures
    simp [hfailures,bump_saturated]
  have hout {α : Type} (f : WorkerOutput → Option α) (hf : ∀ k reason, f (.close k reason) = none) :
      (c.take (c.plan policy limit) input).outputs.filterMap f = c.outputs.filterMap f ++
        (c.loop.fail (c.plan policy limit) e).2.filterMap f := by
    rw [filterMap_outputs_take,hstep,close_outputs f hf]
  have htraffic : (c.loop.step (c.plan policy limit) input).2.filterMap WorkerOutput.traffic? = [] := by
    rw [hstep,close_outputs _ fun _ _ => rfl,WorkerLoop.fail_traffic]
  have hattempts : (c.take (c.plan policy limit) input).attempts = c.attempts ++ [.failed e] := by
    simp [take,attempt?,hfailure]
  have hopened : (c.take (c.plan policy limit) input).opened = none :=
    (openedBy_of_failure hfailure).trans hnone
  have hloop : (c.take (c.plan policy limit) input).loop = (c.loop.fail (c.plan policy limit) e).1 := by
    rw [take,hstep]
  have hend : Concludes policy c (c.take (c.plan policy limit) input) (.failed e) := by
    refine ⟨hattempts,?_,?_,⟨(Attempt.failed e).events,?_,by simp [hnone]⟩,?_,hopened,fun link hlink => ?_⟩
    · have hasks : (Attempt.failed e).asks = e.isTransport := rfl
      simp only [take,WorkerLoop.question?,hfailure,hfailures,hasks]
      split <;> rfl
    · rw [hout _ fun _ _ => rfl,WorkerLoop.fail_delay,hfailures]
      rfl
    · rw [hout _ fun _ _ => rfl,WorkerLoop.fail_event]
    · simp [take,htraffic,countAll_nil,Attempt.isLost]
    · have hapart := (WorkerLoop.apart_fail (c.plan policy limit) c.loop e).stage
      rw [← hloop,hlink] at hapart
      cases hapart
  refine ⟨h.toLedger.conclude hend,?_⟩
  cases htransport : e.isTransport with
  | true =>
    rw [c.loop.fail_of_transport (c.plan policy limit) htransport] at hloop
    exact standing_of_consult (h.standing.passed hrunning) hattempts rfl htransport h.length_asked
      hfailures hopened hloop
  | false =>
    rw [c.loop.fail_of_not_transport (c.plan policy limit) htransport] at hloop
    refine .givenUp e (by rw [hloop]; rfl) ?_ ⟨c.attempts,.failed e,hattempts,rfl,by simp [htransport]⟩
    rw [hattempts,List.dropLast_concat]
    exact h.standing.passed hrunning

theorem Disciplined.take_ended {link : Nat} {reason : String} (h : Disciplined policy before c)
    (hstage : c.loop.stage = .session link) :
    Disciplined policy before (c.take (c.plan policy limit) (.sessionEnded reason)) := by
  have hrunning : ∀ result, c.loop.stage ≠ .stopped result := by simp [hstage]
  obtain ⟨o,ho⟩ := Option.isSome_iff_exists.mp (h.opened.mpr ⟨link,hstage⟩)
  obtain ⟨a,ha⟩ : ∃ a, a = Attempt.session o.peer o.report reason c.loop.stopping := ⟨_,rfl⟩
  have hfailures : c.loop.failures = saturated (Attempt.streak (c.attempts ++ [a])) := by
    have hfailures := h.standing.failures hrunning
    rw [ho] at hfailures
    rw [ha,hfailures,Attempt.streak_session]
    rfl
  have hasks : a.asks = !c.loop.stopping := by
    subst ha
    cases hstopping : c.loop.stopping <;> simp [Attempt.asks,Attempt.error?,LinkError.isTransport]
  have hstep : c.loop.step (c.plan policy limit) (.sessionEnded reason) =
      c.loop.endSession (c.plan policy limit) reason := by
    simp only [WorkerLoop.step,hstage]
  have hout {α : Type} (f : WorkerOutput → Option α) :
      (c.take (c.plan policy limit) (.sessionEnded reason)).outputs.filterMap f =
        c.outputs.filterMap f ++ (c.loop.endSession (c.plan policy limit) reason).2.filterMap f := by
    rw [filterMap_outputs_take,hstep]
  have hattempts : (c.take (c.plan policy limit) (.sessionEnded reason)).attempts = c.attempts ++ [a] := by
    simp [take,attempt?,WorkerLoop.failure?,hstage,ho,ha]
  have hopened : (c.take (c.plan policy limit) (.sessionEnded reason)).opened = none := by
    simp [take,openedBy,hstage]
  have hloop : (c.take (c.plan policy limit) (.sessionEnded reason)).loop =
      (c.loop.endSession (c.plan policy limit) reason).1 := congrArg Prod.fst hstep
  have hend : Concludes policy c (c.take (c.plan policy limit) (.sessionEnded reason)) a := by
    refine ⟨hattempts,?_,?_,⟨[.disconnected reason],?_,?_⟩,?_,hopened,fun link hlink => ?_⟩
    · simp only [take,WorkerLoop.question?,WorkerLoop.failure?,hstage,hasks,← hfailures]
      cases c.loop.stopping <;> rfl
    · rw [hout,WorkerLoop.endSession_delay,← hfailures,hasks]
      cases c.loop.stopping <;> rfl
    · rw [hout,WorkerLoop.endSession_event]
    · simp [ha,ho,Attempt.events]
    · simp only [take,hstep,WorkerLoop.endSession_traffic,ha,Attempt.isLost]
      cases c.loop.stopping <;> simp [countAll_nil,countAll_reconnect]
    · have hnone := c.loop.endSession_link? (c.plan policy limit) reason
      rw [← hloop,hlink] at hnone
      cases hnone
  refine ⟨h.toLedger.conclude hend,?_⟩
  cases hstopping : c.loop.stopping with
  | true =>
    rw [WorkerLoop.endSession_of_stopping (c.plan policy limit) hstopping] at hloop
    refine .finished (by rw [hloop]; rfl) (by rw [hloop]; exact hstopping) c.attempts
      (h.standing.passed hrunning) (.inr ⟨a,hattempts,?_⟩)
    simp [ha,Attempt.error?,hstopping]
  | false =>
    rw [WorkerLoop.endSession_of_not_stopping (c.plan policy limit) hstopping] at hloop
    have herror : a.error? = some (.lost reason) := by simp [ha,Attempt.error?,hstopping]
    exact standing_of_consult (w := { c.loop with current := none }) (h.standing.passed hrunning) hattempts
      herror rfl h.length_asked hfailures hopened hloop

theorem Disciplined.continue {c' : Course} (h : Disciplined policy before c)
    (hattempts : c'.attempts = c.attempts) (hasked : c'.asked = c.asked)
    (hwaited : c'.outputs.filterMap WorkerOutput.delay? = c.outputs.filterMap WorkerOutput.delay?)
    (htold : c'.outputs.filterMap WorkerOutput.event? = c.outputs.filterMap WorkerOutput.event?)
    (hcounted : c'.traffic.reconnects = c.traffic.reconnects)
    (hopened : c'.opened = c.opened)
    (hstage : ∀ link, c'.loop.stage = .session link ↔ c.loop.stage = .session link)
    (hstanding : Standing policy c') : Disciplined policy before c' := by
  refine ⟨h.toLedger.continue ⟨hattempts,hasked,hwaited,⟨[],?_,?_⟩,hcounted,?_,?_⟩,hstanding⟩
  · simp [htold]
  · simp [openEvents,hopened]
  · simpa [hopened,hstage] using h.opened
  · simpa [hopened] using h.unreported

theorem Disciplined.take_greeted {link : Nat} {peer : String} (h : Disciplined policy before c)
    (hstage : c.loop.stage = .greeting link) :
    Disciplined policy before (c.take (c.plan policy limit) (.greeted peer)) := by
  have hnone : c.opened = none := h.opened_eq_none (by simp [hstage])
  have hopened : (c.take (c.plan policy limit) (.greeted peer)).opened = some { peer } := by
    simp [take,openedBy,hstage]
  have hattempts : (c.take (c.plan policy limit) (.greeted peer)).attempts = c.attempts := by
    simp [take,attempt?,WorkerLoop.failure?]
  have hstep : c.loop.step (c.plan policy limit) (.greeted peer) =
      ({ c.loop with stage := .session link, failures := 0, current := some link },
        [.emit (.connected peer),.serve link]) := by
    simp only [WorkerLoop.step,hstage]
  have hloop : (c.take (c.plan policy limit) (.greeted peer)).loop =
      { c.loop with stage := .session link, failures := 0, current := some link } := by
    rw [take,hstep]
  refine ⟨h.toLedger.continue ⟨hattempts,?_,?_,⟨[.connected peer],?_,?_⟩,?_,?_,?_⟩,?_⟩
  · simp [take,WorkerLoop.question?,WorkerLoop.failure?]
  · simp [filterMap_outputs_take,hstep,WorkerOutput.delay?]
  · simp [filterMap_outputs_take,hstep,WorkerOutput.event?]
  · simp [openEvents,hopened,hnone,Attempt.sessionEvents]
  · rw [traffic_take (congrArg Prod.snd hstep) rfl]
  · simp [hopened,hloop]
  · simp [hopened]
  · refine .running (by simp [hloop]) (by simp [hopened,hloop]) ?_
    · rw [hattempts]
      exact h.standing.passed (by simp [hstage])

theorem Disciplined.take_reported {link : Nat} {report : Report} (h : Disciplined policy before c)
    (hstage : c.loop.stage = .session link) (hheeds : c.heeds (.reported report) = true) :
    Disciplined policy before (c.take (c.plan policy limit) (.reported report)) := by
  obtain ⟨o,ho,hworking⟩ : ∃ o, c.opened = some o ∧ o.working = true := by
    simpa [heeds,Option.any_eq_true] using hheeds
  have hreport : o.report = none := h.unreported o ho hworking
  have hopened : (c.take (c.plan policy limit) (.reported report)).opened =
      some { o with report := some report, working := false } := by
    simp [take,openedBy,hstage,ho]
  have hattempts : (c.take (c.plan policy limit) (.reported report)).attempts = c.attempts := by
    simp [take,attempt?,WorkerLoop.failure?]
  have hstep : c.loop.step (c.plan policy limit) (.reported report) =
      (c.loop,[.emit (.diagnostic report)]) := by
    simp only [WorkerLoop.step,hstage]
  have hloop : (c.take (c.plan policy limit) (.reported report)).loop = c.loop := by
    rw [take,hstep]
  refine ⟨h.toLedger.continue ⟨hattempts,?_,?_,⟨[.diagnostic report],?_,?_⟩,?_,?_,?_⟩,?_⟩
  · simp [take,WorkerLoop.question?,WorkerLoop.failure?]
  · simp [filterMap_outputs_take,hstep,WorkerOutput.delay?]
  · simp [filterMap_outputs_take,hstep,WorkerOutput.event?]
  · simp [openEvents,hopened,ho,hreport,Attempt.sessionEvents]
  · rw [traffic_take (congrArg Prod.snd hstep) rfl]
  · simp [hopened,hloop,hstage]
  · simp [hopened]
  · have hrunning : ∀ result, c.loop.stage ≠ .stopped result := by simp [hstage]
    have hfailures := h.standing.failures hrunning
    refine .running (by simpa [hloop] using hrunning) ?_ ?_
    · simpa [hopened,hloop,ho] using hfailures
    · rw [hattempts]
      exact h.standing.passed hrunning

theorem Standing.move {c' : Course} (h : Standing policy c) (hattempts : c'.attempts = c.attempts)
    (hopened : c'.opened.isSome = c.opened.isSome) (hfailures : c'.loop.failures = c.loop.failures)
    (hstopping : c.loop.stopping = true → c'.loop.stopping = true)
    (hstage : c'.loop.stage = c.loop.stage ∨ (∀ result, c.loop.stage ≠ .stopped result) ∧
      ((∀ result, c'.loop.stage ≠ .stopped result) ∨
        c'.loop.stage = .stopped (.ok ()) ∧ c'.loop.stopping = true)) : Standing policy c' := by
  rcases hstage with hsame | ⟨hrunning,hgoes | ⟨hstopped,hsign⟩⟩
  · cases h with
    | running hrunning hold hpassed =>
      exact .running (by rwa [hsame]) (by rw [hfailures,hopened,hattempts]; exact hold) (by rwa [hattempts])
    | finished hstage hold earlier hpassed hlast =>
      exact .finished (hsame.trans hstage) (hstopping hold) earlier hpassed (by rwa [hattempts])
    | givenUp e hstage hpassed hgiven =>
      exact .givenUp e (hsame.trans hstage) (by rwa [hattempts]) (by rwa [hattempts])
  · refine .running hgoes ?_ ?_
    · rw [hfailures,hopened,hattempts]
      exact h.failures hrunning
    · rw [hattempts]
      exact h.passed hrunning
  · exact .finished hstopped hsign c.attempts (h.passed hrunning) (.inl hattempts)

theorem Disciplined.take_silent {input : WorkerInput} {loop : WorkerLoop} {out : List WorkerOutput}
    (h : Disciplined policy before c) (hstep : c.loop.step (c.plan policy limit) input = (loop,out))
    (hattempt : c.attempt? (c.plan policy limit) input = none)
    (hquestion : c.loop.question? (c.plan policy limit) input = none)
    (hopened : c.openedBy input = c.opened)
    (hevent : out.filterMap WorkerOutput.event? = []) (hdelay : out.filterMap WorkerOutput.delay? = [])
    (htraffic : out.filterMap WorkerOutput.traffic? = [])
    (hsession : ∀ link, loop.stage = .session link ↔ c.loop.stage = .session link)
    (hfailures : loop.failures = c.loop.failures) (hstopping : c.loop.stopping = true → loop.stopping = true)
    (hstage : loop.stage = c.loop.stage ∨ (∀ result, c.loop.stage ≠ .stopped result) ∧
      ((∀ result, loop.stage ≠ .stopped result) ∨ loop.stage = .stopped (.ok ()) ∧ loop.stopping = true)) :
    Disciplined policy before (c.take (c.plan policy limit) input) := by
  have hloop : (c.take (c.plan policy limit) input).loop = loop := by rw [take,hstep]
  have hattempts : (c.take (c.plan policy limit) input).attempts = c.attempts := by
    simp [take,hattempt]
  refine h.continue hattempts ?_ ?_ ?_ ?_ hopened (by rwa [hloop])
    (h.standing.move hattempts (congrArg _ hopened) (by rwa [hloop]) (by rwa [hloop]) (by rwa [hloop]))
  · simp [take,hquestion]
  · simp [filterMap_outputs_take,hstep,hdelay]
  · simp [filterMap_outputs_take,hstep,hevent]
  · rw [traffic_take (congrArg Prod.snd hstep) htraffic]

theorem Disciplined.take (h : Disciplined policy before c) (limit : Span) {input : WorkerInput}
    (hheeds : c.heeds input = true) : Disciplined policy before (c.take (c.plan policy limit) input) := by
  have htakes := c.loop.takes (c.plan policy limit) input
  generalize hstep : c.loop.step (c.plan policy limit) input = result at htakes
  cases htakes with
  | failed closes hfailure hrunning hsession =>
    exact h.take_failed closes hfailure hrunning hsession hstep
  | ended link reason hstage => exact h.take_ended hstage
  | greeted link peer hstage => exact h.take_greeted hstage
  | reported link report hstage => exact h.take_reported hstage hheeds
  | dialed link hstage =>
    exact h.take_silent hstep rfl rfl rfl rfl rfl rfl (by simp [hstage]) rfl id
      (.inr ⟨by simp [hstage],.inl (by simp)⟩)
  | rested hstage =>
    have hrunning : ∀ result, c.loop.stage ≠ .stopped result := by simp [hstage]
    cases hstopping : c.loop.stopping with
    | true =>
      have hbegin : c.loop.begin = (c.loop.stopWith (.ok ()),[]) := if_pos hstopping
      rw [hbegin] at hstep
      exact h.take_silent hstep rfl rfl rfl rfl rfl rfl (by simp [hstage,WorkerLoop.stopWith]) rfl id
        (.inr ⟨hrunning,.inr ⟨rfl,hstopping⟩⟩)
    | false =>
      have hbegin : c.loop.begin = ({ c.loop with stage := .dialing },[.dial]) := if_neg (by simp [hstopping])
      rw [hbegin] at hstep
      exact h.take_silent hstep rfl rfl rfl rfl rfl rfl (by simp [hstage]) rfl id
        (.inr ⟨hrunning,.inl (by simp)⟩)
  | shutdown =>
    rw [WorkerLoop.shutdown_eq] at hstep
    have hout {α : Type} (f : WorkerOutput → Option α) (hf : ∀ k reason, f (.close k reason) = none) :
        (c.loop.current.toList.map (WorkerOutput.close · "client shutting down")).filterMap f = [] := by
      cases c.loop.current <;> simp [hf]
    refine h.take_silent hstep rfl rfl rfl (hout _ fun _ _ => rfl) (hout _ fun _ _ => rfl)
      (hout _ fun _ _ => rfl) (by simp [WorkerLoop.cancel,WorkerLoop.takeCurrent])
      (by simp [WorkerLoop.cancel,WorkerLoop.takeCurrent])
      (by simp [WorkerLoop.cancel,WorkerLoop.takeCurrent]) ?_
    rcases c.loop.cancel.takeCurrent.notice_stage with hsame | ⟨hrunning,hstopped⟩
    · exact .inl hsame
    · exact .inr ⟨hrunning,.inr ⟨hstopped,by simp [WorkerLoop.cancel,WorkerLoop.takeCurrent]⟩⟩
  | ignored hfailure hgreeted hreported hended =>
    have hquestion : c.loop.question? (c.plan policy limit) input = none := by
      rw [WorkerLoop.question?,hfailure]
      exact hended
    have hattempt : c.attempt? (c.plan policy limit) input = none := by
      rw [attempt?,hfailure]
      exact hended
    have hopened : c.openedBy input = c.opened := by
      unfold openedBy
      split
      · rename_i peer link hlink
        exact absurd hlink (hgreeted peer link rfl)
      · rename_i reason link hlink
        exact absurd hlink (hended reason link rfl)
      · rename_i report link hlink
        exact absurd hlink (hreported report link rfl)
      · rfl
    exact h.take_silent hstep hattempt hquestion hopened rfl rfl rfl (fun _ => .rfl) rfl id (.inl rfl)

/-! ### A whole run -/

theorem disciplined_start (policy : Nat → UInt32 → Option Span) (stopping : Bool) (traffic : Traffic) :
    Disciplined policy traffic.reconnects (start stopping traffic) := by
  have hledger : Ledger policy traffic.reconnects (start stopping traffic) := by
    cases stopping <;> exact ⟨rfl,rfl,rfl,by simp [start],by simp [start,WorkerLoop.begin,WorkerLoop.stopWith],
      by simp [start]⟩
  refine ⟨hledger,?_⟩
  cases stopping with
  | true => exact .finished rfl rfl [] (passed_nil policy) (.inl rfl)
  | false => exact .running (by simp [start,WorkerLoop.begin]) rfl (passed_nil policy)

theorem Disciplined.step (h : Disciplined policy before c) (limit : Span) (a : Act) :
    Disciplined policy before (c.step policy limit a) := by
  cases a with
  | tell input =>
    simp only [Course.step]
    split
    · exact h.take limit ‹_›
    · exact h
  | rest =>
    refine ⟨h.toLedger.continue ⟨rfl,rfl,rfl,⟨[],by simp [Course.step],?_⟩,rfl,?_,?_⟩,?_⟩
    · cases hopened : c.opened <;> simp [Course.step,openEvents,hopened]
    · simpa [Course.step] using h.opened
    · simp [Course.step]
    · exact h.standing.move rfl (by simp [Course.step]) rfl id (.inl rfl)
  | cancel =>
    exact h.continue rfl rfl rfl rfl rfl rfl (fun _ => .rfl)
      (h.standing.move rfl rfl rfl (fun _ => rfl) (.inl rfl))
  | release =>
    exact h.continue rfl rfl rfl rfl rfl rfl (fun _ => .rfl) (h.standing.move rfl rfl rfl id (.inl rfl))
  | notice =>
    simp only [Course.step]
    split
    · rename_i hstopping
      refine h.continue rfl rfl rfl rfl rfl rfl (by simp) (h.standing.move rfl rfl (by simp) (by simp) ?_)
      rcases c.loop.notice_stage with hsame | ⟨hrunning,hstopped⟩
      · exact .inl hsame
      · exact .inr ⟨hrunning,.inr ⟨hstopped,by simpa using hstopping⟩⟩
    · exact h
  | count event =>
    simp only [Course.step]
    split
    · exact h
    · rename_i hevent
      refine h.continue rfl rfl rfl rfl ?_ rfl (fun _ => .rfl) (h.standing.move rfl rfl rfl id (.inl rfl))
      cases event <;> first | rfl | exact absurd rfl hevent

theorem Disciplined.run (h : Disciplined policy before c) (limit : Span) (acts : List Act) :
    Disciplined policy before (c.run policy limit acts) := by
  induction acts generalizing c with
  | nil => exact h
  | cons a acts ih => exact ih (h.step limit a)

/-- The sign to stop was given before the run, or in it. -/
theorem signed_of_stopping {acts : List Act} (h : (c.run policy limit acts).loop.stopping = true) :
    c.loop.stopping = true ∨ .cancel ∈ acts ∨ .tell .shutdown ∈ acts := by
  induction acts generalizing c with
  | nil => exact .inl h
  | cons a acts ih =>
    rcases ih h with hnext | hcancel | hshutdown
    · by_cases hcancel : a = .cancel
      · exact .inr (.inl (by simp [hcancel]))
      by_cases hshutdown : a = .tell .shutdown
      · exact .inr (.inr (by simp [hshutdown]))
      refine .inl ?_
      cases a with
      | tell input =>
        simp only [Course.step] at hnext
        split at hnext
        · exact (c.loop.stopping_step _ fun heq => hshutdown (congrArg _ heq)).symm.trans hnext
        · exact hnext
      | cancel => exact absurd rfl hcancel
      | notice =>
        simp only [Course.step] at hnext
        split at hnext
        · exact (WorkerLoop.notice_stopping _).symm.trans hnext
        · exact hnext
      | count event =>
        simp only [Course.step] at hnext
        split at hnext <;> exact hnext
      | _ => exact hnext
    · exact .inr (.inl (List.mem_cons_of_mem a hcancel))
    · exact .inr (.inr (List.mem_cons_of_mem a hshutdown))

/-- After each attempt that another one may follow the policy is asked once, with the number of attempts
that have failed in a row, and its answers are the pauses that are made. The run is given up after the
attempt for which there is no answer, or no question, and it ends otherwise only once it is to stop. A
reconnect is counted for each session that was not stopped, and nothing else that is counted is one. -/
theorem disciplined_of_run (policy : Nat → UInt32 → Option Span) (limit : Span) (stopping : Bool)
    (traffic : Traffic) (acts : List Act) :
    let c := (start stopping traffic).run policy limit acts
    c.asked = (Attempt.questions c.attempts).map saturated ∧
    c.outputs.filterMap WorkerOutput.delay? = granted policy c.asked ∧
    (∀ e, c.loop.stage = .stopped (.error e) ↔ GivenUp policy c.attempts e) ∧
    Passed policy c.attempts.dropLast ∧
    (c.loop.stage = .stopped (.ok ()) → stopping = true ∨ .cancel ∈ acts ∨ .tell .shutdown ∈ acts) ∧
    c.traffic.reconnects = traffic.reconnects + .ofNat (c.attempts.countP Attempt.isLost) ∧
    c.outputs.filterMap WorkerOutput.event? = c.attempts.flatMap Attempt.events ++ c.openEvents ∧
    (c.opened.isSome = true ↔ ∃ link, c.loop.stage = .session link) := by
  intro c
  have h : Disciplined policy traffic.reconnects c := (disciplined_start policy stopping traffic).run limit acts
  refine ⟨h.asked,h.waited,h.standing.error_iff,h.standing.passed_dropLast,fun hdone => ?_,h.counted,h.told,
    h.opened⟩
  have hsign : c.loop.stopping = true := by
    cases h.standing with
    | running hrunning => exact absurd hdone (hrunning _)
    | finished _ hstopping => exact hstopping
    | givenUp e hstage => simp [hstage] at hdone
  have hstart : (start stopping traffic).loop.stopping = stopping := by cases stopping <;> rfl
  rw [← hstart]
  exact signed_of_stopping hsign

end Course
end Tether
