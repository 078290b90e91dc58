import Mathlib.Data.List.Infix
import Mathlib.Data.List.ReduceOption
import Tether.Link.Traffic
import Tether.Proofs.Worker.Managing

/-! The attempts of a worker to work for its master, and what its loop makes of them: what the policy is
asked after each, what others are told of it, and what an input can do to the loop. -/
namespace Tether

/-- What an attempt came to. A session has a report if its workload made one, and may have been stopped. -/
inductive Attempt
  | failed (error : LinkError)
  | session (peer : String) (report : Option Report) (reason : String) (stopped : Bool)

namespace Attempt

/-- What the run returns if it is given up after this attempt. -/
def error? : Attempt → Option LinkError
  | .failed e => some e
  | .session _ _ reason stopped => if stopped then none else some (.lost reason)

def asks (a : Attempt) : Bool := a.error?.any LinkError.isTransport

def isFailed : Attempt → Bool
  | .failed _ => true
  | _ => false

def isLost : Attempt → Bool
  | .session _ _ _ stopped => !stopped
  | _ => false

def sessionEvents (peer : String) (report : Option Report) : List WorkerEvent :=
  .connected peer :: report.toList.map .diagnostic

def events : Attempt → List WorkerEvent
  | .failed e => if e.isTransport then [.connectFailed e.message] else []
  | .session peer report reason _ => sessionEvents peer report ++ [.disconnected reason]

/-- How many attempts have failed since the last session. -/
def streak (attempts : List Attempt) : Nat := (attempts.reverse.takeWhile isFailed).length

/-- Each attempt that another one may follow is asked about once, with the failures until then. -/
def questions (attempts : List Attempt) : List Nat :=
  (attempts.inits.filter (·.getLast?.any asks)).map streak

variable {attempts : List Attempt}

@[simp] theorem streak_nil : streak [] = 0 := rfl

@[simp] theorem streak_failed (attempts : List Attempt) (e : LinkError) :
    streak (attempts ++ [.failed e]) = streak attempts + 1 := by
  simp [streak,isFailed,List.takeWhile_cons]

@[simp] theorem streak_session (attempts : List Attempt) (peer : String) (report : Option Report)
    (reason : String) (stopped : Bool) :
    streak (attempts ++ [.session peer report reason stopped]) = 0 := by
  simp [streak,isFailed]

@[simp] theorem questions_nil : questions [] = [] := rfl

theorem questions_append (attempts : List Attempt) (a : Attempt) : questions (attempts ++ [a]) =
    questions attempts ++ if a.asks then [streak (attempts ++ [a])] else [] := by
  have hinits : (attempts ++ [a]).inits = attempts.inits ++ [attempts ++ [a]] := by
    simp [List.inits_append]
  rw [questions,hinits,List.filter_append,List.map_append]
  cases hasks : a.asks <;> simp [questions,hasks]

end Attempt

/-- Failures as the loop counts them. -/
def saturated (n : Nat) : UInt32 := .ofNat (min n WorkerLoop.failuresMax.toNat)

theorem bump_saturated (n : Nat) : WorkerLoop.bump (saturated n) = saturated (n+1) := by
  have hmax : WorkerLoop.failuresMax.toNat = 4294967295 := rfl
  unfold WorkerLoop.bump saturated
  rw [hmax]
  by_cases hn : n < 4294967295
  · have hne : ¬UInt32.ofNat (min n 4294967295) = WorkerLoop.failuresMax := fun heq => by
      have := congrArg UInt32.toNat heq
      rw [UInt32.toNat_ofNat_of_lt' (Nat.lt_of_le_of_lt (Nat.min_le_right ..) (by decide)),hmax] at this
      omega
    rw [if_neg hne,show min n 4294967295 = n by omega,show min (n+1) 4294967295 = n+1 by omega,
      UInt32.ofNat_add]
    rfl
  · rw [show min n 4294967295 = 4294967295 by omega,show min (n+1) 4294967295 = 4294967295 by omega]
    rfl

/-- The answers of a policy that are waited for, if its questions are asked in this order. -/
def granted (policy : Nat → UInt32 → Option Span) (asked : List UInt32) : List Span :=
  (asked.mapIdx policy).reduceOption

theorem granted_append (policy : Nat → UInt32 → Option Span) (asked : List UInt32) (n : UInt32) :
    granted policy (asked ++ [n]) = granted policy asked ++ (policy asked.length n).toList := by
  rw [granted,List.mapIdx_concat,List.reduceOption_append,List.reduceOption_singleton]
  rfl

namespace WorkerOutput

def event? : WorkerOutput → Option WorkerEvent
  | .emit event => some event
  | _ => none

def delay? : WorkerOutput → Option Span
  | .pause delay => some delay
  | _ => none

def traffic? : WorkerOutput → Option TrafficEvent
  | .countReconnect => some .reconnect
  | _ => none

end WorkerOutput

namespace WorkerLoop

variable {plan : WorkerPlan} {w : WorkerLoop} {input : WorkerInput}

/-! ### What the loop puts out at the end of an attempt -/

@[simp] theorem consult_event (plan : WorkerPlan) (w : WorkerLoop) (last : LinkError) :
    (w.consult plan last).2.filterMap WorkerOutput.event? = [] := by
  unfold consult
  cases plan.policy w.failures <;> rfl

@[simp] theorem consult_delay (plan : WorkerPlan) (w : WorkerLoop) (last : LinkError) :
    (w.consult plan last).2.filterMap WorkerOutput.delay? = (plan.policy w.failures).toList := by
  unfold consult
  cases plan.policy w.failures <;> rfl

@[simp] theorem consult_traffic (plan : WorkerPlan) (w : WorkerLoop) (last : LinkError) :
    (w.consult plan last).2.filterMap WorkerOutput.traffic? = [] := by
  unfold consult
  cases plan.policy w.failures <;> rfl

theorem fail_of_transport (plan : WorkerPlan) (w : WorkerLoop) {e : LinkError} (h : e.isTransport = true) :
    w.fail plan e = (({ w with failures := bump w.failures }.consult plan e).1,
      .emit (.connectFailed e.message) :: ({ w with failures := bump w.failures }.consult plan e).2) :=
  if_pos h

theorem fail_of_not_transport (plan : WorkerPlan) (w : WorkerLoop) {e : LinkError}
    (h : e.isTransport = false) : w.fail plan e = (w.stopWith (.error e),[]) :=
  if_neg (by simp [h])

theorem endSession_of_stopping (plan : WorkerPlan) (h : w.stopping = true) (reason : String) :
    w.endSession plan reason =
      ({ w with current := none }.stopWith (.ok ()),[.emit (.disconnected reason)]) :=
  if_pos h

theorem endSession_of_not_stopping (plan : WorkerPlan) (h : w.stopping = false) (reason : String) :
    w.endSession plan reason = (({ w with current := none }.consult plan (.lost reason)).1,
      .emit (.disconnected reason) :: .countReconnect ::
        ({ w with current := none }.consult plan (.lost reason)).2) :=
  if_neg (by simp [h])

theorem fail_event (plan : WorkerPlan) (w : WorkerLoop) (e : LinkError) :
    (w.fail plan e).2.filterMap WorkerOutput.event? = (Attempt.failed e).events := by
  cases h : e.isTransport with
  | true => simp only [fail_of_transport plan w h,List.filterMap_cons,WorkerOutput.event?,consult_event,
      Attempt.events,h,if_true]
  | false => simp [fail_of_not_transport plan w h,Attempt.events,h]

theorem fail_delay (plan : WorkerPlan) (w : WorkerLoop) (e : LinkError) :
    (w.fail plan e).2.filterMap WorkerOutput.delay? =
      if e.isTransport then (plan.policy (bump w.failures)).toList else [] := by
  cases h : e.isTransport with
  | true => simp only [fail_of_transport plan w h,List.filterMap_cons,WorkerOutput.delay?,consult_delay,
      if_true]
  | false => simp [fail_of_not_transport plan w h]

theorem fail_traffic (plan : WorkerPlan) (w : WorkerLoop) (e : LinkError) :
    (w.fail plan e).2.filterMap WorkerOutput.traffic? = [] := by
  cases h : e.isTransport with
  | true => simp only [fail_of_transport plan w h,List.filterMap_cons,WorkerOutput.traffic?,consult_traffic]
  | false => simp [fail_of_not_transport plan w h]

theorem endSession_event (plan : WorkerPlan) (w : WorkerLoop) (reason : String) :
    (w.endSession plan reason).2.filterMap WorkerOutput.event? = [.disconnected reason] := by
  cases h : w.stopping with
  | true => rw [endSession_of_stopping plan h]; rfl
  | false => simp only [endSession_of_not_stopping plan h,List.filterMap_cons,WorkerOutput.event?,
      consult_event]

theorem endSession_delay (plan : WorkerPlan) (w : WorkerLoop) (reason : String) :
    (w.endSession plan reason).2.filterMap WorkerOutput.delay? =
      if w.stopping then [] else (plan.policy w.failures).toList := by
  cases h : w.stopping with
  | true => rw [endSession_of_stopping plan h]; rfl
  | false => simp [endSession_of_not_stopping plan h,List.filterMap_cons,WorkerOutput.delay?]

theorem endSession_traffic (plan : WorkerPlan) (w : WorkerLoop) (reason : String) :
    (w.endSession plan reason).2.filterMap WorkerOutput.traffic? =
      if w.stopping then [] else [.reconnect] := by
  cases h : w.stopping with
  | true => rw [endSession_of_stopping plan h]; rfl
  | false => simp only [endSession_of_not_stopping plan h,List.filterMap_cons,WorkerOutput.traffic?,
      consult_traffic,Bool.false_eq_true,if_false]

theorem endSession_link? (plan : WorkerPlan) (w : WorkerLoop) (reason : String) :
    (w.endSession plan reason).1.stage.link? = none := by
  cases h : w.stopping with
  | true => rw [endSession_of_stopping plan h]; rfl
  | false =>
    rw [endSession_of_not_stopping plan h]
    exact (apart_consult plan { w with current := none } (.lost reason)).stage

/-! ### Seeing the sign to stop -/

@[simp] theorem notice_failures (w : WorkerLoop) : w.notice.failures = w.failures := by
  unfold notice
  split <;> rfl

@[simp] theorem notice_stopping (w : WorkerLoop) : w.notice.stopping = w.stopping := by
  unfold notice
  split <;> rfl

@[simp] theorem notice_session_iff (w : WorkerLoop) (link : Nat) :
    w.notice.stage = .session link ↔ w.stage = .session link := by
  unfold notice
  split
  · rfl
  · rfl
  · rename_i hsession _
    exact iff_of_false (by simp [stopWith]) (hsession link)

theorem notice_stage (w : WorkerLoop) : w.notice.stage = w.stage ∨
    (∀ result, w.stage ≠ .stopped result) ∧ w.notice.stage = .stopped (.ok ()) := by
  unfold notice
  split
  · exact .inl rfl
  · exact .inl rfl
  · rename_i hstopped
    exact .inr ⟨hstopped,rfl⟩

/-! ### What an input asks the policy -/

/-- The error with which an attempt fails when the loop takes an input. -/
def failure? (plan : WorkerPlan) (w : WorkerLoop) (input : WorkerInput) : Option LinkError :=
  match input,w.stage with
  | .dialFailed e,.dialing | .greetingFailed e,.greeting _ => some e
  | .greetingTimedOut,.greeting _ => some (.handshake (greetingText plan))
  | _,_ => none

/-- The number that the policy is asked with when the loop takes an input. -/
def question? (plan : WorkerPlan) (w : WorkerLoop) (input : WorkerInput) : Option UInt32 :=
  match w.failure? plan input with
  | some e => if e.isTransport then some (bump w.failures) else none
  | none => match input,w.stage with
    | .sessionEnded _,.session _ => if w.stopping then none else some w.failures
    | _,_ => none

inductive Takes (plan : WorkerPlan) (w : WorkerLoop) : WorkerInput → WorkerLoop × List WorkerOutput → Prop
  | failed {input : WorkerInput} {e : LinkError} (closes : List (Nat × String))
      (hfailure : w.failure? plan input = some e) (hrunning : ∀ result, w.stage ≠ .stopped result)
      (hsession : ∀ link, w.stage ≠ .session link) :
      Takes plan w input ((w.fail plan e).1,closes.map (fun c => .close c.1 c.2) ++ (w.fail plan e).2)
  | ended (link : Nat) (reason : String) (hstage : w.stage = .session link) :
      Takes plan w (.sessionEnded reason) (w.endSession plan reason)
  | greeted (link : Nat) (peer : String) (hstage : w.stage = .greeting link) :
      Takes plan w (.greeted peer)
        ({ w with stage := .session link, failures := 0, current := some link },
          [.emit (.connected peer),.serve link])
  | reported (link : Nat) (report : Report) (hstage : w.stage = .session link) :
      Takes plan w (.reported report) (w,[.emit (.diagnostic report)])
  | dialed (link : Nat) (hstage : w.stage = .dialing) :
      Takes plan w (.dialed link) ({ w with stage := .greeting link },[.greet link])
  | rested (hstage : w.stage = .pausing) : Takes plan w .pauseOver w.begin
  | shutdown : Takes plan w .shutdown w.shutdown
  | ignored {input : WorkerInput} (hfailure : w.failure? plan input = none)
      (hgreeted : ∀ peer link, input = .greeted peer → w.stage ≠ .greeting link)
      (hreported : ∀ report link, input = .reported report → w.stage ≠ .session link)
      (hended : ∀ reason link, input = .sessionEnded reason → w.stage ≠ .session link) :
      Takes plan w input (w,[])

theorem takes (plan : WorkerPlan) (w : WorkerLoop) (input : WorkerInput) :
    Takes plan w input (w.step plan input) := by
  cases input with
  | dialed link =>
    cases hs : w.stage with
    | dialing => simpa only [step,hs] using .dialed link hs
    | _ => simpa only [step,hs] using .ignored rfl (by simp [hs]) (by simp [hs]) (by simp)
  | dialFailed e =>
    cases hs : w.stage with
    | dialing =>
      simpa only [step,hs] using .failed [] (by simp [failure?,hs]) (by simp [hs]) (by simp [hs])
    | _ => simpa only [step,hs] using .ignored (by simp [failure?,hs]) (by simp) (by simp) (by simp)
  | greeted peer =>
    cases hs : w.stage with
    | greeting link => simpa only [step,hs] using .greeted link peer hs
    | _ => simpa only [step,hs] using .ignored rfl (by simp [hs]) (by simp [hs]) (by simp)
  | greetingFailed e =>
    cases hs : w.stage with
    | greeting link =>
      simpa only [step,hs] using
        .failed [(link,e.message)] (by simp [failure?,hs]) (by simp [hs]) (by simp [hs])
    | _ => simpa only [step,hs] using .ignored (by simp [failure?,hs]) (by simp) (by simp) (by simp)
  | greetingTimedOut =>
    cases hs : w.stage with
    | greeting link =>
      simpa only [step,hs] using
        .failed [(link,greetingText plan)] (by simp [failure?,hs]) (by simp [hs]) (by simp [hs])
    | _ => simpa only [step,hs] using .ignored (by simp [failure?,hs]) (by simp) (by simp) (by simp)
  | sessionEnded reason =>
    cases hs : w.stage with
    | session link => simpa only [step,hs] using .ended link reason hs
    | _ => simpa only [step,hs] using .ignored rfl (by simp) (by simp) (by simp [hs])
  | reported report =>
    cases hs : w.stage with
    | session link => simpa only [step,hs] using .reported link report hs
    | _ => simpa only [step,hs] using .ignored rfl (by simp [hs]) (by simp [hs]) (by simp)
  | pauseOver =>
    cases hs : w.stage with
    | pausing => simpa only [step,hs] using .rested hs
    | _ => simpa only [step,hs] using .ignored rfl (by simp [hs]) (by simp [hs]) (by simp)
  | shutdown => exact .shutdown

theorem stopping_step (plan : WorkerPlan) (w : WorkerLoop) (h : input ≠ .shutdown) :
    (w.step plan input).1.stopping = w.stopping := by
  have hconsult (w : WorkerLoop) (e : LinkError) : (w.consult plan e).1.stopping = w.stopping := by
    unfold consult
    split <;> rfl
  have htakes := w.takes plan input
  generalize w.step plan input = result at htakes
  cases htakes with
  | failed closes hfailure hrunning hsession =>
    rename_i e
    cases htransport : e.isTransport with
    | true => rw [fail_of_transport plan w htransport]; exact hconsult _ e
    | false => rw [fail_of_not_transport plan w htransport]; rfl
  | ended link reason hstage =>
    cases hstopping : w.stopping with
    | true => rw [endSession_of_stopping plan hstopping]; exact hstopping
    | false => rw [endSession_of_not_stopping plan hstopping]; exact (hconsult _ _).trans hstopping
  | rested hstage =>
    unfold begin
    split <;> rfl
  | shutdown => exact absurd rfl h
  | _ => rfl

theorem consult_eq_iff (plan plan' : WorkerPlan) (w : WorkerLoop) (last : LinkError) :
    w.consult plan last = w.consult plan' last ↔ plan.policy w.failures = plan'.policy w.failures := by
  unfold consult
  cases plan.policy w.failures <;> cases plan'.policy w.failures <;> simp [stopWith]

theorem fail_eq_iff (plan plan' : WorkerPlan) (w : WorkerLoop) (e : LinkError) :
    w.fail plan e = w.fail plan' e ↔
      (e.isTransport = true → plan.policy (bump w.failures) = plan'.policy (bump w.failures)) := by
  unfold fail
  cases e.isTransport with
  | false => simp
  | true =>
    have hconsult := consult_eq_iff plan plan' { w with failures := bump w.failures } e
    simp [← hconsult,Prod.ext_iff]

theorem endSession_eq_iff (plan plan' : WorkerPlan) (w : WorkerLoop) (reason : String) :
    w.endSession plan reason = w.endSession plan' reason ↔
      (w.stopping = false → plan.policy w.failures = plan'.policy w.failures) := by
  unfold endSession
  cases hstopping : w.stopping with
  | true => simp
  | false =>
    have hconsult := consult_eq_iff plan plan' { w with current := none } (.lost reason)
    simp [← hconsult,hstopping,Prod.ext_iff]

theorem step_eq_iff {plan plan' : WorkerPlan} (hlimit : plan.greetingLimit = plan'.greetingLimit)
    (w : WorkerLoop) (input : WorkerInput) : w.step plan input = w.step plan' input ↔
      ∀ n, w.question? plan input = some n → plan.policy n = plan'.policy n := by
  have htext : greetingText plan = greetingText plan' := by
    unfold greetingText
    rw [hlimit]
  cases input with
  | dialFailed e =>
    cases hs : w.stage <;> simp [step,hs,question?,failure?,fail_eq_iff]
  | greetingFailed e =>
    cases hs : w.stage <;> simp [step,hs,question?,failure?,Prod.ext_iff,← fail_eq_iff]
  | greetingTimedOut =>
    cases hs : w.stage <;> simp [step,hs,question?,failure?,htext,Prod.ext_iff,← fail_eq_iff]
  | sessionEnded reason =>
    cases hs : w.stage <;> simp [step,hs,question?,failure?,endSession_eq_iff]
  | _ => cases hs : w.stage <;> simp [step,hs,question?,failure?]

end WorkerLoop
end Tether
