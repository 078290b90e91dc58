import Tether.Proofs.Link.Owning
import Tether.Worker.Reconnect

/-! A worker's loop and the links that it opens, under every order in which the loop, whoever shuts it
down and the tasks of the links take their steps. What the loop is told is not fixed, and neither is what
becomes of a link. The loop goes on from a call to close when that call is over; a shutdown makes its own. -/
namespace Tether

deriving instance DecidableEq for WorkerStage

def WorkerStage.link? : WorkerStage → Option Nat
  | .greeting link | .session link => some link
  | _ => none

/-- What the loop is told of from outside, apart from a new link, a hello that came through and a
shutdown. -/
def WorkerInput.isNews : WorkerInput → Bool
  | .dialed _ | .greeted _ | .shutdown => false
  | _ => true

def WorkerOutput.close? : WorkerOutput → Option (Nat × String)
  | .close link reason => some (link,reason)
  | _ => none

namespace WorkerLoop

variable {plan : WorkerPlan} {w : WorkerLoop}

/-! ### The parts of a shutdown and of a hello -/

def cancel (w : WorkerLoop) : WorkerLoop := { w with stopping := true }

def takeCurrent (w : WorkerLoop) : WorkerLoop := { w with current := none }

def notice (w : WorkerLoop) : WorkerLoop :=
  match w.stage with
  | .session _ | .stopped _ => w
  | _ => w.stopWith (.ok ())

theorem shutdown_eq (w : WorkerLoop) : w.shutdown =
    (w.cancel.takeCurrent.notice,w.current.toList.map (.close · "client shutting down")) := by
  rcases w with ⟨stage,failures,current,stopping⟩
  cases stage <;> cases current <;> rfl

/-- The hello came through, but others may not use the link yet. -/
def enter (w : WorkerLoop) (link : Nat) : WorkerLoop := { w with stage := .session link, failures := 0 }

def publish (w : WorkerLoop) (link : Nat) : WorkerLoop := { w with current := some link }

theorem step_greeted {link : Nat} (h : w.stage = .greeting link) (peer : String) :
    (w.step plan (.greeted peer)).1 = (w.enter link).publish link := by
  simp only [step,h]
  rfl

/-! ### Leaving a link -/

/-- The news on which the loop leaves a link. -/
inductive Leaves : WorkerStage → WorkerInput → Prop
  | failed (link : Nat) (error : LinkError) : Leaves (.greeting link) (.greetingFailed error)
  | timedOut (link : Nat) : Leaves (.greeting link) .greetingTimedOut
  | ended (link : Nat) (reason : String) : Leaves (.session link) (.sessionEnded reason)

/-- The call to close that the loop makes before it takes an input: the one that is among its outputs, or
the one that ends a session. -/
def closeFor (plan : WorkerPlan) (w : WorkerLoop) (input : WorkerInput) : Option (Nat × String) :=
  match input,w.stage with
  | .sessionEnded reason,.session link => some (link,reason)
  | _,_ => (w.step plan input).2.findSome? WorkerOutput.close?

/-- The loop is about no link, as far as this step goes, and closes none. -/
structure Apart (w : WorkerLoop) (result : WorkerLoop × List WorkerOutput) : Prop where
  stage : result.1.stage.link? = none
  current : result.1.current = w.current
  silent : result.2.findSome? WorkerOutput.close? = none

theorem apart_consult (plan : WorkerPlan) (w : WorkerLoop) (last : LinkError) :
    w.Apart (w.consult plan last) := by
  unfold consult
  cases plan.policy w.failures <;> exact ⟨rfl,rfl,rfl⟩

theorem apart_fail (plan : WorkerPlan) (w : WorkerLoop) (e : LinkError) : w.Apart (w.fail plan e) := by
  unfold fail
  split
  · obtain ⟨hstage,hcurrent,hsilent⟩ := apart_consult plan { w with failures := bump w.failures } e
    exact ⟨hstage,hcurrent,hsilent⟩
  · exact ⟨rfl,rfl,rfl⟩

theorem apart_begin (w : WorkerLoop) : w.Apart w.begin := by
  unfold begin
  split <;> exact ⟨rfl,rfl,rfl⟩

theorem step_of_leaves (plan : WorkerPlan) {news : WorkerInput} (h : Leaves w.stage news)
    (hcurrent : ∀ link, w.current = some link → w.stage = .session link) :
    (w.step plan news).1.stage.link? = none ∧ (w.step plan news).1.current = none := by
  generalize hs : w.stage = stage at h hcurrent
  cases h with
  | failed link error =>
    have hfail := apart_fail plan w error
    have hnone : w.current = none := Option.eq_none_iff_forall_ne_some.mpr fun k hk => by
      simpa using hcurrent k hk
    simp only [step,hs]
    exact ⟨hfail.stage,hfail.current.trans hnone⟩
  | timedOut link =>
    have hfail := apart_fail plan w (.handshake (greetingText plan))
    have hnone : w.current = none := Option.eq_none_iff_forall_ne_some.mpr fun k hk => by
      simpa using hcurrent k hk
    simp only [step,hs]
    exact ⟨hfail.stage,hfail.current.trans hnone⟩
  | ended link reason =>
    simp only [step,hs,endSession]
    split
    · exact ⟨rfl,rfl⟩
    · have hconsult := apart_consult plan { w with current := none } (.lost reason)
      exact ⟨hconsult.stage,hconsult.current⟩

/-- News makes the loop leave its link, which it then closes first, or it is about no link, or it changes
nothing. -/
theorem news_cases (plan : WorkerPlan) (w : WorkerLoop) {news : WorkerInput} (h : news.isNews = true) :
    (∃ link reason, Leaves w.stage news ∧ w.stage.link? = some link ∧
      closeFor plan w news = some (link,reason)) ∨
    closeFor plan w news = none ∧ ((w.step plan news).1 = w ∨
      w.stage.link? = none ∧ (∀ result, w.stage ≠ .stopped result) ∧ w.Apart (w.step plan news)) := by
  cases news with
  | dialed link => simp [WorkerInput.isNews] at h
  | greeted peer => simp [WorkerInput.isNews] at h
  | shutdown => simp [WorkerInput.isNews] at h
  | dialFailed e =>
    cases hs : w.stage with
    | dialing =>
      have hfail := apart_fail plan w e
      have hstep : w.step plan (.dialFailed e) = w.fail plan e := by simp only [step,hs]
      refine .inr ⟨?_,.inr ⟨rfl,by simp,hstep ▸ hfail⟩⟩
      simp only [closeFor,hstep]
      exact hfail.silent
    | _ => exact .inr ⟨by simp [closeFor,step,hs],.inl (by simp [step,hs])⟩
  | greetingFailed e =>
    cases hs : w.stage with
    | greeting link =>
      refine .inl ⟨link,e.message,.failed link e,rfl,?_⟩
      simp only [closeFor,step,hs]
      rfl
    | _ => exact .inr ⟨by simp [closeFor,step,hs],.inl (by simp [step,hs])⟩
  | greetingTimedOut =>
    cases hs : w.stage with
    | greeting link =>
      refine .inl ⟨link,greetingText plan,.timedOut link,rfl,?_⟩
      simp only [closeFor,step,hs]
      rfl
    | _ => exact .inr ⟨by simp [closeFor,step,hs],.inl (by simp [step,hs])⟩
  | sessionEnded reason =>
    cases hs : w.stage with
    | session link => exact .inl ⟨link,reason,.ended link reason,rfl,by simp [closeFor,hs]⟩
    | _ => exact .inr ⟨by simp [closeFor,step,hs],.inl (by simp [step,hs])⟩
  | reported report =>
    cases hs : w.stage <;>
      exact .inr ⟨by simp [closeFor,step,hs,WorkerOutput.close?],.inl (by simp [step,hs])⟩
  | pauseOver =>
    cases hs : w.stage with
    | pausing =>
      have hbegin := apart_begin w
      have hstep : w.step plan .pauseOver = w.begin := by simp only [step,hs]
      refine .inr ⟨?_,.inr ⟨rfl,by simp,hstep ▸ hbegin⟩⟩
      simp only [closeFor,hstep]
      exact hbegin.silent
    | _ => exact .inr ⟨by simp [closeFor,step,hs],.inl (by simp [step,hs])⟩

end WorkerLoop

/-! ### The loop and its links -/

/-- A call to close that the loop waits for, and what it is told when the call is over. -/
structure Leaving where
  link : Nat
  call : Nat
  news : WorkerInput

structure Manager where
  loop : WorkerLoop
  links : List Session := []
  leaving : Option Leaving := none
  /-- The session has begun, but its link is not published yet. -/
  entering : Bool := false
  /-- The link whose greeting was cut short by the sign to stop. -/
  dropped : Option Nat := none

namespace Manager

inductive Act
  | dialed (name peerAddr : String) (counter : UInt32)
  | greeted
  | publish
  | tell (news : WorkerInput)
  | leave
  | cancel
  | take
  | notice
  | link (k : Nat) (act : Session.Act)

/-- The loop begins, with the sign to stop already given or not. -/
def start (stopping : Bool) : Manager := { loop := (({ stopping } : WorkerLoop).begin).1 }

def onLink (m : Manager) (k : Nat) (a : Session.Act) : Manager :=
  { m with links := m.links.modify k (·.step a) }

def dialed (plan : WorkerPlan) (m : Manager) (name peerAddr : String) (counter : UInt32) : Manager :=
  match m.loop.stage with
  | .dialing =>
    { m with
      loop := (m.loop.step plan (.dialed m.links.length)).1
      links := m.links ++ [.establish name .initiator peerAddr counter] }
  | _ => m

def greeted (m : Manager) : Manager :=
  match m.loop.stage with
  | .greeting k => if m.leaving.isSome then m else { m with loop := m.loop.enter k, entering := true }
  | _ => m

def publish (m : Manager) : Manager :=
  match m.loop.stage with
  | .session k => if m.entering then { m with loop := m.loop.publish k, entering := false } else m
  | _ => m

/-- The loop is told something, unless it is busy. It makes its call to close first, if it makes one. -/
def tell (plan : WorkerPlan) (m : Manager) (news : WorkerInput) : Manager :=
  if m.leaving.isSome || m.entering || !news.isNews then m
  else match WorkerLoop.closeFor plan m.loop news with
    | none => { m with loop := (m.loop.step plan news).1 }
    | some (k,reason) => match m.links[k]? with
      | none => m
      | some s => { m.onLink k (.close reason) with leaving := some ⟨k,s.closes.length,news⟩ }

/-- A session is known to have ended for the reason that its link was closed for. -/
def told (s : Session) : WorkerInput → WorkerInput
  | .sessionEnded reason => .sessionEnded (s.link.closeReason.getD reason)
  | news => news

/-- The loop goes on once its call to close has returned. -/
def leave (plan : WorkerPlan) (m : Manager) : Manager :=
  match m.leaving with
  | none => m
  | some l => match m.links[l.link]? with
    | none => m
    | some s => match s.closes[l.call]? with
      | some ⟨_,.finished⟩ | some ⟨_,.late⟩ =>
        { m with loop := (m.loop.step plan (told s l.news)).1, leaving := none }
      | _ => m

/-- A shutdown takes the link that is in use, and makes a call of its own to close it. -/
def take (m : Manager) : Manager :=
  match m.loop.current with
  | none => m
  | some k => { m.onLink k (.close "client shutting down") with loop := m.loop.takeCurrent }

def notice (m : Manager) : Manager :=
  if m.leaving.isSome || !m.loop.stopping then m
  else match m.loop.stage with
    | .greeting k => { m with loop := m.loop.notice, dropped := some k }
    | _ => { m with loop := m.loop.notice }

def step (plan : WorkerPlan) (m : Manager) : Act → Manager
  | .dialed name peerAddr counter => m.dialed plan name peerAddr counter
  | .greeted => m.greeted
  | .publish => m.publish
  | .tell news => m.tell plan news
  | .leave => m.leave plan
  | .cancel => { m with loop := m.loop.cancel }
  | .take => m.take
  | .notice => m.notice
  | .link k a => m.onLink k a

def run (plan : WorkerPlan) (m : Manager) (acts : List Act) : Manager := acts.foldl (step plan) m

@[simp] theorem run_nil (plan : WorkerPlan) (m : Manager) : m.run plan [] = m := rfl

@[simp] theorem run_cons (plan : WorkerPlan) (m : Manager) (a : Act) (acts : List Act) :
    m.run plan (a :: acts) = (m.step plan a).run plan acts := rfl

end Manager
end Tether
