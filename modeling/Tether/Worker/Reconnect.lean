import Tether.Link.Connection
import Tether.Link.Diagnostics
import Tether.Retry

/-! The worker's loop: dial, say hello, run a session until the link ends, wait, and dial again. The
loop is told what happens and answers with what is to be done; links are known to it by number. -/
namespace Tether

/-- What a worker lets others know. -/
inductive WorkerEvent
  | connected (peer : String)
  | disconnected (reason : String)
  | connectFailed (error : String)
  | diagnostic (report : Report)
deriving DecidableEq, Repr

inductive WorkerStage
  | dialing
  | greeting (link : Nat)
  | session (link : Nat)
  | pausing
  | stopped (result : Except LinkError Unit)

inductive WorkerInput
  | dialed (link : Nat)
  | dialFailed (error : LinkError)
  | greeted (peer : String)
  | greetingFailed (error : LinkError)
  | greetingTimedOut
  /-- The session is over, and its link closed for this reason. -/
  | sessionEnded (reason : String)
  | reported (report : Report)
  | pauseOver
  | shutdown

inductive WorkerOutput
  | dial
  | greet (link : Nat)
  | close (link : Nat) (reason : String)
  | serve (link : Nat)
  | emit (event : WorkerEvent)
  | countReconnect
  | pause (delay : Span)
deriving DecidableEq, Repr

structure WorkerPlan where
  /-- Asked with the number of failures in a row. -/
  policy : UInt32 → Option Span
  greetingLimit : Span := .ofSeconds 30

structure WorkerLoop where
  stage : WorkerStage := .dialing
  failures : UInt32 := 0
  /-- The link that others may use. -/
  current : Option Nat := none
  stopping : Bool := false

namespace WorkerLoop

/-- The most that failures are counted to. -/
def failuresMax : UInt32 := 0xFFFFFFFF

def bump (failures : UInt32) : UInt32 := if failures = failuresMax then failures else failures + 1

def stopWith (w : WorkerLoop) (result : Except LinkError Unit) : WorkerLoop :=
  { w with stage := .stopped result }

/-- Asks the policy; without a delay the last error is the result. -/
def consult (plan : WorkerPlan) (w : WorkerLoop) (last : LinkError) :
    WorkerLoop × List WorkerOutput :=
  match plan.policy w.failures with
  | none => (w.stopWith (.error last),[])
  | some delay => ({ w with stage := .pausing },[.pause delay])

/-- An attempt failed. Only a failure of the connection is worth another one. -/
def fail (plan : WorkerPlan) (w : WorkerLoop) (e : LinkError) : WorkerLoop × List WorkerOutput :=
  if e.isTransport then
    let (w,out) := { w with failures := bump w.failures }.consult plan e
    (w,.emit (.connectFailed e.message) :: out)
  else (w.stopWith (.error e),[])

def greetingText (plan : WorkerPlan) : String :=
  s!"no hello answer within {plan.greetingLimit.millis}ms"

def endSession (plan : WorkerPlan) (w : WorkerLoop) (reason : String) :
    WorkerLoop × List WorkerOutput :=
  let w := { w with current := none }
  if w.stopping then (w.stopWith (.ok ()),[.emit (.disconnected reason)])
  else
    let (w,out) := w.consult plan (.lost reason)
    (w,.emit (.disconnected reason) :: .countReconnect :: out)

def begin (w : WorkerLoop) : WorkerLoop × List WorkerOutput :=
  if w.stopping then (w.stopWith (.ok ()),[]) else ({ w with stage := .dialing },[.dial])

def shutdown (w : WorkerLoop) : WorkerLoop × List WorkerOutput :=
  let out := match w.current with
    | some link => [.close link "client shutting down"]
    | none => []
  let w := { w with current := none, stopping := true }
  match w.stage with
  | .session _ | .stopped _ => (w,out)
  | _ => (w.stopWith (.ok ()),out)

def step (plan : WorkerPlan) (w : WorkerLoop) : WorkerInput → WorkerLoop × List WorkerOutput
  | .shutdown => w.shutdown
  | .dialed link => match w.stage with
    | .dialing => ({ w with stage := .greeting link },[.greet link])
    | _ => (w,[])
  | .dialFailed e => match w.stage with
    | .dialing => w.fail plan e
    | _ => (w,[])
  | .greeted peer => match w.stage with
    | .greeting link =>
      ({ w with stage := .session link, failures := 0, current := some link },
        [.emit (.connected peer),.serve link])
    | _ => (w,[])
  | .greetingFailed e => match w.stage with
    | .greeting link =>
      let (w,out) := w.fail plan e
      (w,.close link e.message :: out)
    | _ => (w,[])
  | .greetingTimedOut => match w.stage with
    | .greeting link =>
      let (w,out) := w.fail plan (.handshake (greetingText plan))
      (w,.close link (greetingText plan) :: out)
    | _ => (w,[])
  | .reported report => match w.stage with
    | .session _ => (w,[.emit (.diagnostic report)])
    | _ => (w,[])
  | .sessionEnded reason => match w.stage with
    | .session _ => w.endSession plan reason
    | _ => (w,[])
  | .pauseOver => match w.stage with
    | .pausing => w.begin
    | _ => (w,[])

end WorkerLoop
end Tether
