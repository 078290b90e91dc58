import Tether.Cluster.Probing
import Tether.Cluster.Work

/-! A worker at work: it does what its loop asks for and tells the loop what came of it, one thing at a
time. A session is the loop of probes next to the workload; it is over when the probes give up, or the
workload is done and the link has closed, or the worker is to stop. -/
namespace Tether.Cluster

inductive WorkingStage
  | unstarted
  /-- Nothing to do until the loop asks for something. -/
  | idle
  | greeting (link : Nat) (greeting : Greeting) (due : Nat)
  | session (link : Nat) (probing : Probing) (work : Option Work)
  | pausing (due : Nat)
  /-- The workload has crashed, and the worker with it. -/
  | crashed

structure Working where
  worker : Nat
  stage : WorkingStage := .unstarted

namespace World

def tellWorker (w : World) (i : Nat) (input : WorkerInput) : World :=
  w.onWorker i fun x => { x with inputs := x.inputs ++ [input] }

def addPipes (w : World) : World × Nat × Nat :=
  let (w,a) := w.addPipe
  let (w,b) := w.addPipe
  (w,a,b)

/-- A stream arrives at the master; if nobody listens it ends at once. -/
def arrive (w : World) (addr : String) (source sink : Nat) : World :=
  if (w.master.map (·.listening)).getD false then
    w.onMaster fun m => { m with arriving := m.arriving ++ [.stream addr source sink] }
  else w.endPipe sink

end World

namespace Working

def rule (x : Worker) : DialRule :=
  match x.dials[x.attempts]? with
  | some rule => rule
  | none => x.dials.getLast?.getD .master

def noteAddress (addr : String) (dialed : List String) : List String :=
  if dialed.head? = some addr then dialed else addr :: dialed

def connect (w : World) (i : Nat) (x : Worker) (source sink : Nat) : World :=
  let (w,link) := w.addLink x.name .initiator x.addr
    { codec := x.codec, source, sink, traffic := x.traffic, registry := x.registry }
  w.tellWorker i (.dialed link)

def dial (w : World) (i : Nat) (x : Worker) : World :=
  let far := s!"{x.id}/{x.attempts + 1}"
  let w := w.onWorker i fun x =>
    { x with attempts := x.attempts + 1, dialed := noteAddress x.addr x.dialed }
  match rule x with
  | .hang => w
  | .fail e => w.tellWorker i (.dialFailed e)
  | .peer table =>
    let (w,near,away) := w.addPipes
    connect (w.addPeer { id := far, codec := x.codec, source := away, sink := near, table })
      i x near away
  | .master =>
    let (w,near,away) := w.addPipes
    connect (w.arrive far away near) i x near away

def obey (w : World) (i : Nat) (stage : WorkingStage) (out : WorkerOutput) :
    World × WorkingStage :=
  match w.workers[i]? with
  | none => (w,stage)
  | some x => match out with
    | .dial => (dial w i x,.idle)
    | .greet link => (w,.greeting link (.fresh link) (w.now + x.plan.greetingLimit.millis))
    | .close link reason => (w.closeLink link reason,stage)
    | .serve link =>
      (w,.session link (.begin link x.keepalive .echoClient) (some (.start link x.workload)))
    | .emit event => (w.onWorker i fun x => { x with events := event :: x.events },stage)
    | .countReconnect => (w.count x.traffic [.reconnect],stage)
    | .pause delay => (w,.pausing (w.now + delay.millis))

def obeyAll (w : World) (i : Nat) (stage : WorkingStage) : List WorkerOutput → World × WorkingStage
  | [] => (w,stage)
  | out :: rest =>
    let (w,stage) := obey w i stage out
    obeyAll w i stage rest

def advance (w : World) (i : Nat) (stage : WorkingStage)
    (result : WorkerLoop × List WorkerOutput) : World × WorkingStage :=
  obeyAll (w.onWorker i fun x => { x with loop := result.1 }) i stage result.2

def dropStage (w : World) : WorkingStage → World
  | .greeting _ g _ => g.drop w
  | .session _ p work =>
    let w := p.drop w
    match work with
    | some work => work.drop w
    | none => w
  | _ => w

/-- The session is over, for this reason unless the link closed before. -/
def endSession (w : World) (i link : Nat) (p : Option Probing) (work : Option Work)
    (reason : String) : World × WorkingStage :=
  let w := match work with
    | some work => work.drop w
    | none => w
  let w := match p with
    | some p => p.drop w
    | none => w
  let w := w.closeLink link reason
  let reason := ((w.links[link]?).bind (·.closeReason)).getD reason
  (w.tellWorker i (.sessionEnded reason),.idle)

def runWork (w : World) (i : Nat) : Option Work → World × Option Work
  | none => (w,none)
  | some work => match work.run w with
    | (w,.waits work) => (w,some work)
    | (w,.ends (.ok (some report))) => (w.tellWorker i (.reported report),none)
    | (w,.ends _) => (w,none)

/-- The probes and the workload take a turn; a workload that crashes leaves the link as it is. -/
def runSession (w : World) (i : Nat) (stopping : Bool) (link : Nat) (p : Probing)
    (work : Option Work) : World × WorkingStage :=
  match runWork w i work with
  | (w,some .crashed) => (p.drop w,.crashed)
  | (w,work) => match p.run w with
    | (w,.ends (_,e)) => endSession w i link none work e.message
    | (w,.waits p) =>
      if stopping then endSession w i link (some p) work "client shutting down"
      else if work.isNone && !w.connected link then
        endSession w i link (some p) work "connection closed"
      else (w,.session link p work)

def runGreeting (w : World) (i link : Nat) (g : Greeting) (due : Nat) : World × WorkingStage :=
  match g.run w with
  | (w,.ends (.ok peer)) =>
    let peer := ((w.links[link]?).bind (·.peerName)).getD peer
    (w.tellWorker i (.greeted peer),.idle)
  | (w,.ends (.error e)) => (w.tellWorker i (.greetingFailed e),.idle)
  | (w,.waits g) =>
    if due ≤ w.now then (g.drop (w.tellWorker i .greetingTimedOut),.idle)
    else (w,.greeting link g due)

def runStage (w : World) (i : Nat) (x : Worker) : WorkingStage → World × WorkingStage
  | .unstarted => advance w i .idle x.loop.begin
  | .idle => (w,.idle)
  | .greeting link g due => runGreeting w i link g due
  | .session link p work => runSession w i x.loop.stopping link p work
  | .pausing due =>
    if due ≤ w.now then (w.tellWorker i .pauseOver,.idle) else (w,.pausing due)
  | .crashed => (w,.crashed)

/-- What the run came to, once the loop has stopped. -/
def finding : Except LinkError Unit → Finding
  | .ok () => .done
  | .error e => .failed e

def settle (i : Nat) (x : Worker) : World × WorkingStage → World × Option Working
  | (w,.crashed) => (w.find x.id .panicked,none)
  | (w,stage) => (w,some ⟨i,stage⟩)

def run (w : World) (a : Working) : World × Option Working :=
  match w.workers[a.worker]? with
  | none => (w,none)
  | some x => match x.loop.stage with
    | .stopped result => (dropStage (w.find x.id (finding result)) a.stage,none)
    | _ => match x.inputs with
      | input :: rest =>
        let w := w.onWorker a.worker fun x => { x with inputs := rest }
        let (w,stage) := advance w a.worker a.stage (x.loop.step x.plan input)
        (w,some { a with stage })
      | [] => settle a.worker x (runStage w a.worker x a.stage)

def drop (w : World) (a : Working) : World := dropStage w a.stage

def wakes (a : Working) : List Nat :=
  match a.stage with
  | .greeting _ g due => due :: g.wakes
  | .session _ p _ => p.wakes
  | .pausing due => [due]
  | _ => []

end Working
end Tether.Cluster
