import Tether.Cluster.Batching
import Tether.Cluster.Probing
import Tether.Cluster.Work

/-! Calls that the script makes in the background, each until it has come to something. -/
namespace Tether.Cluster

/-! ### Waiting for an answer of a batcher -/

structure Awaiting where
  batcher : Nat
  uid : Uid
  waiter : Nat
  stage : WaitStage := .looking

namespace Awaiting

def begin (w : World) (batcher : Nat) (uid : Uid) : World × Awaiting :=
  let waiter := ((w.batchers[batcher]?).map (·.nextWaiter)).getD 0
  (w.onBatcher batcher fun b => { b with nextWaiter := waiter + 1 },{ batcher, uid, waiter })

def run (w : World) (a : Awaiting) : World × Turn Awaiting (Option Json) :=
  match w.batchers[a.batcher]? with
  | none => (w,.ends none)
  | some b =>
    let asleep := match a.stage with
      | .parked => b.queue.isRegistered a.waiter
      | _ => false
    if asleep then (w,.waits a)
    else
      let (queue,stage) :=
        WaitStage.run a.uid a.waiter WaitStage.settleSteps b.queue a.stage
      let w := w.onQueue a.batcher fun _ => queue
      match stage with
      | .finished answer => (w,.ends answer)
      | stage => (w,.waits { a with stage })

def drop (w : World) (a : Awaiting) : World := w.onQueue a.batcher (·.unregister a.waiter)

end Awaiting

/-! ### Events through a batcher of its own -/

inductive GatherStage
  | unconnected
  | answering (batching : Option Batching) (ids : List Uid) (awaiting : Option Awaiting)
  | closing (batching : Option Batching)

/-- A worker's events: once it is connected they go through a batcher to the master, and their answers
are counted. -/
structure Gathering where
  worker : Nat
  settings : CollectorSettings
  events : Nat
  answered : Nat := 0
  stage : GatherStage := .unconnected

namespace Gathering

def event (name : String) (i : Nat) : Json :=
  .object [("id",.str name),("msg",.str s!"event {i}")]

def sendAll (q : EventQueue) (events : List Event) : EventQueue :=
  events.foldl (fun q e => match q.send e with
    | .ok q => q
    | .error _ => q) q

/-- Identifiers that nothing else in the world has. -/
def freshUids (batcher count : Nat) : List Uid :=
  (List.range count).map fun i => ⟨0xF1E1_D1C1_B1A1_4000 + UInt64.ofNat batcher,UInt64.ofNat i⟩

def connect (w : World) (g : Gathering) (x : Worker) : World × Gathering :=
  let i := w.batchers.length
  let uids := freshUids i g.events
  let queue := sendAll {} (uids.zipIdx.map fun (uid,k) => ⟨uid,event x.name k⟩)
  ({ w with
      batchers := w.batchers ++ [{ id := none, settings := g.settings, sink := .worker g.worker, queue }]
      moves := w.moves + 1 },
    { g with stage := .answering (some { batcher := i }) uids none })

def runBatching (w : World) : Option Batching → World × Option Batching
  | none => (w,none)
  | some b => b.run w

/-- Collects answers in the order of the events, as far as they have come. -/
def collect (w : World) (batcher answered : Nat) (awaiting : Option Awaiting) :
    List Uid → World × Nat × Option Awaiting × List Uid
  | [] => (w,answered,none,[])
  | uid :: rest =>
    let (w,a) := match awaiting with
      | some a => (w,a)
      | none => Awaiting.begin w batcher uid
    match a.run w with
    | (w,.waits a) => (w,answered,some a,uid :: rest)
    | (w,.ends none) => collect w batcher answered none rest
    | (w,.ends (some _)) => collect w batcher (answered + 1) none rest

def run (w : World) (g : Gathering) : World × Turn Gathering Nat :=
  match g.stage with
  | .unconnected => match w.workers[g.worker]? with
    | none => (w,.ends 0)
    | some x =>
      if (x.loop.current.map w.connected).getD false then
        let (w,g) := connect w g x
        (w,.waits g)
      else (w,.waits g)
  | .answering batching ids awaiting =>
    let batcher := (batching.map (·.batcher)).getD 0
    let (w,batching) := runBatching w batching
    let (w,answered,awaiting,ids) := collect w batcher g.answered awaiting ids
    let g := { g with answered }
    if ids.isEmpty then
      (w.onQueue batcher (·.close),.waits { g with stage := .closing batching })
    else (w,.waits { g with stage := .answering batching ids awaiting })
  | .closing batching => match runBatching w batching with
    | (w,none) => (w,.ends g.answered)
    | (w,batching) => (w,.waits { g with stage := .closing batching })

def drop (w : World) (g : Gathering) : World :=
  match g.stage with
  | .answering (some b) _ _ | .closing (some b) => b.drop w
  | _ => w

def wakes (g : Gathering) : List Nat :=
  match g.stage with
  | .answering (some b) _ _ | .closing (some b) => b.wakes
  | _ => []

end Gathering

/-! ### Calls -/

inductive Call
  | settled (finding : Finding)
  | greeting (greeting : Greeting)
  | bytes (exchange : Exchange)
  | reply (exchange : Exchange)
  | sending (sending : Sending)
  | numbers (work : Work)
  | work (work : Work)
  | ready (link : Nat)
  | closed (link : Nat)
  | serving (dispatch : Dispatch)
  | probing (probing : Probing)
  | response (label : String) (awaiting : Awaiting) (limit : Option (Nat × Nat))
  | gathering (gathering : Gathering)

namespace Call

abbrev Step := World × Turn Call Finding

/-- Goes on in the same kind of call, or ends with a finding. -/
def lift {σ ρ : Type} (wrap : σ → Call) (finding : ρ → Finding) : World × Turn σ ρ → Step
  | (w,.waits s) => (w,.waits (wrap s))
  | (w,.ends r) => (w,.ends (finding r))

def ofResult {α : Type} (finding : α → Finding) : Except LinkError α → Finding
  | .ok a => finding a
  | .error e => .failed e

def reportNumbers : Option Report → Finding
  | some (.performance size iterations) => .numbers size iterations.toNat
  | some (.concurrency requests failures) => .numbers requests.toNat failures.toNat
  | report => .report report

def ofSent : Sent → Finding
  | .result r => ofResult .receipt r
  | .crashed => .panicked

/-- A workload that has crashed takes its call with it. -/
def liftWork (wrap : Work → Call) (finding : Work.Result → Finding) :
    World × Turn Work Work.Result → Step
  | (w,.waits .crashed) => (w,.ends .panicked)
  | ran => lift wrap finding ran

def ofServed : Served → Finding
  | .reply r => .reply r
  | .crashed => .panicked

def ready? (w : World) (link : Nat) : Option Finding :=
  match w.links[link]? with
  | none => some .noLink
  | some c => match c.phase with
    | .ready => some .done
    | .disconnected => some (.failed c.lostError)
    | _ => none

def closed? (w : World) (link : Nat) : Option Finding :=
  match w.links[link]? with
  | none => some .noLink
  | some c => if c.isConnected then none else some (.reason c.closeReason)

def orWait (w : World) (call : Call) : Option Finding → Step
  | some finding => (w,.ends finding)
  | none => (w,.waits call)

def runResponse (w : World) (label : String) (a : Awaiting) (limit : Option (Nat × Nat)) : Step :=
  match a.run w with
  | (w,.ends answer) => (w,.ends (.answer answer))
  | (w,.waits a) => match limit with
    | some (due,ms) =>
      if due ≤ w.now then (a.drop w,.ends (.unanswered label ms))
      else (w,.waits (.response label a limit))
    | none => (w,.waits (.response label a none))

def runProbing (w : World) (id : String) (p : Probing) : Step :=
  match p.run w with
  | (w,.ends (tracker,e)) => (w.track id tracker,.ends (.failed e))
  | (w,.waits q) =>
    (if q.tracker = p.tracker then w else w.track id q.tracker,.waits (.probing q))

def run (w : World) (id : String) : Call → Step
  | .settled finding => (w,.ends finding)
  | .greeting g => lift .greeting (ofResult .text) (g.run w)
  | .bytes x => lift .bytes (ofResult fun (_,payload) => .bytes payload) (x.run w)
  | .reply x => lift .reply (ofResult fun (tag,payload) => .reply ⟨tag,payload⟩) (x.run w)
  | .sending s => lift .sending ofSent (s.run w)
  | .numbers k => liftWork .numbers (ofResult reportNumbers) (k.run w)
  | .work k => liftWork .work (ofResult .report) (k.run w)
  | .ready link => orWait w (.ready link) (ready? w link)
  | .closed link => orWait w (.closed link) (closed? w link)
  | .serving d => lift .serving ofServed (d.run w)
  | .probing p => runProbing w id p
  | .response label a limit => runResponse w label a limit
  | .gathering g => lift .gathering .count (g.run w)

def drop (w : World) : Call → World
  | .greeting g => g.drop w
  | .bytes x | .reply x => x.drop w
  | .sending s => s.drop w
  | .numbers k | .work k => k.drop w
  | .serving d => d.drop w
  | .probing p => p.drop w
  | .response _ a _ => a.drop w
  | .gathering g => g.drop w
  | _ => w

def wakes : Call → List Nat
  | .greeting g => g.wakes
  | .bytes x | .reply x => x.wakes
  | .serving d => d.wakes
  | .probing p => p.wakes
  | .response _ _ (some (due,_)) => [due]
  | .gathering g => g.wakes
  | _ => []

end Call
end Tether.Cluster
