import Tether.Cluster.Script

/-! What a cluster shows after each step of a script, and at its end. -/
namespace Tether.Cluster

/-- The number that a frame is shown under: that of a request counts from the first one that came; a
reply has its counter, or the number of the request that the counter was taken from. -/
inductive FrameNumber
  | plain (n : Nat)
  | taken (k : Nat)

def FrameNumber.value : FrameNumber → Nat
  | .plain n => n
  | .taken k => k

structure ShownFrame where
  number : FrameNumber
  frame : Frame

structure WorkerReport where
  connected : Bool
  hasLink : Bool
  attempts : Nat
  events : List WorkerEvent

structure BatcherReport where
  batches : List (List String)
  isOpen : Bool
  outstanding : Nat
  waiting : List String

structure StepReport where
  result : StepResult
  done : List (String × Finding)
  frames : List (String × List ShownFrame)
  ended : List (String × String)
  handlers : List (String × Connection)
  trackers : List (String × Tracker)
  clients : List (String × String)
  workers : List (String × WorkerReport)
  batchers : List (String × BatcherReport)

structure FinalReport where
  traffic : List (String × Traffic)
  dialed : List (String × List String)
  files : List (String × DiskNode)

def numberOf (p : Peer) (h : Header) : FrameNumber :=
  if h.isResponse then
    match p.taken.lookup h.counter with
    | some k => .taken k
    | none => .plain h.counter.toNat
  else .plain (h.counter - p.first.getD 0).toNat

/-- Requests first, then by number, then by chunk; otherwise in the order of arrival. -/
def inOrder (a b : ShownFrame) : Bool :=
  let kind (f : ShownFrame) : Nat := f.frame.header.isResponse.toNat
  if kind a ≠ kind b then kind a < kind b
  else if a.number.value ≠ b.number.value then a.number.value < b.number.value
  else a.frame.header.index.toNat ≤ b.frame.header.index.toNat

def shownFrames (p : Peer) : List ShownFrame :=
  (p.frames.map fun f => ⟨numberOf p f.header,f⟩).mergeSort inOrder

def labelOf (b : Batcher) (uid : Uid) : String :=
  match b.labels.find? (·.2 == uid) with
  | some (label,_) => label
  | none => uid.text

def workerReport (w : World) (x : Worker) : WorkerReport :=
  { connected := (x.loop.current.map w.connected).getD false
    hasLink := x.loop.current.isSome
    attempts := x.attempts
    events := x.events.reverse }

def batcherReport (b : Batcher) : BatcherReport :=
  { batches := b.batches.reverse.map fun batch => batch.map (labelOf b)
    isOpen := b.queue.isOpen
    outstanding := b.queue.outstanding
    waiting := ((b.labels.filter fun l => b.queue.isPending l.2).map Prod.fst).eraseDups.mergeSort }

def reportStep (w : World) (result : StepResult) : StepReport :=
  { result
    done := w.findings
    frames := (w.peers.map fun p => (p.id,shownFrames p)).filter (!·.2.isEmpty)
    ended := w.peers.filterMap fun p => p.ended.map (p.id,·)
    handlers := w.named.filterMap fun (id,i) => (w.links[i]?).map (id,·)
    trackers := w.trackers
    clients := match w.master with
      | none => []
      | some m => m.roster.clients.map fun e =>
        (e.name,((w.links[e.link]?).map (·.peerAddr)).getD "")
    workers := w.workers.map fun x => (x.id,workerReport w x)
    batchers := w.batchers.filterMap fun b => b.id.map (·,batcherReport b) }

def clear (w : World) : World :=
  { w with
    findings := []
    peers := w.peers.map fun p => { p with frames := [] }
    workers := w.workers.map fun x => { x with events := [] }
    batchers := w.batchers.map fun b => { b with batches := [] } }

def reportEnd (w : World) : FinalReport :=
  let traffic (i : Nat) : Traffic := w.traffics.getD i {}
  { traffic :=
      (w.named.filterMap fun (id,i) => (w.streams[i]?).map fun s => (id,traffic s.traffic))
        ++ (w.workers.map fun x => (x.id,traffic x.traffic))
        ++ w.master.toList.map fun m => ("server",traffic m.traffic)
    dialed := w.workers.map fun x => (x.id,x.dialed.reverse)
    files := (w.disk.list inbox).map fun (name,node) => (String.ofList name,node) }

/-- How long a step is given to come to rest. -/
def stepTime : Nat := 1

def runStep (c : Cluster) (step : Step) : Cluster × StepReport :=
  let (c,result) := perform c step
  let c := c.pass stepTime
  let report := reportStep c.world result
  ({ c with world := clear c.world },report)

def runSteps (c : Cluster) : List Step → Cluster × List StepReport
  | [] => (c,[])
  | step :: rest =>
    let (c,report) := runStep c step
    let (c,reports) := runSteps c rest
    (c,report :: reports)

def runScript (steps : List Step) : List StepReport × FinalReport :=
  let (c,reports) := runSteps {} steps
  (reports,reportEnd c.world)

end Tether.Cluster
