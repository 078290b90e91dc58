import Tether.Batch.Remote
import Tether.Cluster.Exchange
import Tether.Transfer.Receiver

/-! Requests while they are served. Most services answer at once; some wait, ask back on the same
link, or pass a batch to a sink, which may be scripted or at the far end of another link. -/
namespace Tether.Cluster

/-! ### Sinks -/

inductive SinkResult
  | answered (result : Except BatchError (List Event))
  | crashed

/-- The identifier of an event that was in no batch. -/
def foreignUid : Uid := ⟨0,0xdead⟩

def indexed (batch : List Event) : List Event :=
  batch.zipIdx.map fun (e,i) => ⟨e.uid,.object [("index",.whole i),("was",e.msg)]⟩

namespace SinkRule

/-- What the sink makes of its `k`-th batch, counted from one. -/
def result (rule : SinkRule) (k : Nat) (batch : List Event) : SinkResult :=
  if k ≤ rule.failFirst then .answered (.error (.notConnected s!"run {k}"))
  else match rule.answer with
    | .echo => .answered (.ok batch)
    | .silent => .answered (.ok [])
    | .indexed => .answered (.ok (indexed batch))
    | .odd =>
      .answered (.ok (((indexed batch).zipIdx.filter fun (_,i) => i % 2 = 1).map Prod.fst))
    | .reversed => .answered (.ok (indexed batch).reverse)
    | .doubled => .answered (.ok (batch.flatMap fun e => [e,⟨e.uid,.str "second"⟩]))
    | .foreign => .answered (.ok (⟨foreignUid,.str "foreign"⟩ :: batch))
    | .fails e => .answered (.error (.link e))
    | .closed => .answered (.error .queueClosed)
    | .crash => .crashed

end SinkRule

inductive SinkRun
  | asking (exchange : Exchange)
  | delayed (due : Nat) (rule : SinkRule) (k : Nat) (batch : List Event)

namespace SinkRun

def runExchange (w : World) (x : Exchange) : World × Turn SinkRun SinkResult :=
  match x.run w with
  | (w,.waits x) => (w,.waits (.asking x))
  | (w,.ends outcome) => (w,.ends (.answered (Batch.readReply outcome)))

def forward (w : World) (link : Nat) (batch : List Event) : World × Turn SinkRun SinkResult :=
  runExchange w (.fresh { link, tag := .batch, payload := Batch.request batch })

def beginRule (w : World) (rule : SinkRule) (k : Nat) (batch : List Event) : Turn SinkRun SinkResult :=
  if rule.delay = 0 then .ends (rule.result k batch)
  else .waits (.delayed (w.now + rule.delay) rule k batch)

def run (w : World) : SinkRun → World × Turn SinkRun SinkResult
  | .asking x => runExchange w x
  | .delayed due rule k batch =>
    if due ≤ w.now then (w,.ends (rule.result k batch)) else (w,.waits (.delayed due rule k batch))

def drop (w : World) : SinkRun → World
  | .asking x => x.drop w
  | .delayed .. => w

def wakes : SinkRun → List Nat
  | .asking x => x.wakes
  | .delayed due .. => [due]

end SinkRun

/-! ### Services -/

inductive DispatchStage
  | fresh
  | delayed (due : Nat)
  | asking (exchange : Exchange)
  | sinking (run : SinkRun)

/-- A request that is being served. -/
structure Dispatch where
  link : Nat
  counter : UInt32
  tag : Tag
  payload : List UInt8
  stage : DispatchStage := .fresh

/-- How serving ends: with a reply, or in a crash that leaves none. -/
inductive Served
  | reply (reply : Reply)
  | crashed

namespace Dispatch

abbrev Step := World × Turn Dispatch Served

def replyWith (w : World) (reply : Reply) : Step := (w,.ends (.reply reply))

def settleExchange (d : Dispatch) : World × Turn Exchange Outcome → Step
  | (w,.waits x) => (w,.waits { d with stage := .asking x })
  | (w,.ends outcome) =>
    replyWith w (.ofResult (outcome.map fun (_,payload) => .ok payload))

def settleSink (d : Dispatch) : World × Turn SinkRun SinkResult → Step
  | (w,.waits s) => (w,.waits { d with stage := .sinking s })
  | (w,.ends (.answered result)) => replyWith w (.ofResult (Batch.reply result))
  | (w,.ends .crashed) => (w,.ends .crashed)

/-- Counts a run of the service and tells its number. -/
def countRun (w : World) (d : Dispatch) : World × Nat :=
  match w.streams[d.link]? with
  | none => (w,1)
  | some s =>
    let entries := w.registries.getD s.registry []
    let k := ((entries.find? (·.tag == d.tag)).map (·.runs)).getD 0 + 1
    ({ w with
      registries := w.registries.modify s.registry fun entries =>
        entries.map fun e => if e.tag == d.tag then { e with runs := k } else e
      moves := w.moves + 1 },k)

def batch (w : World) (d : Dispatch) (rule : SinkRule) : Step :=
  match Batch.readRequest d.payload with
  | .error e => replyWith w (.ofResult (.error e))
  | .ok events =>
    let (w,k) := countRun w d
    d.settleSink (w,SinkRun.beginRule w rule k events)

def admission (w : World) (d : Dispatch) : Step :=
  match w.master with
  | none => replyWith w (.ok [])
  | some m =>
    let w := w.tick
    let (roster,links,reply,entered) := m.roster.hello w.links m.name d.link d.payload w.wall
    let w := { w with links }.onMaster fun m => { m with roster }
    replyWith (match entered with
      | some name => w.start (.leave name d.link)
      | none => w) reply

def heartbeat (w : World) (d : Dispatch) : World :=
  match (w.links[d.link]?).bind (·.peerName) with
  | none => w
  | some name =>
    let w := w.tick
    w.onMaster fun m => { m with roster := m.roster.touch name w.wall }

def receive (w : World) (d : Dispatch) (directory : Location) : Step :=
  let (disk,result) := receiveUpload directory w.disk d.payload
  replyWith { w with disk, moves := w.moves + 1 } (.ofResult result)

def serve (w : World) (d : Dispatch) (c : Connection) : Service → Step
  | .echo => replyWith w (.ok d.payload)
  | .echoAs tag => replyWith w ⟨tag,d.payload⟩
  | .acknowledge => replyWith w (.okText s!"received {d.payload.length} bytes")
  | .receive directory => receive w d directory
  | .batch rule => batch w d rule
  | .admission => admission w d
  | .heartbeat => replyWith (heartbeat w d) ⟨.okMaster,d.payload⟩
  | .fail e => replyWith w (.ofResult (.error e))
  | .constant reply => replyWith w reply
  | .delayed ms => (w,.waits { d with stage := .delayed (w.now + ms) })
  | .greet =>
    replyWith (w.onLink d.link (·.markReady (Utf8.lossy d.payload))) (.okText c.name)
  | .describe => replyWith w (.okText s!"{d.counter} {d.tag} {c.peerAddr}")
  | .ask =>
    d.settleExchange ((Exchange.fresh
      { link := d.link, tag := .echoMaster, payload := d.payload }).run w)
  | .hangUp => replyWith (w.closeLink d.link "asked to hang up") (.ok d.payload)
  | .crash => (w,.ends .crashed)

/-- The gate comes first, then the table of commands. -/
def begin (w : World) (d : Dispatch) : Step :=
  match w.links[d.link]?, w.streams[d.link]? with
  | some c, some s =>
    if !c.admits d.tag then replyWith w (.early d.tag)
    else match (w.registries.getD s.registry []).find? (·.tag == d.tag) with
      | some entry => serve w d c entry.service
      | none => replyWith w (.unknown d.tag)
  | _, _ => (w,.ends .crashed)

def run (w : World) (d : Dispatch) : Step :=
  match d.stage with
  | .fresh => begin w d
  | .delayed due => if due ≤ w.now then replyWith w (.ok d.payload) else (w,.waits d)
  | .asking x => d.settleExchange (x.run w)
  | .sinking s => d.settleSink (s.run w)

def drop (w : World) (d : Dispatch) : World :=
  match d.stage with
  | .asking x => x.drop w
  | .sinking s => s.drop w
  | _ => w

def wakes (d : Dispatch) : List Nat :=
  match d.stage with
  | .delayed due => [due]
  | .asking x => x.wakes
  | .sinking s => s.wakes
  | .fresh => []

end Dispatch
end Tether.Cluster
