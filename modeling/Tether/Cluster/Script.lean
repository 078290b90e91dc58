import Tether.Cluster.Schedule

/-! Scripts that build a cluster and drive it. A step is carried out at once; then a millisecond
passes, so that everything comes to rest before the report is taken. -/
namespace Tether.Cluster

def inbox : Location := ["inbox".toList]

namespace Registry

def builtins : Registry := [⟨.echo,.echo,0⟩,⟨.string,.acknowledge,0⟩]

def worker : Registry := builtins ++ [⟨.echoMaster,.echoAs .okClient,0⟩]

def master (receives : Bool) : Registry :=
  builtins ++ [⟨.hello,.admission,0⟩,⟨.echoClient,.heartbeat,0⟩]
    ++ if receives then [⟨.file,.receive inbox,0⟩] else []

/-- A service under a tag, in place of the one that was there. -/
def put (r : Registry) (tag : Tag) (service : Service) : Registry :=
  List.filter (·.tag != tag) r ++ [⟨tag,service,0⟩]

end Registry

/-! ### Steps -/

structure LinkSpec where
  id : String
  name : String := "node"
  role : Role := .initiator
  codec : Codec := {}
  registry : Registry := []
  allowance : Option Nat := none
  table : AutoTable := []

structure MasterSpec where
  name : String := "master"
  bind : String := "memory"
  codec : Codec := {}
  registry : Registry
  expiryMs : Nat := 120000
  interval : Nat := 60000
  greetingLimit : Nat := 30000
  listens : Bool := true

structure WorkerSpec where
  id : String
  name : String
  addr : String := "master:1516"
  codec : Codec := {}
  registry : Registry := Registry.worker
  keepalive : KeepaliveSettings := {}
  workload : Workload := .idle
  policy : RetryPolicy := .fixed {}
  greetingLimit : Nat := 30000
  dials : List DialRule := []
  runs : Bool := true

/-- The sink of a batcher, by name. -/
inductive SinkSpec
  | link (id : String)
  | worker (id : String)
  | rule (rule : SinkRule)

structure BatcherSpec where
  id : String
  settings : CollectorSettings := {}
  sink : SinkSpec := .rule {}
  runs : Bool := true

inductive CallSpec
  | refused (error : LinkError)
  | greeting
  | request (tag : Tag) (payload : List UInt8) (limit : Option Nat)
  | call (tag : Tag) (payload : List UInt8)
  | string (size : Nat)
  | file (path : String)
  | numbers (workload : Workload)
  | work (workload : Workload)
  | ready
  | closed
  | serve (counter : UInt32) (tag : Tag) (payload : List UInt8)
  | probe (settings : KeepaliveSettings) (tag : Tag)
  | response (label : String) (limit : Option Nat)
  | gather (events : Nat) (settings : CollectorSettings)
  | sendTo (client : String) (tag : Tag) (payload : List UInt8)

/-- A counter as scripts give it: as a number, or as that of a request that came to a peer. -/
inductive CounterSpec
  | exactly (counter : UInt32)
  | ofRequest (k : Nat)

inductive Step
  | handler (spec : LinkSpec)
  | pair (a b : LinkSpec)
  | master (spec : MasterSpec)
  | dial (id : String) (codec : Codec) (table : AutoTable)
  | acceptFault (error : LinkError)
  | worker (spec : WorkerSpec)
  | batcher (spec : BatcherSpec)
  | runBatcher (id : String)
  | file (path : String) (content : List UInt8)
  | directory (path : String)
  | call (id on : String) (spec : CallSpec)
  | abort (id : String)
  | send (id : String) (counter : CounterSpec) (response : Option Bool) (tag : Tag)
      (payload : List UInt8)
  | raw (id : String) (bytes : List UInt8)
  | hangUp (id : String)
  | markReady (id name : String)
  | close (id reason : String)
  | processResponse (id : String) (counter : CounterSpec) (tag : Tag) (payload : List UInt8)
  | same (id other : String)
  | checkKeepalives
  | shutdown (id : Option String)
  | event (id label : String) (body : Json)
  | forget (id label : String)
  | take (id label : String)
  | closeQueue (id : String)
  | pass (ms : Nat)
  | nothing

inductive StepResult
  | none
  | text (text : String)
  | flag (flag : Bool)
  | body (body : Json)
  | failed (error : BatchError)

/-! ### Names -/

namespace World

def worker? (w : World) (id : String) : Option Nat :=
  w.workers.findIdx? (·.id == id)

def peer? (w : World) (id : String) : Option Nat := w.peers.findIdx? (·.id == id)

def batcher? (w : World) (id : String) : Option Nat := w.batchers.findIdx? (·.id == some id)

def clientMark : String := "client:"

/-- The link that a name stands for: a handler's, a worker's current one, or that of a client. -/
def link? (w : World) (on : String) : Option Nat :=
  match w.named.lookup on with
  | some link => some link
  | none => match w.worker? on with
    | some i => (w.workers[i]?).bind (·.loop.current)
    | none =>
      if on.startsWith clientMark then
        w.master.bind (·.roster.link? (on.drop clientMark.length).toString)
      else none

def uid? (w : World) (batcher : Nat) (label : String) : Option Uid :=
  match ((w.batchers[batcher]?).bind (·.labels.lookup label)) with
  | some uid => some uid
  | none => Uid.parse? label

/-- The counter meant, and the request number that it was taken from. -/
def counter (w : World) (peer : Option Nat) : CounterSpec → UInt32 × Option Nat
  | .exactly c => (c,none)
  | .ofRequest k =>
    let first := ((peer.bind (w.peers[·]?)).bind (·.first)).getD 0
    (first + UInt32.ofNat k,some k)

end World

/-! ### Building -/

def addHandler (w : World) (spec : LinkSpec) (addr : String) (source sink : Nat) : World :=
  let (w,traffic) := w.addTraffic
  let (w,registry) := w.addRegistry spec.registry
  let (w,link) := w.addLink spec.name spec.role addr
    { codec := spec.codec, source, sink, allowance := spec.allowance, traffic, registry }
  { w with named := w.named ++ [(spec.id,link)] }

def handler (w : World) (spec : LinkSpec) : World :=
  let (w,near,away) := w.addPipes
  let w := addHandler w spec s!"{spec.id}-peer" near away
  w.addPeer { id := spec.id, codec := spec.codec, source := away, sink := near, table := spec.table }

def pair (w : World) (a b : LinkSpec) : World :=
  let (w,near,away) := w.addPipes
  addHandler (addHandler w a s!"{a.id}-peer" near away) b s!"{b.id}-peer" away near

def master (c : Cluster) (spec : MasterSpec) : Cluster :=
  let (w,traffic) := c.world.addTraffic
  let (w,registry) := w.addRegistry spec.registry
  let w := { w with
    moves := w.moves + 1
    master := some {
      name := spec.name, codec := spec.codec, registry, traffic
      expiry := spec.expiryMs * 1000000, interval := spec.interval
      greetingLimit := spec.greetingLimit, listening := spec.listens } }
  let id := "server"
  { c with world := w }.add
    (if spec.listens then .admitting id { nextCheck := w.now + spec.interval }
     else .calling id (.settled
      (.failed (.config (.described s!"cannot listen on {spec.bind}")))))

def dial (w : World) (id : String) (codec : Codec) (table : AutoTable) : World :=
  let (w,near,away) := w.addPipes
  (w.arrive id near away).addPeer { id, codec, source := away, sink := near, table }

def worker (c : Cluster) (spec : WorkerSpec) : Cluster :=
  let (w,traffic) := c.world.addTraffic
  let (w,registry) := w.addRegistry spec.registry
  let i := w.workers.length
  let x : Worker :=
    { id := spec.id, name := spec.name, addr := spec.addr, codec := spec.codec, registry, traffic
      keepalive := spec.keepalive, workload := spec.workload, dials := spec.dials
      plan :=
        { policy := fun failures => spec.policy.next failures 0
          greetingLimit := .ofMillis spec.greetingLimit } }
  let c : Cluster := { c with world := { w with workers := w.workers ++ [x], moves := w.moves + 1 } }
  if spec.runs then c.add (.working { worker := i }) else c

def batcher (c : Cluster) (spec : BatcherSpec) : Cluster :=
  let w := c.world
  let sink : SinkTarget := match spec.sink with
    | .rule rule => .rule rule
    | .link id => .link ((w.link? id).getD w.links.length)
    | .worker id => .worker ((w.worker? id).getD w.workers.length)
  let i := w.batchers.length
  let b : Batcher := { id := some spec.id, settings := spec.settings, sink }
  let c : Cluster := { c with world := { w with batchers := w.batchers ++ [b], moves := w.moves + 1 } }
  if spec.runs then c.add (.batching spec.id { batcher := i }) else c

/-! ### Calls -/

def callOn (w : World) (link : Nat) (id : String) : CallSpec → World × Call
  | .refused e => (w,.settled (.failed e))
  | .greeting => (w,.greeting (.fresh link))
  | .request tag payload limit => (w,.bytes (.fresh { link, tag, payload, limit }))
  | .call tag payload => (w,.reply (.fresh { link, tag, payload }))
  | .string size =>
    (w,.bytes (.fresh { link, tag := .string, payload := Diagnostics.filler size }))
  | .file path => (w,.sending (.fresh link path))
  | .numbers workload => (w,.numbers (.start link workload))
  | .work workload => (w,.work (.start link workload))
  | .ready => (w,.ready link)
  | .closed => (w,.closed link)
  | .serve counter tag payload => (w,.serving { link, counter, tag, payload })
  | .probe settings tag =>
    let p := Probing.begin link settings tag
    (w.track id p.tracker,.probing p)
  | .response .. | .gather .. | .sendTo .. => (w,.settled .noLink)

def sendTo (w : World) (client : String) (tag : Tag) (payload : List UInt8) : Call :=
  match w.master.bind (·.roster.link? client) with
  | some link => .bytes (.fresh { link, tag, payload })
  | none => .settled (.failed (.unknownPeer client))

def response (w : World) (on label : String) (limit : Option Nat) : World × Call :=
  match w.batcher? on with
  | none => (w,.settled .noLink)
  | some i =>
    let (w,a) := Awaiting.begin w i ((w.uid? i label).getD foreignUid)
    (w,.response label a (limit.map fun ms => (w.now + ms,ms)))

def call (w : World) (id on : String) : CallSpec → World × Call
  | .response label limit => response w on label limit
  | .gather events settings => match w.worker? on with
    | some worker => (w,.gathering { worker, settings, events })
    | none => (w,.settled .noLink)
  | .sendTo client tag payload => (w,sendTo w client tag payload)
  | spec => match w.link? on with
    | some link => callOn w link id spec
    | none => (w,.settled .noLink)

/-! ### Acting -/

def send (w : World) (id : String) (counter : CounterSpec) (response : Option Bool) (tag : Tag)
    (payload : List UInt8) : World :=
  match w.peer? id with
  | none => w
  | some i =>
    let (c,k) := w.counter (some i) counter
    let w := match k with
      | some k => w.onPeer i fun p => { p with taken := (c,k) :: p.taken }
      | none => w
    Far.send w i ⟨c,tag,response.getD k.isSome,payload⟩ false

def onSink (w : World) (id : String) (f : World → Nat → World) : World :=
  match (w.peer? id).bind (w.peers[·]?) with
  | some p => f w p.sink
  | none => w

def close (w : World) (id reason : String) : World × StepResult :=
  match w.link? id with
  | some link => (w.closeLink link reason,.none)
  | none => (w,.text "no handler")

def processResponse (w : World) (id : String) (counter : CounterSpec) (tag : Tag)
    (payload : List UInt8) : World × StepResult :=
  match w.link? id with
  | none => (w,.none)
  | some link => match w.links[link]? with
    | none => (w,.none)
    | some c =>
      let m : Message := ⟨(w.counter (w.peer? id) counter).1,tag,true,payload⟩
      let (c,resolved) := c.processResponse m
      ((w.onLink link fun _ => c).countOn link (Connection.responseEvents m resolved),
        .flag resolved)

def shutdown (w : World) : Option String → World
  | none => w.onMaster fun m => { m with stopping := true }
  | some id => match w.worker? id with
    | none => w
    | some i => match w.workers[i]? with
      | none => w
      | some x =>
        let (loop,out) := x.loop.shutdown
        (Working.obeyAll (w.onWorker i fun x => { x with loop }) i .idle out).1

/-- Identifiers for labels that are none themselves. -/
def labelUid (batcher n : Nat) : Uid :=
  ⟨0xE2E2_D2D2_C2C2_4000 + UInt64.ofNat batcher,0x8000_0000_0000_0000 + UInt64.ofNat n⟩

def event (w : World) (id label : String) (body : Json) : World × StepResult :=
  match w.batcher? id with
  | none => (w,.none)
  | some i => match w.batchers[i]? with
    | none => (w,.none)
    | some b =>
      let uid := (Uid.parse? label).getD (labelUid i b.labels.length)
      match b.queue.send ⟨uid,body⟩ with
      | .error e => (w,.failed e)
      | .ok queue =>
        (w.onBatcher i fun b => { b with queue, labels := (label,uid) :: b.labels },
          .text "queued")

def onEvent (w : World) (id label : String) (f : EventQueue → Uid → EventQueue × StepResult) :
    World × StepResult :=
  match w.batcher? id with
  | none => (w,.none)
  | some i => match w.batchers[i]? with
    | none => (w,.none)
    | some b =>
      let (queue,result) := f b.queue ((w.uid? i label).getD foreignUid)
      (w.onQueue i fun _ => queue,result)

def act (w : World) : Step → World × StepResult
  | .handler spec => (handler w spec,.none)
  | .pair a b => (pair w a b,.none)
  | .dial id codec table => (dial w id codec table,.none)
  | .acceptFault e =>
    (w.onMaster fun m => { m with arriving := m.arriving ++ [.fault e] },.none)
  | .file path content =>
    let names := Path.steps path.toList
    let made := (w.disk.makeDirectories [] names.dropLast).toOption.getD w.disk
    ({ w with disk := made.put names (.file content) },.none)
  | .directory path =>
    ({ w with disk := (w.disk.makeDirectories [] (Path.steps path.toList)).toOption.getD w.disk },
      .none)
  | .send id counter response tag payload => (send w id counter response tag payload,.none)
  | .raw id bytes => (onSink w id fun w sink => w.pour sink bytes,.none)
  | .hangUp id => (onSink w id World.endPipe,.none)
  | .markReady id name => match w.link? id with
    | some link => (w.onLink link (·.markReady name),.none)
    | none => (w,.none)
  | .close id reason => close w id reason
  | .processResponse id counter tag payload => processResponse w id counter tag payload
  | .same id other => (w,.flag (w.link? id == w.link? other))
  | .checkKeepalives => (Admitting.check w,.none)
  | .shutdown id => (shutdown w id,.none)
  | .event id label body => event w id label body
  | .forget id label => onEvent w id label fun q uid =>
    let (q,found) := q.forget uid
    (q,.flag found)
  | .take id label => onEvent w id label fun q uid =>
    let (q,body) := q.collect uid
    (q,match body with
      | some body => .body body
      | none => .none)
  | .closeQueue id => match w.batcher? id with
    | some i => (w.onQueue i (·.close),.none)
    | none => (w,.none)
  | _ => (w,.none)

def perform (c : Cluster) : Step → Cluster × StepResult
  | .master spec => (master c spec,.none)
  | .worker spec => (worker c spec,.none)
  | .batcher spec => (batcher c spec,.none)
  | .runBatcher id => match c.world.batcher? id with
    | some i => (c.add (.batching id { batcher := i }),.none)
    | none => (c,.none)
  | .call id on spec =>
    let (world,call) := call c.world id on spec
    ({ c with world }.add (.calling id call),.none)
  | .abort id => (c.abort id,.none)
  | .pass ms => (c.rest.pass ms,.none)
  | step =>
    let (world,result) := act c.world step
    ({ c with world },result)

end Tether.Cluster
