import Tether.Batch.Collector
import Tether.Link.Inbound
import Tether.Link.Keepalive
import Tether.Master.Roster
import Tether.Transfer.Disk
import Tether.Worker.Reconnect

/-! A cluster in one value: links over byte pipes, the master, the workers, the batchers, a disk, and
a clock that stands still while anything can run. Links, pipes and the rest are known by number. Each
change of the world is counted, so that a run of everything that changed nothing shows that all is at
rest. -/
namespace Tether.Cluster

/-- One direction of a byte stream, without bound and without delay. -/
structure Pipe where
  /-- What has not been read, the last part first. -/
  parts : List (List UInt8) := []
  ended : Bool := false
deriving Inhabited

/-! ### Scripted parts -/

/-- How a scripted sink answers a batch. -/
inductive SinkAnswer
  | echo
  | silent
  | indexed
  | odd
  | reversed
  | doubled
  | foreign
  | fails (error : LinkError)
  | closed
  | crash
deriving Inhabited

structure SinkRule where
  delay : Nat := 0
  failFirst : Nat := 0
  answer : SinkAnswer := .echo
deriving Inhabited

inductive Service
  | echo
  | echoAs (tag : Tag)
  | acknowledge
  | receive (directory : Location)
  | batch (rule : SinkRule)
  /-- The master's hello and its answer to probes. -/
  | admission
  | heartbeat
  | fail (error : LinkError)
  | constant (reply : Reply)
  | delayed (ms : Nat)
  | greet
  | describe
  | ask
  | hangUp
  | crash
deriving Inhabited

structure ServiceEntry where
  tag : Tag
  service : Service
  runs : Nat := 0

abbrev Registry := List ServiceEntry

/-- What a peer's reply to a request carries. -/
inductive AutoData
  | payload
  | length
  | digest
  | bytes (bytes : List UInt8)

structure AutoRule where
  tag : Tag := .ok
  data : AutoData := .bytes []
  delay : Nat := 0
  close : Bool := false

/-- Replies by command; the entry without a command is for all others. -/
abbrev AutoTable := List (Option Tag × Option AutoRule)

inductive DialRule
  | hang
  | fail (error : LinkError)
  | peer (table : AutoTable)
  | master

/-! ### Parts of the world -/

/-- What a link has beside its connection. -/
structure Stream where
  codec : Codec
  inbound : Inbound := {}
  source : Nat
  sink : Nat
  writable : Bool := true
  /-- How many more bytes may be written. -/
  allowance : Option Nat := none
  traffic : Nat
  registry : Nat

/-- The far end of a link, played by the script. -/
structure Peer where
  id : String
  codec : Codec
  source : Nat
  sink : Nat
  decoder : Decoder := {}
  reassembler : Reassembler := {}
  ended : Option String := none
  /-- The counter of the first request that came. -/
  first : Option UInt32 := none
  /-- Counters of requests that the script has used. -/
  taken : List (UInt32 × Nat) := []
  table : AutoTable := []
  /-- Frames that came since the last report. -/
  frames : List Frame := []

inductive Arriving
  | stream (addr : String) (source sink : Nat)
  | fault (error : LinkError)

structure Master where
  name : String := "master"
  codec : Codec := {}
  registry : Nat
  traffic : Nat
  /-- In units of the wall clock. -/
  expiry : Nat := 120000000000
  interval : Nat := 60000
  greetingLimit : Nat := 30000
  roster : Roster := {}
  arriving : List Arriving := []
  stopping : Bool := false
  listening : Bool := true

structure Worker where
  id : String
  name : String
  addr : String
  codec : Codec
  registry : Nat
  traffic : Nat
  keepalive : KeepaliveSettings
  workload : Workload
  plan : WorkerPlan
  dials : List DialRule
  loop : WorkerLoop := {}
  attempts : Nat := 0
  /-- Addresses dialed, the last one first. -/
  dialed : List String := []
  /-- Events since the last report, the last one first. -/
  events : List WorkerEvent := []
  /-- What the loop has not been told yet. -/
  inputs : List WorkerInput := []

inductive SinkTarget
  | link (i : Nat)
  | worker (i : Nat)
  | rule (rule : SinkRule)

structure Batcher where
  /-- None for one that a worker made for itself. -/
  id : Option String
  settings : CollectorSettings := {}
  sink : SinkTarget
  queue : EventQueue := {}
  /-- How many batches its scripted sink has been given. -/
  runs : Nat := 0
  /-- Those of them since the last report, the last one first. -/
  batches : List (List Uid) := []
  labels : List (String × Uid) := []
  nextWaiter : Nat := 0

/-- Something that begins to run beside what began it. -/
inductive Start
  | read (link : Nat)
  | listen (peer : Nat)
  | watch (link : Nat) (due ms : Nat)
  | leave (name : String) (link : Nat)
  | send (peer : Nat) (due : Nat) (message : Message) (close : Bool)

/-- What a background call came to. -/
inductive Finding
  | done
  | panicked
  | noLink
  | failed (error : LinkError)
  | batchFailed (error : BatchError)
  | unanswered (label : String) (ms : Nat)
  | text (text : String)
  | bytes (bytes : List UInt8)
  | reply (reply : Reply)
  | receipt (receipt : Receipt)
  | numbers (a b : Nat)
  | report (report : Option Report)
  | reason (reason : Option String)
  | answer (body : Option Json)
  | count (n : Nat)

structure World where
  now : Nat := 0
  /-- A clock that never stands still; it only orders events. -/
  wall : Nat := 0
  moves : Nat := 0
  links : Links := []
  streams : List Stream := []
  pipes : List Pipe := []
  peers : List Peer := []
  traffics : List Traffic := []
  registries : List Registry := []
  named : List (String × Nat) := []
  master : Option Master := none
  workers : List Worker := []
  batchers : List Batcher := []
  disk : Disk := {}
  started : List Start := []
  findings : List (String × Finding) := []
  trackers : List (String × Tracker) := []

/-- Where an activity stands after it ran: it waits for something, or it has ended. -/
inductive Turn (σ ρ : Type)
  | waits (state : σ)
  | ends (result : ρ)

namespace World

/-! ### Changes -/

def onLink (w : World) (i : Nat) (f : Connection → Connection) : World :=
  { w with links := w.links.update i f, moves := w.moves + 1 }

def onStream (w : World) (i : Nat) (f : Stream → Stream) : World :=
  { w with streams := w.streams.modify i f, moves := w.moves + 1 }

def onPipe (w : World) (i : Nat) (f : Pipe → Pipe) : World :=
  { w with pipes := w.pipes.modify i f, moves := w.moves + 1 }

def onPeer (w : World) (i : Nat) (f : Peer → Peer) : World :=
  { w with peers := w.peers.modify i f, moves := w.moves + 1 }

def onWorker (w : World) (i : Nat) (f : Worker → Worker) : World :=
  { w with workers := w.workers.modify i f, moves := w.moves + 1 }

def onBatcher (w : World) (i : Nat) (f : Batcher → Batcher) : World :=
  { w with batchers := w.batchers.modify i f, moves := w.moves + 1 }

def onQueue (w : World) (i : Nat) (f : EventQueue → EventQueue) : World :=
  w.onBatcher i fun b => { b with queue := f b.queue }

def onMaster (w : World) (f : Master → Master) : World :=
  { w with master := w.master.map f, moves := w.moves + 1 }

def count (w : World) (traffic : Nat) (events : List TrafficEvent) : World :=
  { w with traffics := w.traffics.modify traffic (·.countAll events), moves := w.moves + 1 }

def start (w : World) (s : Start) : World :=
  { w with started := w.started ++ [s], moves := w.moves + 1 }

def find (w : World) (id : String) (finding : Finding) : World :=
  { w with findings := w.findings ++ [(id,finding)], moves := w.moves + 1 }

def track (w : World) (id : String) (tracker : Tracker) : World :=
  { w with
    trackers := w.trackers.filter (·.1 != id) ++ [(id,tracker)]
    moves := w.moves + 1 }

def tick (w : World) : World := { w with wall := w.wall + 1 }

/-! ### Additions -/

def addPipe (w : World) : World × Nat :=
  ({ w with pipes := w.pipes ++ [{}], moves := w.moves + 1 },w.pipes.length)

def addTraffic (w : World) : World × Nat :=
  ({ w with traffics := w.traffics ++ [{}] },w.traffics.length)

def addRegistry (w : World) (registry : Registry) : World × Nat :=
  ({ w with registries := w.registries ++ [registry] },w.registries.length)

/-- First counters are far from each other, and from those that scripts make up. -/
def firstCounter (link : Nat) : UInt32 := 0x9000_0000 + 0x0100_0003 * UInt32.ofNat link

def addLink (w : World) (name : String) (role : Role) (addr : String) (stream : Stream) :
    World × Nat :=
  let i := w.links.length
  let w := { w with
    links := w.links ++ [Connection.establish name role addr (firstCounter i)]
    streams := w.streams ++ [stream] }
  ((w.count stream.traffic [.opened]).start (.read i),i)

def addPeer (w : World) (peer : Peer) : World :=
  { w with peers := w.peers ++ [peer] }.start (.listen w.peers.length)

/-! ### Bytes -/

def pour (w : World) (pipe : Nat) (bytes : List UInt8) : World :=
  if bytes.isEmpty then w else w.onPipe pipe fun p => { p with parts := bytes :: p.parts }

def endPipe (w : World) (pipe : Nat) : World := w.onPipe pipe fun p => { p with ended := true }

/-- Takes all that can be read, and tells whether the end is reached. -/
def drain (w : World) (pipe : Nat) : World × List UInt8 × Bool :=
  match w.pipes[pipe]? with
  | none => (w,[],true)
  | some p =>
    if p.parts.isEmpty then (w,[],p.ended)
    else (w.onPipe pipe fun p => { p with parts := [] },p.parts.reverse.flatten,p.ended)

/-! ### Links -/

def connected (w : World) (i : Nat) : Bool := w.links.connected i

def closeLink (w : World) (i : Nat) (reason : String) : World := w.onLink i (·.close reason)

def countOn (w : World) (link : Nat) (events : List TrafficEvent) : World :=
  match w.streams[link]? with
  | some s => w.count s.traffic events
  | none => w

def failWrite (w : World) (i : Nat) (fault : IoFault) : World × Except LinkError Unit :=
  let reason := s!"write failed: {fault.message}"
  ((w.countOn i [.error]).closeLink i reason,.error (.lost reason))

def writeBytes (w : World) (i : Nat) (bytes : List UInt8) (frames : Nat) :
    World × Except LinkError Unit :=
  match w.links[i]?, w.streams[i]? with
  | some c, some s =>
    if c.halted || !s.writable then (w,.error c.lostError)
    else match s.allowance with
      | some most =>
        let w := (w.pour s.sink (bytes.take most)).onStream i fun s =>
          { s with allowance := some (most - bytes.length) }
        if bytes.length ≤ most then (w.count s.traffic [.framesSent frames bytes.length],.ok ())
        else w.failWrite i (.described "write limit")
      | none =>
        ((w.pour s.sink bytes).count s.traffic [.framesSent frames bytes.length],.ok ())
  | _, _ => (w,.error (.lost "connection closed"))

/-- Twelve bytes that no other sealing of this world has. -/
def nonces (w : World) : Nonces := fun i =>
  BigEndian.ofUInt32 (UInt32.ofNat (w.moves / UInt32.size)) ++ BigEndian.ofUInt32 (UInt32.ofNat w.moves)
    ++ BigEndian.ofUInt32 (UInt32.ofNat i)

def writeMessage (w : World) (i : Nat) (message : Message) : World × Except LinkError Unit :=
  match w.streams[i]? with
  | none => (w,.error (.lost "connection closed"))
  | some s =>
    match s.codec.encode w.nonces message with
    | .error e => (w,.error e)
    | .ok bytes => match s.codec.limits.chunkCount message.payload.length with
      | .error e => (w,.error e)
      | .ok frames => w.writeBytes i bytes frames.toNat

/-- One chunk, sealed under the nonce of this number. -/
def writeChunk (w : World) (i number : Nat) (place : ChunkPlace) (piece : List UInt8) :
    World × Except LinkError Unit :=
  match w.streams[i]? with
  | none => (w,.error (.lost "connection closed"))
  | some s => match s.codec.encodeChunk (w.nonces number) place piece with
    | .error e => (w,.error e)
    | .ok bytes => w.writeBytes i bytes 1

end World
end Tether.Cluster
