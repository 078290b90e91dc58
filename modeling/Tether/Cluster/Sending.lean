import Tether.Cluster.Exchange
import Tether.Transfer.Upload

/-! An upload on a link. Reading and writing take no time here, so that all chunks go out in one run;
what is waited for is the digest. -/
namespace Tether.Cluster

/-- How an upload ends: with a result for its caller, or in a crash where there is no room for a chunk. -/
inductive Sent
  | result (result : Except LinkError Receipt)
  | crashed

inductive Sending
  | fresh (link : Nat) (path : String)
  | inFlight (link : Nat) (upload : Upload)

namespace Sending

/-- How paths below the root of the disk are shown. -/
def root : String := "<dir>"

/-- The length that a directory seems to have. -/
def directorySize : Nat := 4096

/-- A stream cut short is no good to the peer. -/
def abort (w : World) (link : Nat) (u : Upload) (reason : String) :
    World × Except LinkError Upload :=
  ((w.closeLink link reason).releaseTicket link u.ticket,
    .error (.protocol (.described reason)))

/-- Reads and writes until every chunk is out. The content is what is left of the file; none for a
directory, which cannot be read. -/
def stream (w : World) (link : Nat) (codec : Codec) (u : Upload) (content : Option (List UInt8)) :
    Nat → World × Except LinkError Upload
  | 0 => (w,.ok u)
  | fuel + 1 =>
    let chunk := codec.limits.chunkSize.toNat
    match u.need chunk with
    | .reply => (w.countOn link [.requestSent],.ok u)
    | .read most => match content with
      | none => abort w link u (u.unreadable .isDirectory)
      | some [] => abort w link u u.shrank
      | some content =>
        let (got,rest) := content.splitAt most
        stream w link codec (u.gain got) (some rest) fuel
    | .write place piece => match w.writeChunk link u.index place piece with
      | (w,.error e) => (w.releaseTicket link u.ticket,.error e)
      | (w,.ok ()) => stream w link codec (u.advance chunk) content fuel

def prepare (w : World) (link : Nat) (codec : Codec) (path : String) :
    World × Except LinkError (Upload × Option (List UInt8)) :=
  let shown := Path.join root path
  let ready : Except LinkError Unit := match w.links[link]? with
    | some c => c.ensureReady
    | none => .error (.lost "connection closed")
  let opened : Except LinkError (String × DiskNode × Nat × Nat × UInt16) := do
    ready
    let name ← Upload.nameOf shown
    let node ← (w.disk.read path.toList).mapError .io
    let size := match node with
      | .file content => content.length
      | .directory => directorySize
    let (length,total) ← Upload.measure codec.limits name size
    .ok (name,node,size,length,total)
  match opened with
  | .error e => (w,.error e)
  | .ok (name,node,size,length,total) => match w.openRequest link .file false with
    | (w,.error e) => (w,.error e)
    | (w,.ok ticket) =>
      let content := match node with
        | .file content => some content
        | .directory => none
      (w,.ok (.start shown name ticket length total size,content))

abbrev Step := World × Turn Sending Sent

def begin (w : World) (link : Nat) (path : String) : Step :=
  match (w.streams[link]?).map Stream.codec with
  | none => (w,.ends (.result (.error (.lost "connection closed"))))
  | some codec => match prepare w link codec path with
    | (w,.error e) => (w,.ends (.result (.error e)))
    | (w,.ok (u,content)) => match Upload.reserve codec.limits u.name with
      | .error _ => (w.releaseTicket link u.ticket,.ends .crashed)
      | .ok _ =>
        let fuel := 3 * u.total.toNat + u.size / Upload.readMax + 3
        match stream w link codec u content fuel with
        | (w,.error e) => (w,.ends (.result (.error e)))
        | (w,.ok u) => (w,.waits (.inFlight link u))

def run (w : World) : Sending → Step
  | .fresh link path => begin w link path
  | .inFlight link u => match (w.links[link]?).bind (·.outcome? u.ticket) with
    | some outcome => (w.releaseTicket link u.ticket,.ends (.result (u.finish outcome)))
    | none => (w,.waits (.inFlight link u))

def drop (w : World) : Sending → World
  | .fresh .. => w
  | .inFlight link u => w.releaseTicket link u.ticket

end Sending
end Tether.Cluster
