import Tether.Link.Inbound
import Tether.Proofs.Link.Session
import Tether.Proofs.Wire.Sending
import Tether.Transfer.Upload

/-! One end of a link with its bytes and its tasks, under every order in which the tasks take their
steps: calls and uploads of its own, the reading of what comes in, and the requests of the peer while
they are served. What a registry answers is not fixed, and neither is which task runs next. A write puts
all its bytes on the stream, or it stops half way and is the last one. -/
namespace Tether

/-! ### Tasks -/

inductive CallStage
  | opened
  | sent
  | refused (error : LinkError)
  | ended (outcome : Outcome)
  | left
deriving DecidableEq

/-- What the caller is given, if the call has come to something. -/
def CallStage.result? : CallStage → Option Outcome
  | .refused error => some (.error error)
  | .ended outcome => some outcome
  | _ => none

inductive UploadStage
  | streaming
  /-- There was no room for a chunk, and the task that made the upload has crashed. -/
  | stopped
  | refused (error : LinkError)
  | ended (result : Except LinkError Receipt)
  | left
deriving DecidableEq

def UploadStage.first (limits : Limits) (name : String) : UploadStage :=
  match Upload.reserve limits name with
  | .ok _ => .streaming
  | .error _ => .stopped

theorem UploadStage.first_cases (limits : Limits) (name : String) :
    first limits name = .streaming ∨ first limits name = .stopped := by
  unfold first
  split
  · exact .inl rfl
  · exact .inr rfl

/-- A request of the own side, with the ticket that it holds. -/
inductive Errand
  | call (ticket : Ticket) (tag : Tag) (data : List UInt8) (stage : CallStage)
  | upload (upload : Upload) (stage : UploadStage)
deriving DecidableEq

def Errand.ticket : Errand → Ticket
  | .call ticket .. => ticket
  | .upload u _ => u.ticket

/-- How far the serving of a request has come. -/
inductive ServeStage
  | routed
  | running
  | replying (reply : Reply)
  | answered (reply : Reply)
  | failed (reply : Reply) (error : LinkError)
  | dropped
deriving DecidableEq

/-- A request of the peer. It counts as dispatched once it has passed the gate. -/
structure Serve where
  request : Message
  dispatched : Bool := false
  stage : ServeStage := .routed
deriving DecidableEq

def Serve.reply? (t : Serve) : Option Reply :=
  match t.stage with
  | .replying reply | .answered reply | .failed reply _ => some reply
  | _ => none

structure Endpoint where
  session : Session
  inbound : Inbound := {}
  /-- The reading loop still runs. -/
  reading : Bool := true
  writable : Bool := true
  /-- Bytes on their way to the peer. -/
  outgoing : List UInt8 := []
  errands : List Errand := []
  serves : List Serve := []
  /-- Chunks that were put on the stream, and messages that were found on the other one. -/
  sent : List Chunk := []
  routed : List Message := []

/-- Where a write stops, and why. -/
abbrev Tear := Nat × IoFault

def tornReason (fault : IoFault) : String := s!"write failed: {fault.message}"

def ServeStage.written (reply : Reply) : Option Tear → ServeStage
  | none => .answered reply
  | some (_,fault) => .failed reply (.lost (tornReason fault))

namespace Endpoint

/-! ### Writing -/

/-- The stream after a write that was let in, whole or torn. -/
def extend (e : Endpoint) (bytes : List UInt8) (chunks : List Chunk) : Option Tear → Endpoint
  | none => { e with outgoing := e.outgoing ++ bytes, sent := e.sent ++ chunks }
  | some (kept,fault) =>
    { e with
      outgoing := e.outgoing ++ bytes.take kept
      sent := e.sent ++ chunks
      writable := false
      session := e.session.step (.close (tornReason fault)) }

def put (e : Endpoint) (bytes : List UInt8) (chunks : List Chunk) (tear : Option Tear) :
    Endpoint × Except LinkError Unit :=
  if e.session.link.halted || !e.writable then (e,.error e.session.link.lostError)
  else (e.extend bytes chunks tear,match tear with
    | none => .ok ()
    | some (_,fault) => .error (.lost (tornReason fault)))

def writeMessage (codec : Codec) (e : Endpoint) (nonces : NonceSupply) (message : Message)
    (tear : Option Tear) : Endpoint × Except LinkError Unit :=
  let emission := codec.emitMessage nonces.1 message
  match emission.fault with
  | some error => (e,.error error)
  | none => e.put emission.bytes (codec.chunksOf nonces.1 message) tear

/-! ### Own requests -/

def setErrand (e : Endpoint) (i : Nat) (x : Errand) : Endpoint :=
  { e with errands := e.errands.set i x }

def release (e : Endpoint) (i : Nat) : Endpoint := { e with session := e.session.step (.release i) }

def launch (e : Endpoint) (tag : Tag) (errand : Ticket → Errand) : Endpoint :=
  match e.session.link.startRequest tag with
  | .error _ => e
  | .ok (_,ticket) =>
    { e with session := e.session.step (.start tag), errands := e.errands ++ [errand ticket] }

/-- Says hello, which is not held back until the link is ready. -/
def greet (e : Endpoint) (data : List UInt8) : Endpoint :=
  e.launch .hello fun ticket => .call ticket .hello data .opened

def begin (e : Endpoint) (tag : Tag) (errand : Ticket → Errand) : Endpoint :=
  match e.session.link.ensureReady with
  | .error _ => e
  | .ok () => e.launch tag errand

def call (e : Endpoint) (tag : Tag) (data : List UInt8) : Endpoint :=
  e.begin tag fun ticket => .call ticket tag data .opened

def upload (codec : Codec) (e : Endpoint) (path name : String) (size : Nat) : Endpoint :=
  match Upload.measure codec.limits name size with
  | .error _ => e
  | .ok (length,total) =>
    e.begin .file fun ticket =>
      .upload (.start path name ticket length total size) (.first codec.limits name)

/-- Writes a call's message, or the next chunk of an upload. -/
def write (codec : Codec) (e : Endpoint) (i : Nat) (nonces : NonceSupply) (tear : Option Tear) :
    Endpoint :=
  match e.errands[i]? with
  | some (.call ticket tag data .opened) =>
    match e.writeMessage codec nonces ⟨ticket.counter,tag,false,data⟩ tear with
    | (e,.ok ()) => e.setErrand i (.call ticket tag data .sent)
    | (e,.error error) => e.setErrand i (.call ticket tag data (.refused error))
  | some (.upload u .streaming) =>
    match u.need codec.limits.chunkSize.toNat with
    | .write place piece =>
      match codec.encodeChunk (nonces.1 u.index) place piece with
      | .error error => e.setErrand i (.upload u (.refused error))
      | .ok bytes => match e.put bytes [⟨place,nonces.1 u.index,piece⟩] tear with
        | (e,.ok ()) => e.setErrand i (.upload (u.advance codec.limits.chunkSize.toNat) .streaming)
        | (e,.error error) => e.setErrand i (.upload u (.refused error))
    | _ => e
  | _ => e

/-- An upload that cannot go on closes the link: a stream cut short is no good to the peer. -/
def abort (e : Endpoint) (i : Nat) (u : Upload) (reason : String) : Endpoint :=
  { e with session := e.session.step (.close reason) }.setErrand i
    (.upload u (.refused (.protocol (.described reason))))

/-- Hands an upload what one reading of the file gave; nothing means that the file has shrunk. -/
def fill (codec : Codec) (e : Endpoint) (i : Nat) (got : Except IoFault (List UInt8)) : Endpoint :=
  match e.errands[i]? with
  | some (.upload u .streaming) =>
    match u.need codec.limits.chunkSize.toNat with
    | .read most => match got with
      | .error fault => e.abort i u (u.unreadable fault)
      | .ok [] => e.abort i u u.shrank
      | .ok bytes => e.setErrand i (.upload (u.gain (bytes.take most)) .streaming)
    | _ => e
  | _ => e

/-- Lets go of a request that was refused, or whose task has crashed. -/
def forget (e : Endpoint) (i : Nat) : Endpoint :=
  match e.errands[i]? with
  | some (.call _ _ _ (.refused _)) => e.release i
  | some (.upload _ (.refused _)) => e.release i
  | some (.upload _ .stopped) => e.release i
  | _ => e

def collect (codec : Codec) (e : Endpoint) (i : Nat) : Endpoint :=
  match e.errands[i]? with
  | some (.call ticket tag data .sent) =>
    match e.session.link.outcome? ticket with
    | some outcome => (e.setErrand i (.call ticket tag data (.ended outcome))).release i
    | none => e
  | some (.upload u .streaming) =>
    match u.need codec.limits.chunkSize.toNat, e.session.link.outcome? u.ticket with
    | .reply,some outcome => (e.setErrand i (.upload u (.ended (u.finish outcome)))).release i
    | _,_ => e
  | _ => e

/-- Whoever made the request goes away. -/
def leave (e : Endpoint) (i : Nat) : Endpoint :=
  match e.errands[i]? with
  | some (.call ticket tag data .opened) => (e.setErrand i (.call ticket tag data .left)).release i
  | some (.call ticket tag data .sent) => (e.setErrand i (.call ticket tag data .left)).release i
  | some (.upload u .streaming) => (e.setErrand i (.upload u .left)).release i
  | _ => e

/-! ### Reading -/

def route (e : Endpoint) (m : Message) : Endpoint :=
  if m.response then { e with session := e.session.step (.respond m), routed := e.routed ++ [m] }
  else { e with serves := e.serves ++ [{ request := m }], routed := e.routed ++ [m] }

/-- A request that has not been answered when reading ends is given up. -/
def abandon (t : Serve) : Serve :=
  match t.stage with
  | .answered _ | .failed .. => t
  | _ => { t with stage := .dropped }

def stop (e : Endpoint) (reason : String) : Endpoint :=
  { e with
    session := e.session.step (.close reason)
    reading := false
    serves := e.serves.map abandon }

def feed (e : Endpoint) (bytes : List UInt8) : Endpoint :=
  { e with inbound := { e.inbound with decoder := e.inbound.decoder.feed bytes } }

def decode (codec : Codec) (e : Endpoint) : Endpoint :=
  if !e.reading then e
  else match e.inbound.decoder.next codec with
    | (decoder,.more) => { e with inbound := { e.inbound with decoder } }
    | (decoder,.fault fault) =>
      { e with inbound := { e.inbound with decoder } }.stop (LinkError.protocol fault).message
    | (decoder,.frame frame) =>
      match e.inbound.reassembler.push codec.limits frame with
      | (reassembler,.ok none) => { e with inbound := { decoder, reassembler } }
      | (reassembler,.ok (some m)) => { e with inbound := { decoder, reassembler } }.route m
      | (reassembler,.error fault) =>
        { e with inbound := { decoder, reassembler } }.stop (LinkError.protocol fault).message

/-! ### Requests of the peer -/

def setServe (e : Endpoint) (k : Nat) (t : Serve) : Endpoint := { e with serves := e.serves.set k t }

/-- The gate: an early request is answered for, any other is dispatched. -/
def gate (e : Endpoint) (k : Nat) : Endpoint :=
  match e.serves[k]? with
  | some ⟨request,_,.routed⟩ =>
    if e.session.link.admits request.tag then e.setServe k ⟨request,true,.running⟩
    else e.setServe k ⟨request,false,.replying (.early request.tag)⟩
  | _ => e

/-- What the registry makes of a request: no service, or what its service came to. -/
def serve (e : Endpoint) (k : Nat) (result : Option (Except LinkError Reply)) : Endpoint :=
  match e.serves[k]? with
  | some ⟨request,dispatched,.running⟩ =>
    let reply := match result with
      | none => .unknown request.tag
      | some result => .ofResult result
    e.setServe k ⟨request,dispatched,.replying reply⟩
  | _ => e

def crash (e : Endpoint) (k : Nat) : Endpoint :=
  match e.serves[k]? with
  | some ⟨request,dispatched,.running⟩ => e.setServe k ⟨request,dispatched,.dropped⟩
  | _ => e

/-- Hands the reply to the stream. One that cannot be written is given up. -/
def respond (codec : Codec) (e : Endpoint) (k : Nat) (nonces : NonceSupply) (tear : Option Tear) :
    Endpoint :=
  match e.serves[k]? with
  | some ⟨request,dispatched,.replying reply⟩ =>
    match e.writeMessage codec nonces (reply.message request.counter) tear with
    | (e,.ok ()) => e.setServe k ⟨request,dispatched,.answered reply⟩
    | (e,.error error) => e.setServe k ⟨request,dispatched,.failed reply error⟩
  | _ => e

/-! ### One step -/

inductive Move
  | close (reason : String)
  | proceed (close : Nat)
  | ready (peer : String)
  | handshake
  | greet (data : List UInt8)
  | call (tag : Tag) (data : List UInt8)
  | upload (path name : String) (size : Nat)
  | write (errand : Nat) (nonces : NonceSupply) (tear : Option Tear)
  | fill (errand : Nat) (got : Except IoFault (List UInt8))
  | forget (errand : Nat)
  | collect (errand : Nat)
  | leave (errand : Nat)
  | decode
  | stop (reason : String)
  | shut
  | gate (serve : Nat)
  | serve (serve : Nat) (result : Option (Except LinkError Reply))
  | crash (serve : Nat)
  | respond (serve : Nat) (nonces : NonceSupply) (tear : Option Tear)

def step (codec : Codec) (e : Endpoint) : Move → Endpoint
  | .close reason => { e with session := e.session.step (.close reason) }
  | .proceed k => { e with session := e.session.step (.proceed k) }
  | .ready peer => { e with session := e.session.step (.ready peer) }
  | .handshake => { e with session := e.session.step .handshake }
  | .greet data => e.greet data
  | .call tag data => e.call tag data
  | .upload path name size => e.upload codec path name size
  | .write i nonces tear => e.write codec i nonces tear
  | .fill i got => e.fill codec i got
  | .forget i => e.forget i
  | .collect i => e.collect codec i
  | .leave i => e.leave i
  | .decode => e.decode codec
  | .stop reason => e.stop reason
  | .shut => if e.reading then e else { e with writable := false }
  | .gate k => e.gate k
  | .serve k result => e.serve k result
  | .crash k => e.crash k
  | .respond k nonces tear => e.respond codec k nonces tear

/-! ### Runs -/

/-- Bytes come in, or a task takes a step. -/
inductive Event
  | feed (bytes : List UInt8)
  | move (move : Move)

def after (codec : Codec) (e : Endpoint) : Event → Endpoint
  | .feed bytes => e.feed bytes
  | .move m => e.step codec m

def run (codec : Codec) (e : Endpoint) (events : List Event) : Endpoint := events.foldl (after codec) e

@[simp] theorem run_nil (codec : Codec) (e : Endpoint) : e.run codec [] = e := rfl

@[simp] theorem run_cons (codec : Codec) (e : Endpoint) (a : Event) (events : List Event) :
    e.run codec (a :: events) = (e.after codec a).run codec events := rfl

theorem run_append (codec : Codec) (e : Endpoint) (before after : List Event) :
    e.run codec (before ++ after) = (e.run codec before).run codec after := List.foldl_append

def establish (name : String) (role : Role) (peerAddr : String) (counter : UInt32) : Endpoint :=
  { session := .establish name role peerAddr counter }

end Endpoint
end Tether
