import Tether.Link.Pending
import Tether.Link.Traffic
import Tether.Text.Utf8
import Tether.Wire.Header

/-! One end of an established link, without its bytes: its phase, its reason to close, the name its
peer gave, and the requests in flight. An initiator says hello, an acceptor waits for it. The first
reason to close is the one that stays, and closing fails whatever is in flight. -/
namespace Tether

inductive Phase
  | connecting
  | handshaking
  | ready
  | disconnected
deriving DecidableEq, Repr, Inhabited

def Phase.name : Phase → String
  | .connecting => "connecting"
  | .handshaking => "handshaking"
  | .ready => "ready"
  | .disconnected => "disconnected"

inductive Role
  | initiator
  | acceptor
deriving DecidableEq, Repr, Inhabited

structure Connection where
  /-- The own name, which hello carries. -/
  name : String
  role : Role
  peerAddr : String
  phase : Phase
  closeReason : Option String := none
  peerName : Option String := none
  nextCounter : UInt32
  pending : Pending := {}
  mail : Mailbox := []
  /-- The signal on which reading ends and no write succeeds any more. -/
  halted : Bool := false
deriving Inhabited

/-- A request in flight: its counter, and the slot that its outcome comes to. -/
structure Ticket where
  counter : UInt32
  slot : Nat
deriving DecidableEq, Repr, Inhabited

namespace Connection

/-- A fresh link. The first counter is drawn by chance. -/
def establish (name : String) (role : Role) (peerAddr : String) (counter : UInt32) : Connection :=
  { name
    role
    peerAddr
    phase := match role with
      | .initiator => .connecting
      | .acceptor => .handshaking
    nextCounter := counter }

def isConnected (c : Connection) : Bool := c.phase != .disconnected

/-! ### Phases -/

/-- Enters a phase, unless the link is there already or disconnected. -/
def enter (c : Connection) (phase : Phase) : Connection × Bool :=
  if c.phase = .disconnected ∨ c.phase = phase then (c,false) else ({ c with phase },true)

/-- Takes the peer's name down and becomes ready, if it still can. -/
def markReady (c : Connection) (peer : String) : Connection :=
  ({ c with peerName := some peer }.enter .ready).1

def lostError (c : Connection) : LinkError := .lost (c.closeReason.getD "connection closed")

def ensureReady (c : Connection) : Except LinkError Unit :=
  match c.phase with
  | .ready => .ok ()
  | .disconnected => .error c.lostError
  | phase => .error (.notReady phase.name)

/-! ### Closing, step by step -/

def recordReason (c : Connection) (reason : String) : Connection × Bool :=
  match c.closeReason with
  | some _ => (c,false)
  | none => ({ c with closeReason := some reason },true)

def halt (c : Connection) : Connection := { c with halted := true }

def failPending (c : Connection) (reason : String) : Connection :=
  let (pending,deliveries) := c.pending.failAll reason
  { c with pending, mail := deliveries.foldl Mailbox.deliver c.mail }

def disconnect (c : Connection) : Connection := { c with phase := .disconnected }

/-- All steps in a row; nothing after the first time. -/
def close (c : Connection) (reason : String) : Connection :=
  match c.recordReason reason with
  | (c,true) => (c.halt.failPending reason).disconnect
  | (c,false) => c

/-! ### Requests -/

/-- The first counter from `counter` on, modulo 2^32, that no request holds. -/
def allocate (tag : Tag) (pending : Pending) (counter : UInt32) :
    Nat → Except LinkError (Pending × Ticket)
  | 0 => .error (.protocol (.outstanding counter))
  | fuel + 1 => match pending.register counter tag with
    | .ok (pending,slot) => .ok (pending,⟨counter,slot⟩)
    | .error (.protocol _) => allocate tag pending (counter + 1) fuel
    | .error e => .error e

def startRequest (c : Connection) (tag : Tag) : Except LinkError (Connection × Ticket) :=
  match allocate tag c.pending c.nextCounter (c.pending.length + 1) with
  | .error e => .error e
  | .ok (pending,ticket) =>
    .ok ({ c with
      pending
      mail := c.mail ++ [.waiting]
      nextCounter := ticket.counter + 1 },ticket)

/-- What a reply means to the request that waits for it. -/
def outcomeOf (reply : Message) : Outcome :=
  if reply.tag.isError then .error (.application (Utf8.lossy reply.payload))
  else .ok (reply.tag,reply.payload)

/-- Hands a reply to its request. One that no request waits for changes nothing. -/
def processResponse (c : Connection) (reply : Message) : Connection × Bool :=
  match c.pending.resolve reply.counter (outcomeOf reply) with
  | (pending,some delivery) => ({ c with pending, mail := Mailbox.deliver c.mail delivery },true)
  | (_,none) => (c,false)

def responseEvents (reply : Message) (resolved : Bool) : List TrafficEvent :=
  (if reply.tag.isError then [.applicationError] else [])
    ++ if resolved then [.responseReceived] else []

def outcome? (c : Connection) (ticket : Ticket) : Option Outcome :=
  match Mailbox.slot c.mail ticket.slot with
  | .holding outcome => some outcome
  | .closed => some (.error (.lost "request slot dropped"))
  | _ => none

/-- Gives a request up, answered or not. The entry under its counter leaves the table. -/
def release (c : Connection) (ticket : Ticket) : Connection :=
  let (pending,entry) := c.pending.cancel ticket.counter
  let mail := Mailbox.abandon c.mail ticket.slot
  { c with
    pending
    mail := match entry with
      | some entry => Mailbox.release mail entry.slot
      | none => mail }

/-! ### Requests of the peer -/

/-- An acceptor serves nothing but hello until it is ready. -/
def admits (c : Connection) (tag : Tag) : Bool :=
  c.role == .initiator || tag == Tag.hello || c.phase == .ready

end Connection

structure Reply where
  tag : Tag
  payload : List UInt8
deriving DecidableEq, Repr

namespace Reply

def ok (payload : List UInt8) : Reply := ⟨.ok,payload⟩

def okText (text : String) : Reply := ok (Utf8.encode text)

def error (text : String) : Reply := ⟨.err,Utf8.encode text⟩

def early (tag : Tag) : Reply := error s!"Error: '{tag}' received before hello"

def unknown (tag : Tag) : Reply := error s!"unknown command '{tag}'"

def ofResult : Except LinkError Reply → Reply
  | .ok reply => reply
  | .error e => error s!"Error: {e.message}"

/-- The reply as a message of the request's counter. -/
def message (reply : Reply) (counter : UInt32) : Message :=
  ⟨counter,reply.tag,true,reply.payload⟩

end Reply

/-! ### Hello -/

namespace Connection

/-- Starts the exchange; none if the link has gone. -/
def beginHandshake (c : Connection) : Except LinkError Connection :=
  match c.enter .handshaking with
  | (c,true) => .ok c
  | (c,false) => if c.phase = .handshaking then .ok c else .error c.lostError

def errorMark : List UInt8 := "Error".toUTF8.toList

def refuse (c : Connection) (message : String) : Connection × Except LinkError String :=
  (c.close s!"handshake rejected: {message}",.error (.handshake message))

/-- The peer's answer to hello: its name, unless it begins like an error. -/
def finishHandshake (c : Connection) : Outcome → Connection × Except LinkError String
  | .ok (_,payload) =>
    if errorMark.isPrefixOf payload then c.refuse (Utf8.lossy payload)
    else
      let peer := Utf8.lossy payload
      (c.markReady peer,.ok peer)
  | .error (.application message) => c.refuse message
  | .error e => (c,.error e)

end Connection
end Tether
