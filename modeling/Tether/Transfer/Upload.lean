import Tether.Arithmetic
import Tether.Digest.Sha256
import Tether.Link.Connection
import Tether.Transfer.Body
import Tether.Transfer.Disk
import Tether.Wire.Codec

/-! A file on its way to the peer: one request whose chunks are written while the file is read, so
that no more than a chunk is held at a time. Reading gives what it gives, between one byte and as many
as were asked for; a chunk goes out when it is full or nothing is left to read. -/
namespace Tether

/-- What both ends agree on after an upload. -/
structure Receipt where
  name : String
  size : Nat
  digest : String
deriving DecidableEq, Repr

structure Upload where
  /-- The path as it was given, for messages. -/
  path : String
  name : String
  ticket : Ticket
  total : UInt16
  messageLength : UInt32
  size : Nat
  index : Nat := 0
  staged : List UInt8
  remaining : Nat
  /-- What has been read, the last part first. -/
  parts : List (List UInt8) := []
deriving DecidableEq, Repr

inductive UploadNeed
  | read (most : Nat)
  | write (place : ChunkPlace) (piece : List UInt8)
  | reply
deriving Repr

namespace Upload

def readMax : Nat := 1 <<< 20

def nameOf (path : String) : Except LinkError String :=
  match Path.fileName? path.toList with
  | none => .error (.config (.noFileName path))
  | some name =>
    let name := String.ofList name
    if FileBody.nameMax < name.utf8ByteSize then .error (.config .fileNameTooLong) else .ok name

/-- The length of the whole request and the number of its chunks. -/
def measure (limits : Limits) (name : String) (size : Nat) : Except LinkError (Nat × UInt16) :=
  let length := 2 + name.utf8ByteSize + size
  if Limits.wordMax < length then .error (.payloadTooLarge length Limits.wordMax)
  else (limits.chunkCount length).map (length,·)

/-- No buffer is longer than a signed word can say. -/
def roomMax : Nat := 9223372036854775807

/-- The room that an upload asks for once it has its ticket: a chunk, the name and its length. In a release
build the sum wraps. -/
def room (limits : Limits) (name : String) : UInt64 :=
  limits.chunkSize + UInt64.ofNat name.utf8ByteSize + 2

def reserve (limits : Limits) (name : String) : Except Panic UInt64 :=
  if roomMax < (room limits name).toNat then .error .capacityOverflow else .ok (room limits name)

def start (path name : String) (ticket : Ticket) (length : Nat) (total : UInt16) (size : Nat) :
    Upload :=
  { path, name, ticket, total, size
    messageLength := UInt32.ofNat length
    staged := FileBody.head name
    remaining := size }

def place (u : Upload) : ChunkPlace :=
  { counter := u.ticket.counter
    tag := .file
    response := false
    index := UInt16.ofNat u.index
    total := u.total
    messageLength := u.messageLength }

def need (chunkSize : Nat) (u : Upload) : UploadNeed :=
  if u.total.toNat ≤ u.index then .reply
  else
    let staged := u.staged.length
    if staged < chunkSize ∧ 0 < u.remaining then
      .read (min (min (chunkSize - staged) (min chunkSize readMax)) u.remaining)
    else .write u.place (u.staged.take chunkSize)

def gain (u : Upload) (bytes : List UInt8) : Upload :=
  { u with
    staged := u.staged ++ bytes
    remaining := u.remaining - bytes.length
    parts := bytes :: u.parts }

def advance (chunkSize : Nat) (u : Upload) : Upload :=
  { u with staged := u.staged.drop chunkSize, index := u.index + 1 }

/-- The file ended before its length was reached. -/
def shrank (u : Upload) : String := s!"{u.path} shrank while it was being sent"

def unreadable (u : Upload) (fault : IoFault) : String := s!"reading {u.path}: {fault.message}"

def digest (u : Upload) : String := Sha256.hex u.parts.reverse.flatten

/-- The peer's reply must be the digest of what was read. -/
def finish (u : Upload) : Outcome → Except LinkError Receipt
  | .error e => .error e
  | .ok (_,reply) =>
    let remote := Utf8.lossy reply
    if remote = u.digest then .ok ⟨u.name,u.size,u.digest⟩
    else .error (.application
      s!"digest mismatch for {u.name}: sent {u.digest}, peer stored {remote}")

end Upload
end Tether
