import Tether.Wire.Header
import Tether.Wire.Limits
import Tether.Cipher.Payload

/-! Messages to bytes. A message is cut into pieces of the chunk size, each piece sealed if the
connection has a cipher, and each put behind a header that tells its place. Frames are emitted one by
one, so a fault leaves those emitted before it. -/
namespace Tether

structure Codec where
  limits : Limits := {}
  cipher : Option Cipher := none

/-- The place of a chunk within its message. -/
structure ChunkPlace where
  counter : UInt32
  tag : Tag
  response : Bool
  index : UInt16
  total : UInt16
  messageLength : UInt32
deriving DecidableEq, Repr

/-- A nonce for each sealing, told apart by the number of the frame. -/
abbrev Nonces := Nat → List UInt8

namespace Codec

/-- What travels behind the header: the piece itself, or its sealed form. -/
def body (codec : Codec) (nonce piece : List UInt8) : List UInt8 :=
  match codec.cipher with
  | some cipher => cipher.sealWith nonce piece
  | none => piece

def chunkHeader (codec : Codec) (place : ChunkPlace) (length : Nat) : Header :=
  { counter := place.counter
    tag := place.tag
    version := Header.currentVersion
    flags := ⟨codec.cipher.isSome,place.response⟩
    index := place.index
    total := place.total
    messageLength := place.messageLength
    payloadLength := UInt32.ofNat length }

/-- One frame; refused if its payload is over the limit. -/
def encodeChunk (codec : Codec) (nonce : List UInt8) (place : ChunkPlace) (piece : List UInt8) :
    Except LinkError (List UInt8) :=
  let body := codec.body nonce piece
  if codec.limits.framePayload.toNat < body.length then
    .error (.payloadTooLarge body.length codec.limits.framePayload.toNat)
  else .ok ((codec.chunkHeader place body.length).encode ++ body)

/-- Consecutive pieces of `size` bytes, the last one with what is left; each of them takes a byte at least. -/
def piecesOnto (size : Nat) (found : List (List UInt8)) (bytes : List UInt8) :
    Nat → List (List UInt8)
  | 0 => found.reverse
  | most + 1 =>
    if bytes.isEmpty then found.reverse
    else
      let (piece,rest) := bytes.splitAt size
      piecesOnto size (piece :: found) rest most

/-- The pieces that a payload travels in; an empty one travels in one, and none are of no size. -/
def pieces (size : Nat) (bytes : List UInt8) : List (List UInt8) :=
  if bytes.isEmpty then [[]]
  else if size = 0 then []
  else piecesOnto size [] bytes bytes.length

/-- Frames emitted so far, the last one first, and the fault that ended the run, if one did. -/
structure Emission where
  frames : List (List UInt8) := []
  fault : Option LinkError := none
deriving Repr

def Emission.bytes (e : Emission) : List UInt8 := e.frames.reverse.flatten

def emit (codec : Codec) (nonces : Nonces) (place : ChunkPlace) (done : Emission) (index : Nat) :
    List (List UInt8) → Emission
  | [] => done
  | piece :: rest =>
    match codec.encodeChunk (nonces index) { place with index := UInt16.ofNat index } piece with
    | .ok frame => emit codec nonces place ⟨frame :: done.frames,none⟩ (index + 1) rest
    | .error fault => ⟨done.frames,some fault⟩

def emitMessage (codec : Codec) (nonces : Nonces) (message : Message) : Emission :=
  match codec.limits.chunkCount message.payload.length with
  | .error fault => ⟨[],some fault⟩
  | .ok total =>
    let place : ChunkPlace :=
      { counter := message.counter
        tag := message.tag
        response := message.response
        index := 0
        total
        messageLength := UInt32.ofNat message.payload.length }
    emit codec nonces place {} 0 (pieces codec.limits.chunkSize.toNat message.payload)

/-- Appends a message to a buffer, frame by frame, and tells what stopped it. -/
def append (codec : Codec) (nonces : Nonces) (message : Message) (buffer : List UInt8) :
    List UInt8 × Option LinkError :=
  let e := codec.emitMessage nonces message
  (buffer ++ e.bytes,e.fault)

def encode (codec : Codec) (nonces : Nonces) (message : Message) :
    Except LinkError (List UInt8) :=
  let e := codec.emitMessage nonces message
  match e.fault with
  | none => .ok e.bytes
  | some fault => .error fault

/-- The payload of a received frame. Sealing is all or nothing on a connection. -/
def openPayload (codec : Codec) (header : Header) (raw : List UInt8) :
    Except ProtocolFault (List UInt8) :=
  match codec.cipher, header.flags.encrypted with
  | some cipher, true => (cipher.openWith raw).mapError .sealedPayload
  | none, false => .ok raw
  | some _, false => .error .unsealedFrame
  | none, true => .error .sealedFrame

end Codec
end Tether
