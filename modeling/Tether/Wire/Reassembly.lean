import Tether.Wire.Codec

/-! Frames to messages. The chunks of a message come in order under one key, the counter together with
the direction, and those of several messages may be interleaved. A partial message grows only by bytes
that have arrived; its declared length is a check, never a reservation. -/
namespace Tether

abbrev ChunkKey := UInt32 × Bool

/-- A message whose first chunks are there, the latest piece first. -/
structure Partial where
  tag : Tag
  next : UInt16
  total : UInt16
  messageLength : UInt32
  pieces : List (List UInt8)
  size : Nat
deriving DecidableEq, Repr

def Partial.bytes (p : Partial) : List UInt8 := p.pieces.reverse.flatten

structure Reassembler where
  entries : List (ChunkKey × Partial) := []
deriving DecidableEq, Repr, Inhabited

namespace Reassembler

def get? (r : Reassembler) (key : ChunkKey) : Option Partial := r.entries.lookup key

def erase (r : Reassembler) (key : ChunkKey) : Reassembler :=
  ⟨r.entries.filter fun e => e.1 != key⟩

def insert (r : Reassembler) (key : ChunkKey) (p : Partial) : Reassembler :=
  ⟨(key,p) :: (r.erase key).entries⟩

def inProgress (r : Reassembler) : Nat := r.entries.length

def clear (_ : Reassembler) : Reassembler := {}

/-- What a frame led to: a message, nothing yet, or a refusal. -/
abbrev Pushed := Except ProtocolFault (Option Message)

/-- Puts an entry in place. It stays there when it holds more than was declared. -/
def store (r : Reassembler) (key : ChunkKey) (p : Partial) : Reassembler × Pushed :=
  let r := r.insert key p
  if p.messageLength.toNat < p.size then (r,.error (.overrun key.1 p.messageLength))
  else (r,.ok none)

def pushFirstIn (m : Type → Type) [Monad m] [Arithmetic m] (limits : Limits) (r : Reassembler)
    (frame : Frame) : m (Reassembler × Pushed) :=
  let h := frame.header
  let key := (h.counter,h.isResponse)
  let length := frame.payload.length
  if (r.get? key).isSome then pure (r,.error (.restarted h.counter))
  else if h.total = 1 then
    if length ≠ h.messageLength.toNat then
      pure (r,.error (.wholeLength h.counter length h.messageLength))
    else pure (r,.ok (some ⟨h.counter,h.tag,h.isResponse,frame.payload⟩))
  else do
    let capacity ← Arithmetic.mul h.total.toUInt64 limits.framePayload
    if capacity < h.messageLength.toUInt64 then
      pure (r,.error (.capacity h.counter h.messageLength h.total))
    else if limits.partialMessages.toNat ≤ r.inProgress then
      pure (r,.error (.tooManyPartial limits.partialMessages))
    else pure (r.store key ⟨h.tag,1,h.total,h.messageLength,[frame.payload],length⟩)

def pushLater (r : Reassembler) (frame : Frame) : Reassembler × Pushed :=
  let h := frame.header
  let key := (h.counter,h.isResponse)
  match r.get? key with
  | none => (r,.error (.noFirstChunk h.index h.counter))
  | some p =>
    if p.tag ≠ h.tag ∨ p.total ≠ h.total ∨ p.messageLength ≠ h.messageLength then
      (r,.error (.disagreement h.counter))
    else if p.next ≠ h.index then (r,.error (.chunkOrder h.counter p.next h.index))
    else
      let p := { p with
        next := p.next + 1
        pieces := frame.payload :: p.pieces
        size := p.size + frame.payload.length }
      match r.store key p with
      | (r,.error fault) => (r,.error fault)
      | (r,.ok _) =>
        if !h.isLast then (r,.ok none)
        else if p.size ≠ p.messageLength.toNat then
          (r.erase key,.error (.finalLength h.counter p.size p.messageLength))
        else (r.erase key,.ok (some ⟨h.counter,p.tag,h.isResponse,p.bytes⟩))

def pushIn (m : Type → Type) [Monad m] [Arithmetic m] (limits : Limits) (r : Reassembler)
    (frame : Frame) : m (Reassembler × Pushed) :=
  let h := frame.header
  if limits.messageSize.toNat < h.messageLength.toNat then
    pure (r,.error (.messageSize h.messageLength limits.messageSize))
  else if h.index = 0 then pushFirstIn m limits r frame
  else pure (pushLater r frame)

def push (limits : Limits) (r : Reassembler) (frame : Frame) : Reassembler × Pushed :=
  r.pushIn Wrapping limits frame

end Reassembler
end Tether
