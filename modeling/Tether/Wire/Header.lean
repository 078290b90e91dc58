import Tether.Wire.Tag
import Tether.Wire.BigEndian

/-! The thirty bytes in front of every frame: the counter that ties a reply to its request, the
command tag, the version, two flags, the frame's place among the chunks of its message, the length of
the whole message and the length of what follows. -/
namespace Tether

structure Flags where
  encrypted : Bool := false
  response : Bool := false
deriving DecidableEq, Repr

namespace Flags

def bits (f : Flags) : UInt8 :=
  (if f.encrypted then 1 else 0) ||| (if f.response then 2 else 0)

/-- Only the two lowest bits have a meaning. -/
def ofBits? (b : UInt8) : Option Flags :=
  if b &&& 0xFC ≠ 0 then none else some ⟨b &&& 1 != 0,b &&& 2 != 0⟩

def contains (f g : Flags) : Bool := (!g.encrypted || f.encrypted) && (!g.response || f.response)

def union (f g : Flags) : Flags := ⟨f.encrypted || g.encrypted,f.response || g.response⟩

end Flags

structure Header where
  counter : UInt32
  tag : Tag
  version : UInt8
  flags : Flags
  index : UInt16
  total : UInt16
  messageLength : UInt32
  payloadLength : UInt32
deriving DecidableEq, Repr

namespace Header

def size : Nat := 30

def currentVersion : UInt8 := 1

def encode (h : Header) : List UInt8 :=
  BigEndian.ofUInt32 h.counter ++ h.tag.padded ++ [h.version,h.flags.bits]
    ++ BigEndian.ofUInt16 h.index ++ BigEndian.ofUInt16 h.total
    ++ BigEndian.ofUInt32 h.messageLength ++ BigEndian.ofUInt32 h.payloadLength

/-- The fields after the tag: version, flags, place and lengths. -/
def decodeTail (counter : UInt32) (tag : Tag) : List UInt8 → Except ProtocolFault Header
  | [v,f,i₁,i₀,t₁,t₀,m₃,m₂,m₁,m₀,p₃,p₂,p₁,p₀] =>
    if v ≠ currentVersion then .error (.version v)
    else match Flags.ofBits? f with
      | none => .error .unknownFlags
      | some flags =>
        let index := BigEndian.toUInt16 i₁ i₀
        let total := BigEndian.toUInt16 t₁ t₀
        if total = 0 ∨ total ≤ index then .error (.chunkPosition index total)
        else .ok
          { counter, tag, version := v, flags, index, total
            messageLength := BigEndian.toUInt32 m₃ m₂ m₁ m₀
            payloadLength := BigEndian.toUInt32 p₃ p₂ p₁ p₀ }
  | rest => .error (.shortHeader rest.length)

/-- Reads a header from the front of the bytes. The first fault from the left counts, and a tag is
judged before the version. -/
def decode (bytes : List UInt8) : Except ProtocolFault Header :=
  if bytes.length < size then .error (.shortHeader bytes.length)
  else match bytes with
    | c₃ :: c₂ :: c₁ :: c₀ :: rest =>
      match Tag.ofPadded (rest.take Tag.width) with
      | .error fault => .error (.badTag fault)
      | .ok tag =>
        decodeTail (BigEndian.toUInt32 c₃ c₂ c₁ c₀) tag ((rest.drop Tag.width).take 14)
    | rest => .error (.shortHeader rest.length)

def isResponse (h : Header) : Bool := h.flags.response

def isLast (h : Header) : Bool := h.index + 1 == h.total

end Header

/-- One frame; on the receiving side the payload is already opened. -/
structure Frame where
  header : Header
  payload : List UInt8
deriving DecidableEq, Repr

/-- One request or reply, whole. -/
structure Message where
  counter : UInt32
  tag : Tag
  response : Bool
  payload : List UInt8
deriving DecidableEq, Repr

end Tether
