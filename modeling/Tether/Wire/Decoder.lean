import Tether.Wire.Codec

/-! Bytes to frames. A decoder keeps the bytes it has not used and, between a header and its payload,
the header. A faulty header stays in front of everything that follows; a faulty payload is used up
with its frame. -/
namespace Tether

structure Decoder where
  header : Option Header := none
  unread : List UInt8 := []
deriving DecidableEq, Repr, Inhabited

/-- What the bytes at hand give. -/
inductive Decoded
  | more
  | frame (frame : Frame)
  | fault (fault : ProtocolFault)
deriving DecidableEq, Repr

namespace Decoder

def feed (d : Decoder) (bytes : List UInt8) : Decoder := { d with unread := d.unread ++ bytes }

/-- The payload of a frame whose header is known. -/
def takePayload (codec : Codec) (header : Header) (unread : List UInt8) : Decoder × Decoded :=
  let (raw,rest) := unread.splitAt header.payloadLength.toNat
  if raw.length < header.payloadLength.toNat then (⟨some header,unread⟩,.more)
  else match codec.openPayload header raw with
    | .ok payload => (⟨none,rest⟩,.frame ⟨header,payload⟩)
    | .error fault => (⟨none,rest⟩,.fault fault)

/-- One frame from the front of the unread bytes, if they hold a whole one. -/
def next (codec : Codec) (d : Decoder) : Decoder × Decoded :=
  match d.header with
  | some header => takePayload codec header d.unread
  | none =>
    let (front,rest) := d.unread.splitAt Header.size
    if front.length < Header.size then (d,.more)
    else match Header.decode front with
      | .error fault => (d,.fault fault)
      | .ok header =>
        if codec.limits.framePayload.toNat < header.payloadLength.toNat then
          (d,.fault (.framePayload header.payloadLength codec.limits.framePayload))
        else takePayload codec header rest

/-- Every frame has a header, so this many steps use up all of them. -/
def steps (d : Decoder) : Nat := d.unread.length / Header.size + 2

/-- Frames until none is complete or one is faulty, onto those found, the last one first. -/
def drainOnto (codec : Codec) (found : List Frame) (d : Decoder) :
    Nat → Decoder × List Frame × Option ProtocolFault
  | 0 => (d,found.reverse,none)
  | fuel + 1 => match next codec d with
    | (d,.more) => (d,found.reverse,none)
    | (d,.frame frame) => drainOnto codec (frame :: found) d fuel
    | (d,.fault fault) => (d,found.reverse,some fault)

def drain (codec : Codec) (d : Decoder) : Decoder × List Frame × Option ProtocolFault :=
  drainOnto codec [] d d.steps

end Decoder
end Tether
