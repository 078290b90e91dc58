import Tether.Link.Connection
import Tether.Wire.Decoder
import Tether.Wire.Reassembly

/-! The reading side of a link: bytes to frames, frames to messages, until something is wrong with
one of them. -/
namespace Tether

structure Inbound where
  decoder : Decoder := {}
  reassembler : Reassembler := {}
deriving Inhabited

/-- What reading comes upon, in order. A frame is counted before its message is known. -/
inductive Arrival
  | frame (size : Nat)
  | message (message : Message)
  | fault (error : LinkError)
deriving DecidableEq, Repr

namespace Inbound

def frameSize (frame : Frame) : Nat := Header.size + frame.header.payloadLength.toNat

/-- Messages out of frames; a refused frame ends it. -/
def absorbOnto (limits : Limits) (r : Reassembler) (found : List Arrival) :
    List Frame → Reassembler × List Arrival × Bool
  | [] => (r,found,true)
  | frame :: rest =>
    let found := .frame (frameSize frame) :: found
    match r.push limits frame with
    | (r,.ok none) => absorbOnto limits r found rest
    | (r,.ok (some message)) => absorbOnto limits r (.message message :: found) rest
    | (r,.error fault) => (r,.fault (.protocol fault) :: found,false)

/-- Takes bytes in and tells all that they complete. -/
def read (codec : Codec) (i : Inbound) (bytes : List UInt8) : Inbound × List Arrival :=
  let (decoder,frames,fault) := Decoder.drain codec (i.decoder.feed bytes)
  let (reassembler,found,sound) := absorbOnto codec.limits i.reassembler [] frames
  let found : List Arrival := match fault, sound with
    | some fault, true => .fault (.protocol fault) :: found
    | _, _ => found
  (⟨decoder,reassembler⟩,found.reverse)

/-- What the end of the stream means. Bytes left over are a fault. -/
def ending (i : Inbound) : Except LinkError String :=
  if i.decoder.unread.isEmpty then .ok "connection closed by peer"
  else .error (.io .trailingBytes)

end Inbound
end Tether
