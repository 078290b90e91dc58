import Tether.Cluster.World
import Tether.Digest.Sha256
import Tether.Transfer.Body

/-! The far ends of links that the script plays. A peer keeps every frame it gets for the next report,
and replies to whole requests as its table says. -/
namespace Tether.Cluster.Far

/-- A peer sets no limits of its own on messages. -/
def limits : Limits :=
  { framePayload := 0xFFFF_FFFF_FFFF, messageSize := 0xFFFF_FFFF, partialMessages := 0xFFFF_FFFF }

def rule? (table : AutoTable) (tag : Tag) : Option AutoRule :=
  match table.find? (·.1 == some tag) with
  | some (_,rule) => rule
  | none => ((table.find? (·.1.isNone)).map Prod.snd).getD none

def data (payload : List UInt8) : AutoData → List UInt8
  | .payload => payload
  | .length => Utf8.encode s!"received {payload.length} bytes"
  | .digest => match FileBody.decode payload with
    | .ok (_,content) => Utf8.encode (Sha256.hex content)
    | .error _ => []
  | .bytes bytes => bytes

/-- Writes a message, and then the end if there is to be one. -/
def send (w : World) (i : Nat) (message : Message) (close : Bool) : World :=
  match w.peers[i]? with
  | none => w
  | some p =>
    let w := w.pour p.sink (p.codec.emitMessage w.nonces message).bytes
    if close then w.endPipe p.sink else w

/-- What a peer does with a request that is there as a whole. -/
def answer (w : World) (i : Nat) (table : AutoTable) (request : Message) : World :=
  if request.response then w
  else match rule? table request.tag with
    | none => w
    | some rule =>
      let message := ⟨request.counter,rule.tag,true,data request.payload rule.data⟩
      if rule.delay = 0 then send w i message rule.close
      else w.start (.send i (w.now + rule.delay) message rule.close)

def receive (w : World) (i : Nat) (table : AutoTable) (r : Reassembler) :
    List Frame → World × Reassembler
  | [] => (w,r)
  | frame :: rest => match r.push limits frame with
    | (r,.ok (some message)) => receive (answer w i table message) i table r rest
    | (r,_) => receive w i table r rest

def firstOf (known : Option UInt32) (frames : List Frame) : Option UInt32 :=
  match known with
  | some c => some c
  | none => (frames.find? (!·.header.isResponse)).map (·.header.counter)

/-- Reads what is there. A fault of the decoder ends the reading, and so does the end. -/
def run (w : World) (i : Nat) : World × Bool :=
  match w.peers[i]? with
  | none => (w,false)
  | some p =>
    let (w,bytes,ended) := w.drain p.source
    if bytes.isEmpty && !ended then (w,true)
    else
      let (decoder,frames,fault) := Decoder.drain p.codec (p.decoder.feed bytes)
      let finish := match fault with
        | some fault => some (LinkError.protocol fault).message
        | none =>
          if !ended then none
          else if decoder.unread.isEmpty then some "eof"
          else some IoFault.trailingBytes.message
      let (w,reassembler) := receive w i p.table p.reassembler frames
      (w.onPeer i fun p => { p with
        decoder, reassembler
        ended := finish
        first := firstOf p.first frames
        frames := p.frames ++ frames },finish.isNone)

end Tether.Cluster.Far
