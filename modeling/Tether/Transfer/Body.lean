import Tether.Error
import Tether.Text.Utf8
import Tether.Wire.BigEndian

/-! The body of a file request: the length of the name in two bytes, the name, the content. -/
namespace Tether.FileBody

def nameMax : Nat := 65535

def head (name : String) : List UInt8 :=
  let name := Utf8.encode name
  BigEndian.ofUInt16 (UInt16.ofNat name.length) ++ name

def encode (name : String) (content : List UInt8) : Except ConfigFault (List UInt8) :=
  let length := name.utf8ByteSize
  if length = 0 ∨ nameMax < length then .error (.fileNameLength length)
  else .ok (head name ++ content)

/-- The name may be empty here; whoever stores the file judges it. -/
def decode : List UInt8 → Except ProtocolFault (String × List UInt8)
  | a :: b :: rest =>
    let length := (BigEndian.toUInt16 a b).toNat
    let (name,content) := rest.splitAt length
    if name.length < length then .error (.fileNameTruncated length)
    else match Utf8.decode? name with
      | some name => .ok (name,content)
      | none => .error .fileNameEncoding
  | _ => .error .fileBodyShort

end Tether.FileBody
