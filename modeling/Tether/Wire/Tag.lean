import Tether.Error

/-! Command tags: one to twelve graphic ASCII bytes, padded with spaces on the wire. A tag carries the
proof that it is one, so a padded tag can be cut back without loss. -/
namespace Tether

/-- Graphic ASCII: neither a space nor a control byte. -/
def isGraphic (b : UInt8) : Bool := 0x21 ≤ b && b ≤ 0x7E

structure Tag where
  bytes : List UInt8
  nonempty : 1 ≤ bytes.length
  fits : bytes.length ≤ 12
  graphic : bytes.all isGraphic
deriving DecidableEq, Repr

namespace Tag

def width : Nat := 12

def space : UInt8 := 0x20

def ofBytes (bytes : List UInt8) : Except TagFault Tag :=
  if h : 1 ≤ bytes.length ∧ bytes.length ≤ 12 then
    if g : bytes.all isGraphic then .ok ⟨bytes,h.1,h.2,g⟩
    else .error .characters
  else .error (.length bytes.length)

def ofText (text : String) : Except TagFault Tag := ofBytes text.toUTF8.toList

def text (tag : Tag) : String := String.ofList (tag.bytes.map fun b => Char.ofNat b.toNat)

instance : ToString Tag := ⟨text⟩

def shown (tag : Tag) : String := s!"Command({tag.text})"

def padded (tag : Tag) : List UInt8 :=
  tag.bytes ++ List.replicate (width - tag.bytes.length) space

/-- A field of the wire without its trailing spaces. -/
def unpad (field : List UInt8) : List UInt8 :=
  (field.reverse.dropWhile (· == space)).reverse

def ofPadded (field : List UInt8) : Except TagFault Tag := ofBytes (unpad field)

def hello : Tag := ⟨[0x68,0x65,0x6c,0x6c,0x6f],by decide,by decide,by decide⟩
def ok : Tag := ⟨[0x6f,0x6b],by decide,by decide,by decide⟩
def okClient : Tag := ⟨[0x6f,0x6b,0x2d,0x63],by decide,by decide,by decide⟩
def okMaster : Tag := ⟨[0x6f,0x6b,0x2d,0x6d],by decide,by decide,by decide⟩
def echo : Tag := ⟨[0x65,0x63,0x68,0x6f],by decide,by decide,by decide⟩
def echoClient : Tag := ⟨[0x65,0x63,0x68,0x6f,0x2d,0x63],by decide,by decide,by decide⟩
def echoMaster : Tag := ⟨[0x65,0x63,0x68,0x6f,0x2d,0x6d],by decide,by decide,by decide⟩
def err : Tag := ⟨[0x65,0x72,0x72],by decide,by decide,by decide⟩
def file : Tag := ⟨[0x66,0x69,0x6c,0x65],by decide,by decide,by decide⟩
def string : Tag := ⟨[0x73,0x74,0x72,0x69,0x6e,0x67],by decide,by decide,by decide⟩
def batch : Tag := ⟨[0x62,0x61,0x74,0x63,0x68],by decide,by decide,by decide⟩

/-- The reply tag of a failure; its payload is the text of the failure. -/
def isError (tag : Tag) : Bool := tag == err

end Tag
end Tether
