/-! Hexadecimal text of byte strings: two lower-case digits a byte, read back in either case. -/
namespace Tether.Hex

def digit (n : UInt8) : Char :=
  if n < 10 then Char.ofNat (48 + n.toNat) else Char.ofNat (87 + n.toNat)

def encodeChars (bytes : List UInt8) : List Char :=
  bytes.flatMap fun (b : UInt8) => [digit (b >>> 4),digit (b &&& 15)]

def encode (bytes : List UInt8) : String := String.ofList (encodeChars bytes)

def digitValue (c : Char) : Option Nat :=
  if '0' ≤ c ∧ c ≤ '9' then some (c.toNat - 48)
  else if 'a' ≤ c ∧ c ≤ 'f' then some (c.toNat - 87)
  else if 'A' ≤ c ∧ c ≤ 'F' then some (c.toNat - 55)
  else none

/-- Reads pairs of digits onto the bytes found so far, the last one first. -/
def decodeOnto : List Char → List UInt8 → Option (List UInt8)
  | [], done => some done.reverse
  | [_], _ => none
  | hi :: lo :: rest, done =>
    match digitValue hi, digitValue lo with
    | some h, some l => decodeOnto rest (UInt8.ofNat (16 * h + l) :: done)
    | _, _ => none

def decode? (text : List Char) : Option (List UInt8) := decodeOnto text []

end Tether.Hex
