import Tether.Text.Hex

/-! Identifiers of 128 bits. They are written as thirty-two lower-case digits in five groups, and read
in that form, without the hyphens, in braces or behind their URN scheme, in either case. -/
namespace Tether

structure Uid where
  high : UInt64
  low : UInt64
deriving DecidableEq, Repr, Inhabited

namespace Uid

def nil : Uid := ⟨0,0⟩

def word (w : UInt64) : List Char :=
  Hex.encodeChars ((List.range 8).map fun i => (w >>> (56 - 8 * UInt64.ofNat i)).toUInt8)

def chars (u : Uid) : List Char :=
  let digits := word u.high ++ word u.low
  digits.take 8 ++ '-' :: (digits.drop 8).take 4 ++ '-' :: (digits.drop 12).take 4
    ++ '-' :: (digits.drop 16).take 4 ++ '-' :: digits.drop 20

def text (u : Uid) : String := String.ofList u.chars

instance : ToString Uid := ⟨text⟩

def ofDigits? (digits : List Char) : Option Uid :=
  if digits.length = 32 then do
    let values ← digits.mapM Hex.digitValue
    let n := values.foldl (fun n d => 16 * n + d) 0
    some ⟨UInt64.ofNat (n / UInt64.size),UInt64.ofNat n⟩
  else none

/-- Groups of eight, four, four, four and twelve digits. -/
def ofGroups? (text : List Char) : Option Uid :=
  match text.splitOn '-' with
  | [a,b,c,d,e] =>
    if [a,b,c,d,e].map List.length = [8,4,4,4,12] then ofDigits? (a ++ b ++ c ++ d ++ e)
    else none
  | _ => none

def scheme : List Char := "urn:uuid:".toList

def parse? (text : String) : Option Uid :=
  let cs := text.toList
  if cs.length = 32 then ofDigits? cs
  else if cs.length = 36 then ofGroups? cs
  else if cs.length = 38 ∧ cs.head? = some '{' ∧ cs.getLast? = some '}' then
    ofGroups? ((cs.drop 1).take 36)
  else if cs.length = 45 ∧ scheme.isPrefixOf cs then ofGroups? (cs.drop 9)
  else none

end Uid
end Tether
