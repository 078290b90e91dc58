/-! Base64 as it stands between the lines of a PEM section: blanks are passed over, the rest comes in
fours, and only the last four may end in one or two padding marks. -/
namespace Tether.Base64

def isBlank (b : UInt8) : Bool := b = 0x20 || (0x09 ≤ b && b ≤ 0x0D)

def padding : UInt8 := 0x3D

def value? (b : UInt8) : Option UInt32 :=
  if 0x41 ≤ b ∧ b ≤ 0x5A then some (b.toUInt32 - 0x41)
  else if 0x61 ≤ b ∧ b ≤ 0x7A then some (b.toUInt32 - 0x61 + 26)
  else if 0x30 ≤ b ∧ b ≤ 0x39 then some (b.toUInt32 - 0x30 + 52)
  else if b = 0x2B then some 62
  else if b = 0x2F then some 63
  else none

def three (a b c d : UInt32) : List UInt8 :=
  let n := a <<< 18 ||| b <<< 12 ||| c <<< 6 ||| d
  [(n >>> 16).toUInt8,(n >>> 8).toUInt8,n.toUInt8]

def fours : List UInt8 → Option (List UInt8)
  | [] => some []
  | [a,b,c,d] => do
    let x ← value? a
    let y ← value? b
    if c = padding ∧ d = padding then some ((three x y 0 0).take 1)
    else
      let z ← value? c
      if d = padding then some ((three x y z 0).take 2)
      else some (three x y z (← value? d))
  | a :: b :: c :: d :: rest => do
    let here := three (← value? a) (← value? b) (← value? c) (← value? d)
    some (here ++ (← fours rest))
  | _ => none

def decode? (text : List UInt8) : Option (List UInt8) := fours (text.filter (!isBlank ·))

end Tether.Base64
