/-! UTF-8 as byte lists. Reading is either strict or lossy; the lossy reader puts U+FFFD in place of
each longest run of bytes that begins some character but does not finish it, and of each byte that
begins none. -/
namespace Tether.Utf8

def encode (text : String) : List UInt8 := text.toUTF8.toList

def decode? (bytes : List UInt8) : Option String := String.fromUTF8? bytes.toByteArray

/-- Where a reader stands between two bytes: at a character's start, or owing `more` bytes, the
next of them between `low` and `high`, on top of the bits read so far. -/
inductive Position
  | start
  | owing (more : Nat) (low high : UInt8) (bits : Nat)
deriving DecidableEq, Repr

def replacement : Char := '\uFFFD'

/-- What a leading byte asks for; none for a byte that leads no character. -/
def leading (b : UInt8) : Option Position :=
  if 0xC2 ≤ b ∧ b ≤ 0xDF then some (.owing 1 0x80 0xBF (b.toNat - 0xC0))
  else if b = 0xE0 then some (.owing 2 0xA0 0xBF 0)
  else if b = 0xED then some (.owing 2 0x80 0x9F 13)
  else if 0xE1 ≤ b ∧ b ≤ 0xEF then some (.owing 2 0x80 0xBF (b.toNat - 0xE0))
  else if b = 0xF0 then some (.owing 3 0x90 0xBF 0)
  else if 0xF1 ≤ b ∧ b ≤ 0xF3 then some (.owing 3 0x80 0xBF (b.toNat - 0xF0))
  else if b = 0xF4 then some (.owing 3 0x80 0x8F 4)
  else none

/-- Text read so far, last character first, and the reader's position. -/
abbrev Progress := Position × List Char

def begin (text : List Char) (b : UInt8) : Progress :=
  if b < 0x80 then (.start,Char.ofNat b.toNat :: text)
  else match leading b with
    | some position => (position,text)
    | none => (.start,replacement :: text)

def step : Progress → UInt8 → Progress
  | (.start,text), b => begin text b
  | (.owing more low high bits,text), b =>
    if low ≤ b ∧ b ≤ high then
      let bits := bits * 64 + (b.toNat - 0x80)
      if more ≤ 1 then (.start,Char.ofNat bits :: text)
      else (.owing (more - 1) 0x80 0xBF bits,text)
    else begin (replacement :: text) b

def finish : Progress → List Char
  | (.start,text) => text.reverse
  | (.owing ..,text) => (replacement :: text).reverse

def lossy (bytes : List UInt8) : String :=
  String.ofList (finish (bytes.foldl step (.start,[])))

end Tether.Utf8
