import Tether.Number.Binary64

/-! The shortest decimal that reads back as a given binary value, and of those the nearest one. The
search tries one digit, then two, up to seventeen: on each decimal grid only the two neighbours of
the value can lie among the reals that round to it. -/
namespace Tether.Shortest

/-- Twice-scaled bounds: the reals that round to `mantissa * 2^exponent` lie between `low / den` and
`high / den`, the ends included when `closed`. -/
structure Interval where
  value : Nat
  low : Nat
  high : Nat
  den : Nat
  closed : Bool
deriving Repr

def interval (mantissa : Nat) (exponent : Int) : Interval :=
  let below := if mantissa = 1 <<< 52 ∧ Binary64.leastExponent < exponent then 1 else 2
  let (value,den) := Binary64.scaled (4 * mantissa) 4 exponent
  let (low,_) := Binary64.scaled (4 * mantissa - below) 4 exponent
  let (high,_) := Binary64.scaled (4 * mantissa + 2) 4 exponent
  { value, low, high, den, closed := mantissa % 2 = 0 }

def Interval.holds (i : Interval) (num den : Nat) : Bool :=
  let n := num * i.den
  if i.closed then i.low * den ≤ n ∧ n ≤ i.high * den else i.low * den < n ∧ n < i.high * den

/-- The greatest `k` at most `start` with `10^k ≤ value`, searched downwards. -/
def decimalExponent (i : Interval) : Int → Nat → Int
  | k, 0 => k
  | k, fuel + 1 =>
    let enough :=
      if 0 ≤ k then Nat.pow 10 k.toNat * i.den ≤ i.value else i.den ≤ i.value * Nat.pow 10 (-k).toNat
    if enough then k else decimalExponent i (k - 1) fuel

/-- Digits and the power of ten of the last of them. -/
structure Decimal where
  digits : Nat
  exponent : Int
deriving Repr, DecidableEq

/-- The hit on the grid of multiples of `10^k`, if there is one: the nearer of the value's two
neighbours, and on a tie the even one. -/
def gridHit (i : Interval) (k : Int) : Option Decimal :=
  let up := Nat.pow 10 k.toNat
  let down := Nat.pow 10 (-k).toNat
  let q := i.value * down / (i.den * up)
  let r := 2 * (i.value * down % (i.den * up))
  let lower := i.holds (q * up) down
  let upper := i.holds ((q + 1) * up) down
  let lowerNearer := r < i.den * up ∨ (r = i.den * up ∧ q % 2 = 0)
  if lower ∧ (lowerNearer ∨ ¬upper) then some ⟨q,k⟩
  else if upper then some ⟨q + 1,k⟩
  else none

def search (i : Interval) (k : Int) : Nat → Decimal
  | 0 => ⟨0,0⟩
  | fuel + 1 => match gridHit i k with
    | some d => d
    | none => search i (k - 1) fuel

def dropZeros (d : Nat) (k : Int) : Nat → Decimal
  | 0 => ⟨d,k⟩
  | fuel + 1 => if d ≠ 0 ∧ d % 10 = 0 then dropZeros (d / 10) (k + 1) fuel else ⟨d,k⟩

/-- The shortest decimal of a value that is not zero. -/
def decimal (mantissa : Nat) (exponent : Int) : Decimal :=
  let i := interval mantissa exponent
  let k := decimalExponent i 309 640
  let d := search i k 20
  dropZeros d.digits d.exponent 20

/-- How a number is laid out: positional for decimal exponents from `least` to below `most`,
otherwise with an exponent that always carries its sign. -/
structure Layout where
  least : Int
  most : Int
deriving Repr

def zeros (n : Nat) : List Char := List.replicate n '0'

def render (layout : Layout) (negative : Bool) (mantissa : Nat) (exponent : Int) : List Char :=
  let sign := if negative then ['-'] else []
  if mantissa = 0 then sign ++ ['0','.','0']
  else
    let d := decimal mantissa exponent
    let digits := Nat.toDigits 10 d.digits
    let point : Int := d.exponent + digits.length
    let e := point - 1
    if layout.least ≤ e ∧ e < layout.most then
      if 0 ≤ d.exponent then sign ++ digits ++ zeros d.exponent.toNat ++ ['.','0']
      else if 0 < point then sign ++ digits.take point.toNat ++ '.' :: digits.drop point.toNat
      else sign ++ '0' :: '.' :: zeros (-point).toNat ++ digits
    else
      let mark := if e < 0 then '-' else '+'
      let tail := if digits.length = 1 then [] else '.' :: digits.drop 1
      sign ++ digits.take 1 ++ tail ++ 'e' :: mark :: Nat.toDigits 10 e.natAbs

end Tether.Shortest
