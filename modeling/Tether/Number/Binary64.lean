/-! Binary floating point with 53 significant bits, in exact arithmetic. A finite value is a sign, a
mantissa and a power of two in canonical form: the mantissa is below 2^53 and the exponent is the
least that allows it, never below -1074. Every operation rounds its exact result once, to the nearest
value and on a tie to the even mantissa. -/
namespace Tether

inductive Binary64
  | nan
  | infinite (negative : Bool)
  | finite (negative : Bool) (mantissa : Nat) (exponent : Int)
deriving DecidableEq, Repr, Inhabited

namespace Binary64

def leastExponent : Int := -1074
def greatestExponent : Int := 971

def zero : Binary64 := .finite false 0 leastExponent

/-- Numerator and denominator of `num / den * 2^e`. -/
def scaled (num den : Nat) (e : Int) : Nat × Nat :=
  if 0 ≤ e then (num <<< e.toNat,den) else (num,den <<< (-e).toNat)

/-- The quotient to the nearest whole number, a half to the even neighbour. -/
def roundQuotient (num den : Nat) : Nat :=
  let q := num / den
  let r := 2 * (num % den)
  if r < den then q else if den < r then q + 1 else if q % 2 = 0 then q else q + 1

/-- The exponent that gives `num / den` 53 significant bits, or the least one. -/
def exponentFor (num den : Nat) : Int :=
  let guess : Int := num.log2 - den.log2 - 52
  let (n,d) := scaled num den (-guess)
  max leastExponent (if n < d <<< 52 then guess - 1 else guess)

/-- The value nearest to a quotient of natural numbers. -/
def ofQuotient (negative : Bool) (num den : Nat) : Binary64 :=
  if num = 0 then .finite negative 0 leastExponent
  else
    let e := exponentFor num den
    let (n,d) := scaled num den (-e)
    let m := roundQuotient n d
    let (m,e) := if m = 1 <<< 53 then (1 <<< 52,e + 1) else (m,e)
    if greatestExponent < e then .infinite negative else .finite negative m e

def ofNat (n : Nat) : Binary64 := ofQuotient false n 1

def neg : Binary64 → Binary64
  | .nan => .nan
  | .infinite s => .infinite (!s)
  | .finite s m e => .finite (!s) m e

def mul : Binary64 → Binary64 → Binary64
  | .nan, _ => .nan
  | _, .nan => .nan
  | .infinite s, .infinite t => .infinite (s != t)
  | .infinite s, .finite t m _ => if m = 0 then .nan else .infinite (s != t)
  | .finite s m _, .infinite t => if m = 0 then .nan else .infinite (s != t)
  | .finite s m e, .finite t n f =>
    let (num,den) := scaled (m * n) 1 (e + f)
    ofQuotient (s != t) num den

def div : Binary64 → Binary64 → Binary64
  | .nan, _ => .nan
  | _, .nan => .nan
  | .infinite _, .infinite _ => .nan
  | .infinite s, .finite t _ _ => .infinite (s != t)
  | .finite s _ _, .infinite t => .finite (s != t) 0 leastExponent
  | .finite s m e, .finite t n f =>
    if n = 0 then (if m = 0 then .nan else .infinite (s != t))
    else
      let (num,den) := scaled m n (e - f)
      ofQuotient (s != t) num den

/-- Repeated squaring: the factors are multiplied from the lowest bit of the exponent upwards. -/
def powFrom (result base : Binary64) (n : Nat) : Nat → Binary64
  | 0 => result
  | fuel + 1 =>
    let result := if n % 2 = 1 then mul result base else result
    if n / 2 = 0 then result else powFrom result (mul base base) (n / 2) fuel

def pow (base : Binary64) (n : Nat) : Binary64 := powFrom (ofNat 1) base n (n.log2 + 1)

/-- A finite value as a whole number of units of the least power of two. -/
def units (negative : Bool) (mantissa : Nat) (exponent : Int) : Int :=
  let size : Int := .ofNat (mantissa <<< (exponent - leastExponent).toNat)
  if negative then -size else size

def lt : Binary64 → Binary64 → Bool
  | .nan, _ => false
  | _, .nan => false
  | .infinite s, .infinite t => s && !t
  | .infinite s, .finite .. => s
  | .finite .., .infinite t => !t
  | .finite s m e, .finite t n f => units s m e < units t n f

/-- The smaller value; a value that is not a number gives way to the other. -/
def min (x y : Binary64) : Binary64 :=
  match x, y with
  | .nan, y => y
  | x, .nan => x
  | x, y => if lt y x then y else x

/-- The whole part, cut off at zero below and at `limit` above; nothing counts as zero. -/
def truncate (limit : Nat) : Binary64 → Nat
  | .nan => 0
  | .infinite s => if s then 0 else limit
  | .finite s m e =>
    if s then 0
    else
      let (num,den) := scaled m 1 e
      Nat.min limit (num / den)

end Binary64
end Tether
