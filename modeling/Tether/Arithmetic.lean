/-! Arithmetic on words of 64 bits, which depends on how a program is built: where a sum or a product
leaves its word, a build that checks for overflow stops, and any other goes on with the lowest bits. -/
namespace Tether

/-- What stops a program at once. -/
inductive Panic
  | instantOverflow
  | periodZero
  | capacityOverflow
  | overflow
  | divisionByZero
deriving DecidableEq, Repr

/-- Nothing stops, as in a release build. A quotient by 0, at which that build stops too, is 0. -/
abbrev Wrapping := Id

abbrev Checked := Except Panic

class Arithmetic (m : Type → Type) where
  add (a b : UInt64) : m UInt64
  mul (a b : UInt64) : m UInt64
  /-- A length by a word, rounded up. -/
  divCeil (n : Nat) (d : UInt64) : m Nat

instance : Arithmetic Wrapping where
  add a b := a + b
  mul a b := a * b
  divCeil n d := (n + d.toNat - 1) / d.toNat

instance : Arithmetic Checked where
  add a b := if a.toNat + b.toNat < UInt64.size then .ok (a + b) else .error .overflow
  mul a b := if a.toNat * b.toNat < UInt64.size then .ok (a * b) else .error .overflow
  divCeil n d := if d = 0 then .error .divisionByZero else .ok ((n + d.toNat - 1) / d.toNat)

end Tether
