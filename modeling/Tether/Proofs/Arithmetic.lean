import Mathlib.Algebra.Group.Nat.Defs
import Tether.Arithmetic

/-! The two ways to compute, case by case. As long as nothing leaves its word they agree. -/
namespace Tether

variable {α β : Type} {a b : UInt64}

namespace Wrapping

@[simp] theorem pure_eq (x : α) : (pure x : Wrapping α) = x := rfl

@[simp] theorem bind_eq (x : Wrapping α) (f : α → Wrapping β) : x >>= f = f x := rfl

@[simp] theorem add_eq (a b : UInt64) : (Arithmetic.add a b : Wrapping UInt64) = a + b := rfl

@[simp] theorem mul_eq (a b : UInt64) : (Arithmetic.mul a b : Wrapping UInt64) = a*b := rfl

@[simp] theorem divCeil_eq (n : Nat) (d : UInt64) :
    (Arithmetic.divCeil n d : Wrapping Nat) = (n + d.toNat - 1)/d.toNat := rfl

end Wrapping

namespace Checked

@[simp] theorem pure_eq (x : α) : (pure x : Checked α) = .ok x := rfl

@[simp] theorem ok_bind (x : α) (f : α → Checked β) : (.ok x : Checked α) >>= f = f x := rfl

@[simp] theorem error_bind (p : Panic) (f : α → Checked β) : (.error p : Checked α) >>= f = .error p := rfl

theorem add_of_lt (h : a.toNat + b.toNat < 2^64) : (Arithmetic.add a b : Checked UInt64) = .ok (a + b) :=
  if_pos h

theorem add_of_le (h : 2^64 ≤ a.toNat + b.toNat) : (Arithmetic.add a b : Checked UInt64) = .error .overflow :=
  if_neg (Nat.not_lt.mpr h)

theorem mul_of_lt (h : a.toNat*b.toNat < 2^64) : (Arithmetic.mul a b : Checked UInt64) = .ok (a*b) :=
  if_pos h

theorem mul_of_le (h : 2^64 ≤ a.toNat*b.toNat) : (Arithmetic.mul a b : Checked UInt64) = .error .overflow :=
  if_neg (Nat.not_lt.mpr h)

theorem divCeil_of_ne_zero {d : UInt64} (h : d ≠ 0) (n : Nat) :
    (Arithmetic.divCeil n d : Checked Nat) = .ok ((n + d.toNat - 1)/d.toNat) := if_neg h

end Checked
end Tether
