import Mathlib.Algebra.Order.Field.Power
import Mathlib.Algebra.Order.Floor.Semifield
import Mathlib.Data.Rat.Floor
import Mathlib.Tactic.Positivity
import Mathlib.Tactic.Ring
import Tether.Number.Binary64

/-! Where binary floating point is exact. A value that is not negative holds the rational number that its
mantissa and its power of two make. A number that has room in 53 bits and in the range of the exponents is
rounded to itself; so a product whose exact result has room is that result, and comparing values and cutting
them off is comparing and cutting off what they hold. -/
namespace Tether.Binary64

/-- A number that needs no rounding. -/
def Fits (q : ℚ) : Prop :=
  ∃ (m : Nat) (e : Int), m < 2^53 ∧ leastExponent ≤ e ∧ e ≤ greatestExponent ∧ q = m * 2^e

def Holds (x : Binary64) (q : ℚ) : Prop :=
  ∃ (m : Nat) (e : Int), x = .finite false m e ∧ leastExponent ≤ e ∧ q = m * 2^e

/-! ### Scaling and rounding -/

theorem two_zpow_toNat {e : Int} (h : 0 ≤ e) : (2 : ℚ)^e.toNat = 2^e := by
  rw [← zpow_natCast,Int.toNat_of_nonneg h]

theorem scaled_den_ne_zero {num den : Nat} (h : den ≠ 0) (e : Int) : (scaled num den e).2 ≠ 0 := by
  unfold scaled
  split
  · exact h
  · simp [Nat.shiftLeft_eq,h]

theorem scaled_quotient (num den : Nat) (e : Int) :
    ((scaled num den e).1 : ℚ) / (scaled num den e).2 = num / den * 2^e := by
  unfold scaled
  split
  · rename_i h
    rw [Nat.shiftLeft_eq,Nat.cast_mul,Nat.cast_pow,Nat.cast_ofNat,two_zpow_toNat h]
    ring
  · rename_i h
    rw [Nat.shiftLeft_eq,Nat.cast_mul,Nat.cast_pow,Nat.cast_ofNat,two_zpow_toNat (by omega),zpow_neg,
      div_mul_eq_div_div,div_inv_eq_mul]

theorem roundQuotient_mul {den : Nat} (hden : den ≠ 0) (k : Nat) : roundQuotient (k * den) den = k := by
  have hpos : 0 < den := Nat.pos_of_ne_zero hden
  simp [roundQuotient,Nat.mul_div_cancel k hpos,hpos]

/-- The exponent under which a number has 53 bits before the point. -/
def Spans (q : ℚ) (e : Int) : Prop := 2^52 * 2^e ≤ q ∧ q < 2^53 * 2^e

/-- A quotient lies within a factor of two of the power that its bit lengths tell. -/
theorem quotient_bounds {num den : Nat} (hnum : num ≠ 0) (hden : den ≠ 0) :
    (2 : ℚ)^((num.log2 : Int) - den.log2 - 1) < num / den ∧
      (num / den : ℚ) < 2^((num.log2 : Int) - den.log2 + 1) := by
  have hnumle : (2 : ℚ)^(num.log2 : Int) ≤ num := by exact_mod_cast Nat.log2_self_le hnum
  have hnumlt : (num : ℚ) < 2^((num.log2 : Int) + 1) := by exact_mod_cast Nat.lt_log2_self
  have hdenle : (2 : ℚ)^(den.log2 : Int) ≤ den := by exact_mod_cast Nat.log2_self_le hden
  have hdenlt : (den : ℚ) < 2^((den.log2 : Int) + 1) := by exact_mod_cast Nat.lt_log2_self
  have hpos : (0 : ℚ) < den := by exact_mod_cast Nat.pos_of_ne_zero hden
  constructor
  · rw [lt_div_iff₀ hpos]
    calc (2 : ℚ)^((num.log2 : Int) - den.log2 - 1) * den
        < 2^((num.log2 : Int) - den.log2 - 1) * 2^((den.log2 : Int) + 1) :=
          mul_lt_mul_of_pos_left hdenlt (by positivity)
      _ = 2^(num.log2 : Int) := by
          rw [← zpow_add₀ two_ne_zero]
          congr 1
          ring
      _ ≤ num := hnumle
  · rw [div_lt_iff₀ hpos]
    calc (num : ℚ) < 2^((num.log2 : Int) + 1) := hnumlt
      _ = 2^((num.log2 : Int) - den.log2 + 1) * 2^(den.log2 : Int) := by
          rw [← zpow_add₀ two_ne_zero]
          congr 1
          ring
      _ ≤ 2^((num.log2 : Int) - den.log2 + 1) * den := mul_le_mul_of_nonneg_left hdenle (by positivity)

theorem scaled_lt_iff {num den : Nat} (hden : den ≠ 0) (guess : Int) :
    (scaled num den (-guess)).1 < (scaled num den (-guess)).2 <<< 52 ↔ (num / den : ℚ) < 2^52 * 2^guess := by
  have hpos : (0 : ℚ) < (scaled num den (-guess)).2 := by
    exact_mod_cast Nat.pos_of_ne_zero (scaled_den_ne_zero hden _)
  rw [Nat.shiftLeft_eq,← Nat.cast_lt (α := ℚ),Nat.cast_mul,mul_comm,← div_lt_iff₀ hpos,scaled_quotient,zpow_neg,
    ← div_eq_mul_inv,div_lt_iff₀ (by positivity),Nat.cast_pow,Nat.cast_ofNat]

theorem exists_spans {num den : Nat} (hnum : num ≠ 0) (hden : den ≠ 0) :
    ∃ e : Int, exponentFor num den = max leastExponent e ∧ Spans (num / den) e := by
  obtain ⟨hlow,hhigh⟩ := quotient_bounds hnum hden
  have hpower (guess d : Int) (n : Nat) (h : d = n + guess) : (2 : ℚ)^d = 2^n * 2^guess := by
    rw [h,zpow_add₀ two_ne_zero,zpow_natCast]
  rw [hpower (num.log2 - den.log2 - 52) _ 53 (by push_cast; ring)] at hhigh
  -- The first guess is right or one too great.
  by_cases hless : (num / den : ℚ) < 2^52 * 2^((num.log2 : Int) - den.log2 - 52)
  · refine ⟨num.log2 - den.log2 - 52 - 1,?_,?_,?_⟩
    · simp only [exponentFor,(scaled_lt_iff hden _).mpr hless,if_true]
    · rw [hpower (num.log2 - den.log2 - 52 - 1) _ 52 (by push_cast; ring)] at hlow
      exact hlow.le
    · rwa [← hpower _ _ 53 rfl,hpower (num.log2 - den.log2 - 52) _ 52 (by push_cast; ring)]
  · refine ⟨num.log2 - den.log2 - 52,?_,not_lt.mp hless,hhigh⟩
    simp only [exponentFor,mt (scaled_lt_iff hden _).mp hless,if_false]

/-- A number that has room is a whole number of units of the exponent that is found for it, and fewer than
2^53 of them. -/
theorem exists_units {num den : Nat} (hnum : num ≠ 0) (hden : den ≠ 0) (h : Fits (num / den)) :
    ∃ k < 2^53, leastExponent ≤ exponentFor num den ∧ exponentFor num den ≤ greatestExponent ∧
      (num / den : ℚ) = (k : Nat) * 2^exponentFor num den := by
  obtain ⟨m,e,hm,hleast,hgreatest,hq⟩ := h
  obtain ⟨e',hfound,hlow,hhigh⟩ := exists_spans hnum hden
  have hlt : (num / den : ℚ) < 2^53 * 2^e := by
    rw [hq]
    exact mul_lt_mul_of_pos_right (by exact_mod_cast hm) (by positivity)
  -- The number spans `e'`, and 53 bits under `e` hold it too.
  have hle : e' ≤ e := by
    have hpow : (2 : ℚ)^(52 + e') < 2^(53 + e) := by
      rw [zpow_add₀ two_ne_zero,zpow_add₀ two_ne_zero]
      exact_mod_cast hlow.trans_lt hlt
    have := (zpow_lt_zpow_iff_right₀ one_lt_two).mp hpow
    omega
  have hexp : exponentFor num den ≤ e := hfound ▸ max_le hleast hle
  have hunits : (num / den : ℚ) = (m * 2^(e - exponentFor num den).toNat : Nat) * 2^exponentFor num den := by
    rw [Nat.cast_mul,Nat.cast_pow,Nat.cast_ofNat,two_zpow_toNat (by omega),mul_assoc,← zpow_add₀ two_ne_zero,
      sub_add_cancel,hq]
  refine ⟨_,?_,hfound ▸ le_max_left _ _,hexp.trans hgreatest,hunits⟩
  have hcount : (num / den : ℚ) < 2^53 * 2^exponentFor num den :=
    hhigh.trans_le (mul_le_mul_of_nonneg_left (zpow_le_zpow_right₀ one_le_two (hfound ▸ le_max_right _ _))
      (by positivity))
  rw [hunits] at hcount
  exact_mod_cast lt_of_mul_lt_mul_right hcount (by positivity)

theorem holds_ofQuotient {num den : Nat} (hden : den ≠ 0) (h : Fits (num / den)) :
    (ofQuotient false num den).Holds (num / den) := by
  by_cases hnum : num = 0
  · exact ⟨0,leastExponent,by simp [ofQuotient,hnum],le_refl _,by simp [hnum]⟩
  obtain ⟨k,hk,hleast,hgreatest,hunits⟩ := exists_units hnum hden h
  have hne : (scaled num den (-exponentFor num den)).2 ≠ 0 := scaled_den_ne_zero hden _
  have hwhole : (scaled num den (-exponentFor num den)).1 = k * (scaled num den (-exponentFor num den)).2 := by
    have hquotient := scaled_quotient num den (-exponentFor num den)
    rw [hunits,mul_assoc,← zpow_add₀ two_ne_zero,add_neg_cancel,zpow_zero,mul_one,
      div_eq_iff (by exact_mod_cast hne)] at hquotient
    exact_mod_cast hquotient
  have hcarry : k ≠ 1 <<< 53 := hk.ne
  refine ⟨k,exponentFor num den,?_,hleast,hunits⟩
  simp only [ofQuotient,hnum,if_false,hwhole,roundQuotient_mul hne,hcarry,not_lt.mpr hgreatest]

theorem fits_natCast_mul_two_pow {n k : Nat} (hn : n < 2^53) (hk : k ≤ 971) : Fits (n * 2^k) :=
  ⟨n,k,hn,by unfold leastExponent; omega,by unfold greatestExponent; omega,by rw [zpow_natCast]⟩

theorem fits_two_pow {k : Nat} (hk : k ≤ 971) : Fits (2^k) := by
  simpa using fits_natCast_mul_two_pow (n := 1) (by norm_num) hk

theorem holds_ofNat {n : Nat} (hn : n < 2^53) : (ofNat n).Holds n := by
  have hvalue : (n : ℚ) / (1 : Nat) = n := by rw [Nat.cast_one,div_one]
  have hfits : Fits (n / (1 : Nat)) := by
    rw [hvalue]
    simpa using fits_natCast_mul_two_pow (k := 0) hn (Nat.zero_le _)
  have h := holds_ofQuotient one_ne_zero hfits
  rwa [hvalue] at h

/-! ### Arithmetic -/

variable {x y : Binary64} {p q : ℚ}

theorem Holds.mul (hx : x.Holds p) (hy : y.Holds q) (h : Fits (p * q)) : (x.mul y).Holds (p * q) := by
  obtain ⟨m,e,rfl,-,rfl⟩ := hx
  obtain ⟨n,f,rfl,-,rfl⟩ := hy
  have hdef : (finite false m e).mul (.finite false n f) =
      ofQuotient false (scaled (m * n) 1 (e + f)).1 (scaled (m * n) 1 (e + f)).2 := by
    simp only [mul,bne_self_eq_false]
  have hproduct : ((scaled (m * n) 1 (e + f)).1 : ℚ) / (scaled (m * n) 1 (e + f)).2 =
      m * 2^e * (n * 2^f) := by
    rw [scaled_quotient,zpow_add₀ two_ne_zero]
    push_cast
    ring
  rw [← hproduct] at h ⊢
  rw [hdef]
  exact holds_ofQuotient (scaled_den_ne_zero one_ne_zero _) h

theorem cast_units {m : Nat} {e : Int} (h : leastExponent ≤ e) :
    (units false m e : ℚ) * 2^leastExponent = m * 2^e := by
  have hsum : (2 : ℚ)^(e - leastExponent).toNat * 2^leastExponent = 2^e := by
    rw [two_zpow_toNat (by omega),← zpow_add₀ two_ne_zero,sub_add_cancel]
  rw [← hsum]
  simp only [units,Bool.false_eq_true,if_false,Int.ofNat_eq_natCast,Int.cast_natCast,Nat.shiftLeft_eq]
  push_cast
  ring

theorem Holds.lt_iff (hx : x.Holds p) (hy : y.Holds q) : x.lt y = true ↔ p < q := by
  obtain ⟨m,e,rfl,he,rfl⟩ := hx
  obtain ⟨n,f,rfl,hf,rfl⟩ := hy
  rw [← cast_units he,← cast_units hf,mul_lt_mul_iff_left₀ (by positivity),Int.cast_lt]
  simp [lt]

theorem Holds.min (hx : x.Holds p) (hy : y.Holds q) : (x.min y).Holds (p ⊓ q) := by
  have hdef : x.min y = if y.lt x then y else x := by
    obtain ⟨m,e,rfl,-,-⟩ := hx
    obtain ⟨n,f,rfl,-,-⟩ := hy
    rfl
  rw [hdef]
  split
  · rename_i hlt
    rwa [inf_of_le_right ((hy.lt_iff hx).mp hlt).le]
  · rename_i hge
    rwa [inf_of_le_left (not_lt.mp (mt (hy.lt_iff hx).mpr hge))]

theorem Holds.truncate (hx : x.Holds q) (limit : Nat) : x.truncate limit = Nat.min limit ⌊q⌋₊ := by
  obtain ⟨m,e,rfl,-,rfl⟩ := hx
  have hquotient := scaled_quotient m 1 e
  rw [Nat.cast_one,div_one] at hquotient
  rw [← hquotient,Nat.floor_div_eq_div]
  rfl

/-! ### Powers of two -/

theorem Holds.mul_two_pow {a b : Nat} (hx : x.Holds (2^a)) (hy : y.Holds (2^b)) (hroom : a + b ≤ 971) :
    (x.mul y).Holds (2^(a + b)) := by
  rw [pow_add]
  refine hx.mul hy ?_
  rw [← pow_add]
  exact fits_two_pow hroom

/-- Squaring again and again: what the result and the base stand for are powers of two all along. -/
theorem holds_powFrom {result base : Binary64} {a b n fuel : Nat} (hresult : result.Holds (2^a))
    (hbase : base.Holds (2^b)) (hfuel : n < 2^fuel) (hroom : a + b * n ≤ 971) :
    (powFrom result base n fuel).Holds (2^(a + b * n)) := by
  induction fuel generalizing result base a b n with
  | zero =>
    obtain rfl : n = 0 := by omega
    exact hresult
  | succ fuel ih =>
    -- The last bit of the exponent goes into the result, and the others are left to the square.
    have hsplit : b * n = b * (n % 2) + (b + b) * (n / 2) := by
      conv_lhs => rw [← Nat.mod_add_div n 2]
      ring
    have hbit : (if n % 2 = 1 then mul result base else result).Holds (2^(a + b * (n % 2))) := by
      rcases Nat.mod_two_eq_zero_or_one n with heven | hodd
      · simpa [heven] using hresult
      · rw [hodd,mul_one] at hsplit
        rw [hodd,mul_one,if_pos rfl]
        exact hresult.mul_two_pow hbase (by omega)
    rw [powFrom]
    split
    · rename_i hlast
      rwa [hsplit,hlast,mul_zero,add_zero]
    · rename_i hmore
      have hroom' : b + b ≤ (b + b) * (n / 2) := Nat.le_mul_of_pos_right _ (Nat.pos_of_ne_zero hmore)
      have hsquare : (mul base base).Holds (2^(b + b)) := hbase.mul_two_pow hbase (by omega)
      rw [hsplit,← add_assoc]
      exact ih hbit hsquare (by omega) (by omega)

theorem holds_pow_two {n : Nat} (hn : n ≤ 971) : ((ofNat 2).pow n).Holds (2^n) := by
  have hone : (ofNat 1).Holds (2^0) := by simpa using holds_ofNat (n := 1) (by norm_num)
  have htwo : (ofNat 2).Holds (2^1) := by simpa using holds_ofNat (n := 2) (by norm_num)
  have h := holds_powFrom (n := n) hone htwo Nat.lt_log2_self (by omega)
  rwa [Nat.zero_add,Nat.one_mul] at h

end Tether.Binary64
