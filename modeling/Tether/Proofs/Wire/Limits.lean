import Mathlib.Tactic.Common
import Tether.Proofs.Arithmetic
import Tether.Wire.Limits

/-! The number of chunks of a message: as few as hold it, at least one, and no more than the two bytes
of a chunk's place can count. -/
namespace Tether
namespace Limits

/-- As many chunks as a payload needs, before the field that tells their number is considered. -/
def needed (limits : Limits) (length : Nat) : Nat :=
  if length = 0 then 1 else (length + limits.chunkSize.toNat - 1)/limits.chunkSize.toNat

theorem chunkCount_eq (limits : Limits) (length : Nat) :
    limits.chunkCount length =
      if chunksMax < limits.needed length ∨ wordMax < length then
        .error (.payloadTooLarge length limits.messageMax)
      else .ok (UInt16.ofNat (limits.needed length)) := rfl

theorem messageMaxIn_checked (limits : Limits) : limits.messageMaxIn Checked =
    if limits.chunkSize.toNat*65535 < 2^64 then .ok limits.messageMax else .error .overflow := by
  rw [messageMaxIn]
  split
  · rename_i h
    rw [Checked.mul_of_lt h]
    rfl
  · rename_i h
    rw [Checked.mul_of_le (Nat.not_lt.mp h)]
    rfl

theorem chunkCountIn_checked {limits : Limits} (hchunk : limits.chunkSize ≠ 0) (length : Nat) :
    limits.chunkCountIn Checked length =
      match limits.chunkCount length with
      | .ok total => .ok (.ok total)
      | .error fault =>
        if limits.chunkSize.toNat*65535 < 2^64 then .ok (.error fault) else .error .overflow := by
  have hneeded : limits.neededIn Checked length = .ok (limits.needed length) := by
    rw [needed,neededIn,Checked.divCeil_of_ne_zero hchunk]
    split <;> rfl
  rw [chunkCount_eq,chunkCountIn,hneeded,Checked.ok_bind,messageMaxIn_checked]
  by_cases h : chunksMax < limits.needed length ∨ wordMax < length
  · rw [if_pos h,if_pos h]
    dsimp only
    split <;> rfl
  · rw [if_neg h,if_neg h]
    rfl

theorem chunkCount_eq_ok_iff (limits : Limits) (length : Nat) (total : UInt16) :
    limits.chunkCount length = .ok total ↔
      limits.needed length ≤ chunksMax ∧ length ≤ wordMax ∧
        total = UInt16.ofNat (limits.needed length) := by
  rw [chunkCount_eq]
  by_cases h : chunksMax < limits.needed length ∨ wordMax < length
  · simp only [h,if_true,reduceCtorEq,false_iff]
    omega
  · rw [if_neg h,Except.ok.injEq,eq_comm]
    have hh : limits.needed length ≤ chunksMax ∧ length ≤ wordMax := by omega
    simp [hh]

theorem toNat_chunkCount {limits : Limits} {length : Nat} {total : UInt16}
    (h : limits.chunkCount length = .ok total) : total.toNat = limits.needed length := by
  obtain ⟨hmax,-,rfl⟩ := (chunkCount_eq_ok_iff limits length total).mp h
  exact UInt16.toNat_ofNat_of_lt (Nat.lt_of_le_of_lt hmax (by decide))

theorem length_le_wordMax {limits : Limits} {length : Nat} {total : UInt16}
    (h : limits.chunkCount length = .ok total) : length ≤ wordMax :=
  ((chunkCount_eq_ok_iff limits length total).mp h).2.1

theorem one_le_needed (limits : Limits) (hc : 1 ≤ limits.chunkSize.toNat) (length : Nat) :
    1 ≤ limits.needed length := by
  unfold needed
  split
  · exact Nat.le_refl 1
  · exact (Nat.le_div_iff_mul_le hc).mpr (by omega)

theorem needed_le (limits : Limits) (hc : 1 ≤ limits.chunkSize.toNat) (length : Nat) :
    limits.needed length ≤ max 1 length := by
  unfold needed
  split
  · exact Nat.le_max_left ..
  · refine Nat.le_trans (Nat.div_le_of_le_mul ?_) (Nat.le_max_right ..)
    obtain ⟨c,hc⟩ := Nat.exists_eq_add_of_le hc
    obtain ⟨n,hn⟩ := Nat.exists_eq_add_of_le (show 1 ≤ length by omega)
    rw [hc,hn,Nat.add_mul,Nat.one_mul,Nat.mul_add]
    omega

theorem length_le_needed (limits : Limits) (hc : 1 ≤ limits.chunkSize.toNat) (length : Nat) :
    length ≤ limits.chunkSize.toNat*limits.needed length := by
  unfold needed
  split
  · omega
  · have h := Nat.lt_mul_div_succ (length + limits.chunkSize.toNat - 1) hc
    rw [Nat.mul_add] at h
    omega

theorem mul_lt_of_lt_needed {limits : Limits} (hchunk : 1 ≤ limits.chunkSize.toNat)
    {length i : Nat} (hlength : length ≠ 0) (h : i < limits.needed length) :
    limits.chunkSize.toNat*i < length := by
  rw [needed,if_neg hlength] at h
  have hle := (Nat.le_div_iff_mul_le hchunk).mp (Nat.succ_le_of_lt h)
  rw [Nat.succ_mul,Nat.mul_comm] at hle
  omega

theorem needed_eq_one {limits : Limits} {length : Nat} (hchunk : 1 ≤ limits.chunkSize.toNat)
    (h : length ≤ limits.chunkSize.toNat) : limits.needed length = 1 := by
  refine Nat.le_antisymm ?_ (limits.one_le_needed hchunk length)
  unfold needed
  split
  · exact Nat.le_refl 1
  · rw [← Nat.lt_succ_iff,Nat.div_lt_iff_lt_mul hchunk]
    omega

theorem one_le_chunkCount {limits : Limits} (hc : 1 ≤ limits.chunkSize.toNat) {length : Nat}
    {total : UInt16} (h : limits.chunkCount length = .ok total) : 1 ≤ total.toNat :=
  toNat_chunkCount h ▸ one_le_needed limits hc length

theorem length_le_chunkCount {limits : Limits} (hc : 1 ≤ limits.chunkSize.toNat) {length : Nat}
    {total : UInt16} (h : limits.chunkCount length = .ok total) :
    length ≤ limits.chunkSize.toNat*total.toNat :=
  toNat_chunkCount h ▸ length_le_needed limits hc length

end Limits
end Tether
