import Mathlib.Tactic.Common
import Mathlib.Tactic.IntervalCases
import Tether.Wire.Header

/-! Headers read back as they were written, and bytes that are read as a header are written back as
they were. Words survive their bytes, a tag survives its padding, and the fixed layout puts every field
where it is looked for. -/
namespace Tether

namespace BigEndian

theorem toUInt16_ofUInt16 (n : UInt16) : toUInt16 (n >>> 8).toUInt8 n.toUInt8 = n := by
  apply UInt16.toBitVec_inj.mp
  apply BitVec.eq_of_getLsbD_eq
  intro i hi
  simp only [toUInt16,UInt16.toBitVec_or,UInt16.toBitVec_shiftLeft,UInt8.toBitVec_toUInt16,
    UInt16.toBitVec_toUInt8,UInt16.toBitVec_shiftRight,BitVec.getLsbD_or,BitVec.getLsbD_setWidth,
    UInt16.toBitVec_ofNat]
  grind

theorem toUInt32_ofUInt32 (n : UInt32) :
    toUInt32 (n >>> 24).toUInt8 (n >>> 16).toUInt8 (n >>> 8).toUInt8 n.toUInt8 = n := by
  apply UInt32.toBitVec_inj.mp
  apply BitVec.eq_of_getLsbD_eq
  intro i hi
  simp only [toUInt32,UInt32.toBitVec_or,UInt32.toBitVec_shiftLeft,UInt8.toBitVec_toUInt32,
    UInt32.toBitVec_toUInt8,UInt32.toBitVec_shiftRight,BitVec.getLsbD_or,BitVec.getLsbD_setWidth,
    UInt32.toBitVec_ofNat]
  grind

theorem ofUInt16_toUInt16 (a b : UInt8) : ofUInt16 (toUInt16 a b) = [a,b] := by
  simp only [ofUInt16,List.cons.injEq,and_true]
  constructor
  all_goals
    apply UInt8.toBitVec_inj.mp
    apply BitVec.eq_of_getLsbD_eq
    intro i hi
    simp only [toUInt16,UInt16.toBitVec_or,UInt16.toBitVec_shiftLeft,UInt8.toBitVec_toUInt16,
      UInt16.toBitVec_toUInt8,UInt16.toBitVec_shiftRight,BitVec.getLsbD_setWidth,UInt16.toBitVec_ofNat]
    grind

theorem ofUInt32_toUInt32 (a b c d : UInt8) : ofUInt32 (toUInt32 a b c d) = [a,b,c,d] := by
  simp only [ofUInt32,List.cons.injEq,and_true]
  refine ⟨?_,?_,?_,?_⟩
  all_goals
    apply UInt8.toBitVec_inj.mp
    apply BitVec.eq_of_getLsbD_eq
    intro i hi
    simp only [toUInt32,UInt32.toBitVec_or,UInt32.toBitVec_shiftLeft,UInt8.toBitVec_toUInt32,
      UInt32.toBitVec_toUInt8,UInt32.toBitVec_shiftRight,BitVec.getLsbD_setWidth,UInt32.toBitVec_ofNat]
    grind

@[simp] theorem length_ofUInt16 (n : UInt16) : (ofUInt16 n).length = 2 := rfl

@[simp] theorem length_ofUInt32 (n : UInt32) : (ofUInt32 n).length = 4 := rfl

end BigEndian

namespace Flags

theorem ofBits_bits (f : Flags) : ofBits? f.bits = some f := by
  rcases f with ⟨e,r⟩
  cases e <;> cases r <;> rfl

theorem bits_ofBits {b : UInt8} {f : Flags} (h : ofBits? b = some f) : f.bits = b := by
  by_cases hmask : b &&& 0xFC = 0
  · have hlt : b.toNat < 2^2 := by
      apply Nat.lt_pow_two_of_testBit
      intro i hi
      by_cases h8 : i < 8
      · have hand : (b.toNat &&& 252).testBit i = false := by
          rw [show b.toNat &&& 252 = 0 by simpa using congrArg UInt8.toNat hmask,Nat.zero_testBit]
        have hbit : (252).testBit i = true := by interval_cases i <;> rfl
        simpa [Nat.testBit_and,hbit] using hand
      · exact Nat.testBit_lt_two_pow
          (b.toNat_lt.trans_le (Nat.pow_le_pow_right (by decide) (by omega)))
    have hb : b = 0 ∨ b = 1 ∨ b = 2 ∨ b = 3 := by
      simp only [← UInt8.toNat_inj,UInt8.toNat_ofNat]
      omega
    obtain rfl := Option.some.inj ((if_neg (not_not.mpr hmask)).symm.trans h)
    rcases hb with rfl | rfl | rfl | rfl <;> rfl
  · exact absurd ((if_pos hmask).symm.trans h) (by simp)

end Flags

namespace Tag

@[simp] theorem length_padded (tag : Tag) : tag.padded.length = width := by
  have h := tag.fits
  simp only [padded,width,List.length_append,List.length_replicate]
  omega

theorem unpad_append_spaces (bytes : List UInt8) (n : Nat) :
    unpad (bytes ++ List.replicate n space) = unpad bytes := by
  simp [unpad]

theorem graphic_ne_space {b : UInt8} (h : isGraphic b = true) : (b == space) = false := by
  simp only [isGraphic,space,Bool.and_eq_true,decide_eq_true_eq,beq_eq_false_iff_ne] at h ⊢
  rintro rfl
  exact absurd h.1 (by decide)

theorem unpad_bytes (tag : Tag) : unpad tag.bytes = tag.bytes := by
  have hne : tag.bytes.reverse ≠ [] := by
    have h := tag.nonempty
    intro hnil
    simp [List.reverse_eq_nil_iff.mp hnil] at h
  obtain ⟨b,rest,hb⟩ := List.exists_cons_of_ne_nil hne
  have hmem : b ∈ tag.bytes := List.mem_reverse.mp (hb ▸ List.mem_cons_self)
  have hspace := graphic_ne_space (List.all_eq_true.mp tag.graphic b hmem)
  rw [unpad,hb,List.dropWhile_cons_of_neg (by simp [hspace]),← hb,List.reverse_reverse]

theorem ofBytes_bytes (tag : Tag) : ofBytes tag.bytes = .ok tag := by
  simp only [ofBytes,tag.nonempty,tag.fits,tag.graphic,and_self,dite_true]

theorem ofPadded_padded (tag : Tag) : ofPadded tag.padded = .ok tag := by
  rw [ofPadded,padded,unpad_append_spaces,unpad_bytes,ofBytes_bytes]

theorem bytes_ofBytes {bytes : List UInt8} {tag : Tag} (h : ofBytes bytes = .ok tag) :
    tag.bytes = bytes := by
  unfold ofBytes at h
  split at h
  · split at h
    · rw [← Except.ok.inj h]
    · simp at h
  · simp at h

theorem unpad_append_missing (field : List UInt8) :
    unpad field ++ List.replicate (field.length - (unpad field).length) space = field := by
  have hsplit := List.takeWhile_append_dropWhile (p := (· == space)) (l := field.reverse)
  have hspaces : field.reverse.takeWhile (· == space) =
      List.replicate (field.reverse.takeWhile (· == space)).length space :=
    List.eq_replicate_of_mem fun b hb => by
      simpa using List.all_eq_true.mp (List.all_takeWhile) b hb
  have hlen : (field.reverse.takeWhile (· == space)).length = field.length - (unpad field).length := by
    have h := congrArg List.length hsplit
    simp only [List.length_append,List.length_reverse] at h
    simp only [unpad,List.length_reverse]
    omega
  have h := congrArg List.reverse hsplit
  rw [List.reverse_append,List.reverse_reverse,hspaces,hlen,List.reverse_replicate] at h
  exact h

theorem padded_ofPadded {field : List UInt8} {tag : Tag} (hw : field.length = width)
    (h : ofPadded field = .ok tag) : tag.padded = field := by
  rw [padded,bytes_ofBytes h,← hw,unpad_append_missing]

end Tag

namespace Header

@[simp] theorem length_encode (h : Header) : h.encode.length = size := by
  simp [encode,Tag.width,size]

theorem decode_encode (h : Header) (hv : h.version = currentVersion) (hi : h.index < h.total) :
    decode h.encode = .ok h := by
  have hsize : ¬ h.encode.length < size := by simp
  have ht : h.total ≠ 0 := by
    intro h0
    rw [h0] at hi
    exact absurd hi (by simp)
  have hle : ¬ (h.total = 0 ∨ h.total ≤ h.index) := by
    simpa only [ht,false_or,UInt16.not_le] using hi
  unfold decode
  rw [if_neg hsize]
  simp only [encode,BigEndian.ofUInt32,List.cons_append,List.nil_append,List.append_assoc]
  rw [List.take_left' (Tag.length_padded h.tag),List.drop_left' (Tag.length_padded h.tag)]
  simp only [Tag.ofPadded_padded,BigEndian.ofUInt16,List.cons_append,List.nil_append,List.take_succ_cons,
    List.take_zero,decodeTail,hv,Flags.ofBits_bits,BigEndian.toUInt16_ofUInt16,
    BigEndian.toUInt32_ofUInt32]
  simp only [ne_eq,not_true_eq_false,if_false,if_neg hle]
  rw [← hv]

theorem encode_decodeTail {counter : UInt32} {tag : Tag} {rest : List UInt8} {h : Header}
    (hd : decodeTail counter tag rest = .ok h) :
    h.encode = BigEndian.ofUInt32 counter ++ tag.padded ++ rest ∧ h.version = currentVersion ∧
      h.index < h.total := by
  unfold decodeTail at hd
  split at hd
  · rename_i v f i₁ i₀ t₁ t₀ m₃ m₂ m₁ m₀ p₃ p₂ p₁ p₀
    split at hd
    · simp at hd
    · rename_i hv
      split at hd
      · simp at hd
      · rename_i flags hf
        simp only at hd
        split at hd
        · simp at hd
        · rename_i hplace
          have hindex := (not_or.mp hplace).2
          rw [← Except.ok.inj hd]
          refine ⟨?_,not_not.mp hv,UInt16.not_le.mp hindex⟩
          simp [encode,BigEndian.ofUInt16_toUInt16,BigEndian.ofUInt32_toUInt32,Flags.bits_ofBits hf]
  · simp at hd

theorem encode_decode {bytes : List UInt8} {h : Header} (hsize : bytes.length = size)
    (hd : decode bytes = .ok h) :
    h.encode = bytes ∧ h.version = currentVersion ∧ h.index < h.total := by
  unfold decode at hd
  rw [if_neg (by omega)] at hd
  split at hd
  · rename_i c₃ c₂ c₁ c₀ rest
    split at hd
    · simp at hd
    · rename_i tag htag
      have hrest : rest.length = 26 := by simpa [size] using hsize
      have hpad := Tag.padded_ofPadded (by simp [hrest,Tag.width]) htag
      have hall : (rest.drop Tag.width).take 14 = rest.drop Tag.width :=
        List.take_of_length_le (by simp [hrest,Tag.width])
      rw [hall] at hd
      obtain ⟨he,hv,hi⟩ := encode_decodeTail hd
      refine ⟨?_,hv,hi⟩
      rw [he,hpad,BigEndian.ofUInt32_toUInt32,List.append_assoc,List.take_append_drop]
      rfl
  · simp at hd

theorem index_lt_total_of_decode {bytes : List UInt8} {h : Header} (hd : decode bytes = .ok h) :
    h.index < h.total := by
  unfold decode at hd
  split at hd
  · simp at hd
  · split at hd
    · split at hd
      · simp at hd
      · exact (encode_decodeTail hd).2.2
    · simp at hd

theorem isLast_iff {h : Header} (hindex : h.index < h.total) :
    h.isLast = true ↔ h.index.toNat + 1 = h.total.toNat := by
  have hword := h.total.toNat_lt
  have hone : (1 : UInt16).toNat = 1 := rfl
  rw [UInt16.lt_iff_toNat_lt] at hindex
  rw [isLast,beq_iff_eq,← UInt16.toNat_inj,UInt16.toNat_add,hone,Nat.mod_eq_of_lt (by omega)]

end Header
end Tether
