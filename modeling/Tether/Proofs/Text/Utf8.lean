import Mathlib.Tactic.Common
import Tether.Text.Utf8

/-! Text as bytes: what is encoded has the length that the text says it has, and is read as the text that it
was. -/
namespace Tether.Utf8

theorem toList_loop (bytes : ByteArray) (i : Nat) (found : List UInt8) :
    ByteArray.toList.loop bytes i found = found.reverse ++ bytes.data.toList.drop i := by
  fun_induction ByteArray.toList.loop bytes i found with
  | case1 i found hlt ih =>
    have hlt' : i < bytes.data.toList.length := hlt
    have hget : bytes.get! i = bytes.data.toList[i] := getElem!_pos bytes.data i hlt
    rw [ih,List.drop_eq_getElem_cons hlt',hget]
    simp
  | case2 i found hge =>
    have hge' : bytes.data.toList.length ≤ i := Nat.not_lt.mp hge
    rw [List.drop_eq_nil_of_le hge',List.append_nil]

theorem toList_eq (bytes : ByteArray) : bytes.toList = bytes.data.toList := by
  simp [ByteArray.toList,toList_loop]

@[simp] theorem length_encode (text : String) : (encode text).length = text.utf8ByteSize := by
  rw [encode,toList_eq]
  rfl

theorem encode_ofList (text : List Char) :
    encode (String.ofList text) = text.flatMap String.utf8EncodeChar := by
  rw [encode,toList_eq]
  simp [List.utf8Encode]

@[simp] theorem decode?_encode (text : String) : decode? (encode text) = some text := by
  have h : text.toUTF8.toList.toByteArray = text.toUTF8 := by
    rw [toList_eq]
    exact ByteArray.ext (by simp)
  rw [decode?,encode,h,String.fromUTF8?,String.toUTF8_eq_toByteArray,dif_pos text.isValidUTF8]
  rfl

variable {text : List Char} {n : Nat}

theorem begin_ascii (h : n < 0x80) : begin text (UInt8.ofNat n) = (.start,Char.ofNat n :: text) := by
  have hn : (UInt8.ofNat n).toNat = n := UInt8.toNat_ofNat_of_lt' (by simp only [UInt8.size]; omega)
  simp [begin,UInt8.lt_iff_toNat_lt,hn,h]

theorem begin_of_leading {position : Position} (h : 0x80 ≤ n) (h' : n < 0x100)
    (hb : leading (UInt8.ofNat n) = some position) : begin text (UInt8.ofNat n) = (position,text) := by
  have hn : (UInt8.ofNat n).toNat = n := UInt8.toNat_ofNat_of_lt' h'
  have hbig : ¬ UInt8.ofNat n < 0x80 := by
    rw [UInt8.lt_iff_toNat_lt,hn]
    exact Nat.not_lt.mpr h
  rw [begin,if_neg hbig,hb]

theorem begin_two (h : 0xC2 ≤ n) (h' : n ≤ 0xDF) :
    begin text (UInt8.ofNat n) = (.owing 1 0x80 0xBF (n - 0xC0),text) := by
  have hn : (UInt8.ofNat n).toNat = n := UInt8.toNat_ofNat_of_lt' (by simp only [UInt8.size]; omega)
  exact begin_of_leading (by omega) (by omega) (by simp [leading,UInt8.le_iff_toNat_le,hn,h,h'])

theorem begin_three (h : 0xE0 ≤ n) (h' : n ≤ 0xEF) : begin text (UInt8.ofNat n) =
    (.owing 2 (if n = 0xE0 then 0xA0 else 0x80) (if n = 0xED then 0x9F else 0xBF) (n - 0xE0),text) := by
  refine begin_of_leading (by omega) (by omega) ?_
  have hn : (UInt8.ofNat n).toNat = n := UInt8.toNat_ofNat_of_lt' (by simp only [UInt8.size]; omega)
  by_cases hlow : n = 0xE0
  · subst hlow
    rfl
  by_cases hhigh : n = 0xED
  · subst hhigh
    rfl
  have htwo : ¬ n ≤ 0xDF := by omega
  have hthree : 0xE1 ≤ n := by omega
  simp [leading,UInt8.le_iff_toNat_le,← UInt8.toNat_inj,hn,hlow,hhigh,htwo,hthree,h']

theorem begin_four (h : 0xF0 ≤ n) (h' : n ≤ 0xF4) : begin text (UInt8.ofNat n) =
    (.owing 3 (if n = 0xF0 then 0x90 else 0x80) (if n = 0xF4 then 0x8F else 0xBF) (n - 0xF0),text) := by
  refine begin_of_leading (by omega) (by omega) ?_
  obtain rfl | rfl | rfl | rfl | rfl : n = 0xF0 ∨ n = 0xF1 ∨ n = 0xF2 ∨ n = 0xF3 ∨ n = 0xF4 := by omega
  all_goals rfl

theorem step_owing {more bits : Nat} {low high : UInt8} (h : low.toNat ≤ n + 128) (h' : n + 128 ≤ high.toNat) :
    step (.owing more low high bits,text) (UInt8.ofNat (n + 128)) =
      if more ≤ 1 then (.start,Char.ofNat (bits * 64 + n) :: text)
      else (.owing (more - 1) 0x80 0xBF (bits * 64 + n),text) := by
  have hhigh := high.toNat_lt
  have hn : (UInt8.ofNat (n + 128)).toNat = n + 128 :=
    UInt8.toNat_ofNat_of_lt' (by simp only [UInt8.size]; omega)
  have hin : low ≤ UInt8.ofNat (n + 128) ∧ UInt8.ofNat (n + 128) ≤ high := by
    simp only [UInt8.le_iff_toNat_le,hn]
    exact ⟨h,h'⟩
  simp only [step,if_pos hin,hn,Nat.add_sub_cancel]

theorem step_last {bits : Nat} (h : n < 64) :
    step (.owing 1 0x80 0xBF bits,text) (UInt8.ofNat (n + 128)) = (.start,Char.ofNat (bits * 64 + n) :: text) :=
  step_owing (by change 128 ≤ _; omega) (by change _ ≤ 191; omega)

theorem step_next {bits : Nat} (h : n < 64) : step (.owing 2 0x80 0xBF bits,text) (UInt8.ofNat (n + 128)) =
    (.owing 1 0x80 0xBF (bits * 64 + n),text) :=
  step_owing (by change 128 ≤ _; omega) (by change _ ≤ 191; omega)

/-! ### One character -/

variable {v : Nat}

theorem read_two (h : 0x7F < v) (h' : v ≤ 0x7FF) :
    [UInt8.ofNat (v / 64 % 32 + 192),UInt8.ofNat (v % 64 + 128)].foldl step (.start,text) =
      (.start,Char.ofNat v :: text) := by
  have hbits : (v / 64 % 32 + 192 - 0xC0) * 64 + v % 64 = v := by omega
  simp only [List.foldl_cons,List.foldl_nil]
  rw [step,begin_two (by omega) (by omega),step_last (by omega),hbits]

theorem read_three (h : 0x7FF < v) (h' : v ≤ 0xFFFF) (hvalid : v < 0xD800 ∨ 0xDFFF < v) :
    [UInt8.ofNat (v / 4096 % 16 + 224),UInt8.ofNat (v / 64 % 64 + 128),UInt8.ofNat (v % 64 + 128)].foldl
      step (.start,text) = (.start,Char.ofNat v :: text) := by
  have hbits : ((v / 4096 % 16 + 224 - 0xE0) * 64 + v / 64 % 64) * 64 + v % 64 = v := by omega
  have hlow : (if v / 4096 % 16 + 224 = 0xE0 then (0xA0 : UInt8) else 0x80).toNat ≤ v / 64 % 64 + 128 := by
    split
    · change 160 ≤ _
      omega
    · change 128 ≤ _
      omega
  have hhigh : v / 64 % 64 + 128 ≤ (if v / 4096 % 16 + 224 = 0xED then (0x9F : UInt8) else 0xBF).toNat := by
    split
    · change _ ≤ 159
      omega
    · change _ ≤ 191
      omega
  simp only [List.foldl_cons,List.foldl_nil]
  rw [step,begin_three (by omega) (by omega),step_owing hlow hhigh,if_neg (by omega),step_last (by omega),
    hbits]

theorem read_four (h : 0xFFFF < v) (h' : v < 0x110000) :
    [UInt8.ofNat (v / 262144 % 8 + 240),UInt8.ofNat (v / 4096 % 64 + 128),UInt8.ofNat (v / 64 % 64 + 128),
      UInt8.ofNat (v % 64 + 128)].foldl step (.start,text) = (.start,Char.ofNat v :: text) := by
  have hbits : (((v / 262144 % 8 + 240 - 0xF0) * 64 + v / 4096 % 64) * 64 + v / 64 % 64) * 64 + v % 64 = v := by
    omega
  have hlow : (if v / 262144 % 8 + 240 = 0xF0 then (0x90 : UInt8) else 0x80).toNat ≤
      v / 4096 % 64 + 128 := by
    split
    · change 144 ≤ _
      omega
    · change 128 ≤ _
      omega
  have hhigh : v / 4096 % 64 + 128 ≤
      (if v / 262144 % 8 + 240 = 0xF4 then (0x8F : UInt8) else 0xBF).toNat := by
    split
    · change _ ≤ 143
      omega
    · change _ ≤ 191
      omega
  simp only [List.foldl_cons,List.foldl_nil]
  rw [step,begin_four (by omega) (by omega),step_owing hlow hhigh,if_neg (by omega),step_next (by omega),
    step_last (by omega),hbits]

theorem foldl_step_encodeChar (c : Char) (text : List Char) :
    (String.utf8EncodeChar c).foldl step (.start,text) = (.start,c :: text) := by
  have hvalid : c.val.toNat < 0xD800 ∨ 0xDFFF < c.val.toNat ∧ c.val.toNat < 0x110000 := c.valid
  have hc : Char.ofNat c.val.toNat = c := Char.ofNat_toNat c
  simp only [String.utf8EncodeChar]
  generalize c.val.toNat = v at hvalid hc ⊢
  by_cases hone : v ≤ 0x7F
  · rw [if_pos hone,List.foldl_cons,step,begin_ascii (by omega),hc]
    rfl
  by_cases htwo : v ≤ 0x7FF
  · rw [if_neg hone,if_pos htwo,read_two (by omega) htwo,hc]
  by_cases hthree : v ≤ 0xFFFF
  · rw [if_neg hone,if_neg htwo,if_pos hthree,read_three (by omega) hthree (by omega),hc]
  rw [if_neg hone,if_neg htwo,if_neg hthree,read_four (by omega) (by omega),hc]

/-! ### A text -/

theorem foldl_step_encode (chars text : List Char) :
    (chars.flatMap String.utf8EncodeChar).foldl step (.start,text) = (.start,chars.reverse ++ text) := by
  induction chars generalizing text with
  | nil => rfl
  | cons c chars ih =>
    rw [List.flatMap_cons,List.foldl_append,foldl_step_encodeChar,ih]
    simp

@[simp] theorem lossy_encode (text : String) : lossy (encode text) = text := by
  obtain ⟨chars,rfl⟩ : ∃ chars, text = String.ofList chars := ⟨text.toList,String.ofList_toList.symm⟩
  rw [lossy,encode_ofList,foldl_step_encode,List.append_nil,finish,List.reverse_reverse]

end Tether.Utf8
