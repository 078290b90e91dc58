import Mathlib.Tactic.Common
import Tether.Proofs.Wire.Header

/-! The format of a header, told by its bytes alone. Of thirty bytes those that have the format are
accepted, and no others; each header that can be sent has one spelling, and each spelling gives one
header. -/
namespace Tether

namespace BigEndian

/-- The number that bytes spell, the most significant first. -/
def value (bytes : List UInt8) : Nat := bytes.foldl (fun n b => 256*n + b.toNat) 0

theorem value_ofUInt16 (n : UInt16) : value (ofUInt16 n) = n.toNat := by
  have h := n.toNat_lt
  simp only [value,ofUInt16,List.foldl_cons,List.foldl_nil,UInt16.toNat_toUInt8,UInt16.toNat_shiftRight,
    Nat.shiftRight_eq_div_pow,show (8 : UInt16).toNat % 16 = 8 from rfl]
  omega

theorem toNat_toUInt16 (a b : UInt8) : (toUInt16 a b).toNat = value [a,b] := by
  rw [← value_ofUInt16,ofUInt16_toUInt16]

end BigEndian

theorem Flags.exists_of_le {b : UInt8} (h : b ≤ 3) : ∃ f : Flags, f.bits = b := by
  have hb : b = 0 ∨ b = 1 ∨ b = 2 ∨ b = 3 := by
    rw [UInt8.le_iff_toNat_le] at h
    simp only [← UInt8.toNat_inj,UInt8.toNat_ofNat] at h ⊢
    omega
  rcases hb with rfl | rfl | rfl | rfl
  · exact ⟨⟨false,false⟩,rfl⟩
  · exact ⟨⟨true,false⟩,rfl⟩
  · exact ⟨⟨false,true⟩,rfl⟩
  · exact ⟨⟨true,true⟩,rfl⟩

theorem Flags.bits_le (f : Flags) : f.bits ≤ 3 := by
  rcases f with ⟨e,r⟩
  cases e <;> cases r <;> decide

namespace Header

/-- Four bytes of counter, a name of one to twelve graphic characters filled up with spaces, the version,
flags of which only the two lowest bits are used, the index of the chunk and the number of chunks it is
below, and eight bytes of lengths. -/
inductive Formed : List UInt8 → Prop
  | intro {counter name index total lengths : List UInt8} {flags : UInt8} :
    counter.length = 4 → 1 ≤ name.length → name.length ≤ 12 → (∀ b ∈ name, 0x21 ≤ b ∧ b ≤ 0x7E) →
    flags ≤ 0x03 → index.length = 2 → total.length = 2 →
    BigEndian.value index < BigEndian.value total → lengths.length = 8 →
    Formed (counter ++ (name ++ List.replicate (12 - name.length) 0x20) ++ [1,flags] ++ index ++ total
      ++ lengths)

theorem formed_encode {h : Header} (hv : h.version = currentVersion) (hi : h.index < h.total) :
    Formed h.encode := by
  have hgraphic : ∀ b ∈ h.tag.bytes, 0x21 ≤ b ∧ b ≤ 0x7E := by
    intro b hb
    simpa [isGraphic] using List.all_eq_true.mp h.tag.graphic b hb
  have hplace : BigEndian.value (BigEndian.ofUInt16 h.index) <
      BigEndian.value (BigEndian.ofUInt16 h.total) := by
    rw [BigEndian.value_ofUInt16,BigEndian.value_ofUInt16]
    exact UInt16.lt_iff_toNat_lt.mp hi
  have hformed := Formed.intro (BigEndian.length_ofUInt32 h.counter) h.tag.nonempty h.tag.fits hgraphic
    h.flags.bits_le (BigEndian.length_ofUInt16 h.index) (BigEndian.length_ofUInt16 h.total) hplace
    (show (BigEndian.ofUInt32 h.messageLength ++ BigEndian.ofUInt32 h.payloadLength).length = 8 from rfl)
  rw [encode,hv]
  simpa only [List.append_assoc,Tag.padded,Tag.width,Tag.space,currentVersion] using hformed

theorem Formed.exists_encode {bytes : List UInt8} (h : Formed bytes) :
    ∃ h : Header, h.version = currentVersion ∧ h.index < h.total ∧ h.encode = bytes := by
  obtain @⟨counter,name,index,total,lengths,flags,hcounter,hname,hfits,hgraphic,hflags,hindex,htotal,
    hplace,hlengths⟩ := h
  match counter,hcounter,index,hindex,total,htotal,lengths,hlengths with
  | [c₃,c₂,c₁,c₀],_,[i₁,i₀],_,[t₁,t₀],_,[m₃,m₂,m₁,m₀,p₃,p₂,p₁,p₀],_ =>
    have hall : name.all isGraphic := by
      simpa [isGraphic] using hgraphic
    obtain ⟨f,rfl⟩ := Flags.exists_of_le hflags
    refine ⟨⟨BigEndian.toUInt32 c₃ c₂ c₁ c₀,⟨name,hname,hfits,hall⟩,currentVersion,f,
      BigEndian.toUInt16 i₁ i₀,BigEndian.toUInt16 t₁ t₀,BigEndian.toUInt32 m₃ m₂ m₁ m₀,
      BigEndian.toUInt32 p₃ p₂ p₁ p₀⟩,rfl,?_,?_⟩
    · rwa [UInt16.lt_iff_toNat_lt,BigEndian.toNat_toUInt16,BigEndian.toNat_toUInt16]
    · simp [encode,Tag.padded,Tag.width,Tag.space,currentVersion,BigEndian.ofUInt16_toUInt16,
        BigEndian.ofUInt32_toUInt32]

theorem exists_decode_iff {bytes : List UInt8} (hsize : bytes.length = size) :
    (∃ h, decode bytes = .ok h) ↔ Formed bytes := by
  constructor
  · rintro ⟨h,hd⟩
    obtain ⟨hbytes,hv,hi⟩ := encode_decode hsize hd
    exact hbytes ▸ formed_encode hv hi
  · intro hformed
    obtain ⟨h,hv,hi,rfl⟩ := hformed.exists_encode
    exact ⟨h,decode_encode h hv hi⟩

/-- Writing and reading a header undo each other. A header of this version with its index below its total
is written as thirty bytes, which are read as that header; thirty bytes that are read as a header are
what it is written as; those that can be read are those that have the format, and all others, like those
that are too short, are refused. -/
theorem decode_bijective :
    (∀ h : Header, h.version = currentVersion → h.index < h.total →
      h.encode.length = 30 ∧ decode h.encode = .ok h) ∧
    (∀ bytes h, bytes.length = 30 → decode bytes = .ok h →
      h.encode = bytes ∧ h.version = currentVersion ∧ h.index < h.total) ∧
    (∀ bytes, bytes.length = 30 → ((∃ h, decode bytes = .ok h) ↔ Formed bytes)) ∧
    ∀ bytes, bytes.length < 30 ∨ bytes.length = 30 ∧ ¬ Formed bytes →
      ∃ fault : ProtocolFault, decode bytes = .error fault := by
  refine ⟨fun h hv hi => ⟨length_encode h,decode_encode h hv hi⟩,fun bytes h => encode_decode,
    fun bytes => exists_decode_iff,fun bytes hbytes => ?_⟩
  rcases hbytes with hlt | ⟨hsize,hnot⟩
  · exact ⟨_,if_pos hlt⟩
  · cases hd : decode bytes with
    | ok h => exact absurd ((exists_decode_iff hsize).mp ⟨h,hd⟩) hnot
    | error fault => exact ⟨fault,rfl⟩

/-- A tag that leaves no room for a space, all numbers at their limits; and the same bytes with a space in
the middle of the tag. -/
theorem decode_bijective_full_tag :
    let tag : Tag := ⟨List.replicate 12 0x7E,by decide,by decide,by decide⟩
    let h : Header := ⟨0xFFFFFFFF,tag,1,⟨true,true⟩,0xFFFE,0xFFFF,0xFFFFFFFF,0xFFFFFFFF⟩
    let spaced := h.encode.set 9 0x20
    h.encode.length = 30 ∧ decode h.encode = .ok h ∧ Formed h.encode ∧
      spaced.length = 30 ∧ ¬ Formed spaced := by
  intro tag h spaced
  obtain ⟨hwrite,-,haccept,-⟩ := decode_bijective
  obtain ⟨hsize,hd⟩ := hwrite h rfl (by decide)
  refine ⟨hsize,hd,(haccept h.encode hsize).mp ⟨h,hd⟩,by decide,fun hformed => ?_⟩
  obtain ⟨g,hg⟩ := (haccept spaced (by decide)).mpr hformed
  have hrefused : decode spaced = .error (.badTag .characters) := by decide
  rw [hrefused] at hg
  cases hg

end Header
end Tether
