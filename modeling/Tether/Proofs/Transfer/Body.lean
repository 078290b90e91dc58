import Tether.Proofs.Text.Utf8
import Tether.Proofs.Wire.Header
import Tether.Transfer.Body

/-! The body of a file request, written and read. A body that is read is the one that its name and its
content make, so nobody who stores a file sees another name or other bytes than were put in. -/
namespace Tether
namespace FileBody

@[simp] theorem length_head (name : String) : (head name).length = 2 + name.utf8ByteSize := by
  simp only [head,List.length_append,BigEndian.length_ofUInt16,Utf8.length_encode]

theorem toNat_length {name : String} (h : name.utf8ByteSize ≤ nameMax) :
    (UInt16.ofNat name.utf8ByteSize).toNat = name.utf8ByteSize :=
  UInt16.toNat_ofNat_of_lt (Nat.lt_of_le_of_lt h (by decide))

theorem encode_eq_ok_iff {name : String} {content body : List UInt8} :
    encode name content = .ok body ↔
      (1 ≤ name.utf8ByteSize ∧ name.utf8ByteSize ≤ nameMax) ∧ body = head name ++ content := by
  unfold encode
  simp only
  split
  · rename_i hlength
    constructor
    · simp
    · rintro ⟨hname,-⟩
      omega
  · rename_i hlength
    rw [Except.ok.injEq,eq_comm]
    exact (and_iff_right (by omega)).symm

theorem decode_head_append {name : String} (h : name.utf8ByteSize ≤ nameMax) (content : List UInt8) :
    decode (head name ++ content) = .ok (name,content) := by
  have hlen : (Utf8.encode name).length = name.utf8ByteSize := Utf8.length_encode name
  simp only [head,BigEndian.ofUInt16,List.cons_append,List.nil_append,decode,
    BigEndian.toUInt16_ofUInt16,toNat_length h,List.splitAt_eq,hlen,
    List.take_left' hlen,List.drop_left' hlen,lt_irrefl,if_false,Utf8.decode?_encode]

end FileBody
end Tether
