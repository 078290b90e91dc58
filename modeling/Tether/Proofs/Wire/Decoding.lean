import Tether.Proofs.Wire.Chunks
import Tether.Wire.Decoder

/-! The decoder as a function of the bytes that are not used up. Where the stream was cut into pieces
leaves no trace: a header that is kept between two calls stands for its thirty bytes, and what the bytes
so far decide, more bytes do not change. -/
namespace Tether
namespace Decoder

/-- What has come and is not used up, with the header that is kept apart. -/
def pending (d : Decoder) : List UInt8 := (d.header.map Header.encode).getD [] ++ d.unread

/-- A header that is kept apart has passed its checks. -/
def Valid (codec : Codec) (d : Decoder) : Prop :=
  ∀ h, d.header = some h → Header.decode h.encode = .ok h ∧
    h.payloadLength.toNat ≤ codec.limits.framePayload.toNat

@[simp] theorem pending_none (bytes : List UInt8) : (⟨none,bytes⟩ : Decoder).pending = bytes := rfl

@[simp] theorem pending_some (h : Header) (bytes : List UInt8) :
    (⟨some h,bytes⟩ : Decoder).pending = h.encode ++ bytes := rfl

@[simp] theorem pending_feed (d : Decoder) (bytes : List UInt8) :
    (d.feed bytes).pending = d.pending ++ bytes := by
  simp [pending,feed]

theorem Valid.feed {codec : Codec} {d : Decoder} (hv : d.Valid codec) (bytes : List UInt8) :
    (d.feed bytes).Valid codec := hv

theorem valid_none (codec : Codec) (bytes : List UInt8) : (⟨none,bytes⟩ : Decoder).Valid codec :=
  fun _ h => by simp at h

theorem eq_empty_of_pending {d : Decoder} (h : d.pending = []) : d = {} := by
  rcases d with ⟨header,unread⟩
  cases header with
  | none => simpa using h
  | some header =>
    have hlen := congrArg List.length h
    simp [Header.size] at hlen

/-! ### One frame -/

/-- What is made of the payload behind a header that has passed its checks. -/
def parsePayload (codec : Codec) (header : Header) (rest : List UInt8) : Decoded × List UInt8 :=
  if rest.length < header.payloadLength.toNat then (.more,header.encode ++ rest)
  else match codec.openPayload header (rest.take header.payloadLength.toNat) with
    | .ok payload => (.frame ⟨header,payload⟩,rest.drop header.payloadLength.toNat)
    | .error fault => (.fault fault,rest.drop header.payloadLength.toNat)

/-- One frame from the front of the bytes, and what is left. -/
def parse (codec : Codec) (bytes : List UInt8) : Decoded × List UInt8 :=
  if bytes.length < Header.size then (.more,bytes)
  else match Header.decode (bytes.take Header.size) with
    | .error fault => (.fault fault,bytes)
    | .ok header =>
      if codec.limits.framePayload.toNat < header.payloadLength.toNat then
        (.fault (.framePayload header.payloadLength codec.limits.framePayload),bytes)
      else parsePayload codec header (bytes.drop Header.size)

theorem takePayload_parse (codec : Codec) (header : Header) (unread : List UInt8)
    (h : Header.decode header.encode = .ok header)
    (hle : header.payloadLength.toNat ≤ codec.limits.framePayload.toNat) :
    (takePayload codec header unread).2 = (parsePayload codec header unread).1 ∧
      (takePayload codec header unread).1.pending = (parsePayload codec header unread).2 ∧
      (takePayload codec header unread).1.Valid codec := by
  have hlen : (unread.take header.payloadLength.toNat).length < header.payloadLength.toNat ↔
      unread.length < header.payloadLength.toNat := by
    rw [List.length_take]
    omega
  simp only [takePayload,parsePayload,List.splitAt_eq,hlen]
  by_cases hshort : unread.length < header.payloadLength.toNat
  · simp only [hshort,if_true]
    refine ⟨trivial,rfl,?_⟩
    intro h' hh'
    obtain rfl := Option.some.inj hh'
    exact ⟨h,hle⟩
  · simp only [hshort,if_false]
    cases codec.openPayload header (unread.take header.payloadLength.toNat) with
    | ok payload => exact ⟨rfl,rfl,valid_none codec _⟩
    | error fault => exact ⟨rfl,rfl,valid_none codec _⟩

theorem parse_encode (codec : Codec) (header : Header) (rest : List UInt8)
    (h : Header.decode header.encode = .ok header)
    (hle : header.payloadLength.toNat ≤ codec.limits.framePayload.toNat) :
    parse codec (header.encode ++ rest) = parsePayload codec header rest := by
  have hsize := Header.length_encode header
  rw [parse,if_neg (by simp [hsize]),List.take_left' hsize,List.drop_left' hsize,h]
  exact if_neg (Nat.not_lt.mpr hle)

/-- A step of the decoder reads one frame from what is pending. -/
theorem next_parse {codec : Codec} {d : Decoder} (hv : d.Valid codec) :
    (next codec d).2 = (parse codec d.pending).1 ∧
      (next codec d).1.pending = (parse codec d.pending).2 ∧ (next codec d).1.Valid codec := by
  rcases d with ⟨header,unread⟩
  cases header with
  | some header =>
    obtain ⟨h,hle⟩ := hv header rfl
    rw [pending_some,parse_encode codec header unread h hle]
    exact takePayload_parse codec header unread h hle
  | none =>
    have hlen : (unread.take Header.size).length < Header.size ↔ unread.length < Header.size := by
      rw [List.length_take]
      omega
    simp only [next,parse,pending_none,List.splitAt_eq,hlen]
    by_cases hsize : unread.length < Header.size
    · simp only [hsize,if_true]
      exact ⟨trivial,rfl,valid_none codec _⟩
    · have htake : (unread.take Header.size).length = Header.size := by
        rw [List.length_take]
        omega
      simp only [hsize,if_false]
      cases hd : Header.decode (unread.take Header.size) with
      | error fault => exact ⟨rfl,rfl,valid_none codec _⟩
      | ok header =>
        simp only
        by_cases hover : codec.limits.framePayload.toNat < header.payloadLength.toNat
        · simp only [hover,if_true]
          exact ⟨trivial,rfl,valid_none codec _⟩
        · simp only [hover,if_false]
          have hself : Header.decode header.encode = .ok header := by
            rw [(Header.encode_decode htake hd).1,hd]
          exact takePayload_parse codec header _ hself (Nat.not_lt.mp hover)

theorem parse_more {codec : Codec} {bytes rest : List UInt8}
    (h : parse codec bytes = (.more,rest)) : rest = bytes := by
  unfold parse at h
  split at h
  · exact (Prod.mk.inj h).2.symm
  · rename_i hsize
    split at h
    · simp at h
    · rename_i header hd
      split at h
      · simp at h
      · unfold parsePayload at h
        split at h
        · have htake : (bytes.take Header.size).length = Header.size := by
            rw [List.length_take]
            omega
          rw [← (Prod.mk.inj h).2,(Header.encode_decode htake hd).1,List.take_append_drop]
        · split at h <;> simp at h

theorem parsePayload_append {codec : Codec} {header : Header} {bytes rest : List UInt8}
    {found : Decoded} (h : parsePayload codec header bytes = (found,rest)) (hfound : found ≠ .more)
    (later : List UInt8) :
    parsePayload codec header (bytes ++ later) = (found,rest ++ later) := by
  unfold parsePayload at h ⊢
  by_cases hshort : bytes.length < header.payloadLength.toNat
  · simp only [hshort,if_true,Prod.mk.injEq] at h
    exact absurd h.1.symm hfound
  · have hle := Nat.not_lt.mp hshort
    rw [if_neg (by rw [List.length_append]; omega),List.take_append_of_le_length hle,
      List.drop_append_of_le_length hle]
    simp only [hshort,if_false] at h
    cases hopen : codec.openPayload header (bytes.take header.payloadLength.toNat) with
    | ok payload =>
      simp only [hopen,Prod.mk.injEq] at h ⊢
      exact ⟨h.1,by rw [h.2]⟩
    | error fault =>
      simp only [hopen,Prod.mk.injEq] at h ⊢
      exact ⟨h.1,by rw [h.2]⟩

theorem parse_append {codec : Codec} {bytes rest : List UInt8} {found : Decoded}
    (h : parse codec bytes = (found,rest)) (hfound : found ≠ .more) (later : List UInt8) :
    parse codec (bytes ++ later) = (found,rest ++ later) := by
  unfold parse at h ⊢
  split at h
  · exact absurd (Prod.mk.inj h).1.symm hfound
  · rename_i hsize
    have hle : Header.size ≤ bytes.length := Nat.not_lt.mp hsize
    rw [if_neg (by rw [List.length_append]; omega),List.take_append_of_le_length hle,
      List.drop_append_of_le_length hle]
    cases hd : Header.decode (bytes.take Header.size) with
    | error fault =>
      simp only [hd,Prod.mk.injEq] at h ⊢
      exact ⟨h.1,by rw [h.2]⟩
    | ok header =>
      simp only [hd] at h ⊢
      by_cases hover : codec.limits.framePayload.toNat < header.payloadLength.toNat
      · simp only [hover,if_true,Prod.mk.injEq] at h ⊢
        exact ⟨h.1,by rw [h.2]⟩
      · simp only [hover,if_false] at h ⊢
        exact parsePayload_append h hfound later

theorem length_parse_frame {codec : Codec} {bytes rest : List UInt8} {frame : Frame}
    (h : parse codec bytes = (.frame frame,rest)) : rest.length + Header.size ≤ bytes.length := by
  unfold parse at h
  split at h
  · simp at h
  · split at h
    · simp at h
    · split at h
      · simp at h
      · unfold parsePayload at h
        split at h
        · simp at h
        · split at h
          · rw [← (Prod.mk.inj h).2,List.length_drop,List.length_drop]
            omega
          · simp at h

end Decoder
end Tether
