import Tether.Proofs.Wire.Appending

/-! What the check of the limits says of the numbers that sending computes with. The place of a frame and the
length of its message are always told exactly. That a frame has room for a sealed chunk, that its own length
is told exactly, and that a refusal names the largest message, holds up to where a sum, a field or a product
of machine words wraps, and no further. Where sums and products are checked, those two stop the program. -/
namespace Tether

namespace Limits

variable {limits : Limits}

/-- What passing the check says of the numbers. The sum of the check is one of machine words. -/
structure Passed (limits : Limits) : Prop where
  chunk : 1 ≤ limits.chunkSize.toNat
  room : limits.chunkSize.toNat + Cipher.overhead < 2^64 →
    limits.chunkSize.toNat + Cipher.overhead ≤ limits.framePayload.toNat

theorem validate_eq (limits : Limits) : limits.validate =
    if limits.chunkSize = 0 then .error .chunkSizeZero
    else if limits.partialMessages = 0 then .error .partialLimitZero
    else if limits.framePayload < limits.chunkSize + sealOverhead then
      .error (.noCipherRoom limits.chunkSize limits.framePayload)
    else .ok () := rfl

theorem validateIn_checked (limits : Limits) : limits.validateIn Checked =
    if limits.chunkSize ≠ 0 ∧ limits.partialMessages ≠ 0 ∧
        2^64 ≤ limits.chunkSize.toNat + Cipher.overhead then .error .overflow
    else .ok limits.validate := by
  have hover : sealOverhead.toNat = Cipher.overhead := rfl
  rw [validate_eq,validateIn]
  by_cases hchunk : limits.chunkSize = 0
  · simp [hchunk]
  · by_cases hpartial : limits.partialMessages = 0
    · simp [hchunk,hpartial]
    · rw [if_neg hchunk,if_neg hpartial]
      by_cases hsum : 2^64 ≤ limits.chunkSize.toNat + Cipher.overhead
      · rw [Checked.add_of_le (by rwa [hover]),if_pos ⟨hchunk,hpartial,hsum⟩]
        rfl
      · rw [Checked.add_of_lt (by rw [hover]; exact Nat.not_le.mp hsum),if_neg fun h => hsum h.2.2,
          if_neg hchunk,if_neg hpartial,Checked.ok_bind]
        split <;> rfl

theorem passed_of_validate (h : limits.validate = .ok ()) : limits.Passed := by
  rw [validate_eq] at h
  split at h
  · simp at h
  · rename_i hzero
    split at h
    · simp at h
    · split at h
      · simp at h
      · rename_i hroom
        refine ⟨Nat.one_le_iff_ne_zero.mpr fun h0 => hzero (UInt64.toNat_inj.mp h0),fun hsum => ?_⟩
        have hover : sealOverhead.toNat = Cipher.overhead := rfl
        rwa [UInt64.lt_iff_toNat_lt,Nat.not_lt,UInt64.toNat_add,hover,Nat.mod_eq_of_lt hsum] at hroom

theorem Passed.chunk_ne_zero (h : limits.Passed) : limits.chunkSize ≠ 0 :=
  fun h0 => absurd h.chunk (by simp [h0])

theorem validateIn_checked_of_validate (h : limits.validate = .ok ()) : limits.validateIn Checked =
    if limits.chunkSize.toNat + Cipher.overhead < 2^64 then .ok (.ok ()) else .error .overflow := by
  have hpartial : limits.partialMessages ≠ 0 := by
    intro hzero
    rw [validate_eq,hzero] at h
    split at h <;> simp at h
  rw [validateIn_checked,h]
  by_cases hsum : limits.chunkSize.toNat + Cipher.overhead < 2^64
  · rw [if_pos hsum,if_neg fun hover => absurd hsum (Nat.not_lt.mpr hover.2.2)]
  · rw [if_neg hsum,if_pos ⟨(passed_of_validate h).chunk_ne_zero,hpartial,Nat.not_lt.mp hsum⟩]

theorem Passed.room_iff (h : limits.Passed) :
    limits.chunkSize.toNat + Cipher.overhead ≤ limits.framePayload.toNat ↔
      limits.chunkSize.toNat + Cipher.overhead < 2^64 :=
  ⟨fun hle => Nat.lt_of_le_of_lt hle limits.framePayload.toNat_lt,h.room⟩

theorem wordMax_add_overhead_lt : wordMax + Cipher.overhead < 2^64 := by decide

theorem messageMax_eq (limits : Limits) :
    limits.messageMax = min (limits.chunkSize.toNat*65535 % 2^64) wordMax :=
  congrArg (min · wordMax) (UInt64.toNat_mul ..)

theorem messageMax_eq_iff (limits : Limits) :
    limits.messageMax = min (limits.chunkSize.toNat*65535) wordMax ↔
      limits.chunkSize.toNat*65535 < 2^64 ∨ wordMax ≤ limits.chunkSize.toNat*65535 % 2^64 := by
  have hword : wordMax < 2^64 := by decide
  rw [messageMax_eq]
  rcases Nat.lt_or_ge (limits.chunkSize.toNat*65535) (2^64) with hlt | hge
  · rw [Nat.mod_eq_of_lt hlt]
    exact iff_of_true rfl (.inl hlt)
  · omega

end Limits

namespace Codec

variable {codec : Codec} {length : Nat}

theorem overhead_le (codec : Codec) : codec.overhead ≤ Cipher.overhead := by
  rw [overhead]
  cases codec.cipher with
  | none => exact Nat.zero_le _
  | some cipher => exact Nat.le_refl _

theorem carries_of_many (hp : codec.limits.Passed) (hcount : codec.limits.needed length ≤ Limits.chunksMax)
    (hword : length ≤ Limits.wordMax) (hmany : codec.limits.needed length ≠ 1) : codec.Carries length := by
  refine ⟨hcount,hword,?_⟩
  have hover := codec.overhead_le
  have hlarge : ¬ length ≤ codec.limits.chunkSize.toNat :=
    fun hle => hmany (Limits.needed_eq_one hp.chunk hle)
  have hmax := Limits.wordMax_add_overhead_lt
  have hroom := hp.room (by omega)
  omega

/-- A message that has a number of chunks can be sent, unless the check was passed by a sum that wraps and
the one chunk of the message is too long for a frame. -/
theorem carries_iff {total : UInt16} (hp : codec.limits.Passed)
    (ht : codec.limits.chunkCount length = .ok total) :
    codec.Carries length ↔ codec.limits.chunkSize.toNat + Cipher.overhead < 2^64 ∨
      length + codec.overhead ≤ codec.limits.framePayload.toNat := by
  obtain ⟨hcount,hword,-⟩ := (Limits.chunkCount_eq_ok_iff ..).mp ht
  have hover := codec.overhead_le
  have hmax := Limits.wordMax_add_overhead_lt
  constructor
  · rintro ⟨-,-,hfits⟩
    by_cases hsum : codec.limits.chunkSize.toNat + Cipher.overhead < 2^64
    · exact .inl hsum
    · rw [Nat.min_eq_right (by omega)] at hfits
      exact .inr hfits
  · rintro (hsum | hfits)
    · have hroom := hp.room hsum
      exact ⟨hcount,hword,by omega⟩
    · exact ⟨hcount,hword,by omega⟩

theorem encode_eq_ok_iff {nonces : Nonces} {m : Message} {bytes : List UInt8} :
    codec.encode nonces m = .ok bytes ↔
      (codec.emitMessage nonces m).fault = none ∧ bytes = (codec.emitMessage nonces m).bytes := by
  cases hf : (codec.emitMessage nonces m).fault with
  | none => simp [encode,hf,eq_comm]
  | some fault => simp [encode,hf]

/-! ### The length of a frame -/

theorem payloadLength_eq_iff {limits : Limits} {key : Option PayloadKey} {c : Chunk}
    (hnonce : c.nonce.length = Gcm.nonceSize) (hpiece : c.piece.length ≤ Limits.wordMax) :
    let codec : Codec := ⟨limits,key.map Cipher.ofKey⟩
    (c.frame codec).header.payloadLength.toNat = (codec.body c.nonce c.piece).length ↔
      key = none ∨ c.piece.length + Cipher.overhead < 2^32 := by
  intro codec
  have hs : codec.Sound := sound_of_key limits key
  rw [Chunk.toNat_payloadLength,Chunk.bodyLength,length_body hs _ _ hnonce,Nat.mod_eq_iff_lt (by decide)]
  cases key with
  | none =>
    have hword : Limits.wordMax < 2^32 := by decide
    exact ⟨fun _ => .inl rfl,fun _ => Nat.lt_of_le_of_lt hpiece hword⟩
  | some key => exact ⟨.inr,fun h => h.resolve_left (Option.some_ne_none key)⟩

/-- Under limits that pass the check, with or without a key, the arithmetic of sending is exact up to three
things. There is room for a sealed chunk, and every message with a number of chunks can be encoded, unless
the length of a sealed chunk is more than a word can hold; with sums that are checked, the check itself stops
just there. The largest message is named as it is unless the product that gives it wraps; with products that
are checked, a refusal stops just there, and a number of chunks is found all the same. The frames of an
encoded message tell their place, their number and the length of the message as they are, and their own
length too, unless they are sealed and have 2^32 bytes or more. -/
theorem encode_exact_of_validate (limits : Limits) (key : Option PayloadKey) (nonces : NonceSupply)
    (m : Message) :
    let codec : Codec := ⟨limits,key.map Cipher.ofKey⟩
    limits.validate = .ok () →
    (limits.chunkSize.toNat + 28 ≤ limits.framePayload.toNat ↔ limits.chunkSize.toNat + 28 < 2^64) ∧
    (limits.validateIn Checked =
      if limits.chunkSize.toNat + 28 < 2^64 then .ok (.ok ()) else .error .overflow) ∧
    (limits.messageMax = min (limits.chunkSize.toNat*65535) Limits.wordMax ↔
      limits.chunkSize.toNat*65535 < 2^64 ∨ Limits.wordMax ≤ limits.chunkSize.toNat*65535 % 2^64) ∧
    (∀ fault, limits.chunkCount m.payload.length = .error fault →
      limits.chunkCountIn Checked m.payload.length =
        if limits.chunkSize.toNat*65535 < 2^64 then .ok (.error fault) else .error .overflow) ∧
    ∀ total, limits.chunkCount m.payload.length = .ok total →
      limits.chunkCountIn Checked m.payload.length = .ok (.ok total) ∧
      ((∃ bytes, codec.encode nonces.1 m = .ok bytes) ↔ limits.chunkSize.toNat + 28 < 2^64 ∨
        m.payload.length + codec.overhead ≤ limits.framePayload.toNat) ∧
      ∀ bytes, codec.encode nonces.1 m = .ok bytes →
        ∃ cs, bytes = (cs.map (Chunk.wire codec)).flatten ∧ cs.length = total.toNat ∧ codec.Lays m cs ∧
          ∀ c ∈ cs, (c.frame codec).header.payloadLength.toNat = (codec.body c.nonce c.piece).length ↔
            key = none ∨ c.piece.length + 28 < 2^32 := by
  intro codec hvalid
  have hs : codec.Sound := sound_of_key limits key
  have hp : codec.limits.Passed := Limits.passed_of_validate hvalid
  have hcount := Limits.chunkCountIn_checked hp.chunk_ne_zero m.payload.length
  refine ⟨hp.room_iff,Limits.validateIn_checked_of_validate hvalid,limits.messageMax_eq_iff,
    fun fault hf => by rw [hcount,hf],fun total ht => ⟨by rw [hcount,ht],?_,fun bytes hbytes => ?_⟩⟩
  · refine Iff.trans ?_ (carries_iff hp ht)
    rw [← fault_eq_none_iff hs hp.chunk nonces m]
    simp only [encode_eq_ok_iff,exists_and_left,exists_eq,and_true]
  · obtain ⟨hnone,rfl⟩ := encode_eq_ok_iff.mp hbytes
    obtain ⟨total',ht',hfits⟩ := (emitMessage_fault_iff codec nonces.1 m).mp hnone
    obtain rfl : total' = total := Except.ok.inj (ht'.symm.trans ht)
    refine ⟨codec.chunks nonces.1 m total',emitMessage_bytes codec nonces.1 m total' ht hfits,
      length_chunks ..,lays_chunks hs hp.chunk nonces ht,fun c hc => ?_⟩
    obtain ⟨i,piece,-,hmem,rfl⟩ := mem_chunks hc
    exact payloadLength_eq_iff (nonces.2 i)
      ((length_le_of_mem_cut _ _ _ _ hmem).2.trans (Limits.length_le_wordMax ht))

/-- The longest chunk for which there can be room: a sealed message of three bytes is one exact frame. -/
theorem encode_exact_of_validate_longest :
    let limits : Limits := { chunkSize := 18446744073709551587, framePayload := 18446744073709551615 }
    let key : PayloadKey := ⟨List.replicate 32 7⟩
    let nonces : NonceSupply := ⟨fun _ => List.replicate 12 0,fun _ => rfl⟩
    let m : Message := ⟨9,.file,true,[1,2,3]⟩
    let codec : Codec := ⟨limits,some (.ofKey key)⟩
    limits.validate = .ok () ∧ limits.chunkSize.toNat + 28 ≤ limits.framePayload.toNat ∧
      ∃ c : Chunk, codec.encode nonces.1 m = .ok (c.wire codec) ∧ (c.frame codec).header.Tells m 1 0 ∧
        (c.frame codec).header.payloadLength.toNat = (codec.body c.nonce c.piece).length := by
  intro limits key nonces m codec
  have hvalid : limits.validate = .ok () := by decide
  obtain ⟨hroom,-,-,-,hencode⟩ := encode_exact_of_validate limits (some key) nonces m hvalid
  obtain ⟨-,hiff,hframes⟩ := hencode 1 (by decide)
  obtain ⟨bytes,hbytes⟩ := hiff.mpr (.inl (by decide))
  obtain ⟨cs,hwire,hcount,hlays,hexact⟩ := hframes bytes hbytes
  obtain ⟨c,rfl⟩ := List.length_eq_one_iff.mp hcount
  have hpiece : c.piece = [1,2,3] := by simpa using hlays.payload
  refine ⟨hvalid,hroom.mpr (by decide),c,?_,hlays.tells 0 c rfl,(hexact c (by simp)).mpr (.inr ?_)⟩
  · rw [List.map_singleton,List.flatten_singleton] at hwire
    exact hwire ▸ hbytes
  · rw [hpiece]
    decide

/-- Three sets of limits that pass the check. With the first, 28 bytes more than the longest chunk wrap to
27, and a message with one chunk does not fit a frame; a check that may not wrap stops. With the second, the
one frame of a sealed message of 2^32 - 1 bytes tells that 27 bytes follow it, whatever is checked. With the
third, a message that is too large is refused because it is over one byte, or stops the program. -/
theorem inexact_of_validate :
    let wrapping : Limits := { chunkSize := 18446744073709551615, framePayload := 27 }
    let long : Limits := { chunkSize := 4294967296, framePayload := 8589934592 }
    let huge : Limits := { chunkSize := 18446462594437808127, framePayload := 18446744073709551615 }
    let nonces : NonceSupply := ⟨fun _ => List.replicate 12 0,fun _ => rfl⟩
    let m : Message := ⟨1,.file,false,List.replicate 4294967295 0⟩
    let sealing : Codec := ⟨long,some (.ofKey ⟨List.replicate 32 7⟩)⟩
    (wrapping.validate = .ok () ∧ wrapping.framePayload.toNat < wrapping.chunkSize.toNat + 28 ∧
      wrapping.chunkCount 28 = .ok 1 ∧ (⟨wrapping,none⟩ : Codec).encode nonces.1
        ⟨1,.echo,false,List.replicate 28 0⟩ = .error (.payloadTooLarge 28 27) ∧
      wrapping.validateIn Checked = .error .overflow) ∧
    (long.validate = .ok () ∧ long.validateIn Checked = .ok (.ok ()) ∧
      (∃ bytes, sealing.encode nonces.1 m = .ok bytes) ∧
      ∃ c ∈ sealing.chunksOf nonces.1 m, (c.frame sealing).header.payloadLength = 27 ∧
        (sealing.body c.nonce c.piece).length = 4294967323) ∧
    huge.validate = .ok () ∧ huge.validateIn Checked = .ok (.ok ()) ∧
      huge.chunkCount 4294967296 = .error (.payloadTooLarge 4294967296 1) ∧
      huge.chunkCountIn Checked 4294967296 = .error .overflow := by
  intro wrapping long huge nonces m sealing
  refine ⟨by decide,?_,by decide⟩
  have hvalid : long.validate = .ok () := by decide
  have hs : sealing.Sound := sound_of_key long (some ⟨List.replicate 32 7⟩)
  have hp : sealing.limits.Passed := Limits.passed_of_validate hvalid
  have hlen : m.payload.length = 4294967295 := List.length_replicate
  have ht : sealing.limits.chunkCount m.payload.length = .ok 1 := by
    rw [hlen]
    decide
  obtain ⟨c,hc,hnonce,hpiece⟩ := @exists_first_chunk sealing nonces.1 m 1 (by decide)
  have hbody : c.bodyLength sealing = 4294967323 := by
    rw [Chunk.bodyLength,length_body hs _ _ (hnonce ▸ nonces.2 0),hpiece,hlen]
    decide
  refine ⟨hvalid,by decide,?_,c,by rwa [chunksOf,ht],?_,hbody⟩
  · simp only [encode_eq_ok_iff,exists_and_left,exists_eq,and_true]
    exact (fault_eq_none_iff hs hp.chunk nonces m).mpr ((carries_iff hp ht).mpr (.inl (by decide)))
  · rw [← UInt32.toNat_inj,Chunk.toNat_payloadLength,hbody]
    decide

end Codec
end Tether
