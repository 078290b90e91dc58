import Tether.Proofs.Wire.Decoding

/-! Draining the decoder, and the stream that an honest sender writes. Draining is a relation on the
pending bytes alone, so pieces that are drained one after the other give what the whole stream gives;
and the chunks of a sender, put in a row, are drained into their frames without a rest. -/
namespace Tether

/-- A supply of nonces of the length that sealing needs. -/
abbrev NonceSupply := { nonces : Nonces // ∀ i, (nonces i).length = Gcm.nonceSize }

/-- The cipher of a codec, if it has one, can be relied on. -/
def Codec.Sound (codec : Codec) : Prop := ∀ cipher, codec.cipher = some cipher → cipher.Sound

/-- A chunk that its frame can express. -/
structure Chunk.Proper (codec : Codec) (c : Chunk) : Prop where
  fits : c.Fits codec
  nonce : c.nonce.length = Gcm.nonceSize
  place : c.place.index < c.place.total
  expressible : c.bodyLength codec < 2^32

namespace Codec

theorem openPayload_body (codec : Codec) (hs : codec.Sound) (place : ChunkPlace) (length : Nat)
    (nonce piece : List UInt8) (hn : nonce.length = Gcm.nonceSize) :
    codec.openPayload (codec.chunkHeader place length) (codec.body nonce piece) = .ok piece := by
  rcases codec with ⟨limits,cipher⟩
  cases cipher with
  | none => rfl
  | some cipher =>
    have h := (hs cipher rfl).open_seal nonce piece hn
    simp [openPayload,chunkHeader,body,h,Except.mapError]

end Codec

namespace Decoder

theorem decode_chunkHeader (codec : Codec) (c : Chunk) (h : c.place.index < c.place.total) :
    Header.decode (c.frame codec).header.encode = .ok (c.frame codec).header :=
  Header.decode_encode _ rfl h

theorem parse_wire (codec : Codec) (hs : codec.Sound) (c : Chunk) (hc : c.Proper codec)
    (rest : List UInt8) : parse codec (c.wire codec ++ rest) = (.frame (c.frame codec),rest) := by
  have hlen : (c.frame codec).header.payloadLength.toNat = (codec.body c.nonce c.piece).length :=
    UInt32.toNat_ofNat_of_lt hc.expressible
  have hfits : (c.frame codec).header.payloadLength.toNat ≤ codec.limits.framePayload.toNat := by
    rw [hlen]
    exact hc.fits
  rw [Chunk.wire,List.append_assoc,parse_encode codec _ _ (decode_chunkHeader codec c hc.place) hfits,
    parsePayload,if_neg (by rw [hlen,List.length_append]; omega),List.take_left' hlen.symm,
    List.drop_left' hlen.symm]
  have hopen := codec.openPayload_body hs c.place (c.bodyLength codec) c.nonce c.piece hc.nonce
  simp only [Chunk.frame] at hopen ⊢
  rw [hopen]

/-! ### Draining -/

/-- Frames from the front of the bytes until there are not enough or something is wrong. -/
inductive Drains (codec : Codec) :
    List UInt8 → List Frame → Option ProtocolFault → List UInt8 → Prop
  | more {bytes rest : List UInt8} : parse codec bytes = (.more,rest) → Drains codec bytes [] none rest
  | fault {bytes rest : List UInt8} {fault : ProtocolFault} :
    parse codec bytes = (.fault fault,rest) → Drains codec bytes [] (some fault) rest
  | frame {bytes rest last : List UInt8} {frame : Frame} {frames : List Frame}
      {fault : Option ProtocolFault} : parse codec bytes = (.frame frame,rest) →
    Drains codec rest frames fault last → Drains codec bytes (frame :: frames) fault last

variable {codec : Codec}

theorem Drains.unique {bytes last last' : List UInt8} {frames frames' : List Frame}
    {fault fault' : Option ProtocolFault} (h : Drains codec bytes frames fault last)
    (h' : Drains codec bytes frames' fault' last') :
    frames = frames' ∧ fault = fault' ∧ last = last' := by
  induction h generalizing frames' with
  | more hp =>
    cases h' with
    | more hp' => exact ⟨rfl,rfl,(Prod.mk.inj (hp.symm.trans hp')).2⟩
    | fault hp' => simp [hp] at hp'
    | frame hp' _ => simp [hp] at hp'
  | fault hp =>
    cases h' with
    | more hp' => simp [hp] at hp'
    | fault hp' =>
      have he := Prod.mk.inj (hp.symm.trans hp')
      exact ⟨rfl,congrArg some (Decoded.fault.inj he.1),he.2⟩
    | frame hp' _ => simp [hp] at hp'
  | frame hp _ ih =>
    cases h' with
    | more hp' => simp [hp] at hp'
    | fault hp' => simp [hp] at hp'
    | frame hp' hd' =>
      have he := Prod.mk.inj (hp.symm.trans hp')
      obtain rfl := Decoded.frame.inj he.1
      obtain rfl := he.2
      obtain ⟨rfl,hrest⟩ := ih hd'
      exact ⟨rfl,hrest⟩

theorem Drains.append {bytes mid later last : List UInt8} {frames frames' : List Frame}
    {fault : Option ProtocolFault} (h : Drains codec bytes frames none mid)
    (h' : Drains codec (mid ++ later) frames' fault last) :
    Drains codec (bytes ++ later) (frames ++ frames') fault last := by
  generalize hf : (none : Option ProtocolFault) = found at h
  induction h with
  | more hp =>
    obtain rfl := parse_more hp
    exact h'
  | fault _ => simp at hf
  | frame hp _ ih => exact .frame (parse_append hp (by simp) later) (ih h' hf)

theorem Drains.idle {bytes last : List UInt8} {frames : List Frame}
    (h : Drains codec bytes frames none last) : Drains codec last [] none last := by
  generalize hf : (none : Option ProtocolFault) = found at h
  induction h with
  | more hp =>
    obtain rfl := parse_more hp
    exact .more hp
  | fault _ => simp at hf
  | frame _ _ ih => exact ih hf

theorem Drains.append_fault {bytes mid : List UInt8} {frames : List Frame} {fault : ProtocolFault}
    (h : Drains codec bytes frames (some fault) mid) (later : List UInt8) :
    Drains codec (bytes ++ later) frames (some fault) (mid ++ later) := by
  generalize hf : some fault = found at h
  induction h with
  | more _ => simp at hf
  | fault hp => exact .fault (parse_append hp (by simp) later)
  | frame hp _ ih => exact .frame (parse_append hp (by simp) later) (ih hf)

theorem drainOnto_drains (found : List Frame) (d : Decoder) (fuel : Nat) (hv : d.Valid codec)
    (hfuel : d.pending.length < Header.size*fuel) :
    ∃ frames, (drainOnto codec found d fuel).2.1 = found.reverse ++ frames ∧
      Drains codec d.pending frames (drainOnto codec found d fuel).2.2
        (drainOnto codec found d fuel).1.pending ∧
      (drainOnto codec found d fuel).1.Valid codec := by
  induction fuel generalizing found d with
  | zero => simp at hfuel
  | succ fuel ih =>
    obtain ⟨hfound,hrest,hvalid⟩ := next_parse hv
    have hp : parse codec d.pending = ((next codec d).2,(next codec d).1.pending) :=
      Prod.ext hfound.symm hrest.symm
    rw [drainOnto]
    rcases hn : next codec d with ⟨d',decoded⟩
    rw [hn] at hp hvalid
    cases decoded with
    | more => exact ⟨[],by simp,.more hp,hvalid⟩
    | fault fault => exact ⟨[],by simp,.fault hp,hvalid⟩
    | frame frame =>
      have hless := length_parse_frame hp
      simp only [Header.size] at hfuel hless
      obtain ⟨frames,hfs,hd,hv'⟩ := ih (frame :: found) d' hvalid (by simp only [Header.size]; omega)
      exact ⟨frame :: frames,by simp [hfs],.frame hp hd,hv'⟩

theorem drain_drains (d : Decoder) (hv : d.Valid codec) :
    Drains codec d.pending (drain codec d).2.1 (drain codec d).2.2 (drain codec d).1.pending ∧
      (drain codec d).1.Valid codec := by
  have hlen : d.pending.length ≤ Header.size + d.unread.length := by
    rcases d with ⟨header,unread⟩
    cases header <;> simp [pending]
  have hfuel : d.pending.length < Header.size*d.steps := by
    simp only [steps,Header.size] at hlen ⊢
    omega
  obtain ⟨frames,hfs,hd,hv'⟩ := drainOnto_drains [] d d.steps hv hfuel
  simp only [List.reverse_nil,List.nil_append] at hfs
  rw [← hfs] at hd
  exact ⟨hd,hv'⟩

theorem exists_drains (codec : Codec) (bytes : List UInt8) :
    ∃ frames fault last, Drains codec bytes frames fault last :=
  ⟨_,_,_,(@drain_drains codec ⟨none,bytes⟩ (valid_none codec bytes)).1⟩

/-- The bytes in front of a stream without a fault are without a fault, and the rest of the stream is
drained from where they stopped. -/
theorem Drains.split {bytes mid later last : List UInt8} {frames frames' : List Frame}
    {fault : Option ProtocolFault} (h : Drains codec (bytes ++ later) frames none last)
    (h' : Drains codec bytes frames' fault mid) :
    fault = none ∧ ∃ frames'', frames = frames' ++ frames'' ∧
      Drains codec (mid ++ later) frames'' none last := by
  cases fault with
  | some fault =>
    have hnone := (h.unique (h'.append_fault later)).2.1
    simp at hnone
  | none =>
    obtain ⟨frames'',found,last',hrest⟩ := exists_drains codec (mid ++ later)
    obtain ⟨rfl,rfl,rfl⟩ := h.unique (h'.append hrest)
    exact ⟨rfl,frames'',rfl,hrest⟩

/-! ### The stream of a sender -/

theorem drains_wires (hs : codec.Sound) (cs : List Chunk) (h : ∀ c ∈ cs, c.Proper codec) :
    Drains codec (cs.map (Chunk.wire codec)).flatten (cs.map (Chunk.frame codec)) none [] := by
  induction cs with
  | nil => exact .more rfl
  | cons c cs ih =>
    simp only [List.mem_cons,forall_eq_or_imp] at h
    exact .frame (parse_wire codec hs c h.1 _) (ih h.2)

end Decoder
end Tether
