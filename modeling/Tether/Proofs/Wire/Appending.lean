import Tether.Proofs.Wire.Sending

/-! What a message adds to a buffer. Of the chunks of a message the first one is as long as any, so a frame
takes all of them or not even the first, and a message that cannot be sent leaves nothing behind. One that
can be is there with as many frames as its length calls for, cut at every chunk size. -/
namespace Tether

/-- The header of the frame at one place among the frames of a message. -/
structure Header.Tells (h : Header) (m : Message) (count index : Nat) : Prop where
  counter : h.counter = m.counter
  tag : h.tag = m.tag
  response : h.isResponse = m.response
  index : h.index.toNat = index
  total : h.total.toNat = count
  messageLength : h.messageLength.toNat = m.payload.length

namespace Codec

variable {codec : Codec} {nonces : Nonces} {place : ChunkPlace} {m : Message} {total : UInt16} {i : Nat}

theorem sound_of_key (limits : Limits) (key : Option PayloadKey) :
    (⟨limits,key.map Cipher.ofKey⟩ : Codec).Sound := by
  intro cipher hc
  obtain ⟨key,-,rfl⟩ := Option.map_eq_some_iff.mp hc
  exact Cipher.ofKey_sound key

/-! ### The chunk at a place -/

theorem getElem?_cut {size count : Nat} (bytes : List UInt8) (h : i < count) :
    (cut size bytes count)[i]? = some ((bytes.drop (size*i)).take size) := by
  induction count generalizing bytes i with
  | zero => exact absurd h (Nat.not_lt_zero i)
  | succ count ih =>
    cases i with
    | zero => simp [cut]
    | succ i =>
      rw [cut,List.getElem?_cons_succ,ih _ (Nat.lt_of_succ_lt_succ h),List.drop_drop,Nat.mul_succ,
        Nat.add_comm]

theorem getElem?_chunksFrom (index : Nat) (ps : List (List UInt8)) :
    (chunksFrom nonces place index ps)[i]? = ps[i]?.map fun piece =>
      ⟨{ place with index := UInt16.ofNat (index + i) },nonces (index + i),piece⟩ := by
  induction ps generalizing index i with
  | nil => rfl
  | cons piece ps ih =>
    cases i with
    | zero => rfl
    | succ i => rw [chunksFrom,List.getElem?_cons_succ,List.getElem?_cons_succ,ih,Nat.add_right_comm]; rfl

theorem getElem?_chunks_eq_some_iff {c : Chunk} :
    (codec.chunks nonces m total)[i]? = some c ↔ i < total.toNat ∧
      c = ⟨{ firstPlace m total with index := UInt16.ofNat i },nonces i,
        (m.payload.drop (codec.limits.chunkSize.toNat*i)).take codec.limits.chunkSize.toNat⟩ := by
  rw [chunks,getElem?_chunksFrom,Nat.zero_add]
  by_cases h : i < total.toNat
  · rw [getElem?_cut m.payload h,Option.map_some,Option.some.injEq]
    exact ⟨fun hc => ⟨h,hc.symm⟩,fun hc => hc.2.symm⟩
  · rw [List.getElem?_eq_none (by rw [length_cut]; omega)]
    simp [h]

theorem pieces_chunksFrom (nonces : Nonces) (place : ChunkPlace) (index : Nat) (ps : List (List UInt8)) :
    (chunksFrom nonces place index ps).map Chunk.piece = ps := by
  induction ps generalizing index with
  | nil => rfl
  | cons piece ps ih => rw [chunksFrom,List.map_cons,ih]

/-! ### A message as its frames -/

/-- The chunks are the message: each header tells its place, each payload opens to its piece, and the
pieces are the payload, cut at every chunk size. -/
structure Lays (codec : Codec) (m : Message) (cs : List Chunk) : Prop where
  tells : ∀ i (c : Chunk), cs[i]? = some c → (c.frame codec).header.Tells m cs.length i
  opens : ∀ c ∈ cs, codec.openPayload (c.frame codec).header (codec.body c.nonce c.piece) = .ok c.piece
  payload : (cs.map Chunk.piece).flatten = m.payload
  full : ∀ i (c : Chunk), cs[i]? = some c → i + 1 < cs.length → c.piece.length = codec.limits.chunkSize.toNat
  size : ∀ c ∈ cs, c.piece.length ≤ codec.limits.chunkSize.toNat
  nonempty : m.payload ≠ [] → ∀ c ∈ cs, c.piece ≠ []

theorem tells_of_chunks (ht : codec.limits.chunkCount m.payload.length = .ok total) {c : Chunk}
    (hc : (codec.chunks nonces m total)[i]? = some c) : (c.frame codec).header.Tells m total.toNat i := by
  obtain ⟨hi,rfl⟩ := getElem?_chunks_eq_some_iff.mp hc
  have htotal := total.toNat_lt
  refine ⟨rfl,rfl,rfl,UInt16.toNat_ofNat_of_lt (by simp only [UInt16.size]; omega),rfl,?_⟩
  exact UInt32.toNat_ofNat_of_lt (Nat.lt_of_le_of_lt (Limits.length_le_wordMax ht) (by decide))

theorem lays_chunks (hs : codec.Sound) (hchunk : 1 ≤ codec.limits.chunkSize.toNat) (nonces : NonceSupply)
    (ht : codec.limits.chunkCount m.payload.length = .ok total) :
    codec.Lays m (codec.chunks nonces.1 m total) := by
  have hbegins : ∀ i, i < total.toNat → m.payload.length ≠ 0 →
      codec.limits.chunkSize.toNat*i < m.payload.length := by
    intro i hi hne
    rw [Limits.toNat_chunkCount ht] at hi
    exact Limits.mul_lt_of_lt_needed hchunk hne hi
  refine ⟨?_,?_,?_,?_,?_,?_⟩
  · intro i c hc
    rw [length_chunks]
    exact tells_of_chunks ht hc
  · intro c hc
    obtain ⟨i,piece,-,-,rfl⟩ := mem_chunks hc
    exact codec.openPayload_body hs _ _ _ _ (nonces.2 i)
  · rw [chunks,pieces_chunksFrom]
    exact flatten_cut _ _ _ (Limits.length_le_chunkCount hchunk ht)
  · intro i c hc hlast
    rw [length_chunks] at hlast
    obtain ⟨-,rfl⟩ := getElem?_chunks_eq_some_iff.mp hc
    -- the next chunk begins within the payload, so this one is whole
    have hnext := hbegins (i + 1) hlast (by
      intro hnil
      rw [Limits.toNat_chunkCount ht,hnil] at hlast
      simp [Limits.needed] at hlast)
    rw [Nat.mul_succ] at hnext
    rw [List.length_take,List.length_drop]
    omega
  · intro c hc
    obtain ⟨i,hi⟩ := List.getElem?_of_mem hc
    obtain ⟨-,rfl⟩ := getElem?_chunks_eq_some_iff.mp hi
    exact List.length_take_le ..
  · intro hne c hc
    obtain ⟨i,hi⟩ := List.getElem?_of_mem hc
    obtain ⟨hlt,rfl⟩ := getElem?_chunks_eq_some_iff.mp hi
    have hbegin := hbegins i hlt (fun h => hne (List.length_eq_zero_iff.mp h))
    rw [← List.length_pos_iff,List.length_take,List.length_drop]
    omega

/-! ### Nothing of a message that cannot be sent -/

theorem emit_of_not_fits {done : Emission} {index : Nat} {piece : List UInt8} {rest : List (List UInt8)}
    (h : ¬ (⟨{ place with index := UInt16.ofNat index },nonces index,piece⟩ : Chunk).Fits codec) :
    (codec.emit nonces place done index (piece :: rest)).frames = done.frames := by
  have hover : codec.limits.framePayload.toNat < (codec.body (nonces index) piece).length :=
    Nat.lt_of_not_le h
  simp [emit,encodeChunk,hover]

theorem bytes_of_fault (hs : codec.Sound) (hchunk : 1 ≤ codec.limits.chunkSize.toNat)
    (nonces : NonceSupply) {fault : LinkError} (h : (codec.emitMessage nonces.1 m).fault = some fault) :
    (codec.emitMessage nonces.1 m).bytes = [] := by
  cases ht : codec.limits.chunkCount m.payload.length with
  | error fault => simp [emitMessage,ht,Emission.bytes]
  | ok total =>
    obtain ⟨hneeded,hword,-⟩ := (Limits.chunkCount_eq_ok_iff ..).mp ht
    obtain ⟨n,hn⟩ := Nat.exists_eq_add_of_le' (Limits.one_le_chunkCount hchunk ht)
    have hlarge : ¬ codec.Carries m.payload.length := by
      rw [← fault_eq_none_iff hs hchunk nonces m,h]
      exact Option.some_ne_none fault
    rw [emitMessage_eq codec nonces.1 m total ht,hn,cut,Emission.bytes,emit_of_not_fits]
    · rfl
    · rw [Chunk.Fits,Chunk.bodyLength,length_body hs _ _ (nonces.2 0),List.length_take]
      exact fun hfits => hlarge ⟨hneeded,hword,hfits⟩

/-- A message is appended to a buffer whole or not at all, and which of them depends on its length alone. If
it is, the frames that it adds are as many as its length calls for, and they lay out the message. -/
theorem append_whole_or_nothing (limits : Limits) (key : Option PayloadKey) (nonces : NonceSupply)
    (m : Message) (buffer : List UInt8) (hchunk : 1 ≤ limits.chunkSize.toNat) :
    let codec : Codec := ⟨limits,key.map Cipher.ofKey⟩
    let appended := codec.append nonces.1 m buffer
    (appended.2 = none ↔ codec.Carries m.payload.length) ∧
    (∀ fault, appended.2 = some fault → appended.1 = buffer) ∧
    (appended.2 = none → ∃ total cs, limits.chunkCount m.payload.length = .ok total ∧
      cs.length = total.toNat ∧ codec.Lays m cs ∧
      appended.1 = buffer ++ (cs.map (Chunk.wire codec)).flatten) := by
  intro codec appended
  have hs : codec.Sound := sound_of_key limits key
  refine ⟨fault_eq_none_iff hs hchunk nonces m,fun fault hfault => ?_,fun hnone => ?_⟩
  · change buffer ++ (codec.emitMessage nonces.1 m).bytes = buffer
    rw [bytes_of_fault hs hchunk nonces hfault,List.append_nil]
  · obtain ⟨total,ht,hfits⟩ := (emitMessage_fault_iff codec nonces.1 m).mp hnone
    refine ⟨total,codec.chunks nonces.1 m total,ht,length_chunks ..,lays_chunks hs hchunk nonces ht,?_⟩
    exact congrArg (buffer ++ ·) (emitMessage_bytes codec nonces.1 m total ht hfits)

/-- Five bytes in sealed chunks of two, which take frames of thirty bytes: three frames are added to what is
there. Where a frame holds one byte less, nothing is added, although it would hold the last chunk. -/
theorem append_whole_or_nothing_sealed :
    let key : PayloadKey := ⟨List.replicate 32 7⟩
    let codec (framePayload : UInt64) : Codec := ⟨{ chunkSize := 2, framePayload },some (.ofKey key)⟩
    let nonces : NonceSupply := ⟨fun _ => List.replicate 12 0,fun _ => rfl⟩
    let m : Message := ⟨1,.file,false,[1,2,3,4,5]⟩
    (∃ cs, (codec 30).append nonces.1 m [9] = ([9] ++ (cs.map (Chunk.wire (codec 30))).flatten,none) ∧
      cs.length = 3 ∧ (codec 30).Lays m cs) ∧
    ∃ fault, (codec 29).append nonces.1 m [9] = ([9],some fault) := by
  intro key codec nonces m
  constructor
  · obtain ⟨hiff,-,hwhole⟩ :=
      append_whole_or_nothing { chunkSize := 2, framePayload := 30 } (some key) nonces m [9] (by decide)
    have hnone := hiff.mpr (by decide)
    obtain ⟨total,cs,ht,hcount,hlays,hbytes⟩ := hwhole hnone
    have htotal : total.toNat = 3 := (Limits.toNat_chunkCount ht).trans (by decide)
    exact ⟨cs,Prod.ext hbytes hnone,hcount.trans htotal,hlays⟩
  · obtain ⟨hiff,hnothing,-⟩ :=
      append_whole_or_nothing { chunkSize := 2, framePayload := 29 } (some key) nonces m [9] (by decide)
    have hsome := mt hiff.mp (by decide)
    obtain ⟨fault,hfault⟩ := Option.ne_none_iff_exists'.mp hsome
    exact ⟨fault,Prod.ext (hnothing fault hfault) hfault⟩

end Codec
end Tether
