import Tether.Proofs.Wire.Assembly
import Tether.Proofs.Wire.Draining

/-! The sending side. Within limits that leave room for sealing, every message with an expressible
length is emitted whole, and messages emitted one after the other make one stream of proper chunks. -/
namespace Tether

/-- Limits under which the length of a chunk decides nothing: a frame takes any sealed chunk, and its
length field any frame. -/
structure Limits.Ample (limits : Limits) : Prop where
  chunk : 1 ≤ limits.chunkSize.toNat
  room : limits.chunkSize.toNat + Cipher.overhead ≤ limits.framePayload.toNat
  word : limits.framePayload.toNat < 2^32

namespace Codec

variable {codec : Codec}

def overhead (codec : Codec) : Nat :=
  match codec.cipher with
  | some _ => Cipher.overhead
  | none => 0

theorem length_body (hs : codec.Sound) (nonce piece : List UInt8) (hn : nonce.length = Gcm.nonceSize) :
    (codec.body nonce piece).length = piece.length + codec.overhead := by
  rcases codec with ⟨limits,cipher⟩
  cases cipher with
  | none => rfl
  | some cipher => exact (hs cipher rfl).length_seal nonce piece hn

theorem length_body_le (hs : codec.Sound) (nonce piece : List UInt8)
    (hn : nonce.length = Gcm.nonceSize) :
    (codec.body nonce piece).length ≤ piece.length + Cipher.overhead := by
  rw [length_body hs nonce piece hn,overhead]
  cases codec.cipher with
  | none => exact Nat.le_add_right ..
  | some cipher => exact Nat.le_refl _

theorem mem_chunksFrom {nonces : Nonces} {place : ChunkPlace} {index : Nat}
    {ps : List (List UInt8)} {c : Chunk} (h : c ∈ chunksFrom nonces place index ps) :
    ∃ i piece, index ≤ i ∧ i < index + ps.length ∧ piece ∈ ps ∧
      c = ⟨{ place with index := UInt16.ofNat i },nonces i,piece⟩ := by
  induction ps generalizing index with
  | nil => simp [chunksFrom] at h
  | cons piece ps ih =>
    simp only [chunksFrom,List.mem_cons] at h
    rcases h with rfl | h
    · exact ⟨index,piece,Nat.le_refl _,by simp,by simp,rfl⟩
    · obtain ⟨i,piece',hlo,hhi,hmem,rfl⟩ := ih h
      exact ⟨i,piece',by omega,by rw [List.length_cons]; omega,by simp [hmem],rfl⟩

theorem mem_chunks {nonces : Nonces} {m : Message} {total : UInt16} {c : Chunk}
    (h : c ∈ codec.chunks nonces m total) :
    ∃ i piece, i < total.toNat ∧
      piece ∈ cut codec.limits.chunkSize.toNat m.payload total.toNat ∧
      c = ⟨{ firstPlace m total with index := UInt16.ofNat i },nonces i,piece⟩ := by
  obtain ⟨i,piece,-,hi,hmem,rfl⟩ := mem_chunksFrom h
  rw [length_cut,Nat.zero_add] at hi
  exact ⟨i,piece,hi,hmem,rfl⟩

theorem place_of_mem_chunks {nonces : Nonces} {m : Message} {total : UInt16} {c : Chunk}
    (h : c ∈ codec.chunks nonces m total) : c.place.index < c.place.total := by
  obtain ⟨i,piece,hi,-,rfl⟩ := mem_chunks h
  have ht := total.toNat_lt
  have hindex : (UInt16.ofNat i).toNat = i :=
    UInt16.toNat_ofNat_of_lt (by simp only [UInt16.size]; omega)
  rw [UInt16.lt_iff_toNat_lt]
  exact hindex.symm ▸ hi

theorem proper_of_mem_chunks (hs : codec.Sound) (ha : codec.limits.Ample) (nonces : NonceSupply)
    (m : Message) (total : UInt16) : ∀ c ∈ codec.chunks nonces.1 m total, c.Proper codec := by
  intro c hc
  have hplace := place_of_mem_chunks hc
  obtain ⟨i,piece,-,hmem,rfl⟩ := mem_chunks hc
  have hpiece := (length_le_of_mem_cut _ _ _ _ hmem).1
  have hbody := length_body_le hs (nonces.1 i) piece (nonces.2 i)
  have hfits : (codec.body (nonces.1 i) piece).length ≤ codec.limits.framePayload.toNat :=
    hbody.trans ((Nat.add_le_add_right hpiece _).trans ha.room)
  exact ⟨hfits,nonces.2 i,hplace,Nat.lt_of_le_of_lt hfits ha.word⟩

/-! ### What can be sent -/

/-- A payload of this length has a number of chunks that its frames can express, and the longest of its
chunks fits into a frame. -/
def Carries (codec : Codec) (length : Nat) : Prop :=
  codec.limits.needed length ≤ Limits.chunksMax ∧ length ≤ Limits.wordMax ∧
    min codec.limits.chunkSize.toNat length + codec.overhead ≤ codec.limits.framePayload.toNat

instance (codec : Codec) (length : Nat) : Decidable (codec.Carries length) := instDecidableAnd

theorem exists_first_chunk (nonces : Nonces) (m : Message) {total : UInt16} (h : 1 ≤ total.toNat) :
    ∃ c ∈ codec.chunks nonces m total,
      c.nonce = nonces 0 ∧ c.piece.length = min codec.limits.chunkSize.toNat m.payload.length := by
  obtain ⟨n,hn⟩ := Nat.exists_eq_add_of_le' h
  refine ⟨⟨{ firstPlace m total with index := UInt16.ofNat 0 },nonces 0,
    m.payload.take codec.limits.chunkSize.toNat⟩,?_,rfl,List.length_take ..⟩
  rw [chunks,hn,cut,chunksFrom]
  exact List.mem_cons_self

theorem fault_eq_none_iff (hs : codec.Sound) (hchunk : 1 ≤ codec.limits.chunkSize.toNat)
    (nonces : NonceSupply) (m : Message) :
    (codec.emitMessage nonces.1 m).fault = none ↔ codec.Carries m.payload.length := by
  rw [emitMessage_fault_iff]
  constructor
  · rintro ⟨total,ht,hfits⟩
    obtain ⟨hneeded,hword,-⟩ := (Limits.chunkCount_eq_ok_iff ..).mp ht
    obtain ⟨c,hc,hnonce,hlen⟩ := exists_first_chunk nonces.1 m (Limits.one_le_chunkCount hchunk ht)
    have hfit := hfits c hc
    have hn : c.nonce.length = Gcm.nonceSize := hnonce ▸ nonces.2 0
    rw [Chunk.Fits,Chunk.bodyLength,length_body hs _ _ hn,hlen] at hfit
    exact ⟨hneeded,hword,hfit⟩
  · rintro ⟨hneeded,hword,hfit⟩
    refine ⟨_,(Limits.chunkCount_eq_ok_iff ..).mpr ⟨hneeded,hword,rfl⟩,fun c hc => ?_⟩
    obtain ⟨i,piece,-,hmem,rfl⟩ := mem_chunks hc
    obtain ⟨hsize,hlen⟩ := length_le_of_mem_cut _ _ _ _ hmem
    rw [Chunk.Fits,Chunk.bodyLength,length_body hs _ _ (nonces.2 i)]
    exact (Nat.add_le_add_right (Nat.le_min.mpr ⟨hsize,hlen⟩) _).trans hfit

/-! ### Messages in a row -/

/-- Messages appended to one buffer, each under nonces of its own, until one cannot be encoded. -/
def appendAll (codec : Codec) :
    List (NonceSupply × Message) → List UInt8 → List UInt8 × Option LinkError
  | [],buffer => (buffer,none)
  | (nonces,m) :: rest,buffer =>
    match codec.append nonces.1 m buffer with
    | (buffer,none) => appendAll codec rest buffer
    | (buffer,some fault) => (buffer,some fault)

def chunksOf (codec : Codec) (nonces : Nonces) (m : Message) : List Chunk :=
  match codec.limits.chunkCount m.payload.length with
  | .ok total => codec.chunks nonces m total
  | .error _ => []

theorem appendAll_eq (hs : codec.Sound) (ha : codec.limits.Ample)
    (batch : List (NonceSupply × Message)) (buffer : List UInt8)
    (hcount : ∀ b ∈ batch, ∃ total, codec.limits.chunkCount b.2.payload.length = .ok total) :
    codec.appendAll batch buffer =
      (buffer ++ ((batch.flatMap fun b => codec.chunksOf b.1.1 b.2).map (Chunk.wire codec)).flatten,
        none) := by
  induction batch generalizing buffer with
  | nil => simp [appendAll]
  | cons b batch ih =>
    rcases b with ⟨nonces,m⟩
    simp only [List.mem_cons,forall_eq_or_imp] at hcount
    obtain ⟨⟨total,ht⟩,hrest⟩ := hcount
    have hfits : ∀ c ∈ codec.chunks nonces.1 m total, c.Fits codec :=
      fun c hc => (proper_of_mem_chunks hs ha nonces m total c hc).fits
    have happend : codec.append nonces.1 m buffer =
        (buffer ++ ((codec.chunks nonces.1 m total).map (Chunk.wire codec)).flatten,none) := by
      rw [append,emitMessage_bytes codec nonces.1 m total ht hfits,
        (emitMessage_fault_iff codec nonces.1 m).mpr ⟨total,ht,hfits⟩]
    simp [appendAll,happend,ih _ hrest,chunksOf,ht,List.append_assoc]

theorem frames_chunksOf {nonces : Nonces} {m : Message} {total : UInt16}
    (h : codec.limits.chunkCount m.payload.length = .ok total) :
    (codec.chunksOf nonces m).map (Chunk.frame codec) = codec.frames nonces m total := by
  simp [chunksOf,h,frames]

theorem run_batch (ha : codec.limits.Ample) (hpartial : 1 ≤ codec.limits.partialMessages.toNat)
    (batch : List (NonceSupply × Message))
    (hcount : ∀ b ∈ batch, ∃ total, codec.limits.chunkCount b.2.payload.length = .ok total)
    (hsize : ∀ b ∈ batch, b.2.payload.length ≤ codec.limits.messageSize.toNat) :
    Reassembler.run codec.limits {}
      ((batch.flatMap fun b => codec.chunksOf b.1.1 b.2).map (Chunk.frame codec)) =
        some ({},batch.map (·.2)) := by
  induction batch with
  | nil => rfl
  | cons b batch ih =>
    simp only [List.mem_cons,forall_eq_or_imp] at hcount hsize
    obtain ⟨⟨total,ht⟩,hrest⟩ := hcount
    have hlen := Limits.length_le_chunkCount ha.chunk ht
    have hword : b.2.payload.length < 2^32 :=
      Nat.lt_of_le_of_lt (Limits.length_le_wordMax ht) (by decide)
    have hpermitted := Reassembler.permitted_frames codec b.1.1 b.2 total hword hlen hsize.1
      (Nat.le_trans (Nat.le_add_right ..) ha.room) ha.word
    have hfirst := Reassembler.run_frames {} b.2 total rfl hpartial
      (Limits.one_le_chunkCount ha.chunk ht) hlen hpermitted
    simp only [List.flatMap_cons,List.map_append,frames_chunksOf ht]
    exact (Reassembler.run_append_eq_some_iff codec.limits _ _ _ _ _).mpr
      ⟨_,_,_,hfirst,ih hrest hsize.2,rfl⟩

end Codec
end Tether
