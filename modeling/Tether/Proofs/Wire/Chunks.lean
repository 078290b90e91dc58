import Tether.Proofs.Cipher.Sound
import Tether.Proofs.Wire.Header
import Tether.Proofs.Wire.Limits
import Tether.Wire.Codec

/-! A message as the chunks it is cut into, and the bytes of each chunk. Emitting a message succeeds
exactly if its length can be expressed and every chunk fits into a frame; what it emits is then the
bytes of the chunks in order. -/
namespace Tether

/-- A piece of a message at its place, with the nonce that it is sealed under. -/
structure Chunk where
  place : ChunkPlace
  nonce : List UInt8
  piece : List UInt8

namespace Chunk

def bodyLength (codec : Codec) (c : Chunk) : Nat := (codec.body c.nonce c.piece).length

def frame (codec : Codec) (c : Chunk) : Frame := ⟨codec.chunkHeader c.place (c.bodyLength codec),c.piece⟩

def wire (codec : Codec) (c : Chunk) : List UInt8 :=
  (c.frame codec).header.encode ++ codec.body c.nonce c.piece

theorem toNat_payloadLength (codec : Codec) (c : Chunk) :
    (c.frame codec).header.payloadLength.toNat = c.bodyLength codec % 2^32 := UInt32.toNat_ofNat'

/-- The chunk is not over the limit of a frame. -/
def Fits (codec : Codec) (c : Chunk) : Prop := c.bodyLength codec ≤ codec.limits.framePayload.toNat

end Chunk

namespace Codec

theorem encodeChunk_eq_ok (codec : Codec) (c : Chunk) (h : c.Fits codec) :
    codec.encodeChunk c.nonce c.place c.piece = .ok (c.wire codec) :=
  if_neg (Nat.not_lt.mpr h)

theorem encodeChunk_ok_iff (codec : Codec) (c : Chunk) (bytes : List UInt8) :
    codec.encodeChunk c.nonce c.place c.piece = .ok bytes ↔ c.Fits codec ∧ bytes = c.wire codec := by
  by_cases h : c.Fits codec
  · simp [encodeChunk_eq_ok codec c h,h,eq_comm]
  · have hlt : codec.limits.framePayload.toNat < c.bodyLength codec := Nat.lt_of_not_le h
    rw [encodeChunk]
    simp only [Chunk.bodyLength] at hlt
    simp [hlt,h]

/-! ### Pieces -/

def cut (size : Nat) (bytes : List UInt8) : Nat → List (List UInt8)
  | 0 => []
  | count + 1 => bytes.take size :: cut size (bytes.drop size) count

/-- As many pieces are cut as hold the bytes. -/
theorem piecesOnto_eq {size : Nat} (hsize : 1 ≤ size) {bytes : List UInt8} {most : Nat}
    (h : bytes.length ≤ most) (found : List (List UInt8)) : piecesOnto size found bytes most =
      found.reverse ++ cut size bytes ((bytes.length + size - 1)/size) := by
  induction most generalizing bytes found with
  | zero =>
    obtain rfl := List.length_eq_zero_iff.mp (Nat.le_zero.mp h)
    simp [piecesOnto,cut,Nat.div_eq_of_lt (show size - 1 < size by omega)]
  | succ most ih =>
    cases bytes with
    | nil => simp [piecesOnto,cut,Nat.div_eq_of_lt (show size - 1 < size by omega)]
    | cons b rest =>
      have hlength : 1 ≤ (b :: rest).length := Nat.succ_pos _
      generalize b :: rest = bytes at h hlength
      have hne : bytes.isEmpty = false := by simpa using List.ne_nil_of_length_pos hlength
      have hdrop : (bytes.drop size).length = bytes.length - size := List.length_drop
      -- the pieces of what is left, and this one
      have hcount : (bytes.length + size - 1)/size = ((bytes.drop size).length + size - 1)/size + 1 := by
        rw [hdrop]
        rcases Nat.lt_or_ge bytes.length size with hlt | hge
        · rw [Nat.div_eq_of_lt (show bytes.length - size + size - 1 < size by omega),Nat.zero_add]
          exact Nat.div_eq_of_lt_le (by omega) (by omega)
        · rw [Nat.sub_add_cancel hge,← Nat.add_div_right _ hsize]
          congr 1
          omega
      rw [piecesOnto,hne,if_neg Bool.false_ne_true,List.splitAt_eq]
      dsimp only
      rw [ih (by omega),hcount,cut]
      simp

theorem pieces_eq_cut (limits : Limits) (bytes : List UInt8) : pieces limits.chunkSize.toNat bytes =
    cut limits.chunkSize.toNat bytes (limits.needed bytes.length) := by
  unfold pieces Limits.needed
  cases bytes with
  | nil => simp [cut]
  | cons b rest =>
    by_cases hsize : limits.chunkSize.toNat = 0
    · simp [hsize,cut]
    · have hcut := piecesOnto_eq (Nat.one_le_iff_ne_zero.mpr hsize) (Nat.le_refl (b :: rest).length) []
      simpa [hsize] using hcut

@[simp] theorem length_cut (size : Nat) (bytes : List UInt8) (count : Nat) :
    (cut size bytes count).length = count := by
  induction count generalizing bytes with
  | zero => rfl
  | succ count ih => simp [cut,ih]

theorem length_pieces {limits : Limits} {bytes : List UInt8} {total : UInt16}
    (h : limits.chunkCount bytes.length = .ok total) :
    (pieces limits.chunkSize.toNat bytes).length = total.toNat := by
  rw [pieces_eq_cut,length_cut,Limits.toNat_chunkCount h]

theorem flatten_cut (size : Nat) (bytes : List UInt8) (count : Nat)
    (h : bytes.length ≤ size*count) : (cut size bytes count).flatten = bytes := by
  induction count generalizing bytes with
  | zero => simpa [cut,eq_comm] using h
  | succ count ih =>
    have hrest : (bytes.drop size).length ≤ size*count := by
      rw [List.length_drop,Nat.sub_le_iff_le_add]
      simpa [Nat.mul_succ] using h
    rw [cut,List.flatten_cons,ih _ hrest,List.take_append_drop]

theorem length_le_of_mem_cut (size : Nat) (bytes : List UInt8) (count : Nat) (piece : List UInt8)
    (h : piece ∈ cut size bytes count) : piece.length ≤ size ∧ piece.length ≤ bytes.length := by
  induction count generalizing bytes with
  | zero => simp [cut] at h
  | succ count ih =>
    rw [cut,List.mem_cons] at h
    rcases h with rfl | h
    · simp only [List.length_take]
      omega
    · have hh := ih _ h
      rw [List.length_drop] at hh
      omega

/-! ### Emission -/

def chunksFrom (nonces : Nonces) (place : ChunkPlace) (index : Nat) : List (List UInt8) → List Chunk
  | [] => []
  | piece :: rest =>
    ⟨{ place with index := UInt16.ofNat index },nonces index,piece⟩
      :: chunksFrom nonces place (index + 1) rest

@[simp] theorem length_chunksFrom (nonces : Nonces) (place : ChunkPlace) (index : Nat)
    (ps : List (List UInt8)) : (chunksFrom nonces place index ps).length = ps.length := by
  induction ps generalizing index with
  | nil => rfl
  | cons piece ps ih => simp [chunksFrom,ih]

theorem emit_of_fits (codec : Codec) (nonces : Nonces) (place : ChunkPlace)
    (done : List (List UInt8)) (index : Nat) (ps : List (List UInt8))
    (h : ∀ c ∈ chunksFrom nonces place index ps, c.Fits codec) :
    codec.emit nonces place ⟨done,none⟩ index ps =
      ⟨((chunksFrom nonces place index ps).map (Chunk.wire codec)).reverse ++ done,none⟩ := by
  induction ps generalizing index done with
  | nil => rfl
  | cons piece ps ih =>
    simp only [chunksFrom,List.mem_cons,forall_eq_or_imp] at h
    have hfirst := encodeChunk_eq_ok codec _ h.1
    simp only at hfirst
    simp [emit,hfirst,ih _ _ h.2,chunksFrom]

theorem fits_of_emit (codec : Codec) (nonces : Nonces) (place : ChunkPlace)
    (done : List (List UInt8)) (index : Nat) (ps : List (List UInt8))
    (h : (codec.emit nonces place ⟨done,none⟩ index ps).fault = none) :
    ∀ c ∈ chunksFrom nonces place index ps, c.Fits codec := by
  induction ps generalizing index done with
  | nil => simp [chunksFrom]
  | cons piece ps ih =>
    simp only [emit] at h
    split at h
    · rename_i bytes hb
      simp only [chunksFrom,List.mem_cons,forall_eq_or_imp]
      exact ⟨((encodeChunk_ok_iff codec ⟨_,nonces index,piece⟩ bytes).mp hb).1,ih _ _ h⟩
    · simp at h

/-- What all chunks of a message have in common, with the place of the first one. -/
def firstPlace (message : Message) (total : UInt16) : ChunkPlace :=
  { counter := message.counter
    tag := message.tag
    response := message.response
    index := 0
    total
    messageLength := UInt32.ofNat message.payload.length }

def chunks (codec : Codec) (nonces : Nonces) (message : Message) (total : UInt16) : List Chunk :=
  chunksFrom nonces (firstPlace message total) 0
    (cut codec.limits.chunkSize.toNat message.payload total.toNat)

@[simp] theorem length_chunks (codec : Codec) (nonces : Nonces) (m : Message) (total : UInt16) :
    (codec.chunks nonces m total).length = total.toNat := by
  rw [chunks,length_chunksFrom,length_cut]

theorem emitMessage_eq (codec : Codec) (nonces : Nonces) (message : Message) (total : UInt16)
    (h : codec.limits.chunkCount message.payload.length = .ok total) :
    codec.emitMessage nonces message = codec.emit nonces (firstPlace message total) {} 0
      (cut codec.limits.chunkSize.toNat message.payload total.toNat) := by
  simp [emitMessage,h,pieces_eq_cut,Limits.toNat_chunkCount h,firstPlace]

theorem emitMessage_fault_iff (codec : Codec) (nonces : Nonces) (message : Message) :
    (codec.emitMessage nonces message).fault = none ↔
      ∃ total, codec.limits.chunkCount message.payload.length = .ok total ∧
        ∀ c ∈ codec.chunks nonces message total, c.Fits codec := by
  cases hc : codec.limits.chunkCount message.payload.length with
  | error fault => simp [emitMessage,hc]
  | ok total =>
    rw [emitMessage_eq codec nonces message total hc]
    constructor
    · intro h
      exact ⟨total,rfl,fits_of_emit codec nonces _ [] 0 _ h⟩
    · rintro ⟨total',ht,hfits⟩
      obtain rfl := Except.ok.inj ht
      exact congrArg Emission.fault (emit_of_fits codec nonces _ [] 0 _ hfits)

theorem emitMessage_bytes (codec : Codec) (nonces : Nonces) (message : Message) (total : UInt16)
    (hc : codec.limits.chunkCount message.payload.length = .ok total)
    (h : ∀ c ∈ codec.chunks nonces message total, c.Fits codec) :
    (codec.emitMessage nonces message).bytes =
      ((codec.chunks nonces message total).map (Chunk.wire codec)).flatten := by
  rw [emitMessage_eq codec nonces message total hc]
  have he := emit_of_fits codec nonces (firstPlace message total) [] 0 _ h
  simp only [Emission.bytes] at he ⊢
  rw [he]
  simp [chunks]

end Codec
end Tether
