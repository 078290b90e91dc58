import Tether.Proofs.Wire.Chunks
import Tether.Proofs.Wire.Limits
import Tether.Proofs.Wire.Reassembly

/-! The chunks of a message come together again. In their order they are permitted one after the other,
the message is there with the last of them and not before, and nothing of it is left behind. -/
namespace Tether

/-- The message of which some pieces have come, the latest first. -/
def ChunkPlace.partly (place : ChunkPlace) (index : Nat) (pieces : List (List UInt8)) : Partial :=
  { tag := place.tag
    next := UInt16.ofNat index
    total := place.total
    messageLength := place.messageLength
    pieces
    size := pieces.flatten.length }

def ChunkPlace.message (place : ChunkPlace) (payload : List UInt8) : Message :=
  ⟨place.counter,place.tag,place.response,payload⟩

namespace Codec

def framesFrom (codec : Codec) (nonces : Nonces) (place : ChunkPlace) (index : Nat)
    (ps : List (List UInt8)) : List Frame :=
  (chunksFrom nonces place index ps).map (Chunk.frame codec)

def frames (codec : Codec) (nonces : Nonces) (message : Message) (total : UInt16) : List Frame :=
  (codec.chunks nonces message total).map (Chunk.frame codec)

end Codec

namespace Reassembler

variable {codec : Codec} {nonces : Nonces} {place : ChunkPlace}

theorem toNat_index {index count : Nat} (ht : place.total.toNat = index + count) (hc : 1 ≤ count) :
    (UInt16.ofNat index).toNat = index := by
  have h := place.total.toNat_lt
  exact UInt16.toNat_ofNat_of_lt (by simp only [UInt16.size]; omega)

theorem isLast_frame {index count : Nat} (nonce piece : List UInt8)
    (ht : place.total.toNat = index + 1 + count) :
    (Chunk.frame codec ⟨{ place with index := UInt16.ofNat index },nonce,piece⟩).header.isLast = true ↔
      count = 0 := by
  have hi : (UInt16.ofNat index).toNat = index := toNat_index (Nat.add_assoc index 1 count ▸ ht) (by omega)
  have hlt : UInt16.ofNat index < place.total := by
    rw [UInt16.lt_iff_toNat_lt,hi]
    omega
  rw [Header.isLast_iff hlt]
  change (UInt16.ofNat index).toNat + 1 = place.total.toNat ↔ _
  rw [hi,ht]
  omega

theorem grow_partly (index : Nat) (done : List (List UInt8)) (c : Chunk) :
    (place.partly index done).grow (c.frame codec) = place.partly (index + 1) (c.piece :: done) := by
  simp [Partial.grow,ChunkPlace.partly,Chunk.frame,UInt16.ofNat_add,Nat.add_comm]

theorem bytes_partly (index : Nat) (done : List (List UInt8)) :
    (place.partly index done).bytes = done.reverse.flatten := rfl

theorem track_framesFrom (index : Nat) (done ps : List (List UInt8)) (hps : ps ≠ [])
    (ht : place.total.toNat = index + ps.length) :
    track (some (place.partly index done)) (codec.framesFrom nonces place index ps) =
      (none,[place.message (done.reverse.flatten ++ ps.flatten)]) := by
  induction ps generalizing index done with
  | nil => exact absurd rfl hps
  | cons piece ps ih =>
    have hcount : place.total.toNat = index + 1 + ps.length := by
      rw [ht,List.length_cons]
      omega
    have hlast := @isLast_frame codec place index ps.length (nonces index) piece hcount
    simp only [Codec.framesFrom,Codec.chunksFrom,List.map_cons,track,advance,grow_partly,bytes_partly]
    cases ps with
    | nil =>
      rw [if_pos (hlast.mpr rfl)]
      simp [Codec.chunksFrom,track,ChunkPlace.message,ChunkPlace.partly,Chunk.frame,Codec.chunkHeader,
        Header.isResponse]
    | cons piece' ps =>
      have hmore := ih (index + 1) (piece :: done) (by simp) hcount
      rw [if_neg (by rw [hlast]; simp)]
      simp only [Codec.framesFrom] at hmore
      simp [hmore]

theorem permitted_framesFrom (limits : Limits) (index : Nat) (done ps : List (List UInt8))
    (hindex : 1 ≤ index) (ht : place.total.toNat = index + ps.length)
    (hlen : done.flatten.length + ps.flatten.length = place.messageLength.toNat)
    (hsize : place.messageLength.toNat ≤ limits.messageSize.toNat) :
    Permitted limits (some (place.partly index done)) (codec.framesFrom nonces place index ps) := by
  induction ps generalizing index done with
  | nil => trivial
  | cons piece ps ih =>
    have hcount : place.total.toNat = index + 1 + ps.length := by
      rw [ht,List.length_cons]
      omega
    have hlast := @isLast_frame codec place index ps.length (nonces index) piece hcount
    have hi := toNat_index ht (by simp)
    simp only [List.flatten_cons,List.length_append] at hlen
    simp only [Codec.framesFrom,Codec.chunksFrom,List.map_cons,Permitted,advance,grow_partly]
    constructor
    · refine ⟨hsize,?_,rfl,rfl,rfl,rfl,?_,?_⟩
      · intro h0
        have h := congrArg UInt16.toNat h0
        simp only [Chunk.frame,Codec.chunkHeader,hi] at h
        exact absurd h (by simp; omega)
      · rw [grow_partly]
        simp only [ChunkPlace.partly,List.flatten_cons,List.length_append]
        omega
      · intro h
        have hnil := List.length_eq_zero_iff.mp (hlast.mp h)
        subst hnil
        rw [grow_partly]
        simp only [ChunkPlace.partly,List.flatten_cons,List.length_append,List.flatten_nil,
          List.length_nil] at hlen ⊢
        omega
    · cases ps with
      | nil =>
        rw [if_pos (hlast.mpr rfl)]
        trivial
      | cons piece' ps =>
        rw [if_neg (by rw [hlast]; simp)]
        refine ih (index + 1) (piece :: done) (by omega) hcount ?_
        simp only [List.flatten_cons,List.length_append] at hlen ⊢
        omega

/-! ### A whole message -/

theorem advance_first (nonce piece : List UInt8) :
    advance (Chunk.frame codec ⟨{ place with index := UInt16.ofNat 0 },nonce,piece⟩) none =
      if place.total = 1 then (none,some (place.message piece))
      else (some (place.partly 1 [piece]),none) := by
  by_cases h : place.total = 1
  · simp [advance,Chunk.frame,Codec.chunkHeader,ChunkPlace.message,Header.isResponse,h]
  · simp [advance,Chunk.frame,Codec.chunkHeader,ChunkPlace.partly,h]

theorem total_eq_one_iff (piece : List UInt8) (rest : List (List UInt8))
    (ht : place.total.toNat = (piece :: rest).length) : place.total = 1 ↔ rest = [] := by
  rw [← UInt16.toNat_inj,ht,← List.length_eq_zero_iff]
  simp

theorem track_framesFrom_zero (ps : List (List UInt8)) (hps : ps ≠ [])
    (ht : place.total.toNat = ps.length) :
    track none (codec.framesFrom nonces place 0 ps) = (none,[place.message ps.flatten]) := by
  obtain ⟨piece,rest,rfl⟩ := List.exists_cons_of_ne_nil hps
  have hone := total_eq_one_iff piece rest ht
  simp only [Codec.framesFrom,Codec.chunksFrom,List.map_cons,track,advance_first]
  by_cases hrest : rest = []
  · subst hrest
    simp [hone,track,Codec.chunksFrom]
  · have hlater := @track_framesFrom codec nonces place 1 [piece] rest hrest (by
      rw [ht,List.length_cons,Nat.add_comm])
    simp only [Codec.framesFrom] at hlater
    simp [hone,hrest,hlater]

theorem permitted_framesFrom_zero (limits : Limits) (ps : List (List UInt8))
    (ht : place.total.toNat = ps.length) (hlen : ps.flatten.length = place.messageLength.toNat)
    (hsize : place.messageLength.toNat ≤ limits.messageSize.toNat)
    (hcap : ¬ place.total.toUInt64*limits.framePayload < place.messageLength.toUInt64) :
    Permitted limits none (codec.framesFrom nonces place 0 ps) := by
  cases ps with
  | nil => trivial
  | cons piece rest =>
    have hone := total_eq_one_iff piece rest ht
    simp only [List.flatten_cons,List.length_append] at hlen
    simp only [Codec.framesFrom,Codec.chunksFrom,List.map_cons,Permitted,advance_first]
    constructor
    · refine ⟨hsize,rfl,?_,fun _ => hcap,fun _ => ?_⟩
      · intro h
        obtain rfl := hone.mp h
        rw [List.flatten_nil,List.length_nil,Nat.add_zero] at hlen
        exact hlen
      · simp only [Chunk.frame,Codec.chunkHeader]
        omega
    · by_cases hrest : rest = []
      · subst hrest
        simp [hone,Codec.chunksFrom,Permitted]
      · have hlater := @permitted_framesFrom codec nonces place limits 1 [piece] rest (Nat.le_refl 1)
          (by rw [ht,List.length_cons,Nat.add_comm]) (by simpa using hlen) hsize
        simp only [Codec.framesFrom] at hlater
        simp [hone,hrest,hlater]

theorem track_frames (codec : Codec) (nonces : Nonces) (m : Message) (total : UInt16)
    (hone : 1 ≤ total.toNat)
    (hlen : m.payload.length ≤ codec.limits.chunkSize.toNat*total.toNat) :
    track none (codec.frames nonces m total) = (none,[m]) := by
  have hcount := Codec.length_cut codec.limits.chunkSize.toNat m.payload total.toNat
  have h := @track_framesFrom_zero codec nonces (Codec.firstPlace m total)
    (Codec.cut codec.limits.chunkSize.toNat m.payload total.toNat)
    (List.length_pos_iff.mp (by omega)) hcount.symm
  rw [Codec.flatten_cut _ _ _ hlen] at h
  exact h

/-- With its length expressible, within the limit, and its chunks within the limit of a frame, every
frame of a message is permitted after those before it. -/
theorem permitted_frames (codec : Codec) (nonces : Nonces) (m : Message) (total : UInt16)
    (hword : m.payload.length < 2^32)
    (hlen : m.payload.length ≤ codec.limits.chunkSize.toNat*total.toNat)
    (hsize : m.payload.length ≤ codec.limits.messageSize.toNat)
    (hchunk : codec.limits.chunkSize.toNat ≤ codec.limits.framePayload.toNat)
    (hframe : codec.limits.framePayload.toNat < 2^32) :
    Permitted codec.limits none (codec.frames nonces m total) := by
  have hm : (UInt32.ofNat m.payload.length).toNat = m.payload.length := UInt32.toNat_ofNat_of_lt hword
  refine permitted_framesFrom_zero codec.limits _ (Codec.length_cut ..).symm ?_ ?_ ?_
  · rw [Codec.flatten_cut _ _ _ hlen]
    exact hm.symm
  · exact hm.symm ▸ hsize
  · have hproduct : total.toNat*codec.limits.framePayload.toNat < 2^64 := by
      have htotal := total.toNat_lt
      calc total.toNat*codec.limits.framePayload.toNat ≤ 2^16*2^32 :=
            Nat.mul_le_mul (by omega) (by omega)
        _ < 2^64 := by decide
    have hcap := Nat.mul_le_mul_right total.toNat hchunk
    rw [UInt64.lt_iff_toNat_lt,UInt64.toNat_mul,UInt16.toNat_toUInt64,UInt32.toNat_toUInt64]
    change ¬ total.toNat*codec.limits.framePayload.toNat % 2^64 < (UInt32.ofNat m.payload.length).toNat
    rw [Nat.mod_eq_of_lt hproduct,hm,Nat.mul_comm]
    omega

theorem key_of_mem_framesFrom {index : Nat} {ps : List (List UInt8)} {f : Frame}
    (h : f ∈ codec.framesFrom nonces place index ps) : f.key = (place.counter,place.response) := by
  induction ps generalizing index with
  | nil => simp [Codec.framesFrom,Codec.chunksFrom] at h
  | cons piece ps ih =>
    simp only [Codec.framesFrom,Codec.chunksFrom,List.map_cons,List.mem_cons] at h
    rcases h with rfl | h
    · rfl
    · exact ih h

theorem key_of_mem_frames {m : Message} {total : UInt16} {f : Frame}
    (h : f ∈ codec.frames nonces m total) : f.key = m.key :=
  key_of_mem_framesFrom h

theorem run_frames (r : Reassembler) (m : Message) (total : UInt16) (hget : r.get? m.key = none)
    (hroom : r.inProgress < codec.limits.partialMessages.toNat) (hone : 1 ≤ total.toNat)
    (hlen : m.payload.length ≤ codec.limits.chunkSize.toNat*total.toNat)
    (hp : Permitted codec.limits none (codec.frames nonces m total)) :
    run codec.limits r (codec.frames nonces m total) = some (r,[m]) := by
  have h := run_of_permitted codec.limits r m.key (codec.frames nonces m total) none hget hroom
    (fun _ => key_of_mem_frames) hp
  rwa [track_frames codec nonces m total hone hlen,put_none_of_get?_none hget] at h

end Reassembler
end Tether
