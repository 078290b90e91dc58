import Tether.Proofs.Wire.Interleaving

/-! The frames that a sender writes under one key. Each of them is the next one of its message, or the first
one of a new message, with as many to come as the message's length needs. Of such a frame a receiver only
asks what its own limits say: the length of the message, the capacity of its chunks, and how many messages
are half received. -/
namespace Tether
namespace Reassembler

variable {codec : Codec} {limits : Limits} {place : ChunkPlace} {f : Frame} {fs : List Frame}

/-- The frame is the first one of a message that was cut for its length. -/
structure Begins (limits : Limits) (f : Frame) : Prop where
  index : f.header.index = 0
  total : f.header.total.toNat = limits.needed f.header.messageLength.toNat
  whole : f.header.total = 1 → f.payload.length = f.header.messageLength.toNat
  size : f.payload.length ≤ f.header.messageLength.toNat

/-- The frame is the next one, in view of what is held of the message under its key. -/
def Follows (limits : Limits) (f : Frame) : Option Partial → Prop
  | none => Begins limits f
  | some p => Continues p f

/-- Each frame is the next one after those before it. -/
def Sequent (limits : Limits) : Option Partial → List Frame → Prop
  | _,[] => True
  | held,f :: fs => Follows limits f held ∧ Sequent limits (advance f held).1 fs

theorem sequent_append (held : Option Partial) (fs fs' : List Frame) :
    Sequent limits held (fs ++ fs') ↔
      Sequent limits held fs ∧ Sequent limits (track held fs).1 fs' := by
  induction fs generalizing held with
  | nil => simp [Sequent,track]
  | cons f fs ih => simp [Sequent,track,ih,and_assoc]

/-! ### What a receiver asks of the next frame -/

theorem Begins.overflows_iff (h : Begins limits f) :
    f.header.total.toUInt64*limits.framePayload < f.header.messageLength.toUInt64 ↔
      limits.Overflows f.header.messageLength.toNat := by
  rw [Limits.capacity_lt_iff,h.total]
  rfl

theorem Follows.eq_none_iff {held : Option Partial} (h : Follows limits f held) :
    held = none ↔ f.header.index = 0 := by
  cases held with
  | none => exact ⟨fun _ => h.index,fun _ => rfl⟩
  | some p => exact ⟨fun hnone => by simp at hnone,fun hindex => absurd hindex h.index⟩

theorem Follows.permits_iff {held : Option Partial} (h : Follows limits f held) :
    Permits limits f held ↔ f.header.messageLength.toNat ≤ limits.messageSize.toNat ∧
      (f.header.index = 0 → f.header.total ≠ 1 →
        ¬ limits.Overflows f.header.messageLength.toNat) := by
  refine and_congr_right fun _ => ?_
  cases held with
  | none =>
    constructor
    · exact fun ho _ htotal hover => ho.capacity htotal (h.overflows_iff.mpr hover)
    · exact fun hfits => ⟨h.index,h.whole,fun htotal hcap =>
        hfits h.index htotal (h.overflows_iff.mp hcap),fun _ => h.size⟩
  | some p => exact ⟨fun _ hindex => absurd hindex h.index,fun _ => h⟩

theorem Follows.push_ok_iff {r : Reassembler} (h : Follows limits f (r.get? f.key)) :
    (∃ r' out, r.push limits f = (r',.ok out)) ↔
      f.header.messageLength.toNat ≤ limits.messageSize.toNat ∧
        (f.header.index = 0 → f.header.total ≠ 1 →
          ¬ limits.Overflows f.header.messageLength.toNat ∧
            r.inProgress < limits.partialMessages.toNat) := by
  have hroom : HasRoom limits r f ↔ (f.header.index = 0 → f.header.total ≠ 1 →
      r.inProgress < limits.partialMessages.toNat) := by
    rw [HasRoom,h.eq_none_iff]
  constructor
  · rintro ⟨r',out,hpush⟩
    obtain ⟨hpermits,hr,-⟩ := (Reassembler.push_ok_iff limits r r' f out).mp hpush
    obtain ⟨hsize,hcap⟩ := h.permits_iff.mp hpermits
    exact ⟨hsize,fun hi ht => ⟨hcap hi ht,hroom.mp hr hi ht⟩⟩
  · rintro ⟨hsize,hlimits⟩
    refine ⟨_,_,(Reassembler.push_ok_iff limits r _ f _).mpr ⟨?_,?_,rfl,rfl⟩⟩
    · exact h.permits_iff.mpr ⟨hsize,fun hi ht => (hlimits hi ht).1⟩
    · exact hroom.mpr fun hi ht => (hlimits hi ht).2

/-! ### The chunks of one message -/

/-- What is held of a message of which the first `index` pieces have come, the latest first. -/
def heldAt (place : ChunkPlace) (index : Nat) (done : List (List UInt8)) : Option Partial :=
  if index = 0 ∨ index = place.total.toNat then none else some (place.partly index done)

@[simp] theorem heldAt_zero (place : ChunkPlace) (done : List (List UInt8)) :
    heldAt place 0 done = none := by
  simp [heldAt]

@[simp] theorem heldAt_total (place : ChunkPlace) (done : List (List UInt8)) :
    heldAt place place.total.toNat done = none := by
  simp [heldAt]

/-- A piece at its place, neither too long nor, as the last one, too short. -/
structure Cuts (place : ChunkPlace) (index : Nat) (done : List (List UInt8)) (piece : List UInt8) :
    Prop where
  lt : index < place.total.toNat
  first : index = 0 → done = []
  size : done.flatten.length + piece.length ≤ place.messageLength.toNat
  last : index + 1 = place.total.toNat →
    done.flatten.length + piece.length = place.messageLength.toNat

variable {index : Nat} {done : List (List UInt8)} {piece nonce : List UInt8}

/-- The frame of a piece at its place is the next one. -/
theorem Cuts.follows (h : Cuts place index done piece)
    (hneeded : place.total.toNat = limits.needed place.messageLength.toNat) :
    Follows limits (Chunk.frame codec ⟨{ place with index := UInt16.ofNat index },nonce,piece⟩)
      (heldAt place index done) := by
  have hlt := h.lt
  have hsize := h.size
  have hword := place.total.toNat_lt
  by_cases hzero : index = 0
  · subst hzero
    obtain rfl := h.first rfl
    rw [List.flatten_nil,List.length_nil,Nat.zero_add] at hsize
    rw [heldAt_zero]
    refine ⟨rfl,hneeded,fun hone => ?_,hsize⟩
    have htotal : place.total = 1 := hone
    have hlast := h.last (by rw [htotal]; rfl)
    rwa [List.flatten_nil,List.length_nil,Nat.zero_add] at hlast
  · rw [heldAt,if_neg (by omega)]
    have hindex : (UInt16.ofNat index).toNat = index :=
      UInt16.toNat_ofNat_of_lt (by simp only [UInt16.size]; omega)
    refine ⟨fun h0 => hzero ?_,rfl,rfl,rfl,rfl,?_,fun hlast => ?_⟩
    · rw [← hindex]
      exact congrArg UInt16.toNat h0
    · rw [grow_partly]
      simpa [ChunkPlace.partly,Nat.add_comm] using hsize
    · have hcount : place.total.toNat = index + 1 + (place.total.toNat - (index + 1)) := by omega
      have hend := (isLast_frame nonce piece hcount).mp hlast
      have hfull := h.last (by omega)
      rw [grow_partly]
      simpa [ChunkPlace.partly,Nat.add_comm] using hfull

theorem Cuts.advance_heldAt (h : Cuts place index done piece) :
    (advance (Chunk.frame codec ⟨{ place with index := UInt16.ofNat index },nonce,piece⟩)
      (heldAt place index done)).1 = heldAt place (index + 1) (piece :: done) := by
  have hlt := h.lt
  by_cases hzero : index = 0
  · subst hzero
    obtain rfl := h.first rfl
    have hone : place.total = 1 ↔ 0 + 1 = place.total.toNat := by
      rw [← UInt16.toNat_inj]
      exact eq_comm
    rw [heldAt_zero,advance_first,heldAt]
    by_cases htotal : place.total = 1
    · simp [htotal]
    · rw [if_neg htotal,if_neg (by rw [← hone]; simp [htotal])]
  · have hcount : place.total.toNat = index + 1 + (place.total.toNat - (index + 1)) := by omega
    have hlast := @isLast_frame codec place index _ nonce piece hcount
    rw [heldAt,if_neg (by omega),heldAt]
    simp only [advance,grow_partly]
    by_cases hend : index + 1 = place.total.toNat
    · rw [if_pos (hlast.mpr (by omega)),if_pos (.inr hend)]
    · rw [if_neg (by rw [hlast]; omega),if_neg (by omega)]

theorem sequent_framesFrom {nonces : Nonces} (ps : List (List UInt8))
    (hneeded : place.total.toNat = limits.needed place.messageLength.toNat)
    (ht : place.total.toNat = index + ps.length) (hfirst : index = 0 → done = [])
    (hlen : done.flatten.length + ps.flatten.length = place.messageLength.toNat) :
    Sequent limits (heldAt place index done) (codec.framesFrom nonces place index ps) := by
  induction ps generalizing index done with
  | nil => trivial
  | cons piece ps ih =>
    rw [List.length_cons] at ht
    rw [List.flatten_cons,List.length_append] at hlen
    have hcuts : Cuts place index done piece := by
      refine ⟨by omega,hfirst,by omega,fun hlast => ?_⟩
      have hnil : ps = [] := List.length_eq_zero_iff.mp (by omega)
      simpa [hnil] using hlen
    refine ⟨hcuts.follows hneeded,?_⟩
    rw [hcuts.advance_heldAt]
    refine ih (by omega) (fun h => absurd h (Nat.succ_ne_zero index)) ?_
    rw [List.flatten_cons,List.length_append]
    omega

theorem sequent_framesOf (hchunk : 1 ≤ codec.limits.chunkSize.toNat) (nonces : Nonces) (m : Message) :
    Sequent codec.limits none (codec.framesOf nonces m) ∧
      (track none (codec.framesOf nonces m)).1 = none := by
  cases ht : codec.limits.chunkCount m.payload.length with
  | error fault =>
    rw [Codec.framesOf,Codec.chunksOf,ht]
    exact ⟨trivial,rfl⟩
  | ok total =>
    have hlen := Limits.length_le_chunkCount hchunk ht
    have hword : (UInt32.ofNat m.payload.length).toNat = m.payload.length :=
      UInt32.toNat_ofNat_of_lt (Nat.lt_of_le_of_lt (Limits.length_le_wordMax ht) (by decide))
    have hneeded : total.toNat = codec.limits.needed (UInt32.ofNat m.payload.length).toNat := by
      rw [hword]
      exact Limits.toNat_chunkCount ht
    rw [framesOf_eq ht,track_frames codec nonces m total (Limits.one_le_chunkCount hchunk ht) hlen]
    refine ⟨?_,rfl⟩
    have h := @sequent_framesFrom codec codec.limits (Codec.firstPlace m total) 0 [] nonces
      (Codec.cut codec.limits.chunkSize.toNat m.payload total.toNat) hneeded
      (by rw [Codec.length_cut,Nat.zero_add]; rfl) (fun _ => rfl)
      (by rw [Codec.flatten_cut _ _ _ hlen]; simpa [Codec.firstPlace] using hword.symm)
    rwa [heldAt_zero] at h

end Reassembler
end Tether
