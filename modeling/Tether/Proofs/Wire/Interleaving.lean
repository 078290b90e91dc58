import Mathlib.Data.List.Infix
import Mathlib.Data.List.Perm.Subperm
import Tether.Proofs.Keyed
import Tether.Proofs.Wire.Sending

/-! Messages whose frames travel in between each other. Whatever the order is in which they are merged,
each message comes together at its own last frame, as long as no more of them are half received than
the limit allows and the capacity of the chunks is not lost to a word that wraps, or is too much for a word
that is checked. -/
namespace Tether

/-- Lists merged into one, each of them in its own order. -/
inductive Interleaving {α : Type} : List (List α) → List α → Prop
  | done {queues : List (List α)} : (∀ q ∈ queues, q = []) → Interleaving queues []
  | next {queues : List (List α)} (k : Nat) {a : α} {rest merged : List α} :
    queues[k]? = some (a :: rest) → Interleaving (queues.set k rest) merged →
    Interleaving queues (a :: merged)

namespace Interleaving

variable {α : Type} {queues : List (List α)} {merged : List α}

theorem single (q : List α) : Interleaving [q] q := by
  induction q with
  | nil => exact .done (by simp)
  | cons a q ih => exact .next 0 rfl ih

theorem exists_mem (h : Interleaving queues merged) {a : α} (ha : a ∈ merged) :
    ∃ q ∈ queues, a ∈ q := by
  induction h with
  | done _ => simp at ha
  | @next queues k b rest merged hk _ ih =>
    have hmem := List.mem_of_getElem? hk
    rcases List.mem_cons.mp ha with rfl | ha
    · exact ⟨_,hmem,List.mem_cons_self⟩
    · obtain ⟨q,hq,haq⟩ := ih ha
      rcases List.mem_or_eq_of_mem_set hq with hq | rfl
      · exact ⟨q,hq,haq⟩
      · exact ⟨_,hmem,List.mem_cons_of_mem b haq⟩

/-- A list whose members can be told from those of all others is found again. -/
theorem filter_eq (h : Interleaving queues merged) (p : α → Bool) {k : Nat} {q : List α}
    (hk : queues[k]? = some q) (hp : ∀ a ∈ q, p a = true)
    (hothers : ∀ j q', j ≠ k → queues[j]? = some q' → ∀ a ∈ q', p a = false) :
    merged.filter p = q := by
  induction h generalizing q with
  | done hempty => simp [hempty q (List.mem_of_getElem? hk)]
  | @next queues j a rest merged hj _ ih =>
    have hset : ∀ i q', i ≠ j → (queues.set j rest)[i]? = some q' → queues[i]? = some q' :=
      fun i q' hi hq' => by rwa [List.getElem?_set_ne (Ne.symm hi)] at hq'
    by_cases hjk : j = k
    · subst hjk
      obtain rfl := Option.some.inj (hk.symm.trans hj)
      have hrest : (queues.set j rest)[j]? = some rest :=
        List.getElem?_set_self (List.getElem?_eq_some_iff.mp hj).1
      rw [List.filter_cons_of_pos (hp a List.mem_cons_self),
        ih hrest (fun b hb => hp b (List.mem_cons_of_mem a hb))
          fun i q' hi hq' => hothers i q' hi (hset i q' hi hq')]
    · have ha : p a = false := hothers j _ hjk hj a List.mem_cons_self
      have hk' : (queues.set j rest)[k]? = some q := by rwa [List.getElem?_set_ne hjk]
      rw [List.filter_cons_of_neg (by simp [ha])]
      refine ih hk' hp fun i q' hi hq' => ?_
      by_cases hij : i = j
      · subst hij
        rw [List.getElem?_set_self (List.getElem?_eq_some_iff.mp hj).1,Option.some.injEq] at hq'
        subst hq'
        exact fun b hb => hothers i _ hi hj b (List.mem_cons_of_mem a hb)
      · exact hothers i q' hi (hset i q' hij hq')

end Interleaving

namespace Codec

/-- The frames that a message is sent in; none if it has no number of chunks. -/
def framesOf (codec : Codec) (nonces : Nonces) (m : Message) : List Frame :=
  (codec.chunksOf nonces m).map (Chunk.frame codec)

/-- How many messages of a batch have begun to arrive and are not whole yet. -/
def underway (codec : Codec) (batch : List (Nonces × Message)) (before : List Frame) : Nat :=
  batch.countP fun b =>
    let seen := before.countP (·.key == b.2.key)
    0 < seen && seen < (codec.framesOf b.1 b.2).length

/-- The frame is one of a message whose chunks could hold more bytes than a word can count. -/
def exceeding (codec : Codec) (batch : List (Nonces × Message)) (f : Frame) : Bool :=
  batch.any fun b => f.key == b.2.key &&
    decide (2^64 ≤ codec.limits.needed b.2.payload.length*codec.limits.framePayload.toNat)

theorem exceeding_iff {codec : Codec} {batch : List (Nonces × Message)} {f : Frame} :
    codec.exceeding batch f = true ↔ ∃ b ∈ batch, f.key = b.2.key ∧
      2^64 ≤ codec.limits.needed b.2.payload.length*codec.limits.framePayload.toNat := by
  simp only [exceeding,List.any_eq_true,Bool.and_eq_true,beq_iff_eq,decide_eq_true_eq]

theorem chunksFrom_eq_nil_iff {nonces : Nonces} {place : ChunkPlace} {index : Nat}
    {ps : List (List UInt8)} : chunksFrom nonces place index ps = [] ↔ ps = [] := by
  rw [← List.length_eq_zero_iff,length_chunksFrom,List.length_eq_zero_iff]

end Codec

/-- The capacity of a message's chunks, as a word of 64 bits, is below its length. -/
def Limits.Overflows (limits : Limits) (length : Nat) : Prop :=
  limits.needed length*limits.framePayload.toNat % 2^64 < length

instance (limits : Limits) (length : Nat) : Decidable (limits.Overflows length) :=
  inferInstanceAs (Decidable (_ < _))

theorem Limits.not_overflows {limits : Limits} (hchunk : 1 ≤ limits.chunkSize.toNat)
    (hframe : limits.chunkSize.toNat ≤ limits.framePayload.toNat) {length : Nat}
    (h : limits.needed length*limits.framePayload.toNat < 2^64) : ¬ limits.Overflows length := by
  rw [Overflows,Nat.mod_eq_of_lt h,Nat.not_lt]
  calc length ≤ limits.chunkSize.toNat*limits.needed length := limits.length_le_needed hchunk length
    _ ≤ limits.framePayload.toNat*limits.needed length := Nat.mul_le_mul_right _ hframe
    _ = limits.needed length*limits.framePayload.toNat := Nat.mul_comm ..

theorem Limits.capacity_lt_iff (limits : Limits) (total : UInt16) (length : UInt32) :
    total.toUInt64*limits.framePayload < length.toUInt64 ↔
      total.toNat*limits.framePayload.toNat % 2^64 < length.toNat := by
  rw [UInt64.lt_iff_toNat_lt,UInt64.toNat_mul,UInt16.toNat_toUInt64,UInt32.toNat_toUInt64]

namespace Reassembler

variable {codec : Codec} {nonces : Nonces} {place : ChunkPlace} {limits : Limits}

/-! ### What a reassembler holds after some frames -/

/-- Each key holds what its own frames have come to. -/
structure Seen (r : Reassembler) (before : List Frame) : Prop where
  nodup : (r.entries.map (·.1)).Nodup
  get : ∀ key, r.get? key = (track none (before.filter (·.key == key))).1

theorem seen_empty : Seen {} [] := ⟨List.nodup_nil,fun _ => rfl⟩

theorem nodup_erase {r : Reassembler} (h : (r.entries.map (·.1)).Nodup) (key : ChunkKey) :
    ((r.erase key).entries.map (·.1)).Nodup := h.sublist (List.filter_sublist.map _)

theorem nodup_put {r : Reassembler} (h : (r.entries.map (·.1)).Nodup) (key : ChunkKey)
    (held : Option Partial) : ((r.put key held).entries.map (·.1)).Nodup := by
  cases held with
  | none => exact nodup_erase h key
  | some p =>
    refine List.nodup_cons.mpr ⟨?_,nodup_erase h key⟩
    simp [erase]

theorem Seen.put {r : Reassembler} {before : List Frame} (h : Seen r before) (f : Frame) :
    Seen (r.put f.key (advance f (r.get? f.key)).1) (before ++ [f]) := by
  refine ⟨nodup_put h.nodup _ _,fun key => ?_⟩
  rw [get?_put,List.filter_append,track_append,← h.get key]
  by_cases hk : key = f.key
  · subst hk
    simp [track]
  · simp [hk,Ne.symm hk,track]

theorem Seen.run {r r' : Reassembler} {before fs : List Frame} {ms : List Message}
    (h : Seen r before) (hrun : run limits r fs = some (r',ms)) : Seen r' (before ++ fs) := by
  induction fs generalizing r before ms with
  | nil =>
    simp only [Reassembler.run,Option.some.injEq,Prod.mk.injEq] at hrun
    obtain ⟨rfl,rfl⟩ := hrun
    rwa [List.append_nil]
  | cons f fs ih =>
    obtain ⟨r₁,out,ms',hpush,hrest,-⟩ := (run_cons_eq_some_iff limits r r' f fs ms).mp hrun
    obtain ⟨-,-,rfl,-⟩ := (push_ok_iff limits r r₁ f out).mp hpush
    rw [List.append_cons]
    exact ih (h.put f) hrest

theorem permitted_of_run {r r' : Reassembler} {fs : List Frame} {ms : List Message}
    (hrun : run limits r fs = some (r',ms)) (key : ChunkKey) :
    Permitted limits (r.get? key) (fs.filter (·.key == key)) := by
  induction fs generalizing r ms with
  | nil => trivial
  | cons f fs ih =>
    obtain ⟨r₁,out,ms',hpush,hrest,-⟩ := (run_cons_eq_some_iff limits r r' f fs ms).mp hrun
    obtain ⟨hp,-,rfl,-⟩ := (push_ok_iff limits r r₁ f out).mp hpush
    have hlater := ih hrest
    by_cases hk : f.key = key
    · subst hk
      rw [get?_put_self] at hlater
      simpa [Permitted] using ⟨hp,hlater⟩
    · rw [get?_put_of_ne r (Ne.symm hk)] at hlater
      simpa [hk] using hlater

/-- Frames that their keys permit go through, if there is room whenever a message begins. -/
theorem exists_run {r : Reassembler} {before fs : List Frame} (h : Seen r before)
    (hp : ∀ key, Permitted limits (r.get? key) (fs.filter (·.key == key)))
    (hroom : ∀ mid f rest r', fs = mid ++ f :: rest → Seen r' (before ++ mid) →
      HasRoom limits r' f) : ∃ r' ms, run limits r fs = some (r',ms) := by
  induction fs generalizing r before with
  | nil => exact ⟨r,[],rfl⟩
  | cons f fs ih =>
    have hself : Permits limits f (r.get? f.key) := by
      have hf := hp f.key
      rw [List.filter_cons_of_pos (by simp)] at hf
      exact hf.1
    have hpush := (push_ok_iff limits r _ f _).mpr
      ⟨hself,hroom [] f fs r rfl (by rwa [List.append_nil]),rfl,rfl⟩
    obtain ⟨r',ms,hrun⟩ := ih (h.put f)
      (fun key => by
        have hk := hp key
        by_cases hkey : f.key = key
        · subst hkey
          rw [List.filter_cons_of_pos (by simp)] at hk
          rw [get?_put_self]
          exact hk.2
        · rw [List.filter_cons_of_neg (by simpa using hkey)] at hk
          rwa [get?_put_of_ne r (Ne.symm hkey)])
      (fun mid g rest r' hfs hseen => hroom (f :: mid) g rest r' (by rw [hfs]; rfl)
        (by rwa [List.append_cons]))
    exact ⟨r',_,(run_cons_eq_some_iff limits _ _ f fs _).mpr ⟨_,_,_,hpush,hrun,rfl⟩⟩

/-! ### The frames of one message -/

/-- The last frame is the one that no other follows. -/
theorem isLast_iff_of_framesFrom {index : Nat} {ps : List (List UInt8)} {pre suf : List Frame}
    {f : Frame} (ht : place.total.toNat = index + ps.length)
    (h : codec.framesFrom nonces place index ps = pre ++ f :: suf) :
    f.header.isLast = true ↔ suf = [] := by
  induction pre generalizing index ps with
  | nil =>
    cases ps with
    | nil => simp [Codec.framesFrom,Codec.chunksFrom] at h
    | cons piece ps =>
      simp only [Codec.framesFrom,Codec.chunksFrom,List.map_cons,List.nil_append,
        List.cons.injEq] at h
      obtain ⟨rfl,rfl⟩ := h
      have htotal : place.total.toNat = index + 1 + ps.length := by
        rw [ht,List.length_cons]
        omega
      rw [isLast_frame (nonces index) piece htotal,List.length_eq_zero_iff]
      simp [Codec.chunksFrom_eq_nil_iff]
  | cons g pre ih =>
    cases ps with
    | nil => simp [Codec.framesFrom,Codec.chunksFrom] at h
    | cons piece ps =>
      simp only [Codec.framesFrom,Codec.chunksFrom,List.map_cons,List.cons_append,
        List.cons.injEq] at h
      exact ih (by rw [ht,List.length_cons]; omega) h.2

theorem advance_of_not_isLast {f : Frame} (hindex : f.header.index < f.header.total)
    (h : f.header.isLast = false) (held : Option Partial) : (advance f held).2 = none := by
  cases held with
  | some p => simp [advance,h]
  | none =>
    have hone : f.header.total ≠ 1 := by
      intro ht
      rw [ht,UInt16.lt_iff_toNat_lt] at hindex
      have hzero : f.header.index = 0 := UInt16.toNat_inj.mp (Nat.lt_one_iff.mp hindex)
      simp [Header.isLast,ht,hzero] at h
    simp [advance,hone]

theorem track_of_not_isLast {fs : List Frame} (h : ∀ f ∈ fs, f.header.index < f.header.total ∧
    f.header.isLast = false) (held : Option Partial) : (track held fs).2 = [] := by
  induction fs generalizing held with
  | nil => rfl
  | cons f fs ih =>
    simp only [List.mem_cons,forall_eq_or_imp] at h
    simp [track,advance_of_not_isLast h.1.1 h.1.2,ih h.2]

variable {m : Message} {total : UInt16}

theorem framesOf_eq (h : codec.limits.chunkCount m.payload.length = .ok total) :
    codec.framesOf nonces m = codec.frames nonces m total := Codec.frames_chunksOf h

theorem index_lt_total_of_mem {f : Frame} (h : f ∈ codec.frames nonces m total) :
    f.header.index < f.header.total := by
  obtain ⟨c,hc,rfl⟩ := List.mem_map.mp h
  exact Codec.place_of_mem_chunks hc

theorem isLast_iff_of_frames {pre suf : List Frame} {f : Frame}
    (h : codec.frames nonces m total = pre ++ f :: suf) : f.header.isLast = true ↔ suf = [] := by
  have hcut := Codec.length_cut codec.limits.chunkSize.toNat m.payload total.toNat
  exact @isLast_iff_of_framesFrom codec nonces (Codec.firstPlace m total) 0 _ pre suf f
    (by rw [hcut,Nat.zero_add]; rfl) h

theorem advance_of_frames (hone : 1 ≤ total.toNat)
    (hlen : m.payload.length ≤ codec.limits.chunkSize.toNat*total.toNat) {pre suf : List Frame}
    {f : Frame} (h : codec.frames nonces m total = pre ++ f :: suf) :
    (advance f (track none pre).1).2 = if suf = [] then some m else none := by
  have hindex : ∀ g ∈ codec.frames nonces m total, g.header.index < g.header.total :=
    fun g => index_lt_total_of_mem
  by_cases hsuf : suf = []
  · subst hsuf
    have hpre : (track none pre).2 = [] := by
      refine track_of_not_isLast (fun g hg => ⟨hindex g (by simp [h,hg]),?_⟩) none
      obtain ⟨pre₁,pre₂,rfl⟩ := List.append_of_mem hg
      rw [List.append_assoc,List.cons_append] at h
      exact Bool.eq_false_iff.mpr fun hl => by simpa using (isLast_iff_of_frames h).mp hl
    have hwhole := track_frames codec nonces m total hone hlen
    rw [h,track_append,hpre] at hwhole
    have hout := congrArg Prod.snd hwhole
    simp only [track,List.append_nil,List.nil_append] at hout
    rw [if_pos rfl]
    exact Option.toList_eq_singleton_iff.mp hout
  · rw [if_neg hsuf]
    refine advance_of_not_isLast (hindex f (by simp [h])) (Bool.eq_false_iff.mpr fun hl => ?_) _
    exact hsuf ((isLast_iff_of_frames h).mp hl)

/-! ### The frames of many messages -/

theorem capacity_iff (h : codec.limits.chunkCount m.payload.length = .ok total) :
    total.toUInt64*codec.limits.framePayload < (UInt32.ofNat m.payload.length).toUInt64 ↔
      codec.limits.Overflows m.payload.length := by
  have hword : m.payload.length < 2^32 := Nat.lt_of_le_of_lt (Limits.length_le_wordMax h) (by decide)
  have hm : (UInt32.ofNat m.payload.length).toNat = m.payload.length := UInt32.toNat_ofNat_of_lt hword
  rw [Limits.capacity_lt_iff,hm,Limits.toNat_chunkCount h]
  rfl

theorem permitted_framesOf_iff (hchunk : 1 ≤ codec.limits.chunkSize.toNat)
    (hframe : codec.limits.chunkSize.toNat ≤ codec.limits.framePayload.toNat)
    (h : codec.limits.chunkCount m.payload.length = .ok total)
    (hsize : m.payload.length ≤ codec.limits.messageSize.toNat) :
    Permitted codec.limits none (codec.framesOf nonces m) ↔
      ¬ codec.limits.Overflows m.payload.length := by
  have hone := Limits.one_le_chunkCount hchunk h
  have hlen := Limits.length_le_chunkCount hchunk h
  have hm : (UInt32.ofNat m.payload.length).toNat = m.payload.length :=
    UInt32.toNat_ofNat_of_lt (Nat.lt_of_le_of_lt (Limits.length_le_wordMax h) (by decide))
  rw [framesOf_eq h,← capacity_iff h]
  constructor
  · intro hp
    by_cases htotal : total = 1
    · rw [capacity_iff h]
      refine Limits.not_overflows hchunk hframe ?_
      rw [← Limits.toNat_chunkCount h,htotal]
      have hlt := codec.limits.framePayload.toNat_lt
      simpa using hlt
    · obtain ⟨n,hn⟩ := Nat.exists_eq_add_of_le' hone
      rw [Codec.frames,Codec.chunks,hn,Codec.cut] at hp
      exact hp.1.2.capacity htotal
  · intro hcap
    refine permitted_framesFrom_zero codec.limits _ (Codec.length_cut ..).symm ?_ (hm.symm ▸ hsize) hcap
    rw [Codec.flatten_cut _ _ _ hlen]
    exact hm.symm

theorem header_of_mem_framesOf (h : codec.limits.chunkCount m.payload.length = .ok total) {f : Frame}
    (hf : f ∈ codec.framesOf nonces m) :
    f.header.total = total ∧ f.header.messageLength = UInt32.ofNat m.payload.length := by
  rw [framesOf_eq h] at hf
  obtain ⟨c,hc,rfl⟩ := List.mem_map.mp hf
  obtain ⟨i,piece,-,-,rfl⟩ := Codec.mem_chunks hc
  exact ⟨rfl,rfl⟩

theorem index_of_framesOf_cons (h : codec.limits.chunkCount m.payload.length = .ok total) {f : Frame}
    {fs : List Frame} (hfs : codec.framesOf nonces m = f :: fs) : f.header.index = 0 := by
  rw [framesOf_eq h,Codec.frames,Codec.chunks] at hfs
  cases hn : total.toNat with
  | zero => simp [hn,Codec.cut,Codec.chunksFrom] at hfs
  | succ n =>
    rw [hn,Codec.cut,Codec.chunksFrom,List.map_cons] at hfs
    obtain ⟨rfl,-⟩ := List.cons.inj hfs
    rfl

/-- Messages under different keys, each of a length that can be sent and is let in, and their frames in
some order. -/
structure Mingled (codec : Codec) (batch : List (Nonces × Message)) (fs : List Frame) : Prop where
  keys : (batch.map (·.2.key)).Nodup
  count : ∀ b ∈ batch, ∃ total, codec.limits.chunkCount b.2.payload.length = .ok total
  size : ∀ b ∈ batch, b.2.payload.length ≤ codec.limits.messageSize.toNat
  merge : Interleaving (batch.map fun b => codec.framesOf b.1 b.2) fs

namespace Mingled

variable {batch : List (Nonces × Message)} {fs : List Frame}

theorem key_of_mem_framesOf (h : Mingled codec batch fs) {b : Nonces × Message} (hb : b ∈ batch)
    {f : Frame} (hf : f ∈ codec.framesOf b.1 b.2) : f.key = b.2.key := by
  obtain ⟨total,ht⟩ := h.count b hb
  rw [framesOf_eq ht] at hf
  exact key_of_mem_frames hf

theorem exists_key (h : Mingled codec batch fs) {f : Frame} (hf : f ∈ fs) :
    ∃ b ∈ batch, f.key = b.2.key := by
  obtain ⟨q,hq,hmem⟩ := h.merge.exists_mem hf
  obtain ⟨b,hb,rfl⟩ := List.mem_map.mp hq
  exact ⟨b,hb,h.key_of_mem_framesOf hb hmem⟩

theorem filter_self (h : Mingled codec batch fs) {b : Nonces × Message} (hb : b ∈ batch) :
    fs.filter (·.key == b.2.key) = codec.framesOf b.1 b.2 := by
  obtain ⟨k,hk⟩ := List.getElem?_of_mem hb
  refine h.merge.filter_eq _ (k := k) (by simp [hk]) ?_ ?_
  · exact fun f hf => by simpa using h.key_of_mem_framesOf hb hf
  · intro j q hj hq f hf
    obtain ⟨b',hb',rfl⟩ := Option.map_eq_some_iff.mp (List.getElem?_map .. ▸ hq)
    have hkey := h.key_of_mem_framesOf (List.mem_of_getElem? hb') hf
    rw [beq_eq_false_iff_ne,hkey]
    intro he
    refine hj ((List.getElem?_inj ?_ h.keys).mp ?_)
    · rw [List.length_map]
      exact (List.getElem?_eq_some_iff.mp hb').1
    · simp [hb',hk,he]

theorem filter_other (h : Mingled codec batch fs) {key : ChunkKey}
    (hkey : ∀ b ∈ batch, b.2.key ≠ key) : fs.filter (·.key == key) = [] := by
  rw [List.filter_eq_nil_iff]
  intro f hf
  obtain ⟨b,hb,hf⟩ := h.exists_key hf
  simpa [hf] using hkey b hb

theorem exists_frame (h : Mingled codec batch fs) (hchunk : 1 ≤ codec.limits.chunkSize.toNat)
    {b : Nonces × Message} (hb : b ∈ batch) : ∃ f ∈ fs, f.key = b.2.key := by
  obtain ⟨total,ht⟩ := h.count b hb
  obtain ⟨c,hc,-⟩ := @Codec.exists_first_chunk codec b.1 b.2 total (Limits.one_le_chunkCount hchunk ht)
  have hmem : c.frame codec ∈ codec.framesOf b.1 b.2 := by
    rw [framesOf_eq ht]
    exact List.mem_map_of_mem hc
  have hkey := h.key_of_mem_framesOf hb hmem
  rw [← h.filter_self hb] at hmem
  exact ⟨_,(List.mem_filter.mp hmem).1,hkey⟩

/-- Whatever is half received is underway. -/
theorem inProgress_le (h : Mingled codec batch fs) (hchunk : 1 ≤ codec.limits.chunkSize.toNat)
    {before : List Frame} (hbefore : before <+: fs) {r : Reassembler} (hr : Seen r before) :
    r.inProgress ≤ codec.underway batch before := by
  let p : Nonces × Message → Bool := fun b =>
    let seen := before.countP (·.key == b.2.key)
    0 < seen && seen < (codec.framesOf b.1 b.2).length
  -- an entry has a frame behind it, but not all of its message's, which would have emptied it
  have hsub : r.entries.map (·.1) ⊆ (batch.filter p).map (·.2.key) := by
    intro key hkey
    obtain ⟨e,he,rfl⟩ := List.mem_map.mp hkey
    obtain ⟨q,hq⟩ : ∃ q, r.get? e.1 = some q := by
      rw [get?,← Option.isSome_iff_exists,List.lookup_isSome_iff]
      exact ⟨e,he,by simp⟩
    have htrack := (hr.get e.1).symm.trans hq
    have hne : before.filter (·.key == e.1) ≠ [] := by
      intro hnil
      rw [hnil] at htrack
      simp [track] at htrack
    obtain ⟨f,hf⟩ := List.exists_mem_of_ne_nil _ hne
    obtain ⟨hmem,hfe⟩ := List.mem_filter.mp hf
    obtain ⟨b,hb,hfb⟩ := h.exists_key (hbefore.subset hmem)
    have hkey : b.2.key = e.1 := hfb.symm.trans (by simpa using hfe)
    have hkept := hbefore.filter (·.key == b.2.key)
    rw [h.filter_self hb] at hkept
    rw [← hkey] at htrack hne
    refine List.mem_map.mpr ⟨b,List.mem_filter.mpr ⟨hb,?_⟩,hkey⟩
    have hpos := List.length_pos_iff.mpr hne
    have hlt : (before.filter (·.key == b.2.key)).length < (codec.framesOf b.1 b.2).length := by
      refine Nat.lt_of_le_of_ne hkept.length_le fun he => ?_
      obtain ⟨total,ht⟩ := h.count b hb
      rw [hkept.eq_of_length he,framesOf_eq ht,track_frames codec b.1 b.2 total
        (Limits.one_le_chunkCount hchunk ht) (Limits.length_le_chunkCount hchunk ht)] at htrack
      simp at htrack
    rw [← List.countP_eq_length_filter] at hpos hlt
    simp only [p,Bool.and_eq_true,decide_eq_true_eq]
    exact ⟨hpos,hlt⟩
  have hle := (hr.nodup.subperm hsub).length_le
  rw [List.length_map,List.length_map,← List.countP_eq_length_filter] at hle
  exact hle

theorem hasRoom (h : Mingled codec batch fs) (hchunk : 1 ≤ codec.limits.chunkSize.toNat)
    {before after : List Frame} {f : Frame} (hfs : fs = before ++ f :: after)
    (hbound : codec.underway batch (before ++ [f]) ≤ codec.limits.partialMessages.toNat)
    {r : Reassembler} (hr : Seen r before) : HasRoom codec.limits r f := by
  intro hnone htotal
  have hfirst : before ++ [f] <+: fs := ⟨after,by rw [hfs,List.append_assoc,List.singleton_append]⟩
  have hnext := h.inProgress_le hchunk hfirst (hr.put f)
  have hgrown : (r.put f.key (advance f (r.get? f.key)).1).inProgress = r.inProgress + 1 := by
    simp [hnone,advance,htotal,put,insert,inProgress,erase_of_get?_none hnone]
  omega

theorem filter_messages (h : Mingled codec batch fs) {b : Nonces × Message} (hb : b ∈ batch) :
    (batch.map (·.2)).filter (·.key == b.2.key) = [b.2] := by
  have hnodup : ((batch.map (·.2)).map Message.key).Nodup := by
    rw [List.map_map]
    exact h.keys
  exact filter_key_of_mem Message.key hnodup (List.mem_map_of_mem (f := (·.2)) hb)

theorem track_all (h : Mingled codec batch fs) (hchunk : 1 ≤ codec.limits.chunkSize.toNat)
    (key : ChunkKey) : track none (fs.filter (·.key == key)) =
      (none,(batch.map (·.2)).filter (·.key == key)) := by
  by_cases hkey : ∃ b ∈ batch, b.2.key = key
  · obtain ⟨b,hb,rfl⟩ := hkey
    obtain ⟨total,ht⟩ := h.count b hb
    rw [h.filter_messages hb,h.filter_self hb,framesOf_eq ht,track_frames codec b.1 b.2 total
      (Limits.one_le_chunkCount hchunk ht) (Limits.length_le_chunkCount hchunk ht)]
  · have hother : ∀ b ∈ batch, b.2.key ≠ key := fun b hb he => hkey ⟨b,hb,he⟩
    have hnil : (batch.map (·.2)).filter (·.key == key) = [] := by
      rw [List.filter_eq_nil_iff]
      intro m hm
      obtain ⟨b,hb,rfl⟩ := List.mem_map.mp hm
      simpa using hother b hb
    rw [h.filter_other hother,hnil,track]

theorem permitted_iff (h : Mingled codec batch fs) (hchunk : 1 ≤ codec.limits.chunkSize.toNat)
    (hframe : codec.limits.chunkSize.toNat ≤ codec.limits.framePayload.toNat) {b : Nonces × Message}
    (hb : b ∈ batch) : Permitted codec.limits none (fs.filter (·.key == b.2.key)) ↔
      ¬ codec.limits.Overflows b.2.payload.length := by
  obtain ⟨total,ht⟩ := h.count b hb
  rw [h.filter_self hb,permitted_framesOf_iff hchunk hframe ht (h.size b hb)]

theorem exists_run_of_prefix (h : Mingled codec batch fs) (hchunk : 1 ≤ codec.limits.chunkSize.toNat)
    (hframe : codec.limits.chunkSize.toNat ≤ codec.limits.framePayload.toNat)
    (hbound : ∀ before, before <+: fs →
      codec.underway batch before ≤ codec.limits.partialMessages.toNat) {before : List Frame}
    (hbefore : before <+: fs) (hfits : ∀ b ∈ batch, (∃ f ∈ before, f.key = b.2.key) →
      ¬ codec.limits.Overflows b.2.payload.length) :
    ∃ r ms, run codec.limits {} before = some (r,ms) := by
  obtain ⟨after,rfl⟩ := hbefore
  refine exists_run seen_empty (fun key => ?_) fun mid f rest r' hmid hr => ?_
  · by_cases hseen : ∃ f ∈ before, f.key = key
    · obtain ⟨f,hf,rfl⟩ := hseen
      obtain ⟨b,hb,hkey⟩ := h.exists_key (List.mem_append_left after hf)
      have hp := (h.permitted_iff hchunk hframe hb).mpr (hfits b hb ⟨f,hf,hkey⟩)
      rw [List.filter_append,permitted_append,← hkey] at hp
      exact hp.1
    · rw [List.filter_eq_nil_iff.mpr fun f hf hkey => hseen ⟨f,hf,by simpa using hkey⟩]
      trivial
  · have hfs : before ++ after = mid ++ f :: (rest ++ after) := by rw [hmid]; simp
    exact h.hasRoom hchunk hfs (hbound _ ⟨rest ++ after,by rw [hfs]; simp⟩) hr

theorem exists_run_iff (h : Mingled codec batch fs) (hchunk : 1 ≤ codec.limits.chunkSize.toNat)
    (hframe : codec.limits.chunkSize.toNat ≤ codec.limits.framePayload.toNat)
    (hbound : ∀ before, before <+: fs →
      codec.underway batch before ≤ codec.limits.partialMessages.toNat) :
    (∃ r ms, run codec.limits {} fs = some (r,ms)) ↔
      ∀ b ∈ batch, ¬ codec.limits.Overflows b.2.payload.length := by
  constructor
  · rintro ⟨r,ms,hrun⟩ b hb
    exact (h.permitted_iff hchunk hframe hb).mp (permitted_of_run hrun b.2.key)
  · exact fun hfits => h.exists_run_of_prefix hchunk hframe hbound (List.prefix_refl fs)
      fun b hb _ => hfits b hb

theorem capacity_eq (h : Mingled codec batch fs) {b : Nonces × Message} (hb : b ∈ batch) {f : Frame}
    (hf : f ∈ fs) (hkey : f.key = b.2.key) :
    f.header.total.toNat = codec.limits.needed b.2.payload.length ∧
      f.header.messageLength.toNat = b.2.payload.length := by
  obtain ⟨total,ht⟩ := h.count b hb
  have hmem : f ∈ codec.framesOf b.1 b.2 := by
    rw [← h.filter_self hb]
    exact List.mem_filter.mpr ⟨hf,by simpa using hkey⟩
  obtain ⟨rfl,hlength⟩ := header_of_mem_framesOf ht hmem
  refine ⟨Limits.toNat_chunkCount ht,?_⟩
  rw [hlength]
  exact UInt32.toNat_ofNat_of_lt (Nat.lt_of_le_of_lt (Limits.length_le_wordMax ht) (by decide))

theorem outgrows (h : Mingled codec batch fs) {b : Nonces × Message} (hb : b ∈ batch)
    (hcap : 2^64 ≤ codec.limits.needed b.2.payload.length*codec.limits.framePayload.toNat)
    {before after : List Frame} {f : Frame} (hfs : fs = before ++ f :: after)
    (hkey : f.key = b.2.key) (hfirst : ∀ g ∈ before, g.key ≠ b.2.key) {r : Reassembler}
    (hr : Seen r before) : Outgrows codec.limits r f := by
  obtain ⟨total,ht⟩ := h.count b hb
  obtain ⟨htotal,hlength⟩ := h.capacity_eq hb (f := f) (by simp [hfs]) hkey
  have hnil : before.filter (·.key == b.2.key) = [] :=
    List.filter_eq_nil_iff.mpr fun g hg hgk => hfirst g hg (by simpa using hgk)
  have hframes : codec.framesOf b.1 b.2 = f :: after.filter (·.key == b.2.key) := by
    rw [← h.filter_self hb,hfs,List.filter_append,hnil,List.nil_append,
      List.filter_cons_of_pos (by simpa using hkey)]
  refine ⟨hlength ▸ h.size b hb,index_of_framesOf_cons ht hframes,?_,fun hone => ?_,htotal ▸ hcap⟩
  · rw [hr.get,hkey,hnil]
    rfl
  · rw [← htotal,hone] at hcap
    have hword := codec.limits.framePayload.toNat_lt
    simp only [UInt16.toNat_one,Nat.one_mul] at hcap
    omega

/-- With checked capacities nothing changes, unless the chunks of some message could hold more than a word:
the first frame of the first such message stops the program. -/
theorem runChecked_eq (h : Mingled codec batch fs) (hchunk : 1 ≤ codec.limits.chunkSize.toNat)
    (hframe : codec.limits.chunkSize.toNat ≤ codec.limits.framePayload.toNat)
    (hbound : ∀ before, before <+: fs →
      codec.underway batch before ≤ codec.limits.partialMessages.toNat) :
    runChecked codec.limits {} fs =
      if ∀ b ∈ batch, codec.limits.needed b.2.payload.length*codec.limits.framePayload.toNat < 2^64 then
        .ok (run codec.limits {} fs)
      else .error .overflow := by
  split
  · rename_i hfits
    refine runChecked_eq_ok fun before f after r₁ ms hfs _ hf => ?_
    obtain ⟨b,hb,hkey⟩ := h.exists_key (f := f) (by simp [hfs])
    have hcap := hf.capacity
    rw [(h.capacity_eq hb (f := f) (by simp [hfs]) hkey).1] at hcap
    exact absurd (hfits b hb) (Nat.not_lt.mpr hcap)
  · rename_i hexceeds
    simp only [not_forall,Nat.not_lt] at hexceeds
    obtain ⟨b₀,hb₀,hcap₀⟩ := hexceeds
    obtain ⟨f₀,hf₀,hkey₀⟩ := h.exists_frame hchunk hb₀
    have hsome : (fs.find? (codec.exceeding batch)).isSome :=
      List.find?_isSome.mpr ⟨f₀,hf₀,Codec.exceeding_iff.mpr ⟨b₀,hb₀,hkey₀,hcap₀⟩⟩
    obtain ⟨f,hf⟩ := Option.isSome_iff_exists.mp hsome
    obtain ⟨hself,before,after,hfs,hnone⟩ := List.find?_eq_some_iff_append.mp hf
    obtain ⟨b,hb,hkey,hcap⟩ := Codec.exceeding_iff.mp hself
    have hfirst : ∀ g ∈ before, ∀ b ∈ batch, g.key = b.2.key →
        codec.limits.needed b.2.payload.length*codec.limits.framePayload.toNat < 2^64 :=
      fun g hg b hb hkey => Nat.not_le.mp fun hcap =>
        absurd (Codec.exceeding_iff.mpr ⟨b,hb,hkey,hcap⟩) (by simpa using hnone g hg)
    -- all that comes before belongs to messages whose capacity is told exactly
    obtain ⟨r,ms,hrun⟩ := h.exists_run_of_prefix hchunk hframe hbound ⟨_,hfs.symm⟩
      fun b hb ⟨g,hg,hkey⟩ => Limits.not_overflows hchunk hframe (hfirst g hg b hb hkey)
    rw [hfs]
    exact runChecked_eq_error hrun (h.outgrows hb hcap hfs hkey
      (fun g hg hkey => absurd (hfirst g hg b hb hkey) (Nat.not_lt.mpr hcap)) (seen_empty.run hrun))

/-- What a frame leads to, if all go through: the message under its key, if it is the last one there. -/
theorem push_of_run (h : Mingled codec batch fs) (hchunk : 1 ≤ codec.limits.chunkSize.toNat)
    {r : Reassembler} {ms : List Message} (hrun : run codec.limits {} fs = some (r,ms))
    {before after : List Frame} {f : Frame} (hfs : fs = before ++ f :: after) :
    ∃ r₁ ms₁ r₂, run codec.limits {} before = some (r₁,ms₁) ∧ r₁.push codec.limits f =
      (r₂,.ok (if after.any (·.key == f.key) then none
        else (batch.map (·.2)).find? (·.key == f.key))) := by
  obtain ⟨r₁,ms₁,ms₂,hbefore,hrest,-⟩ := (run_append_eq_some_iff codec.limits _ _ _ _ _).mp (hfs ▸ hrun)
  obtain ⟨r₂,out,ms₃,hpush,-,-⟩ := (run_cons_eq_some_iff codec.limits _ _ f after _).mp hrest
  refine ⟨r₁,ms₁,r₂,hbefore,?_⟩
  obtain ⟨-,-,-,hout⟩ := (push_ok_iff codec.limits r₁ r₂ f out).mp hpush
  obtain ⟨b,hb,hkey⟩ := h.exists_key (f := f) (by simp [hfs])
  obtain ⟨total,ht⟩ := h.count b hb
  have hframes : codec.frames b.1 b.2 total =
      before.filter (·.key == f.key) ++ f :: after.filter (·.key == f.key) := by
    rw [← framesOf_eq ht,← h.filter_self hb,hfs,← hkey]
    simp
  have hlast := advance_of_frames (Limits.one_le_chunkCount hchunk ht)
    (Limits.length_le_chunkCount hchunk ht) hframes
  have hheld := (seen_empty.run hbefore).get f.key
  rw [List.nil_append] at hheld
  rw [← hheld,← hout] at hlast
  have hfind : (batch.map (·.2)).find? (·.key == f.key) = some b.2 := by
    rw [hkey,← List.head?_filter,h.filter_messages hb]
    rfl
  rw [hpush,hlast,hfind]
  by_cases hany : after.any (·.key == f.key)
  · obtain ⟨g,hg,hgf⟩ := List.any_eq_true.mp hany
    rw [if_pos hany,if_neg fun hnil => List.filter_eq_nil_iff.mp hnil g hg hgf]
  · rw [if_neg hany,if_pos (List.filter_eq_nil_iff.mpr fun g hg hgf =>
      hany (List.any_eq_true.mpr ⟨g,hg,hgf⟩))]

theorem eq_of_run (h : Mingled codec batch fs) (hchunk : 1 ≤ codec.limits.chunkSize.toNat)
    {r : Reassembler} {ms : List Message} (hrun : run codec.limits {} fs = some (r,ms)) :
    r.inProgress = 0 ∧ ms.Perm (batch.map (·.2)) := by
  have hall := fun key => (track_of_run codec.limits hrun key).symm.trans (h.track_all hchunk key)
  constructor
  · rw [inProgress,List.length_eq_zero_iff,List.eq_nil_iff_forall_not_mem]
    intro e he
    have hnone : r.get? e.1 = none := congrArg Prod.fst (hall e.1)
    rw [get?,List.lookup_eq_none_iff] at hnone
    simpa using hnone e he
  · exact perm_of_filter_key Message.key fun key => congrArg Prod.snd (hall key)

end Mingled

/-- Frames of many messages in any order that keeps those of each message apart: all of them are taken
in if and only if no capacity wraps, and then each message comes out once, unchanged, at its last frame
and not before. The capacity of a message wraps only if its chunks could hold 2^64 bytes or more. Where
capacities are checked, one such message stops the program, and without one there is no difference. -/
theorem run_isSome_iff_of_interleaving (codec : Codec) (hchunk : 1 ≤ codec.limits.chunkSize.toNat)
    (hframe : codec.limits.chunkSize.toNat ≤ codec.limits.framePayload.toNat)
    (batch : List (Nonces × Message)) (hkeys : (batch.map (·.2.key)).Nodup)
    (hcount : ∀ b ∈ batch, ∃ total, codec.limits.chunkCount b.2.payload.length = .ok total)
    (hsize : ∀ b ∈ batch, b.2.payload.length ≤ codec.limits.messageSize.toNat) (fs : List Frame)
    (hmerge : Interleaving (batch.map fun b => codec.framesOf b.1 b.2) fs)
    (hbound : ∀ before, before <+: fs →
      codec.underway batch before ≤ codec.limits.partialMessages.toNat) :
    ((run codec.limits {} fs).isSome ↔ ∀ b ∈ batch, ¬ codec.limits.Overflows b.2.payload.length) ∧
    (∀ length, codec.limits.needed length*codec.limits.framePayload.toNat < 2^64 →
      ¬ codec.limits.Overflows length) ∧
    (runChecked codec.limits {} fs =
      if ∀ b ∈ batch, codec.limits.needed b.2.payload.length*codec.limits.framePayload.toNat < 2^64 then
        .ok (run codec.limits {} fs)
      else .error .overflow) ∧
    ∀ r ms, run codec.limits {} fs = some (r,ms) →
      r.inProgress = 0 ∧ ms.Perm (batch.map (·.2)) ∧
      ∀ before f after, fs = before ++ f :: after →
        ∃ r₁ ms₁ r₂, run codec.limits {} before = some (r₁,ms₁) ∧ r₁.push codec.limits f =
          (r₂,.ok (if after.any (·.key == f.key) then none
            else (batch.map (·.2)).find? (·.key == f.key))) := by
  have h : Mingled codec batch fs := ⟨hkeys,hcount,hsize,hmerge⟩
  refine ⟨?_,fun length => Limits.not_overflows hchunk hframe,h.runChecked_eq hchunk hframe hbound,
    fun r ms hrun => ?_⟩
  · rw [← h.exists_run_iff hchunk hframe hbound,Option.isSome_iff_exists]
    exact ⟨fun ⟨⟨r,ms⟩,hrun⟩ => ⟨r,ms,hrun⟩,fun ⟨r,ms,hrun⟩ => ⟨(r,ms),hrun⟩⟩
  · obtain ⟨hempty,hperm⟩ := h.eq_of_run hchunk hrun
    exact ⟨hempty,hperm,fun before f after hfs => h.push_of_run hchunk hrun hfs⟩

/-- Two requests in several chunks and a response under the counter of one of them. -/
theorem run_isSome_iff_of_interleaving_three :
    let codec : Codec := ⟨{ chunkSize := 2, framePayload := 2, partialMessages := 2 },none⟩
    let nonces : Nonces := fun _ => []
    let batch : List (Nonces × Message) :=
      [(nonces,⟨1,.echo,false,[1,2,3]⟩),(nonces,⟨1,.ok,true,[]⟩),(nonces,⟨2,.file,false,[4,5,6,7,8]⟩)]
    let asked (index : UInt16) (piece : List UInt8) : Frame :=
      Chunk.frame codec ⟨⟨1,.echo,false,index,2,3⟩,[],piece⟩
    let reply : Frame := Chunk.frame codec ⟨⟨1,.ok,true,0,1,0⟩,[],[]⟩
    let filed (index : UInt16) (piece : List UInt8) : Frame :=
      Chunk.frame codec ⟨⟨2,.file,false,index,3,5⟩,[],piece⟩
    let fs := [asked 0 [1,2],filed 0 [4,5],reply,filed 1 [6,7],asked 1 [3],filed 2 [8]]
    ∃ r ms, run codec.limits {} fs = some (r,ms) ∧ r.inProgress = 0 ∧ ms.Perm (batch.map (·.2)) ∧
      runChecked codec.limits {} fs = .ok (some (r,ms)) := by
  intro codec nonces batch asked reply filed fs
  have hqueues : batch.map (fun b => codec.framesOf b.1 b.2) =
      [[asked 0 [1,2],asked 1 [3]],[reply],[filed 0 [4,5],filed 1 [6,7],filed 2 [8]]] := by decide
  have hmerge : Interleaving (batch.map fun b => codec.framesOf b.1 b.2) fs := by
    rw [hqueues]
    exact .next 0 rfl (.next 2 rfl (.next 1 rfl (.next 2 rfl (.next 0 rfl (.next 2 rfl
      (.done (by simp)))))))
  obtain ⟨hiff,hfits,hchecked,hrun⟩ := run_isSome_iff_of_interleaving codec (by decide) (by decide) batch
    (by decide)
    (by
      intro b hb
      simp only [batch,List.mem_cons,List.not_mem_nil,or_false] at hb
      rcases hb with rfl | rfl | rfl
      · exact ⟨2,(Limits.chunkCount_eq_ok_iff ..).mpr ⟨by decide,by decide,by decide⟩⟩
      · exact ⟨1,(Limits.chunkCount_eq_ok_iff ..).mpr ⟨by decide,by decide,by decide⟩⟩
      · exact ⟨3,(Limits.chunkCount_eq_ok_iff ..).mpr ⟨by decide,by decide,by decide⟩⟩)
    (by decide) fs hmerge
    (by
      intro before hbefore
      rw [← List.mem_inits] at hbefore
      revert before
      decide)
  obtain ⟨⟨r,ms⟩,hsome⟩ := Option.isSome_iff_exists.mp (hiff.mpr (by decide))
  obtain ⟨hempty,hperm,-⟩ := hrun r ms hsome
  rw [if_pos (by decide),hsome] at hchecked
  exact ⟨r,ms,hsome,hempty,hperm,hchecked⟩

/-- Four chunks of up to 2^62 bytes: their capacity is more than a word can hold. With checks a message of
four bytes, alone as it is, stops the program; without them the capacity wraps to nothing, and the message
is refused at its first frame. -/
theorem refused_of_wrapped_capacity :
    let codec : Codec := ⟨{ chunkSize := 1, framePayload := 4611686018427387904 },none⟩
    let nonces : Nonces := fun _ => []
    let m : Message := ⟨1,.echo,false,[1,2,3,4]⟩
    let fs := codec.framesOf nonces m
    codec.limits.chunkSize ≤ codec.limits.framePayload ∧
      codec.limits.chunkCount m.payload.length = .ok 4 ∧
      m.payload.length ≤ codec.limits.messageSize.toNat ∧ Interleaving [fs] fs ∧
      (∀ before, before <+: fs → codec.underway [(nonces,m)] before ≤ codec.limits.partialMessages.toNat) ∧
      runChecked codec.limits {} fs = .error .overflow ∧
      run codec.limits {} fs = none ∧
      fs.head?.map (fun f => (push codec.limits {} f).2) = some (.error (.capacity 1 4 4)) := by
  intro codec nonces m fs
  exact ⟨by decide,by decide,by decide,.single fs,fun _ _ => List.countP_le_length.trans (by decide),
    by decide,by decide,by decide⟩

end Reassembler
end Tether
