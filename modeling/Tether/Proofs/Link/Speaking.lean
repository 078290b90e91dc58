import Tether.Proofs.Link.Duplex
import Tether.Proofs.Wire.Succession

/-! What one end says, key by key. A call or a reply is put on the stream whole, and an upload chunk by
chunk, with what is left of the file always as long as the chunks to come can hold; so each chunk on the
stream is the next one under its key, however the tasks take turns and wherever an upload stops. -/
namespace Tether

open Reassembler

theorem Session.exists_ticketAt (first counter : UInt32) :
    ∃ i < 2^32, (ticketAt first i).counter = counter := by
  refine ⟨(counter - first).toNat,UInt32.toNat_lt _,?_⟩
  rw [ticketAt,UInt32.ofNat_toNat,UInt32.add_comm,UInt32.sub_add_cancel]

namespace Upload

variable {codec : Codec} {u : Upload} {said : List Chunk}

/-- How far an upload is, in view of what stands on the stream under its counter. -/
structure Streamed (codec : Codec) (u : Upload) (said : List Chunk) : Prop where
  fresh : u.index = 0 → said = []
  sequent : Sequent codec.limits none (said.map (Chunk.frame codec))
  needed : u.total.toNat = codec.limits.needed u.messageLength.toNat
  room : u.staged.length + u.remaining ≤ codec.limits.chunkSize.toNat*(u.total.toNat - u.index)
  held : ∃ done, (track none (said.map (Chunk.frame codec))).1 = heldAt u.place u.index done ∧
    (u.index = 0 → done = []) ∧
      done.flatten.length + u.staged.length + u.remaining = u.messageLength.toNat

theorem measure_eq_ok_iff {limits : Limits} {name : String} {size length : Nat} {total : UInt16} :
    measure limits name size = .ok (length,total) ↔
      length = 2 + name.utf8ByteSize + size ∧ limits.chunkCount length = .ok total := by
  unfold measure
  simp only
  constructor
  · intro h
    split at h
    · simp at h
    · cases hc : limits.chunkCount (2 + name.utf8ByteSize + size) with
      | error e => simp [hc,Except.map] at h
      | ok count =>
        simp only [hc,Except.map,Except.ok.injEq,Prod.mk.injEq] at h
        obtain ⟨rfl,rfl⟩ := h
        exact ⟨rfl,hc⟩
  · rintro ⟨rfl,hc⟩
    rw [if_neg (Nat.not_lt.mpr (Limits.length_le_wordMax hc)),hc]
    rfl

theorem streamed_start (hchunk : 1 ≤ codec.limits.chunkSize.toNat) {path name : String}
    {size length : Nat} {total : UInt16} (ticket : Ticket)
    (h : measure codec.limits name size = .ok (length,total)) :
    (start path name ticket length total size).Streamed codec [] := by
  obtain ⟨hlength,hc⟩ := measure_eq_ok_iff.mp h
  have hword : (UInt32.ofNat length).toNat = length :=
    UInt32.toNat_ofNat_of_lt (Nat.lt_of_le_of_lt (Limits.length_le_wordMax hc) (by decide))
  have hsum : (FileBody.head name).length + size = length := by rw [FileBody.length_head,hlength]
  refine ⟨fun _ => rfl,trivial,?_,?_,[],?_,fun _ => rfl,?_⟩
  · simp only [start,hword]
    exact Limits.toNat_chunkCount hc
  · simp only [start,hsum,Nat.sub_zero]
    exact Limits.length_le_chunkCount hchunk hc
  · exact (heldAt_zero _ _).symm
  · simp only [start,hword,List.flatten_nil,List.length_nil,Nat.zero_add,hsum]

theorem Streamed.gain (h : u.Streamed codec said) {chunkSize most : Nat} {bytes : List UInt8}
    (hneed : u.need chunkSize = .read most) (hle : bytes.length ≤ most) :
    (u.gain bytes).Streamed codec said := by
  obtain ⟨-,-,hmost⟩ := need_eq_read_iff.mp hneed
  obtain ⟨done,htrack,hfirst,hlen⟩ := h.held
  have hroom := h.room
  refine ⟨h.fresh,h.sequent,h.needed,?_,done,htrack,hfirst,?_⟩
  · simp only [Upload.gain,List.length_append]
    omega
  · simp only [Upload.gain,List.length_append]
    omega

theorem Streamed.cuts (h : u.Streamed codec said) {place : ChunkPlace} {piece : List UInt8}
    (hneed : u.need codec.limits.chunkSize.toNat = .write place piece) {done : List (List UInt8)}
    (hfirst : u.index = 0 → done = [])
    (hlen : done.flatten.length + u.staged.length + u.remaining = u.messageLength.toNat) :
    Cuts u.place u.index done piece := by
  obtain ⟨hlt,hfull,-,rfl⟩ := need_eq_write_iff.mp hneed
  have hroom := h.room
  refine ⟨hlt,hfirst,?_,fun hlast => ?_⟩
  · change _ ≤ u.messageLength.toNat
    rw [List.length_take]
    omega
  · have hone : u.total.toNat - u.index = 1 := by
      change u.index + 1 = u.total.toNat at hlast
      omega
    rw [hone,Nat.mul_one] at hroom
    change _ = u.messageLength.toNat
    rw [List.length_take]
    omega

theorem Streamed.chunk (h : u.Streamed codec said) {place : ChunkPlace} {piece : List UInt8}
    (hneed : u.need codec.limits.chunkSize.toNat = .write place piece) (nonce : List UInt8) :
    (u.advance codec.limits.chunkSize.toNat).Streamed codec (said ++ [⟨place,nonce,piece⟩]) := by
  obtain ⟨done,htrack,hfirst,hlen⟩ := h.held
  have hcuts := h.cuts hneed hfirst hlen
  obtain ⟨hlt,hfull,rfl,rfl⟩ := need_eq_write_iff.mp hneed
  have hroom := h.room
  have hbegun : u.index + 1 ≠ 0 := Nat.succ_ne_zero u.index
  refine ⟨fun h => absurd h hbegun,?_,h.needed,?_,u.staged.take codec.limits.chunkSize.toNat :: done,?_,
    fun h => absurd h hbegun,?_⟩
  · rw [List.map_append,sequent_append,htrack]
    exact ⟨h.sequent,hcuts.follows h.needed,trivial⟩
  · obtain ⟨k,hk⟩ : ∃ k, u.total.toNat - u.index = k + 1 := ⟨u.total.toNat - u.index - 1,by omega⟩
    rw [hk,Nat.mul_succ] at hroom
    have hrest : u.total.toNat - (u.index + 1) = k := by omega
    simp only [Upload.advance,List.length_drop,hrest]
    omega
  · rw [List.map_append,track_append,htrack]
    exact hcuts.advance_heldAt
  · simp only [Upload.advance,List.flatten_cons,List.length_append,List.length_take,List.length_drop]
    omega

end Upload

/-- What stands on the stream under the counter of an upload. One that has stopped says no more. -/
def Errand.Spoken (codec : Codec) (said : List Chunk) : Errand → Prop
  | .call .. => True
  | .upload u .streaming => u.Streamed codec said
  | .upload .. => Sequent codec.limits none (said.map (Chunk.frame codec))

namespace Endpoint

variable {codec : Codec} {move : Move} {first : UInt32} {e e' : Endpoint}

/-- Whatever is said is said in sequence. -/
structure Speaking (codec : Codec) (e : Endpoint) : Prop where
  replies : ∀ counter, Sequent codec.limits none ((e.said (counter,true)).map (Chunk.frame codec)) ∧
    (track none ((e.said (counter,true)).map (Chunk.frame codec))).1 = none
  uploads : ∀ (i : Nat) (x : Errand), e.errands[i]? = some x →
    x.Spoken codec (e.said (x.ticket.counter,false))

theorem speaking_establish (codec : Codec) (name : String) (role : Role) (peerAddr : String)
    (counter : UInt32) : (establish name role peerAddr counter).Speaking codec :=
  ⟨fun _ => ⟨trivial,rfl⟩,fun i x hx => by simp [establish] at hx⟩

theorem Advance.spoken {x y : Errand} {chunks said : List Chunk} (h : Advance codec e x y chunks)
    (hx : x.Spoken codec said) : y.Spoken codec (said ++ chunks) := by
  cases h with
  | chunk u u' stage place nonce piece hneed hu =>
    have hnext := Upload.Streamed.chunk hx hneed nonce
    rcases hu with ⟨error,rfl,rfl⟩ | ⟨rfl,rfl⟩
    · exact hnext.sequent
    · exact hnext
  | gain u most bytes hneed hle =>
    rw [List.append_nil]
    exact Upload.Streamed.gain hx hneed hle
  | conclude u stage =>
    rw [List.append_nil]
    cases stage with
    | streaming => exact hx
    | _ => exact Upload.Streamed.sequent hx
  | _ => trivial

theorem Step.asks_sendable (h : Step codec move e e') : ∃ chunks, e'.sent = e.sent ++ chunks ∧
    Asks codec e e'.errands chunks ∧ ∀ c ∈ chunks, c.Sendable codec := by
  obtain ⟨chunks,hsent,hasks⟩ := h.asks
  refine ⟨chunks,hsent,hasks,?_⟩
  rcases h.writes with ⟨hsame,-,-⟩ | ⟨written,_,-,hsendable,hwritten,-,-⟩
  · rw [hsame] at hsent
    rw [List.self_eq_append_right.mp hsent]
    exact fun c hc => absurd hc List.not_mem_nil
  · rwa [List.append_cancel_left (hsent.symm.trans hwritten)]

/-- A reply is said whole, after whole ones. -/
theorem Speaking.replies_step (hchunk : 1 ≤ codec.limits.chunkSize.toNat) (h : e.Speaking codec)
    (hs : Step codec move e e') (counter : UInt32) :
    Sequent codec.limits none ((e'.said (counter,true)).map (Chunk.frame codec)) ∧
      (track none ((e'.said (counter,true)).map (Chunk.frame codec))).1 = none := by
  obtain ⟨hsequent,hheld⟩ := h.replies counter
  obtain ⟨chunks,hsent,hanswers⟩ := hs.answers
  rw [said_append hsent]
  generalize e'.serves = serves at hanswers
  cases hanswers with
  | same _ hresponse =>
    rw [filter_key_eq_nil,List.append_nil]
    · exact ⟨hsequent,hheld⟩
    · intro c hc hkey
      have hb : c.place.response = true := congrArg Prod.snd hkey
      simp [hresponse c hc] at hb
  | replied k request b reply nonces tear =>
    by_cases hcounter : request.counter = counter
    · subst hcounter
      obtain ⟨hnext,hnone⟩ := sequent_framesOf hchunk nonces.1 (reply.message request.counter)
      have hkey : ∀ c ∈ codec.chunksOf nonces.1 (reply.message request.counter),
          c.key = (request.counter,true) := fun c hc => key_of_mem_chunksOf hc
      rw [filter_key_eq_self hkey,List.map_append,sequent_append,track_append,hheld]
      exact ⟨⟨hsequent,hnext⟩,hnone⟩
    · rw [filter_key_eq_nil,List.append_nil]
      · exact ⟨hsequent,hheld⟩
      · exact fun c hc hkey =>
          hcounter (congrArg Prod.fst ((key_of_mem_chunksOf hc).symm.trans hkey))
  | _ =>
    rw [List.filter_nil,List.append_nil]
    exact ⟨hsequent,hheld⟩

/-- What holds of each request, in view of what stands on the stream under its counter, a step keeps if the
request keeps it when it goes on. -/
theorem Asking.spoken_step (holds : List Chunk → Errand → Prop) (ha : e.Asking codec first)
    (hs : Step codec move e e') (ha' : e'.Asking codec first)
    (hfew : e.session.tickets.length < 2^32) (hfew' : e'.session.tickets.length < 2^32)
    (hfresh : ∀ ticket x, Fresh codec.limits ticket x → holds [] x)
    (hadvance : ∀ x y chunks said, Advance codec e x y chunks → (∀ c ∈ chunks, c.Sendable codec) →
      holds said x → holds (said ++ chunks) y)
    (h : ∀ (i : Nat) (x : Errand), e.errands[i]? = some x → holds (e.said (x.ticket.counter,false)) x) :
    ∀ (i : Nat) (x : Errand), e'.errands[i]? = some x → holds (e'.said (x.ticket.counter,false)) x := by
  obtain ⟨chunks,hsent,hasks,hsendable⟩ := hs.asks_sendable
  intro i x' hx'
  obtain ⟨hi,hticket'⟩ := ha'.ticket hx'
  rw [said_append hsent]
  generalize e'.errands = errands at hasks hx'
  cases hasks with
  | same _ hresponse =>
    rw [filter_key_eq_nil,List.append_nil]
    · exact h i x' hx'
    · intro c hc hkey
      have hb : c.place.response = false := congrArg Prod.snd hkey
      simp [hresponse c hc] at hb
  | began ticket x hbegun =>
    rw [List.filter_nil,List.append_nil]
    rcases Nat.lt_or_ge i e.errands.length with hlt | hge
    · rw [List.getElem?_append_left hlt] at hx'
      exact h i x' hx'
    · -- nothing has been said under the counter of a request that has just begun
      rw [List.getElem?_append_right hge,List.getElem?_singleton] at hx'
      split at hx'
      · obtain rfl := Option.some.inj hx'
        have htold := ha.told i (Nat.lt_trans hi hfew')
        rw [List.getElem?_eq_none hge,← hticket'] at htold
        have hnil : e.said (x.ticket.counter,false) = [] := htold
        rw [hnil]
        exact hfresh ticket x hbegun
      · simp at hx'
  | advanced j x y _ hx hgoes =>
    by_cases hij : j = i
    · subst hij
      rw [List.getElem?_set_self (List.getElem?_eq_some_iff.mp hx).1,Option.some.injEq] at hx'
      subst hx'
      rw [hgoes.ticket,filter_key_eq_self hgoes.key]
      exact hadvance x y chunks _ hgoes hsendable (h j x hx)
    · rw [List.getElem?_set_ne hij] at hx'
      rw [filter_key_eq_nil,List.append_nil]
      · exact h i x' hx'
      · intro c hc hkey
        have hcounter : x.ticket.counter = x'.ticket.counter :=
          congrArg Prod.fst ((hgoes.key c hc).symm.trans hkey)
        obtain ⟨hj,hticket⟩ := ha.ticket hx
        obtain ⟨hi',-⟩ := ha.ticket hx'
        rw [hticket,hticket'] at hcounter
        exact hij (Session.counter_inj (Nat.lt_trans hj hfew) (Nat.lt_trans hi' hfew) hcounter)

theorem Speaking.uploads_step (hchunk : 1 ≤ codec.limits.chunkSize.toNat) (h : e.Speaking codec)
    (ha : e.Asking codec first) (hs : Step codec move e e') (ha' : e'.Asking codec first)
    (hfew : e.session.tickets.length < 2^32) (hfew' : e'.session.tickets.length < 2^32) :
    ∀ (i : Nat) (x : Errand), e'.errands[i]? = some x →
      x.Spoken codec (e'.said (x.ticket.counter,false)) := by
  refine ha.spoken_step (fun said x => x.Spoken codec said) hs ha' hfew hfew'
    (fun ticket x hfresh => ?_) (fun x y chunks said hgoes _ => hgoes.spoken) h.uploads
  cases hfresh with
  | call tag data => trivial
  | upload path name length total size hm =>
    rcases UploadStage.first_cases codec.limits name with hfirst | hfirst <;> rw [hfirst]
    · exact Upload.streamed_start hchunk ticket hm
    · trivial

theorem Speaking.step (hchunk : 1 ≤ codec.limits.chunkSize.toNat) (h : e.Speaking codec)
    (ha : e.Asking codec first) (hs : Step codec move e e')
    (hfew : e'.session.tickets.length < 2^32) : e'.Speaking codec := by
  obtain ⟨acts,hacts,-⟩ := hs.session
  have hgrow := (Session.tickets_run e.session acts).length_le
  rw [← hacts] at hgrow
  exact ⟨h.replies_step hchunk hs,
    h.uploads_step hchunk ha hs (ha.step hs hfew) (Nat.lt_of_le_of_lt hgrow hfew) hfew⟩

/-- What stands on the stream under a key is in sequence, whose key it may be. -/
theorem Speaking.sequent (hchunk : 1 ≤ codec.limits.chunkSize.toNat) (h : e.Speaking codec)
    (ha : e.Asking codec first) (key : ChunkKey) :
    Sequent codec.limits none ((e.said key).map (Chunk.frame codec)) := by
  rcases key with ⟨counter,response⟩
  cases response with
  | true => exact (h.replies counter).1
  | false =>
    obtain ⟨i,hi,rfl⟩ := Session.exists_ticketAt first counter
    have htold := ha.told i hi
    have hwhole : ∀ {said : List Chunk} {m : Message}, (said = [] ∨ ∃ nonces : NonceSupply,
        said = codec.chunksOf nonces.1 m) → Sequent codec.limits none (said.map (Chunk.frame codec)) := by
      rintro said m (rfl | ⟨nonces,rfl⟩)
      · trivial
      · exact (sequent_framesOf hchunk nonces.1 m).1
    cases hx : e.errands[i]? with
    | none =>
      rw [hx] at htold
      rw [show e.said _ = [] from htold]
      trivial
    | some x =>
      rw [hx] at htold
      rcases x with ⟨ticket,tag,data,stage⟩ | ⟨u,stage⟩
      · cases stage with
        | opened =>
          rw [show e.said _ = [] from htold]
          trivial
        | _ => exact hwhole htold
      · have hspoken := h.uploads i _ hx
        rw [(ha.ticket hx).2] at hspoken
        cases stage with
        | streaming => exact Upload.Streamed.sequent hspoken
        | _ => exact hspoken

theorem Speaking.follows (hchunk : 1 ≤ codec.limits.chunkSize.toNat) (h : e.Speaking codec)
    (ha : e.Asking codec first) {n : Nat} {c : Chunk} (hc : e.sent[n]? = some c) {r : Reassembler}
    (hr : Seen r ((e.sent.take n).map (Chunk.frame codec))) :
    Follows codec.limits (c.frame codec) (r.get? c.key) := by
  obtain ⟨hn,hget⟩ := List.getElem?_eq_some_iff.mp hc
  have hall := h.sequent hchunk ha c.key
  have hsent : e.sent = e.sent.take n ++ c :: e.sent.drop (n + 1) := by
    rw [← hget,← List.drop_eq_getElem_cons hn,List.take_append_drop]
  have hsplit : e.said c.key = (e.sent.take n).filter (·.key == c.key) ++
      c :: (e.sent.drop (n + 1)).filter (·.key == c.key) := by
    rw [said]
    conv_lhs => rw [hsent]
    rw [List.filter_append,List.filter_cons_of_pos (by simp)]
  rw [hsplit,List.map_append,sequent_append] at hall
  rw [hr.get,List.filter_map]
  exact hall.2.1

end Endpoint

namespace Duplex

variable {codec : Codec} {first : Side → UInt32} {d : Duplex}

/-- Both ends speak in sequence throughout a run. -/
theorem Honest.speaking_run (hk : codec.Keyed) (hchunk : 1 ≤ codec.limits.chunkSize.toNat)
    (h : d.Honest codec first fun _ _ => False) (hs : ∀ side, (d side).Speaking codec) (acts : List Act)
    (hfew : ∀ side, (d.run codec acts).started side < 2^32) :
    ∀ side, ((d.run codec acts) side).Speaking codec := by
  induction acts generalizing d with
  | nil => exact hs
  | cons a acts ih =>
    have hbounded : d.Bounded := fun side => (h.asking side).bounded
    obtain ⟨hb,-⟩ := @Bounded.step codec d hbounded a
    have hfew' : ∀ side, (d.step codec a).started side < 2^32 :=
      fun side => Nat.lt_of_le_of_lt ((hb.run acts).2 side) (hfew side)
    refine ih (h.step hk a (fun _ _ hc => absurd hc id) hfew') (fun side => ?_) hfew
    cases a with
    | own s move =>
      by_cases hside : side = s
      · subst hside
        have hstep := @Endpoint.step_cases codec (d side) (h.asking side).bounded move
        have hself := step_own codec d side move
        rw [hself]
        exact (hs side).step hchunk (h.asking side) hstep (hself ▸ hfew' side)
      · obtain rfl := Side.eq_other_of_ne hside
        rw [step_own_other]
        exact hs s.other
    | carry s count =>
      by_cases hside : side = s
      · subst hside
        rw [step_carry]
        exact ⟨(hs side).replies,(hs side).uploads⟩
      · obtain rfl := Side.eq_other_of_ne hside
        rw [step_carry_other]
        exact ⟨(hs s.other).replies,(hs s.other).uploads⟩

end Duplex
end Tether
