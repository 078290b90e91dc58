import Tether.Proofs.Link.Upholding

/-! A link that nothing begins to close, when it has come to rest. A call that was let in has been told what
its peer replied, once nobody has anything left to do for it. -/
namespace Tether

variable {codec : Codec}

namespace Duplex

open Endpoint (Upheld Poses)

variable {first : Side → UInt32} {counts : Side → UInt32 → Prop} {d : Duplex} {side : Side}

theorem step_cases (codec : Codec) (d : Duplex) (a : Act) (s : Side) :
    (∃ move, a = .own s move ∧ (d.step codec a) s = (d s).step codec move) ∨
      ∃ inbound outgoing, (d.step codec a) s = { d s with inbound, outgoing } := by
  cases a with
  | own side move =>
    by_cases h : s = side
    · subst h
      exact .inl ⟨move,rfl,step_own ..⟩
    · obtain rfl := Side.eq_other_of_ne h
      exact .inr ⟨_,_,step_own_other ..⟩
  | carry side count =>
    by_cases h : s = side
    · subst h
      exact .inr ⟨_,_,step_carry ..⟩
    · obtain rfl := Side.eq_other_of_ne h
      exact .inr ⟨_,_,step_carry_other ..⟩

theorem Bounded.closes_step (h : d.Bounded) {a : Act} {s : Side}
    (hnone : ((d.step codec a) s).session.closes = []) : (d s).session.closes = [] := by
  rcases step_cases codec d a s with ⟨move,-,hstep⟩ | ⟨inbound,outgoing,hstep⟩
  · rw [hstep] at hnone
    exact (@Endpoint.step_cases codec (d s) (h s) move).closes_eq_nil hnone
  · rwa [hstep] at hnone

theorem Bounded.closes_run (h : d.Bounded) {acts : List Act} {s : Side}
    (hnone : ((d.run codec acts) s).session.closes = []) : (d s).session.closes = [] := by
  induction acts generalizing d with
  | nil => exact hnone
  | cons a acts ih => exact h.closes_step (ih (@Bounded.step codec d h a).1 hnone)

theorem Bounded.requests_run (h : d.Bounded) (acts : List Act) (s : Side) :
    (d s).serves.map Serve.request <+: ((d.run codec acts) s).serves.map Serve.request := by
  induction acts generalizing d with
  | nil => exact List.prefix_refl _
  | cons a acts ih =>
    refine List.IsPrefix.trans ?_ (ih (@Bounded.step codec d h a).1)
    rcases step_cases codec d a s with ⟨move,-,hstep⟩ | ⟨inbound,outgoing,hstep⟩
    · rw [hstep]
      rcases (@Endpoint.step_cases codec (d s) (h s) move).routed with
        ⟨-,hsame,-⟩ | ⟨m,-,-,hsame,-⟩ | ⟨m,-,-,hmore,-⟩
      · rw [hsame]
      · rw [hsame]
      · rw [hmore,List.map_append]
        exact List.prefix_append ..
    · rw [hstep]

theorem Bounded.request_run (h : d.Bounded) {acts : List Act} {s : Side} {k : Nat} {t : Serve}
    (hget : ((d.run codec acts) s).serves[k]? = some t) (hlt : k < (d s).serves.length) :
    (d s).serves[k].request = t.request := by
  obtain ⟨more,hmore⟩ := @Bounded.requests_run codec d h acts s
  have hsame := congrArg (·[k]?) hmore
  simp only [List.getElem?_append_left (hlt.trans_eq (List.length_map Serve.request).symm),
    List.getElem?_map,List.getElem?_eq_getElem hlt,hget,Option.map_some,Option.some.injEq] at hsame
  exact hsame

theorem Honest.run_induction (hk : codec.Keyed) (h : d.Honest codec first counts) {acts : List Act}
    (hlate : ∀ side counter, counts side counter → ∀ a ∈ acts, a.Late)
    (hfew : ∀ side, (d.run codec acts).started side < 2^32)
    (hclosed : ∀ side, ((d.run codec acts) side).session.closes = []) {P : Duplex → Prop} (hP : P d)
    (hstep : ∀ early a late, acts = early ++ a :: late →
      (d.run codec early).Honest codec first counts → P (d.run codec early) →
      (∀ side, ((d.run codec early).step codec a).started side < 2^32) →
      (∀ side, (((d.run codec early).step codec a) side).session.closes = []) →
      P ((d.run codec early).step codec a)) : P (d.run codec acts) := by
  induction acts using List.reverseRecOn with
  | nil => exact hP
  | append_singleton early a ih =>
    rw [run_append,run_cons,run_nil] at hfew hclosed ⊢
    have hbounded : d.Bounded := fun side => (h.asking side).bounded
    have hb := (@Bounded.run codec d hbounded early).1
    have hfew' : ∀ side, (d.run codec early).started side < 2^32 :=
      fun side => Nat.lt_of_le_of_lt ((@Bounded.step codec _ hb a).2 side) (hfew side)
    have hhonest := h.run hk early (fun side counter hc b hb => hlate side counter hc b (by simp [hb])) hfew'
    refine hstep early a [] rfl hhonest (ih ?_ hfew' (fun side => hb.closes_step (hclosed side)) ?_)
      hfew hclosed
    · exact fun side counter hc b hb => hlate side counter hc b (by simp [hb])
    · exact fun early' a' late hsplit => hstep early' a' (late ++ [a]) (by simp [hsplit])

theorem upheld_step (hchunk : 1 ≤ codec.limits.chunkSize.toNat) (h : d.Honest codec first counts)
    (hup : ∀ s, (d s).Upheld (first s)) {a : Act} (hfew : ∀ s, (d.step codec a).started s < 2^32)
    (hclosed : ∀ s, ((d.step codec a) s).session.closes = []) :
    ∀ s, ((d.step codec a) s).Upheld (first s) := by
  intro s
  have hfew := hfew s
  have hclosed := hclosed s
  rw [started] at hfew
  rcases step_cases codec d a s with ⟨move,-,hstep⟩ | ⟨inbound,outgoing,hstep⟩
  · rw [hstep] at hfew hclosed ⊢
    exact (hup s).step hchunk (h.asking s).session (Endpoint.step_cases (h.asking s).bounded move) hfew hclosed
  · rw [hstep]
    exact (hup s).congr inbound outgoing

theorem upheld_run (hk : codec.Keyed) (hchunk : 1 ≤ codec.limits.chunkSize.toNat)
    (h : d.Honest codec first counts) (hup : ∀ s, (d s).Upheld (first s)) {acts : List Act}
    (hlate : ∀ side counter, counts side counter → ∀ a ∈ acts, a.Late)
    (hfew : ∀ s, (d.run codec acts).started s < 2^32)
    (hclosed : ∀ s, ((d.run codec acts) s).session.closes = []) :
    ∀ s, ((d.run codec acts) s).Upheld (first s) :=
  h.run_induction hk hlate hfew hclosed (P := fun d => ∀ s, (d s).Upheld (first s)) hup
    fun _ _ _ _ hhonest hup hfew hclosed => upheld_step hchunk hhonest hup hfew hclosed

/-! ### A call -/

variable {i : Nat} {ticket : Ticket} {tag : Tag} {data : List UInt8} {stage : CallStage}

theorem poses_step (hk : codec.Keyed) (hchunk : 1 ≤ codec.limits.chunkSize.toNat)
    (hcarries : codec.Carries data.length) (h : d.Honest codec first counts)
    (hup : (d side).Upheld (first side)) (hposes : (d side).Poses (first side) i ticket tag data) {a : Act}
    (hfew : (d.step codec a).started side < 2^32)
    (hclosed : ((d.step codec a) side).session.closes = []) :
    ((d.step codec a) side).Poses (first side) i ticket tag data := by
  rw [started] at hfew
  rcases step_cases codec d a side with ⟨move,-,hstep⟩ | ⟨inbound,outgoing,hstep⟩
  · rw [hstep] at hfew hclosed ⊢
    exact hposes.step hk hchunk hcarries (h.asking side) hup.opened move hfew hclosed
  · rw [hstep]
    exact hposes.congr inbound outgoing

theorem Honest.not_replied (h : d.Honest codec first counts) {counter : UInt32}
    (hsaid : (d side).said (counter,false) = []) :
    ∀ m ∈ (d side).session.replies, m.counter ≠ counter := by
  intro m hm hcounter
  have hasked := (h.serving side.other).asked counter
  rw [(h.carried side).found_nil hsaid,List.map_eq_nil_iff,List.filter_eq_nil_iff] at hasked
  have hunasked := (h.serving side.other).unasked counter fun t ht hc => hasked t ht (beq_iff_eq.mpr hc)
  have hfound := (h.carried_back side).found_nil hunasked
  rw [(h.serving side).replies,List.mem_filter] at hm
  rw [List.filter_eq_nil_iff] at hfound
  exact hfound m hm.1 (by simp [Message.key,hcounter,hm.2])

theorem poses_call (h : d.Honest codec first counts) (hup : (d side).Upheld (first side))
    (hfew : d.started side < 2^32) (hready : (d side).session.link.phase = .ready) (tag : Tag)
    (data : List UInt8) : ((d.step codec (.own side (.call tag data))) side).Poses (first side)
      (d side).errands.length (Session.ticketAt (first side) (d side).errands.length) tag data := by
  have ha := h.asking side
  have hlen : (d side).errands.length = (d side).session.tickets.length := by
    rw [← ha.tickets,List.length_map]
  have hnew : (d side).session.tickets.length ∉ (d side).session.released :=
    fun hr => Nat.lt_irrefl _ (ha.session.orderly.released _ hr)
  have htold := ha.told (d side).errands.length (hlen ▸ hfew)
  rw [List.getElem?_eq_none (Nat.le_refl _)] at htold
  have hunheard := h.not_replied htold
  rw [step_own,Endpoint.step,Endpoint.call_of_ready ha hfew hup.opened hready]
  refine ⟨⟨.opened,by simp,?_⟩,fun m hm hcounter => ?_⟩
  · change (d side).errands.length ∉ ((d side).session.step (.start tag)).released
    rw [Session.released_step (by simp),hlen]
    exact hnew
  · rw [Session.replies_step _ (by simp)] at hm
    exact absurd hcounter (hunheard m hm)

/-- Nothing is on its way any more, and nobody has anything left to do for a call: the bytes have been read,
what was asked has been dealt with, and whoever waits has looked. -/
structure Rested (codec : Codec) (d : Duplex) (side : Side) (ticket : Ticket) (stage : CallStage) : Prop where
  carried : ∀ s, (d s).outgoing = []
  read : ∀ s, ((d s).inbound.decoder.next codec).2 = .more
  served : ∀ t ∈ (d side.other).serves, t.request.counter = ticket.counter → t.Finished
  written : stage ≠ .opened
  collected : stage = .sent → (d side).session.link.outcome? ticket = none

theorem Honest.found_message (hk : codec.Keyed) (hchunk : 1 ≤ codec.limits.chunkSize.toNat)
    (h : d.Honest codec first counts) (hup : ∀ s, (d s).Upheld (first s)) {s : Side}
    (hout : (d s).outgoing = []) (hmore : ((d s.other).inbound.decoder.next codec).2 = .more)
    {key : ChunkKey} {m : Message} {nonces : Nonces} (hcarries : codec.Carries m.payload.length)
    (hsaid : (d s).said key = codec.chunksOf nonces m) :
    (d s.other).routed.filter (·.key == key) = [m] := by
  rw [(h.carried s).found_all hk (hup s).opened.2 (hup s.other).reading hout hmore,hsaid]
  exact Codec.track_chunksOf hchunk hcarries nonces

theorem Honest.reply_of_result (h : d.Honest codec first counts) (hup : (d side).Upheld (first side))
    (hposes : (d side).Poses (first side) i ticket tag data)
    (hcall : (d side).errands[i]? = some (.call ticket tag data stage)) {outcome : Outcome}
    (hresult : stage.result? = some outcome) :
    (∃ result, outcome = .ok result) ∨ ∃ m, outcome = .error (.application m) := by
  obtain ⟨stage',hcall',hstands⟩ := hposes.call
  obtain rfl : stage = stage' := by simpa using hcall.symm.trans hcall'
  cases stage with
  | refused error => exact hstands.elim
  | ended o =>
    obtain rfl := Option.some.inj hresult
    have hd : (d side).session.deliveries i = [o] := (h.asking side).came i _ hcall
    have hmem : o ∈ (d side).session.deliveries i := hd ▸ List.mem_singleton.mpr rfl
    obtain ⟨x,hx,rfl⟩ := List.mem_map.mp hmem
    obtain ⟨m,-,-,houtcome⟩ := hup.replied x (List.mem_filter.mp hx).1
    rw [houtcome]
    unfold Connection.outcomeOf
    split
    · exact .inr ⟨_,rfl⟩
    · exact .inl ⟨_,rfl⟩
  | _ => simp [CallStage.result?] at hresult

/-- A request that is neither given up nor left without its answer, which can be carried. -/
structure Settles (codec : Codec) (t : Serve) : Prop where
  kept : t.stage ≠ .dropped
  sent : ∀ reply error, t.stage ≠ .failed reply error
  carries : ∀ reply, t.reply? = some reply → codec.Carries reply.payload.length

/-- Once nobody has anything left to do for it, a call that was sent has been answered: its request has been
found and dealt with, and the reply has gone out. -/
theorem Honest.answered_of_rested (hk : codec.Keyed) (hchunk : 1 ≤ codec.limits.chunkSize.toNat)
    (hcarries : codec.Carries data.length) (h : d.Honest codec first counts)
    (hup : ∀ s, (d s).Upheld (first s)) (hfew : d.started side < 2^32)
    (hcall : (d side).errands[i]? = some (.call ticket tag data .sent))
    (hsaid : (d side).said (ticket.counter,false) ≠ [])
    (hsettles : ∀ t ∈ (d side.other).serves, t.request.counter = ticket.counter → Settles codec t)
    (hrest : d.Rested codec side ticket .sent) :
    ∃ (reply : Reply) (nonces : Nonces), codec.Carries reply.payload.length ∧
      (d side.other).said (ticket.counter,true) = codec.chunksOf nonces (reply.message ticket.counter) := by
  -- the request has been found
  obtain ⟨nonces,hchunks⟩ := ((h.asking side).said_call hfew hcall).resolve_left hsaid
  have hasked := (h.serving side.other).asked ticket.counter
  rw [h.found_message hk hchunk hup (hrest.carried side) (hrest.read side.other) hcarries hchunks,
    List.map_eq_singleton_iff] at hasked
  obtain ⟨t,hone,-⟩ := hasked
  obtain ⟨k,hkth,hcounter,hlone⟩ := Endpoint.exists_lone hone
  have hmem := List.mem_of_getElem? hkth
  have hsettled := hsettles t hmem hcounter
  have hfinished := hrest.served t hmem hcounter
  -- it has been answered
  obtain ⟨reply,hstage⟩ : ∃ reply, t.stage = .answered reply := by
    rcases t with ⟨request,b,stage⟩
    cases stage with
    | answered reply => exact ⟨reply,rfl⟩
    | failed reply error => exact absurd rfl (hsettled.sent reply error)
    | dropped => exact absurd rfl hsettled.kept
    | _ => exact hfinished.elim
  have hvoiced := (hup side.other).voiced t hmem reply hstage
  have hanswered := (h.serving side.other).answered k t hkth (hcounter.symm ▸ hlone)
  rw [Serve.Said,hstage] at hanswered
  obtain ⟨-,nonces',hsaid'⟩ := hanswered.resolve_left hvoiced
  rw [hcounter] at hsaid'
  exact ⟨reply,nonces',hsettled.carries reply (by simp [Serve.reply?,hstage]),hsaid'⟩

/-- Once nobody has anything left to do for it, a call that nobody has left has come to its outcome, if its
request is answered at all and the answer can be carried. -/
theorem Honest.ended_of_rested (hk : codec.Keyed) (hchunk : 1 ≤ codec.limits.chunkSize.toNat)
    (hcarries : codec.Carries data.length) (h : d.Honest codec first counts)
    (hup : ∀ s, (d s).Upheld (first s)) (hposes : (d side).Poses (first side) i ticket tag data)
    (hfew : d.started side < 2^32)
    (hcall : (d side).errands[i]? = some (.call ticket tag data stage))
    (hsettles : ∀ t ∈ (d side.other).serves, t.request.counter = ticket.counter → Settles codec t)
    (hrest : d.Rested codec side ticket stage) (hstays : stage ≠ .left) :
    ∃ outcome, stage.result? = some outcome := by
  obtain ⟨stage',hcall',hstands⟩ := hposes.call
  obtain rfl : stage = stage' := by simpa using hcall.symm.trans hcall'
  cases stage with
  | opened => exact absurd rfl hrest.written
  | refused error => exact hstands.elim
  | left => exact absurd rfl hstays
  | ended outcome => exact ⟨outcome,rfl⟩
  | sent =>
    exfalso
    obtain ⟨hkept,hsaid⟩ := hstands
    obtain ⟨reply,nonces,hreply,hchunks⟩ :=
      h.answered_of_rested hk hchunk hcarries hup hfew hcall hsaid hsettles hrest
    -- the answer has been found, so it has been heard
    have hfound := h.found_message hk hchunk hup (hrest.carried side.other)
      ((Side.other_other side).symm ▸ hrest.read side) (m := reply.message ticket.counter) hreply hchunks
    rw [Side.other_other] at hfound
    have hcame : reply.message ticket.counter ∈ (d side).session.replies := by
      rw [(h.serving side).replies,List.mem_filter]
      refine ⟨?_,rfl⟩
      have hin : reply.message ticket.counter ∈
          (d side).routed.filter (·.key == (ticket.counter,true)) := hfound ▸ List.mem_singleton.mpr rfl
      exact (List.mem_filter.mp hin).1
    obtain ⟨hlt,hticket⟩ := (h.asking side).ticket hcall
    have hticket' : ticket = Session.ticketAt (first side) i := hticket
    have hout := hrest.collected rfl
    rw [hticket'] at hout hcame
    exact hposes.heard _ hcame rfl (((h.asking side).session.orderly.outcome?_eq hlt hkept).2 hout)

end Duplex
end Tether
