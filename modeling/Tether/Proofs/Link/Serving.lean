import Tether.Proofs.Link.Asking

/-! The requests of the peer, as far as they have come. What was read is served or looked up, and
nothing else is; and what stands on the stream as a reply under a counter is the reply to the request
with that counter, as long as there is only one. -/
namespace Tether

namespace Session

variable {s : Session}

/-- The handshake lies behind. -/
def Settled (s : Session) : Prop := s.link.phase = .ready ∨ s.link.phase = .disconnected

theorem Settled.proceed (h : s.Settled) (k : Nat) (call : CloseCall) : (s.proceed k call).Settled := by
  rcases call with ⟨reason,stage⟩
  cases stage with
  | called =>
    have hphase : (s.link.recordReason reason).1.phase = s.link.phase := by
      unfold Connection.recordReason
      split <;> rfl
    simp only [Session.proceed]
    rcases hr : s.link.recordReason reason with ⟨link,fresh⟩
    rw [hr] at hphase
    have hlink : link.phase = .ready ∨ link.phase = .disconnected := hphase ▸ h
    cases fresh <;> exact hlink
  | failed => exact .inr rfl
  | _ => exact h

theorem Settled.step (h : s.Settled) {a : Act} (ha : a ≠ .handshake) : (s.step a).Settled := by
  have hunmoved : ∀ {c : Connection}, s.link.Unmoved c → c.phase = .ready ∨ c.phase = .disconnected :=
    fun hu => hu.phase ▸ h
  cases a with
  | handshake => exact absurd rfl ha
  | close reason => exact h
  | proceed k =>
    simp only [Session.step]
    cases s.closes[k]? with
    | none => exact h
    | some call => exact h.proceed k call
  | start tag =>
    simp only [Session.step,Session.start]
    cases hs : s.link.startRequest tag with
    | error e => exact h
    | ok result => exact hunmoved (Connection.unmoved_startRequest hs)
  | respond reply => exact hunmoved (s.link.unmoved_processResponse reply)
  | release k =>
    simp only [Session.step,Session.release]
    split
    · exact h
    · split
      · exact h
      · exact hunmoved (s.link.unmoved_release _)
  | ready peer =>
    rcases Connection.enter_cases { s.link with peerName := some peer } .ready with hl | hl
    · simp only [Settled,Session.step,Connection.markReady,hl]
      exact h
    · exact .inl (congrArg Connection.phase hl)

theorem Settled.run (h : s.Settled) {acts : List Act} (ha : ∀ a ∈ acts, a ≠ .handshake) :
    (s.run acts).Settled := by
  induction acts generalizing s with
  | nil => exact h
  | cons a acts ih =>
    simp only [List.mem_cons,forall_eq_or_imp] at ha
    exact ih (h.step ha.1) ha.2

theorem Staged.halted_of_not_ready (h : s.Staged) (hs : s.Settled) (hphase : s.link.phase ≠ .ready) :
    s.link.halted = true := by
  have hgone : s.link.phase = .disconnected := hs.resolve_left hphase
  obtain ⟨reason,hreason⟩ := Option.isSome_iff_exists.mp (h.phase hgone)
  exact (h.table reason hreason).2.1

end Session

/-- What stands on the stream under the counter of a request of the peer, in view of how far it is. One
that counts was dispatched before it was answered. -/
def Serve.Said (codec : Codec) (counts : Prop) (said : List Chunk) (t : Serve) : Prop :=
  match t.stage with
  | .answered reply | .failed reply _ => said = [] ∨ (counts → t.dispatched = true) ∧
      ∃ nonces : NonceSupply, said = codec.chunksOf nonces.1 (reply.message t.request.counter)
  | _ => said = []

/-- A request that was turned away at the gate was so because the link lets nothing through. -/
def Serve.Gated (halted : Bool) (t : Serve) : Prop :=
  t.dispatched = true ∨ t.stage = .routed ∨ t.stage = .dropped ∨ halted = true

namespace Endpoint

variable {codec : Codec} {move : Move} {counts : UInt32 → Prop} {e e' : Endpoint}

/-- No other request of the peer has this counter. -/
def Lone (serves : List Serve) (k : Nat) (counter : UInt32) : Prop :=
  ∀ k' (t : Serve), serves[k']? = some t → t.request.counter = counter → k' = k

/-- What a step does to the requests of the peer, and the chunks that it puts on the stream. -/
inductive Answers (codec : Codec) (move : Move) (e : Endpoint) : List Serve → List Chunk → Prop
  | same (chunks : List Chunk) : (∀ c ∈ chunks, c.place.response = false) →
    Answers codec move e e.serves chunks
  | routed (m : Message) : Answers codec move e (e.serves ++ [{ request := m }]) []
  | stopped : Answers codec move e (e.serves.map abandon) []
  | handled (k : Nat) (t t' : Serve) : e.serves[k]? = some t → Handles codec move e k t t' →
    Answers codec move e (e.serves.set k t') []
  | replied (k : Nat) (request : Message) (b : Bool) (reply : Reply) (nonces : NonceSupply)
      (tear : Option Tear) : e.serves[k]? = some ⟨request,b,.replying reply⟩ → e.Open →
    (codec.emitMessage nonces.1 (reply.message request.counter)).fault = none →
    Answers codec move e (e.serves.set k ⟨request,b,.written reply tear⟩)
      (codec.chunksOf nonces.1 (reply.message request.counter))

theorem Step.answers (h : Step codec move e e') :
    ∃ chunks, e'.sent = e.sent ++ chunks ∧ Answers codec move e e'.serves chunks := by
  cases h with
  | wrote i x y acts chunks tear hx ha =>
    refine ⟨chunks,sent_extend ..,?_⟩
    rw [conclude,serves_extend]
    exact .same chunks fun c hc => congrArg Prod.snd (ha.key c hc)
  | found decoder reassembler frame m =>
    unfold route
    split
    · exact ⟨[],(List.append_nil _).symm,.same [] (by simp)⟩
    · exact ⟨[],(List.append_nil _).symm,.routed m⟩
  | stopped inbound reason => exact ⟨[],(List.append_nil _).symm,.stopped⟩
  | handled k t t' ht hh => exact ⟨[],(List.append_nil _).symm,.handled k t t' ht hh⟩
  | replied k request b reply nonces tear ht ho hf =>
    refine ⟨_,sent_extend ..,?_⟩
    rw [setServe,serves_extend]
    exact .replied k request b reply nonces tear ht ho hf
  | _ => exact ⟨[],(List.append_nil _).symm,.same [] (by simp)⟩

theorem Handles.request {k : Nat} {t t' : Serve} (h : Handles codec move e k t t') : t'.request = t.request := by
  cases h <;> rfl

@[simp] theorem request_abandon (t : Serve) : (abandon t).request = t.request := by
  unfold abandon
  split <;> rfl

theorem map_request_abandon (serves : List Serve) :
    (serves.map abandon).map Serve.request = serves.map Serve.request := by
  simp

theorem map_request_set {serves : List Serve} {k : Nat} {t t' : Serve} (hk : serves[k]? = some t)
    (h : t'.request = t.request) : (serves.set k t').map Serve.request = serves.map Serve.request := by
  obtain ⟨hlt,hget⟩ := List.getElem?_eq_some_iff.mp hk
  rw [List.map_set,h,← hget,← List.getElem_map Serve.request (h := by simpa using hlt),
    List.set_getElem_self]

/-- A step reads one message or none, and requests and replies go different ways. -/
theorem Step.routed (h : Step codec move e e') :
    (e'.routed = e.routed ∧ e'.serves.map Serve.request = e.serves.map Serve.request ∧
      e'.session.replies = e.session.replies) ∨
    (∃ m, m.response = true ∧ e'.routed = e.routed ++ [m] ∧ e'.serves = e.serves ∧
      e'.session.replies = e.session.replies ++ [m]) ∨
    ∃ m, m.response = false ∧ e'.routed = e.routed ++ [m] ∧
      e'.serves = e.serves ++ [{ request := m }] ∧ e'.session.replies = e.session.replies := by
  have hrun : ∀ (s : Session) (acts : List Session.Act), (∀ a ∈ acts, Quiet a ∧ a.Plain) →
      (s.run acts).replies = s.replies := by
    intro s acts hacts
    induction acts generalizing s with
    | nil => rfl
    | cons a acts ih =>
      simp only [List.mem_cons,forall_eq_or_imp] at hacts
      rw [Session.run_cons,ih _ hacts.2,s.replies_step hacts.1.1.2]
  cases h with
  | link a hquiet => exact .inl ⟨rfl,rfl,e.session.replies_step hquiet.2⟩
  | began tag => exact .inl ⟨rfl,rfl,e.session.replies_step (by simp)⟩
  | errand i x y acts _ _ hacts => exact .inl ⟨rfl,rfl,hrun _ acts hacts⟩
  | wrote i x y acts chunks tear _ _ hacts =>
    refine .inl ⟨routed_extend ..,by simp [conclude],?_⟩
    cases tear <;> exact hrun _ acts hacts
  | found decoder reassembler frame m =>
    unfold route
    split
    · rename_i hm
      exact .inr (.inl ⟨m,hm,rfl,rfl,rfl⟩)
    · rename_i hm
      exact .inr (.inr ⟨m,Bool.eq_false_iff.mpr hm,rfl,rfl,rfl⟩)
  | stopped inbound reason => exact .inl ⟨rfl,map_request_abandon _,rfl⟩
  | handled k t t' ht hh => exact .inl ⟨rfl,map_request_set ht hh.request,rfl⟩
  | replied k request b reply nonces tear ht =>
    refine .inl ⟨routed_extend ..,?_,by cases tear <;> rfl⟩
    rw [setServe,serves_extend]
    exact map_request_set ht rfl
  | _ => exact .inl ⟨rfl,rfl,rfl⟩

/-- What is kept of the requests of the peer. Those count that began when the link was ready. -/
structure Serving (codec : Codec) (counts : UInt32 → Prop) (e : Endpoint) : Prop where
  settled : ∀ counter, counts counter → e.session.Settled
  requests : e.serves.map Serve.request = e.routed.filter (!·.response)
  replies : e.session.replies = e.routed.filter (·.response)
  gated : ∀ t ∈ e.serves, counts t.request.counter → t.Gated e.session.link.halted
  unasked : ∀ counter, (∀ t ∈ e.serves, t.request.counter ≠ counter) → e.said (counter,true) = []
  answered : ∀ k t, e.serves[k]? = some t → Lone e.serves k t.request.counter →
    t.Said codec (counts t.request.counter) (e.said (t.request.counter,true))

theorem Serve.Gated.mono {halted halted' : Bool} {t : Serve} (h : t.Gated halted)
    (hh : halted = true → halted' = true) : t.Gated halted' := by
  rcases h with h | h | h | h
  · exact .inl h
  · exact .inr (.inl h)
  · exact .inr (.inr (.inl h))
  · exact .inr (.inr (.inr (hh h)))

theorem gated_abandon {halted : Bool} {t : Serve} (h : t.Gated halted) : (abandon t).Gated halted := by
  rcases t with ⟨request,b,stage⟩
  cases stage with
  | answered reply => exact h
  | failed reply error => exact h
  | _ => exact .inr (.inr (.inl rfl))

theorem gated_of_ne {halted : Bool} {request : Message} {b : Bool} {stage stage' : ServeStage}
    (h : (⟨request,b,stage⟩ : Serve).Gated halted) (hrouted : stage ≠ .routed)
    (hdropped : stage ≠ .dropped) : (⟨request,b,stage'⟩ : Serve).Gated halted := by
  rcases h with h | h | h | h
  · exact .inl h
  · exact absurd h hrouted
  · exact absurd h hdropped
  · exact .inr (.inr (.inr h))

theorem Handles.gated {k : Nat} {t t' : Serve} (hh : Handles codec move e k t t') (hstaged : e.session.Staged)
    (hsettled : e.session.Settled) (h : t.Gated e.session.link.halted) :
    t'.Gated e.session.link.halted := by
  cases hh with
  | dispatch request b _ => exact .inl rfl
  | early request b hadmits =>
    refine .inr (.inr (.inr (hstaged.halted_of_not_ready hsettled fun hready => ?_)))
    simp [Connection.admits,hready] at hadmits
  | serve request b reply => exact gated_of_ne h (by simp) (by simp)
  | crash request b => exact .inr (.inr (.inl rfl))
  | fail request b reply nonces error => exact gated_of_ne h (by simp) (by simp)

theorem Serving.gated_step (h : e.Serving codec counts) (hstaged : e.session.Staged)
    (hs : Step codec move e e') :
    ∀ t ∈ e'.serves, counts t.request.counter → t.Gated e'.session.link.halted := by
  obtain ⟨acts,hacts,-⟩ := hs.session
  have honward : e.session.link.halted = true → e'.session.link.halted = true := by
    rw [hacts]
    exact (e.session.onward_run acts).halted
  have hkeep : ∀ t ∈ e.serves, counts t.request.counter → t.Gated e'.session.link.halted :=
    fun t ht hc => Serve.Gated.mono (h.gated t ht hc) honward
  obtain ⟨chunks,-,hanswers⟩ := hs.answers
  intro t ht hcounts
  generalize hb : e'.serves = serves at hanswers ht
  cases hanswers with
  | same => exact hkeep t ht hcounts
  | routed m =>
    rcases List.mem_append.mp ht with ht | ht
    · exact hkeep t ht hcounts
    · exact List.mem_singleton.mp ht ▸ .inr (.inl rfl)
  | stopped =>
    obtain ⟨t₀,ht₀,rfl⟩ := List.mem_map.mp ht
    exact gated_abandon (hkeep t₀ ht₀ (request_abandon t₀ ▸ hcounts))
  | handled k t₀ t' hk hh =>
    rcases List.mem_or_eq_of_mem_set ht with ht | rfl
    · exact hkeep t ht hcounts
    · rw [hh.request] at hcounts
      have hgated := h.gated t₀ (List.mem_of_getElem? hk) hcounts
      exact Serve.Gated.mono (hh.gated hstaged (h.settled _ hcounts) hgated) honward
  | replied k request b reply nonces tear hk =>
    rcases List.mem_or_eq_of_mem_set ht with ht | rfl
    · exact hkeep t ht hcounts
    · exact gated_of_ne (hkeep _ (List.mem_of_getElem? hk) hcounts) (by simp) (by simp)

theorem said_abandon {c : Prop} {said : List Chunk} {t : Serve} (h : t.Said codec c said) :
    (abandon t).Said codec c said := by
  rcases t with ⟨request,b,stage⟩
  cases stage <;> exact h

theorem Handles.said {c : Prop} {k : Nat} {t t' : Serve} {said : List Chunk} (hh : Handles codec move e k t t')
    (h : t.Said codec c said) : t'.Said codec c said := by
  cases hh with
  | fail request b reply nonces error => exact .inl h
  | _ => exact h

theorem Lone.congr {serves serves' : List Serve} {k : Nat} {counter : UInt32}
    (h : Lone serves' k counter)
    (hmap : serves'.map Serve.request = serves.map Serve.request) : Lone serves k counter := by
  intro k' t hk' hcounter
  have hget := congrArg (·[k']?) hmap
  simp only [List.getElem?_map,hk',Option.map_some,Option.map_eq_some_iff] at hget
  obtain ⟨t',ht',hrequest⟩ := hget
  exact h k' t' ht' (hrequest ▸ hcounter)

theorem forall_request_congr {serves serves' : List Serve} {counter : UInt32}
    (hmap : serves'.map Serve.request = serves.map Serve.request)
    (h : ∀ t ∈ serves', t.request.counter ≠ counter) : ∀ t ∈ serves, t.request.counter ≠ counter := by
  intro t ht hcounter
  have hmem : t.request ∈ serves'.map Serve.request := hmap ▸ List.mem_map_of_mem ht
  obtain ⟨t',ht',hrequest⟩ := List.mem_map.mp hmem
  exact h t' ht' (hrequest ▸ hcounter)

theorem Serving.dispatched_of_open (h : e.Serving codec counts) (ho : e.Open) {k : Nat}
    {request : Message} {b : Bool} {reply : Reply}
    (hk : e.serves[k]? = some ⟨request,b,.replying reply⟩) (hcounts : counts request.counter) :
    b = true := by
  rcases h.gated _ (List.mem_of_getElem? hk) hcounts with hg | hg | hg | hg
  · exact hg
  · simp at hg
  · simp at hg
  · simp [ho.1] at hg

theorem Serving.said_step (h : e.Serving codec counts) (hs : Step codec move e e') :
    (∀ counter, (∀ t ∈ e'.serves, t.request.counter ≠ counter) → e'.said (counter,true) = []) ∧
    ∀ k t, e'.serves[k]? = some t → Lone e'.serves k t.request.counter →
      t.Said codec (counts t.request.counter) (e'.said (t.request.counter,true)) := by
  obtain ⟨chunks,hsent,hanswers⟩ := hs.answers
  have hsaid := fun key => said_append hsent key
  generalize hb : e'.serves = serves at hanswers ⊢
  cases hanswers with
  | same _ hrequest =>
    have hnone : ∀ counter, chunks.filter (·.key == (counter,true)) = [] := by
      refine fun counter => filter_key_eq_nil fun c hc hkey => ?_
      have hb : c.place.response = true := congrArg Prod.snd hkey
      simp [hrequest c hc] at hb
    simp only [hsaid,hnone,List.append_nil]
    exact ⟨h.unasked,h.answered⟩
  | routed m =>
    simp only [hsaid,List.filter_nil,List.append_nil]
    refine ⟨fun counter hnot => h.unasked counter fun t ht => hnot t (List.mem_append_left _ ht),?_⟩
    intro k t hk hlone
    rcases Nat.lt_or_ge k e.serves.length with hlt | hge
    · rw [List.getElem?_append_left hlt] at hk
      refine h.answered k t hk fun k' t' hk' hcounter => hlone k' t' ?_ hcounter
      rwa [List.getElem?_append_left (List.getElem?_eq_some_iff.mp hk').1]
    · rw [List.getElem?_append_right hge] at hk
      obtain ⟨_,he⟩ := List.getElem?_eq_some_iff.mp hk
      simp only [List.getElem_singleton] at he
      subst he
      refine h.unasked m.counter fun t ht hcounter => ?_
      obtain ⟨k',hk',hget⟩ := List.mem_iff_getElem.mp ht
      have hk'' := hlone k' t (by rw [List.getElem?_append_left hk']; exact
        List.getElem?_eq_some_iff.mpr ⟨hk',hget⟩) hcounter
      omega
  | stopped =>
    simp only [hsaid,List.filter_nil,List.append_nil]
    constructor
    · intro counter hnot
      refine h.unasked counter fun t ht => ?_
      simpa using hnot (abandon t) (List.mem_map_of_mem ht)
    · intro k t hk hlone
      rw [List.getElem?_map,Option.map_eq_some_iff] at hk
      obtain ⟨t₀,hk,rfl⟩ := hk
      rw [request_abandon] at hlone ⊢
      exact said_abandon (h.answered k t₀ hk (hlone.congr (map_request_abandon _)))
  | handled j t₀ t' hj hh =>
    have hmap := map_request_set hj hh.request
    simp only [hsaid,List.filter_nil,List.append_nil]
    constructor
    · exact fun counter hnot => h.unasked counter (forall_request_congr hmap hnot)
    · intro k t hk hlone
      have hlone' := hlone.congr hmap
      by_cases hjk : j = k
      · subst hjk
        rw [List.getElem?_set_self (List.getElem?_eq_some_iff.mp hj).1,Option.some.injEq] at hk
        subst hk
        rw [hh.request] at hlone' ⊢
        exact hh.said (h.answered j t₀ hj hlone')
      · rw [List.getElem?_set_ne hjk] at hk
        exact h.answered k t hk hlone'
  | replied j request b reply nonces tear hj ho =>
    have hdispatched := h.dispatched_of_open ho hj
    have hmap : (e.serves.set j ⟨request,b,.written reply tear⟩).map Serve.request =
        e.serves.map Serve.request := map_request_set hj rfl
    have hkey : ∀ c ∈ codec.chunksOf nonces.1 (reply.message request.counter),
        c.key = (request.counter,true) := fun c hc => key_of_mem_chunksOf hc
    have hother : ∀ counter, request.counter ≠ counter → e'.said (counter,true) = e.said (counter,true) := by
      intro counter hne
      rw [hsaid,filter_key_eq_nil,List.append_nil]
      intro c hc hc'
      exact hne (congrArg Prod.fst ((hkey c hc).symm.trans hc'))
    constructor
    · intro counter hnot
      have hnot' := forall_request_congr hmap hnot
      rw [hother counter (hnot' _ (List.mem_of_getElem? hj))]
      exact h.unasked counter hnot'
    · intro k t hk hlone
      have hlone' := hlone.congr hmap
      by_cases hjk : j = k
      · subst hjk
        rw [List.getElem?_set_self (List.getElem?_eq_some_iff.mp hj).1,Option.some.injEq] at hk
        subst hk
        have hnil : e.said (request.counter,true) = [] := h.answered j _ hj hlone'
        have hall : e'.said (request.counter,true) =
            codec.chunksOf nonces.1 (reply.message request.counter) := by
          rw [hsaid,hnil,filter_key_eq_self hkey,List.nil_append]
        cases tear <;> exact .inr ⟨hdispatched,nonces,hall⟩
      · rw [List.getElem?_set_ne hjk] at hk
        rw [hother t.request.counter fun hcounter => hjk (hlone' j _ hj hcounter)]
        exact h.answered k t hk hlone'

theorem Serving.step (h : e.Serving codec counts) (hstaged : e.session.Staged)
    (hs : Step codec move e e') (hsettled : ∀ counter, counts counter → move ≠ .handshake) :
    e'.Serving codec counts := by
  obtain ⟨hunasked,hanswered⟩ := h.said_step hs
  refine ⟨?_,?_,?_,h.gated_step hstaged hs,hunasked,hanswered⟩
  · intro counter hcounts
    obtain ⟨acts,hacts,hno⟩ := hs.session_of_ne_handshake (hsettled counter hcounts)
    rw [hacts]
    exact (h.settled counter hcounts).run hno
  · rcases hs.routed with ⟨hr,hm,-⟩ | ⟨m,hb,hr,hm,-⟩ | ⟨m,hb,hr,hm,-⟩
    · rw [hr,hm]
      exact h.requests
    · simp [hr,hm,hb,h.requests]
    · simp [hr,hm,hb,h.requests]
  · rcases hs.routed with ⟨hr,-,hm⟩ | ⟨m,hb,hr,-,hm⟩ | ⟨m,hb,hr,-,hm⟩
    · rw [hr,hm]
      exact h.replies
    · simp [hr,hm,hb,h.replies]
    · simp [hr,hm,hb,h.replies]

/-! ### One request -/

theorem Serving.asked (h : e.Serving codec counts) (counter : UInt32) :
    (e.serves.filter (·.request.counter == counter)).map Serve.request =
      e.routed.filter (·.key == (counter,false)) := by
  have hmap := List.filter_map (f := Serve.request) (p := fun m : Message => m.counter == counter)
    (l := e.serves)
  rw [h.requests,List.filter_filter] at hmap
  refine hmap.symm.trans (List.filter_congr fun m _ => ?_)
  rw [Bool.eq_iff_iff]
  simp [Message.key]

theorem exists_lone {serves : List Serve} {counter : UInt32} {t : Serve}
    (h : serves.filter (·.request.counter == counter) = [t]) :
    ∃ k, serves[k]? = some t ∧ t.request.counter = counter ∧ Lone serves k counter := by
  obtain ⟨before,after,rfl,hbefore,ht,hafter⟩ := List.filter_eq_cons_iff.mp h
  rw [List.filter_eq_nil_iff] at hafter
  refine ⟨before.length,by simp,by simpa using ht,fun k' t' hk' hcounter => ?_⟩
  rcases Nat.lt_trichotomy k' before.length with hlt | heq | hgt
  · rw [List.getElem?_append_left hlt] at hk'
    exact absurd (beq_iff_eq.mpr hcounter) (hbefore t' (List.mem_of_getElem? hk'))
  · exact heq
  · obtain ⟨n,rfl⟩ := Nat.exists_eq_add_of_lt hgt
    rw [List.getElem?_append_right (by omega),
      show before.length + n + 1 - before.length = n + 1 by omega,List.getElem?_cons_succ] at hk'
    exact absurd (beq_iff_eq.mpr hcounter) (hafter t' (List.mem_of_getElem? hk'))

end Endpoint
end Tether
