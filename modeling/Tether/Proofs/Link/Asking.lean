import Tether.Proofs.Link.Ending
import Tether.Proofs.Link.Moves

/-! The requests of the own side. Request number `i` holds ticket number `i`, so what stands on the
stream under its counter is its own message or nothing, and what a call comes to was delivered to its
slot: the loss of the link, or what a reply under its counter means. -/
namespace Tether

namespace Session

variable {first : UInt32} {s : Session}

/-- What is known of a link whose counters have not come round. -/
structure Sound (first : UInt32) (s : Session) : Prop where
  staged : s.Staged
  orderly : s.Orderly first
  sourced : s.Sourced first

theorem sound_establish (name : String) (role : Role) (peerAddr : String) (counter : UInt32) :
    (establish name role peerAddr counter).Sound counter :=
  ⟨staged_establish ..,orderly_establish ..,sourced_establish name role peerAddr counter⟩

theorem Sound.run (h : s.Sound first) (acts : List Act) (hfew : (s.run acts).tickets.length < 2^32) :
    (s.run acts).Sound first := by
  induction acts generalizing s with
  | nil => exact h
  | cons a acts ih =>
    have hstep := (s.tickets_step a).length_le
    have hrest := (tickets_run (s.step a) acts).length_le
    rw [run_cons] at hfew ⊢
    exact ih ⟨h.staged.step a,h.orderly.step (by omega) a,h.sourced.step h.orderly a⟩ hfew

theorem tickets_step_of_ne {a : Act} (h : ∀ tag, a ≠ .start tag) : (s.step a).tickets = s.tickets := by
  cases a with
  | start tag => exact absurd rfl (h tag)
  | proceed k =>
    simp only [step]
    cases s.closes[k]? with
    | none => rfl
    | some call => exact tickets_proceed s k call
  | release k =>
    simp only [step,release]
    split
    · rfl
    · split <;> rfl
  | _ => rfl

theorem tickets_run_of_ne {acts : List Act} (h : ∀ a ∈ acts, ∀ tag, a ≠ .start tag) :
    (s.run acts).tickets = s.tickets := by
  induction acts generalizing s with
  | nil => rfl
  | cons a acts ih =>
    simp only [List.mem_cons,forall_eq_or_imp] at h
    rw [run_cons,ih h.2,tickets_step_of_ne h.1]

theorem Orderly.deliveries_of_outcome (h : s.Orderly first) {i : Nat} (hi : i < s.tickets.length)
    {outcome : Outcome} (ho : s.link.outcome? (ticketAt first i) = some outcome) :
    s.deliveries i = [outcome] := by
  simp only [Connection.outcome?,ticketAt] at ho
  cases h.fate i hi with
  | waiting _ _ _ hm => simp [hm] at ho
  | answered o _ hd _ hm =>
    simp only [hm,Option.some.injEq] at ho
    rw [hd,ho]
  | left _ _ _ _ hm => simp [hm] at ho

theorem Orderly.deliveries_run_eq (acts : List Act) (h : (s.run acts).Orderly first) {i : Nat}
    (hi : i < (s.run acts).tickets.length) {outcome : Outcome} (hd : s.deliveries i = [outcome]) :
    (s.run acts).deliveries i = [outcome] := by
  have hgrow := s.deliveries_run acts i
  have hle := (h.fate i hi).length_deliveries_le
  rw [hd] at hgrow
  exact (hgrow.eq_of_length_le (by simpa using hle)).symm

end Session

/-- What a request on the own side has come to, in view of what was delivered to its slot. -/
def Errand.Came (delivered : List Outcome) : Errand → Prop
  | .call _ _ _ (.ended outcome) => delivered = [outcome]
  | .call _ _ _ (.refused error) => ∀ m, error ≠ .application m
  | _ => True

/-- What stands on the stream under the counter of a request, in view of how far the request is. -/
def Told (codec : Codec) (counter : UInt32) (said : List Chunk) : Option Errand → Prop
  | none => said = []
  | some (.call _ _ _ .opened) => said = []
  | some (.call _ tag data _) =>
    said = [] ∨ ∃ nonces : NonceSupply, said = codec.chunksOf nonces.1 ⟨counter,tag,false,data⟩
  | some (.upload ..) => True

namespace Endpoint

variable {codec : Codec} {move : Move} {first : UInt32} {e e' : Endpoint}

/-- The chunks that were put on the stream under a key. -/
def said (e : Endpoint) (key : ChunkKey) : List Chunk := e.sent.filter (·.key == key)

theorem said_append {chunks : List Chunk} (h : e'.sent = e.sent ++ chunks) (key : ChunkKey) :
    e'.said key = e.said key ++ chunks.filter (·.key == key) := by
  simp [said,h]

theorem filter_key_eq_self {chunks : List Chunk} {key : ChunkKey} (h : ∀ c ∈ chunks, c.key = key) :
    chunks.filter (·.key == key) = chunks := by
  rw [List.filter_eq_self]
  intro c hc
  simpa using h c hc

theorem filter_key_eq_nil {chunks : List Chunk} {key : ChunkKey} (h : ∀ c ∈ chunks, c.key ≠ key) :
    chunks.filter (·.key == key) = [] := by
  rw [List.filter_eq_nil_iff]
  intro c hc
  simpa using h c hc

/-- A step does to the link what some acts do to it; a phase of the open link is entered by the moves
that are made for it, and by nothing else. -/
theorem Step.session (h : Step codec move e e') : ∃ acts, e'.session = e.session.run acts ∧
    ((∀ a ∈ acts, a.Plain) ∨ ∃ a, move.entry? = some a ∧ acts = [a]) := by
  have hplain : ∀ {acts : List Session.Act}, (∀ a ∈ acts, Quiet a ∧ a.Plain) → ∀ a ∈ acts, a.Plain :=
    fun hacts a ha => (hacts a ha).2
  cases h with
  | link a _ ha =>
    refine ⟨[a],rfl,ha.imp (fun ha b hb => ?_) fun ha => ⟨a,ha,rfl⟩⟩
    exact List.mem_singleton.mp hb ▸ ha
  | began tag => exact ⟨[.start tag],rfl,.inl (by simp [Session.Act.Plain])⟩
  | errand i x y acts _ _ hacts => exact ⟨acts,rfl,.inl (hplain hacts)⟩
  | wrote i x y acts chunks tear _ _ hacts =>
    rcases tear with _ | ⟨kept,fault⟩
    · exact ⟨acts,rfl,.inl (hplain hacts)⟩
    · refine ⟨.close (tornReason fault) :: acts,rfl,.inl fun a ha => ?_⟩
      rcases List.mem_cons.mp ha with rfl | ha
      · trivial
      · exact (hacts a ha).2
  | found decoder reassembler frame m =>
    unfold route
    split
    · exact ⟨[.respond m],rfl,.inl (by simp [Session.Act.Plain])⟩
    · exact ⟨[],rfl,.inl (by simp)⟩
  | stopped inbound reason => exact ⟨[.close reason],rfl,.inl (by simp [Session.Act.Plain])⟩
  | replied k request b reply nonces tear =>
    rcases tear with _ | ⟨kept,fault⟩
    · exact ⟨[],rfl,.inl (by simp)⟩
    · exact ⟨[.close (tornReason fault)],rfl,.inl (by simp [Session.Act.Plain])⟩
  | _ => exact ⟨[],rfl,.inl (by simp)⟩

theorem Step.session_of_ne_handshake (h : Step codec move e e') (hmove : move ≠ .handshake) :
    ∃ acts, e'.session = e.session.run acts ∧ ∀ a ∈ acts, a ≠ .handshake := by
  obtain ⟨acts,hacts,hplain | ⟨b,hb,rfl⟩⟩ := h.session
  · exact ⟨acts,hacts,fun a ha he => by simpa [he,Session.Act.Plain] using hplain a ha⟩
  · refine ⟨[b],hacts,fun a ha he => hmove ?_⟩
    obtain rfl : a = b := List.mem_singleton.mp ha
    rw [he] at hb
    cases move with
    | handshake => rfl
    | _ => simp [Move.entry?] at hb

/-- What a step does to the own requests, and the chunks that it puts on the stream. -/
inductive Asks (codec : Codec) (e : Endpoint) : List Errand → List Chunk → Prop
  | same (chunks : List Chunk) : (∀ c ∈ chunks, c.place.response = true) → Asks codec e e.errands chunks
  | began (ticket : Ticket) (x : Errand) : Fresh codec.limits ticket x →
    Asks codec e (e.errands ++ [x]) []
  | advanced (i : Nat) (x y : Errand) (chunks : List Chunk) : e.errands[i]? = some x →
    Advance codec e x y chunks → Asks codec e (e.errands.set i y) chunks

theorem key_of_mem_chunksOf {nonces : Nonces} {m : Message} {c : Chunk}
    (h : c ∈ codec.chunksOf nonces m) : c.key = m.key := by
  unfold Codec.chunksOf at h
  split at h
  · obtain ⟨i,piece,-,-,rfl⟩ := Codec.mem_chunks h
    rfl
  · simp at h

theorem Step.asks (h : Step codec move e e') :
    ∃ chunks, e'.sent = e.sent ++ chunks ∧ Asks codec e e'.errands chunks := by
  have hreply : ∀ (nonces : NonceSupply) (reply : Reply) (counter : UInt32),
      ∀ c ∈ codec.chunksOf nonces.1 (reply.message counter), c.place.response = true :=
    fun _ _ _ _ hc => congrArg Prod.snd (key_of_mem_chunksOf hc)
  cases h with
  | began tag link ticket x _ hf => exact ⟨[],(List.append_nil _).symm,.began ticket x hf⟩
  | errand i x y acts hx ha => exact ⟨[],(List.append_nil _).symm,.advanced i x y [] hx ha⟩
  | wrote i x y acts chunks tear hx ha =>
    refine ⟨chunks,sent_extend ..,?_⟩
    rw [conclude,errands_extend]
    exact .advanced i x y chunks hx ha
  | found decoder reassembler frame m =>
    unfold route
    split <;> exact ⟨[],(List.append_nil _).symm,.same [] (by simp)⟩
  | replied k request b reply nonces tear =>
    refine ⟨_,sent_extend ..,?_⟩
    rw [setServe,errands_extend]
    exact .same _ (hreply nonces reply request.counter)
  | _ => exact ⟨[],(List.append_nil _).symm,.same [] (by simp)⟩

theorem Advance.ticket {x y : Errand} {chunks : List Chunk} (h : Advance codec e x y chunks) :
    y.ticket = x.ticket := by
  cases h with
  | chunk u u' stage place nonce piece _ hu => rcases hu with ⟨_,rfl,rfl⟩ | ⟨rfl,rfl⟩ <;> rfl
  | _ => rfl

theorem Advance.key {x y : Errand} {chunks : List Chunk} (h : Advance codec e x y chunks) :
    ∀ c ∈ chunks, c.key = (x.ticket.counter,false) := by
  intro c hc
  cases h with
  | write ticket tag data stage nonces => exact key_of_mem_chunksOf hc
  | chunk u u' stage place nonce piece hneed =>
    obtain rfl := List.mem_singleton.mp hc
    obtain ⟨-,-,rfl,-⟩ := Upload.need_eq_write_iff.mp hneed
    rfl
  | _ => simp at hc

theorem Advance.told {x y : Errand} {chunks said : List Chunk} (h : Advance codec e x y chunks)
    (ht : Told codec x.ticket.counter said (some x)) :
    Told codec x.ticket.counter (said ++ chunks) (some y) := by
  cases h with
  | write ticket tag data stage nonces hstage =>
    have hnil : said = [] := ht
    subst hnil
    rcases hstage with rfl | ⟨reason,rfl⟩ <;> exact .inr ⟨nonces,rfl⟩
  | refuse ticket tag data error =>
    have hnil : said = [] := ht
    exact .inl (by simp [hnil])
  | collect ticket tag data outcome => simpa [Told] using ht
  | leave ticket tag data stage hstage =>
    rcases hstage with rfl | rfl
    · have hnil : said = [] := ht
      exact .inl (by simp [hnil])
    · simpa [Told] using ht
  | _ => trivial

theorem Step.tickets (h : Step codec move e e')
    (ht : e.errands.map Errand.ticket = e.session.tickets) :
    e'.errands.map Errand.ticket = e'.session.tickets := by
  have hset : ∀ {i : Nat} {x y : Errand} {chunks : List Chunk}, e.errands[i]? = some x →
      Advance codec e x y chunks → (e.errands.set i y).map Errand.ticket = e.session.tickets := by
    intro i x y chunks hx ha
    obtain ⟨hi,hget⟩ := List.getElem?_eq_some_iff.mp hx
    rw [← ht,List.map_set,ha.ticket,← hget,← List.getElem_map Errand.ticket (h := by simpa using hi),
      List.set_getElem_self]
  cases h with
  | link a hquiet => exact ht.trans (Session.tickets_step_of_ne hquiet.1).symm
  | began tag link ticket x hs hf =>
    have hticket : x.ticket = ticket := by cases hf <;> rfl
    simp [Session.step,Session.start,hs,ht,hticket]
  | errand i x y acts hx ha hacts =>
    exact (hset hx ha).trans (Session.tickets_run_of_ne fun a h => (hacts a h).1.1).symm
  | wrote i x y acts chunks tear hx ha hacts =>
    rcases tear with _ | tear
    · exact (hset hx ha).trans (Session.tickets_run_of_ne fun a h => (hacts a h).1.1).symm
    · exact (hset hx ha).trans (Session.tickets_run_of_ne
        (s := e.session.step (.close (tornReason tear.2))) fun a h => (hacts a h).1.1).symm
  | found decoder reassembler frame m =>
    unfold route
    split <;> exact ht
  | replied k request b reply nonces tear =>
    cases tear <;> exact ht
  | _ => exact ht

structure Asking (codec : Codec) (first : UInt32) (e : Endpoint) : Prop where
  bounded : ∀ x ∈ e.errands, x.Bounded
  session : e.session.Sound first
  tickets : e.errands.map Errand.ticket = e.session.tickets
  told : ∀ i < 2^32, Told codec (Session.ticketAt first i).counter
    (e.said ((Session.ticketAt first i).counter,false)) e.errands[i]?
  came : ∀ i (x : Errand), e.errands[i]? = some x → x.Came (e.session.deliveries i)

theorem Asking.ticket (h : e.Asking codec first) {i : Nat} {x : Errand} (hx : e.errands[i]? = some x) :
    i < e.session.tickets.length ∧ x.ticket = Session.ticketAt first i := by
  have hi : e.session.tickets[i]? = some x.ticket := by rw [← h.tickets,List.getElem?_map,hx]; rfl
  exact h.session.orderly.ticket hi

theorem Asking.told_step (h : e.Asking codec first) (hs : Step codec move e e')
    (hfew : e.session.tickets.length < 2^32) : ∀ i < 2^32,
      Told codec (Session.ticketAt first i).counter
        (e'.said ((Session.ticketAt first i).counter,false)) e'.errands[i]? := by
  intro i hi
  obtain ⟨chunks,hsent,hasks⟩ := hs.asks
  have htold := h.told i hi
  rw [said_append hsent]
  generalize hb : e'.errands = errands at hasks
  cases hasks with
  | same _ hresponse =>
    rw [filter_key_eq_nil,List.append_nil]
    · exact htold
    · intro c hc hkey
      have hb : c.place.response = false := congrArg Prod.snd hkey
      simp [hresponse c hc] at hb
  | began ticket x hfresh =>
    rw [List.filter_nil,List.append_nil]
    rcases Nat.lt_trichotomy i e.errands.length with hlt | rfl | hgt
    · rwa [List.getElem?_append_left hlt]
    · have hnil : e.said ((Session.ticketAt first e.errands.length).counter,false) = [] := by
        simpa [Told] using htold
      rw [List.getElem?_concat_length,hnil]
      cases hfresh <;> trivial
    · rw [List.getElem?_eq_none (by rw [List.length_append]; exact Nat.succ_le_of_lt hgt)]
      rwa [List.getElem?_eq_none (Nat.le_of_lt hgt)] at htold
  | advanced j x y _ hx ha =>
    obtain ⟨hj,hticket⟩ := h.ticket hx
    by_cases hij : j = i
    · subst hij
      rw [hx,← hticket] at htold
      rw [← hticket,filter_key_eq_self ha.key,List.getElem?_set_self (List.getElem?_eq_some_iff.mp hx).1]
      exact ha.told htold
    · rw [filter_key_eq_nil,List.append_nil,List.getElem?_set_ne hij]
      · exact htold
      · intro c hc hkey
        have hc' : x.ticket.counter = (Session.ticketAt first i).counter :=
          congrArg Prod.fst ((ha.key c hc).symm.trans hkey)
        rw [hticket] at hc'
        exact hij (Session.counter_inj (by omega) hi hc')

theorem Asking.came_step (h : e.Asking codec first) (hs : Step codec move e e')
    (ho : e'.session.Orderly first) (htickets : e'.errands.map Errand.ticket = e'.session.tickets) :
    ∀ i (x : Errand), e'.errands[i]? = some x → x.Came (e'.session.deliveries i) := by
  obtain ⟨acts,hacts,-⟩ := hs.session
  -- a delivery that was the only one still is
  have hkeep : ∀ {i : Nat} {y : Errand} {outcome : Outcome}, e'.errands[i]? = some y →
      e.session.deliveries i = [outcome] → e'.session.deliveries i = [outcome] := by
    intro i y outcome hy hd
    have hi : i < e'.session.tickets.length := by
      rw [← htickets,List.length_map]
      exact (List.getElem?_eq_some_iff.mp hy).1
    rw [hacts] at ho hi ⊢
    exact ho.deliveries_run_eq acts hi hd
  have hsame : ∀ {i : Nat} {x : Errand}, e.errands[i]? = some x → e'.errands[i]? = some x →
      x.Came (e'.session.deliveries i) := by
    intro i x hx hx'
    have hcame := h.came i x hx
    rcases x with ⟨ticket,tag,data,stage⟩ | ⟨u,stage⟩
    · cases stage with
      | ended outcome => exact hkeep hx' hcame
      | refused error => exact hcame
      | _ => trivial
    · trivial
  obtain ⟨chunks,-,hasks⟩ := hs.asks
  intro i x' hx'
  have hx'' := hx'
  generalize hb : e'.errands = errands at hasks hx''
  cases hasks with
  | same _ _ => exact hsame hx'' hx'
  | began ticket x hfresh =>
    rcases Nat.lt_or_ge i e.errands.length with hlt | hge
    · rw [List.getElem?_append_left hlt] at hx''
      exact hsame hx'' hx'
    · rw [List.getElem?_append_right hge] at hx''
      obtain ⟨_,he⟩ := List.getElem?_eq_some_iff.mp hx''
      simp only [List.getElem_singleton] at he
      subst he
      cases hfresh <;> trivial
  | advanced j x y _ hx ha =>
    by_cases hij : j = i
    · subst hij
      rw [List.getElem?_set_self (List.getElem?_eq_some_iff.mp hx).1,Option.some.injEq] at hx''
      subst hx''
      cases ha with
      | write ticket tag data stage nonces hstage =>
        rcases hstage with rfl | ⟨reason,rfl⟩
        · trivial
        · exact fun m => by simp
      | refuse ticket tag data error herror => exact herror
      | collect ticket tag data outcome houtcome =>
        obtain ⟨hj,hticket⟩ := h.ticket hx
        have houtcome' : e.session.link.outcome? (Session.ticketAt first j) = some outcome :=
          hticket ▸ houtcome
        exact hkeep hx'
          (h.session.orderly.deliveries_of_outcome hj houtcome')
      | _ => trivial
    · rw [List.getElem?_set_ne hij] at hx''
      exact hsame hx'' hx'

theorem Asking.step (h : e.Asking codec first) (hs : Step codec move e e')
    (hfew : e'.session.tickets.length < 2^32) : e'.Asking codec first := by
  obtain ⟨acts,hacts,-⟩ := hs.session
  have hgrow := (Session.tickets_run e.session acts).length_le
  have hsound : e'.session.Sound first := by
    rw [hacts] at hfew ⊢
    exact h.session.run acts hfew
  have htickets := hs.tickets h.tickets
  rw [← hacts] at hgrow
  exact ⟨hs.bounded h.bounded,hsound,htickets,h.told_step hs (Nat.lt_of_le_of_lt hgrow hfew),
    h.came_step hs hsound.orderly htickets⟩

theorem asking_establish (codec : Codec) (name : String) (role : Role) (peerAddr : String)
    (counter : UInt32) : (establish name role peerAddr counter).Asking codec counter :=
  ⟨fun _ hx => absurd hx List.not_mem_nil,Session.sound_establish ..,rfl,fun _ _ => rfl,
    fun _ _ hx => absurd hx (by simp [establish])⟩

theorem Asking.after (h : e.Asking codec first) (ev : Event)
    (hfew : (e.after codec ev).session.tickets.length < 2^32) : (e.after codec ev).Asking codec first := by
  cases ev with
  | feed bytes => exact ⟨h.bounded,h.session,h.tickets,h.told,h.came⟩
  | move m => exact h.step (step_cases h.bounded m) hfew

/-! ### What a call is told -/

theorem Asking.said_call (h : e.Asking codec first) (hfew : e.session.tickets.length < 2^32) {i : Nat}
    {ticket : Ticket} {tag : Tag} {data : List UInt8} {stage : CallStage}
    (hi : e.errands[i]? = some (.call ticket tag data stage)) :
    e.said (ticket.counter,false) = [] ∨ ∃ nonces : NonceSupply,
      e.said (ticket.counter,false) = codec.chunksOf nonces.1 ⟨ticket.counter,tag,false,data⟩ := by
  obtain ⟨hlt,hticket⟩ := h.ticket hi
  have htold := h.told i (Nat.lt_trans hlt hfew)
  have hticket' : ticket = Session.ticketAt first i := hticket
  rw [hi,← hticket'] at htold
  cases stage with
  | opened => exact .inl htold
  | _ => exact htold

/-- A call that comes to a payload, or to an error of the peer, has a reply under its counter. -/
theorem Asking.reply_of_result (h : e.Asking codec first) {i : Nat} {ticket : Ticket} {tag : Tag}
    {data : List UInt8} {stage : CallStage} (hi : e.errands[i]? = some (.call ticket tag data stage))
    {outcome : Outcome} (hr : stage.result? = some outcome)
    (hreply : (∃ result, outcome = .ok result) ∨ ∃ m, outcome = .error (.application m)) :
    ∃ m ∈ e.session.replies, m.counter = ticket.counter ∧ outcome = Connection.outcomeOf m := by
  have hcame := h.came i _ hi
  obtain ⟨-,hticket⟩ := h.ticket hi
  have hticket' : ticket = Session.ticketAt first i := hticket
  cases stage with
  | ended o =>
    obtain rfl := Option.some.inj hr
    have hd : e.session.deliveries i = [o] := hcame
    have hmem : o ∈ e.session.deliveries i := hd ▸ List.mem_singleton.mpr rfl
    obtain ⟨d,hd',rfl⟩ := List.mem_map.mp hmem
    obtain ⟨hmem',hslot⟩ := List.mem_filter.mp hd'
    rcases h.session.sourced d hmem' with ⟨reason,hlost⟩ | ⟨m,hm,hcounter,ho⟩
    · rw [hlost] at hreply
      simp at hreply
    · rw [beq_iff_eq.mp hslot,← hticket'] at hcounter
      exact ⟨m,hm,hcounter,ho⟩
  | refused error =>
    obtain rfl := Option.some.inj hr
    have herror : ∀ m, error ≠ .application m := hcame
    rcases hreply with ⟨result,he⟩ | ⟨m,he⟩
    · simp at he
    · exact absurd (Except.error.inj he) (herror m)
  | _ => simp [CallStage.result?] at hr

end Endpoint
end Tether
