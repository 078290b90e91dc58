import Tether.Proofs.Link.Session

/-! What becomes of each request. As long as counters do not come round again, a request owns its
counter and its slot, and is at every moment in one of three places: in the table, answered, or left by
its owner. -/
namespace Tether
namespace Session

/-- The ticket of the request that was started as number `i`. -/
def ticketAt (first : UInt32) (i : Nat) : Ticket := ⟨first + UInt32.ofNat i,i⟩

theorem counter_inj {first : UInt32} {i j : Nat} (hi : i < 2^32) (hj : j < 2^32)
    (h : (ticketAt first i).counter = (ticketAt first j).counter) : i = j := by
  have he : UInt32.ofNat i = UInt32.ofNat j := UInt32.add_right_inj first |>.mp h
  have ht := congrArg UInt32.toNat he
  rwa [UInt32.toNat_ofNat_of_lt' (by simpa [UInt32.size] using hi),
    UInt32.toNat_ofNat_of_lt' (by simpa [UInt32.size] using hj)] at ht

/-- The request waits in the table. -/
def InTable (s : Session) (i : Nat) : Prop := ∃ e ∈ s.link.pending.entries, e.slot = i

inductive Fate (s : Session) (i : Nat) : Prop
  | waiting : s.InTable i → s.deliveries i = [] → i ∉ s.released → s.link.mail.slot i = .waiting →
    Fate s i
  | answered (outcome : Outcome) : ¬ s.InTable i → s.deliveries i = [outcome] → i ∉ s.released →
    s.link.mail.slot i = .holding outcome → Fate s i
  | left (outcome : Option Outcome) : ¬ s.InTable i → s.deliveries i = outcome.toList →
    i ∈ s.released → s.link.mail.slot i = .abandoned → Fate s i

theorem Fate.congr {s s' : Session} {i : Nat} (h : s.Fate i) (htable : s'.InTable i ↔ s.InTable i)
    (hdel : s'.deliveries i = s.deliveries i) (hrel : i ∈ s'.released ↔ i ∈ s.released)
    (hmail : s'.link.mail.slot i = s.link.mail.slot i) : s'.Fate i := by
  cases h with
  | waiting ht hd hr hm =>
    exact .waiting (htable.mpr ht) (hdel.trans hd) (fun h => hr (hrel.mp h)) (hmail.trans hm)
  | answered outcome ht hd hr hm =>
    exact .answered outcome (fun h => ht (htable.mp h)) (hdel.trans hd) (fun h => hr (hrel.mp h))
      (hmail.trans hm)
  | left outcome ht hd hr hm =>
    exact .left outcome (fun h => ht (htable.mp h)) (hdel.trans hd) (hrel.mpr hr) (hmail.trans hm)

/-- Tickets are numbered through, and every request has one fate. -/
structure Orderly (first : UInt32) (s : Session) : Prop where
  tickets : s.tickets = (List.range s.tickets.length).map (ticketAt first)
  next : s.link.nextCounter = (ticketAt first s.tickets.length).counter
  slots : s.link.pending.nextSlot = s.tickets.length
  mail : s.link.mail.length = s.tickets.length
  entries : ∀ e ∈ s.link.pending.entries,
    e.slot < s.tickets.length ∧ e.id = (ticketAt first e.slot).counter
  nodup : (s.link.pending.entries.map (·.slot)).Nodup
  delivered : ∀ d ∈ s.delivered, d.slot < s.tickets.length
  released : ∀ k ∈ s.released, k < s.tickets.length
  fate : ∀ i < s.tickets.length, s.Fate i

theorem orderly_establish (name : String) (role : Role) (peerAddr : String) (counter : UInt32) :
    (establish name role peerAddr counter).Orderly counter := by
  refine ⟨rfl,?_,rfl,rfl,?_,List.nodup_nil,?_,?_,?_⟩
  · simp [establish,Connection.establish,ticketAt]
  · intro e he
    simp [establish,Connection.establish] at he
  · intro d hd
    simp [establish] at hd
  · intro k hk
    simp [establish] at hk
  · intro i hi
    simp [establish] at hi

variable {first : UInt32} {s : Session}

theorem Orderly.ticket (h : s.Orderly first) {i : Nat} {t : Ticket} (ht : s.tickets[i]? = some t) :
    i < s.tickets.length ∧ t = ticketAt first i := by
  obtain ⟨hi,-⟩ := List.getElem?_eq_some_iff.mp ht
  rw [h.tickets,List.getElem?_map,List.getElem?_range hi,Option.map_some,Option.some.injEq] at ht
  exact ⟨hi,ht.symm⟩

theorem Orderly.id_eq_iff (h : s.Orderly first) (hfew : s.tickets.length < 2^32) {e : PendingEntry}
    (he : e ∈ s.link.pending.entries) {i : Nat} (hi : i < 2^32) :
    e.id = (ticketAt first i).counter ↔ e.slot = i := by
  obtain ⟨hslot,hid⟩ := h.entries e he
  rw [hid]
  constructor
  · exact counter_inj (by omega) hi
  · rintro rfl
    rfl

theorem inTable_erase_iff (h : s.Orderly first) (hfew : s.tickets.length < 2^32) {i k : Nat}
    (hk : k < 2^32) (hne : i ≠ k) :
    (∃ e ∈ (s.link.pending.erase (ticketAt first k).counter).entries, e.slot = i) ↔ s.InTable i := by
  constructor
  · rintro ⟨e,he,hi⟩
    exact ⟨e,(Pending.mem_erase.mp he).1,hi⟩
  · rintro ⟨e,he,hi⟩
    refine ⟨e,Pending.mem_erase.mpr ⟨he,fun hid => hne ?_⟩,hi⟩
    exact hi.symm.trans ((h.id_eq_iff hfew he hk).mp hid)

theorem not_inTable_erase (h : s.Orderly first) (hfew : s.tickets.length < 2^32) {k : Nat}
    (hk : k < 2^32) :
    ¬ ∃ e ∈ (s.link.pending.erase (ticketAt first k).counter).entries, e.slot = k := by
  rintro ⟨e,he,hslot⟩
  obtain ⟨hmem,hne⟩ := Pending.mem_erase.mp he
  exact hne ((h.id_eq_iff hfew hmem hk).mpr hslot)

/-! ### One step -/

theorem Orderly.congr {s' : Session} (h : s.Orderly first) (htickets : s'.tickets = s.tickets)
    (hnext : s'.link.nextCounter = s.link.nextCounter)
    (hentries : s'.link.pending.entries = s.link.pending.entries)
    (hslots : s'.link.pending.nextSlot = s.link.pending.nextSlot) (hmail : s'.link.mail = s.link.mail)
    (hdel : s'.delivered = s.delivered) (hrel : s'.released = s.released) : s'.Orderly first := by
  refine ⟨by rw [htickets]; exact h.tickets,by rw [htickets,hnext]; exact h.next,
    by rw [htickets,hslots]; exact h.slots,by rw [htickets,hmail]; exact h.mail,
    by rw [htickets,hentries]; exact h.entries,by rw [hentries]; exact h.nodup,
    by rw [htickets,hdel]; exact h.delivered,by rw [htickets,hrel]; exact h.released,?_⟩
  intro i hi
  rw [htickets] at hi
  refine (h.fate i hi).congr ?_ ?_ ?_ ?_
  · simp only [InTable,hentries]
  · simp only [deliveries,hdel]
  · rw [hrel]
  · rw [hmail]

theorem Orderly.deliveries_of_le (h : s.Orderly first) {i : Nat} (hi : s.tickets.length ≤ i) :
    s.deliveries i = [] := by
  simp only [deliveries,List.map_eq_nil_iff,List.filter_eq_nil_iff,beq_iff_eq]
  intro d hd hslot
  have hlt := h.delivered d hd
  omega

theorem deliveries_append (s s' : Session) (ds : List Delivery) (i : Nat)
    (h : s'.delivered = s.delivered ++ ds) :
    s'.deliveries i = s.deliveries i ++ (ds.filter (·.slot == i)).map (·.outcome) := by
  simp [deliveries,h]

theorem counter_succ (first : UInt32) (n : Nat) :
    (ticketAt first n).counter + 1 = (ticketAt first (n + 1)).counter := by
  simp [ticketAt,UInt32.ofNat_add,UInt32.add_assoc]

theorem Orderly.startRequest_eq (h : s.Orderly first) (hfew : s.tickets.length < 2^32) (tag : Tag)
    (hc : s.link.pending.closed = none) :
    s.link.startRequest tag = .ok
      ({ s.link with
          pending := { s.link.pending with
            entries := s.link.pending.entries ++
              [⟨(ticketAt first s.tickets.length).counter,tag,s.tickets.length⟩]
            nextSlot := s.tickets.length + 1 }
          mail := s.link.mail ++ [.waiting]
          nextCounter := (ticketAt first (s.tickets.length + 1)).counter },
        ticketAt first s.tickets.length) := by
  have hfresh : ∀ e ∈ s.link.pending.entries, e.id ≠ (ticketAt first s.tickets.length).counter := by
    intro e he hid
    have hslot := (h.id_eq_iff hfew he hfew).mp hid
    have hlt := (h.entries e he).1
    omega
  rw [Connection.startRequest,h.next,Connection.allocate,Pending.register_of_fresh tag hc hfresh]
  simp only [h.slots,counter_succ]
  rfl

theorem Orderly.start (h : s.Orderly first) (hfew : s.tickets.length < 2^32) (tag : Tag) :
    (s.start tag).Orderly first := by
  cases hc : s.link.pending.closed with
  | some reason =>
    have hsame : s.start tag = s := by
      simp [Session.start,Connection.startRequest,Connection.allocate,Pending.register_of_closed hc]
    rwa [hsame]
  | none =>
    have hlen : (s.tickets ++ [ticketAt first s.tickets.length]).length = s.tickets.length + 1 := by simp
    have htable : ∀ i, i ≠ s.tickets.length → ((s.start tag).InTable i ↔ s.InTable i) := by
      intro i hi
      simp only [InTable,Session.start,h.startRequest_eq hfew tag hc,List.mem_append,List.mem_singleton]
      constructor
      · rintro ⟨e,he | rfl,hslot⟩
        · exact ⟨e,he,hslot⟩
        · exact absurd hslot.symm hi
      · rintro ⟨e,he,hslot⟩
        exact ⟨e,.inl he,hslot⟩
    unfold Session.start at htable ⊢
    simp only [h.startRequest_eq hfew tag hc] at htable ⊢
    refine ⟨?_,?_,?_,?_,?_,?_,?_,?_,?_⟩
    · simp only [hlen]
      rw [List.range_succ,List.map_append,← h.tickets]
      rfl
    · simp only [hlen]
    · simp only [hlen]
    · simp [h.mail]
    · intro e he
      simp only [hlen]
      rcases List.mem_append.mp he with he | he
      · exact ⟨Nat.lt_succ_of_lt (h.entries e he).1,(h.entries e he).2⟩
      · obtain rfl := List.mem_singleton.mp he
        exact ⟨Nat.lt_succ_self _,rfl⟩
    · rw [List.map_append,List.nodup_append]
      refine ⟨h.nodup,by simp,?_⟩
      intro i hi j hj hij
      obtain ⟨e,he,rfl⟩ := List.mem_map.mp hi
      have hlt := (h.entries e he).1
      simp only [List.map_cons,List.map_nil,List.mem_singleton] at hj
      omega
    · intro d hd
      simp only [hlen]
      exact Nat.lt_succ_of_lt (h.delivered d hd)
    · intro k hk
      simp only [hlen]
      exact Nat.lt_succ_of_lt (h.released k hk)
    · intro i hi
      simp only [hlen] at hi
      by_cases hin : i = s.tickets.length
      · subst hin
        refine .waiting ⟨_,List.mem_append_right _ (List.mem_singleton.mpr rfl),rfl⟩ ?_ ?_ ?_
        · exact h.deliveries_of_le (Nat.le_refl _)
        · exact fun hk => Nat.lt_irrefl _ (h.released _ hk)
        · rw [Mailbox.slot_append_waiting,if_pos h.mail.symm]
      · refine (h.fate i (by omega)).congr (htable i hin) rfl Iff.rfl ?_
        rw [Mailbox.slot_append_waiting,if_neg (by rw [h.mail]; exact hin)]

theorem fate_answered {s' : Session} {i : Nat} {outcome : Outcome} (h : s.Fate i) (ht : s.InTable i)
    (ht' : ¬ s'.InTable i) (hdel : s'.deliveries i = s.deliveries i ++ [outcome])
    (hrel : s'.released = s.released)
    (hmail : s.link.mail.slot i = .waiting → s'.link.mail.slot i = .holding outcome) : s'.Fate i := by
  cases h with
  | waiting _ hd hr hm => exact .answered outcome ht' (by rw [hdel,hd]; rfl) (hrel ▸ hr) (hmail hm)
  | answered _ hn => exact absurd ht hn
  | left _ hn => exact absurd ht hn

theorem Orderly.respond (h : s.Orderly first) (hfew : s.tickets.length < 2^32) (reply : Message) :
    (s.respond reply).Orderly first := by
  cases hf : s.link.pending.find? reply.counter with
  | none =>
    refine h.congr rfl ?_ ?_ ?_ ?_ ?_ rfl
    all_goals simp [Session.respond,Connection.processResponse,Pending.resolve,hf]
  | some e =>
    obtain ⟨he,hid⟩ := Pending.mem_of_find?_eq_some hf
    obtain ⟨hslot,hide⟩ := h.entries e he
    have hcounter : reply.counter = (ticketAt first e.slot).counter := hid.symm.trans hide
    let d : Delivery := ⟨e.slot,Connection.outcomeOf reply⟩
    have hpending : (s.respond reply).link.pending =
        { s.link.pending.erase reply.counter with resolved := s.link.pending.resolved + 1 } := by
      simp [Session.respond,Connection.processResponse,Pending.resolve,hf]
    have hmail : (s.respond reply).link.mail = s.link.mail.deliver d := by
      simp [Session.respond,Connection.processResponse,Pending.resolve,hf,d]
    have hdel : (s.respond reply).delivered = s.delivered ++ [d] := by
      simp [Session.respond,Pending.resolve,hf,d]
    have hnext : (s.respond reply).link.nextCounter = s.link.nextCounter := by
      simp [Session.respond,Connection.processResponse,Pending.resolve,hf]
    refine ⟨h.tickets,hnext.trans h.next,?_,?_,?_,?_,?_,h.released,?_⟩
    · rw [hpending]
      exact h.slots
    · rw [hmail,Mailbox.length_deliver]
      exact h.mail
    · rw [hpending]
      exact fun e' he' => h.entries e' (Pending.mem_erase.mp he').1
    · rw [hpending]
      exact h.nodup.sublist (List.filter_sublist.map _)
    · rw [hdel]
      intro d' hd'
      rcases List.mem_append.mp hd' with hd' | hd'
      · exact h.delivered d' hd'
      · obtain rfl := List.mem_singleton.mp hd'
        exact hslot
    · intro i hi
      have hi' : i < s.tickets.length := hi
      have hds := deliveries_append s (s.respond reply) [d] i hdel
      by_cases hie : i = e.slot
      · subst hie
        refine fate_answered (h.fate e.slot hslot) ⟨e,he,rfl⟩ ?_ (by simpa [d] using hds) rfl ?_
        · rw [InTable,hpending,hcounter]
          exact not_inTable_erase h hfew (by omega)
        · intro hw
          rw [hmail]
          exact Mailbox.slot_deliver_self (d := d) hw
      · refine (h.fate i hi').congr ?_ ?_ Iff.rfl ?_
        · rw [InTable,hpending,hcounter]
          exact inTable_erase_iff h hfew (by omega) hie
        · simpa [d,Ne.symm hie] using hds
        · rw [hmail]
          exact Mailbox.slot_deliver_of_ne _ d hie

theorem Orderly.mail_release (h : s.Orderly first) (hfew : s.tickets.length < 2^32) {k : Nat}
    (hk : k < s.tickets.length) :
    (s.link.release (ticketAt first k)).mail = s.link.mail.abandon k := by
  have hkm : k < s.link.mail.length := h.mail.symm ▸ hk
  simp only [Connection.release,Pending.cancel]
  cases hf : s.link.pending.find? (ticketAt first k).counter with
  | none => rfl
  | some e =>
    obtain ⟨he,hid⟩ := Pending.mem_of_find?_eq_some hf
    have hslot := (h.id_eq_iff hfew he (by omega)).mp hid
    refine Mailbox.release_of_ne_waiting ?_
    rw [hslot]
    simp [ticketAt,Mailbox.slot_abandon s.link.mail k k hkm]

theorem Orderly.release (h : s.Orderly first) (hfew : s.tickets.length < 2^32) (k : Nat) :
    (s.release k).Orderly first := by
  unfold Session.release
  cases ht : s.tickets[k]? with
  | none => exact h
  | some ticket =>
    obtain ⟨hk,rfl⟩ := h.ticket ht
    by_cases hrel : k ∈ s.released
    · simpa [hrel] using h
    · simp only [hrel,if_false]
      have hkm : k < s.link.mail.length := h.mail.symm ▸ hk
      have hmail := h.mail_release hfew hk
      refine ⟨h.tickets,h.next,h.slots,?_,?_,?_,h.delivered,?_,?_⟩
      · simp only [hmail,Mailbox.length_abandon]
        exact h.mail
      · exact fun e he => h.entries e (Pending.mem_erase.mp he).1
      · exact h.nodup.sublist (List.filter_sublist.map _)
      · intro k' hk'
        rcases List.mem_append.mp hk' with hk' | hk'
        · exact h.released k' hk'
        · obtain rfl := List.mem_singleton.mp hk'
          exact hk
      · intro i hi
        have hi' : i < s.tickets.length := hi
        by_cases hik : i = k
        · subst hik
          have houtcome : ∃ outcome : Option Outcome, s.deliveries i = outcome.toList := by
            cases h.fate i hi' with
            | waiting _ hd => exact ⟨none,hd⟩
            | answered outcome _ hd => exact ⟨some outcome,hd⟩
            | left outcome _ hd => exact ⟨outcome,hd⟩
          obtain ⟨outcome,hd⟩ := houtcome
          refine .left outcome (not_inTable_erase h hfew (by omega)) hd (by simp) ?_
          simp only [hmail]
          rw [Mailbox.slot_abandon _ _ _ hkm,if_pos rfl]
        · refine (h.fate i hi').congr (inTable_erase_iff h hfew (by omega) hik) rfl (by simp [hik]) ?_
          simp only [hmail]
          rw [Mailbox.slot_abandon _ _ _ hkm,if_neg hik]

theorem Orderly.failPending {s' : Session} (h : s.Orderly first) (reason : String)
    (hlink : s'.link = s.link.failPending reason)
    (hdel : s'.delivered = s.delivered ++ (s.link.pending.failAll reason).2)
    (htickets : s'.tickets = s.tickets) (hrel : s'.released = s.released) : s'.Orderly first := by
  let ds : List Delivery := s.link.pending.entries.map fun e => ⟨e.slot,.error (.lost reason)⟩
  have hdel' : s'.delivered = s.delivered ++ ds := hdel
  have hslots : ds.map (·.slot) = s.link.pending.entries.map (·.slot) := by simp [ds]
  have hmail : s'.link.mail = ds.foldl Mailbox.deliver s.link.mail := by rw [hlink]; rfl
  have hentries : s'.link.pending.entries = [] := by rw [hlink]; rfl
  refine ⟨by rw [htickets]; exact h.tickets,by rw [htickets,hlink]; exact h.next,
    by rw [htickets,hlink]; exact h.slots,?_,?_,?_,?_,by rw [htickets,hrel]; exact h.released,?_⟩
  · rw [hmail,htickets,Mailbox.length_foldl_deliver]
    exact h.mail
  · simp [hentries]
  · simp [hentries]
  · rw [hdel',htickets]
    intro d hd
    rcases List.mem_append.mp hd with hd | hd
    · exact h.delivered d hd
    · obtain ⟨e,he,rfl⟩ := List.mem_map.mp hd
      exact (h.entries e he).1
  · intro i hi
    rw [htickets] at hi
    have hds := deliveries_append s s' ds i hdel'
    have hgone : ¬ s'.InTable i := by simp [InTable,hentries]
    by_cases ht : s.InTable i
    · obtain ⟨e,he,hslot⟩ := ht
      have hmem : (⟨e.slot,.error (.lost reason)⟩ : Delivery) ∈ ds := List.mem_map_of_mem he
      have hone : (ds.filter (·.slot == i)).map (·.outcome) = [.error (.lost reason)] := by
        rw [← hslot]
        exact congrArg _ (Mailbox.filter_slot_of_mem (hslots ▸ h.nodup) hmem)
      refine fate_answered (h.fate i hi) ⟨e,he,hslot⟩ hgone (by rw [hds,hone]) hrel fun hw => ?_
      rw [hmail,← hslot]
      exact Mailbox.slot_foldl_deliver_of_mem (hslots ▸ h.nodup) hmem (hslot.symm ▸ hw)
    · have hnot : i ∉ ds.map (·.slot) := by
        rw [hslots]
        intro hi'
        obtain ⟨e,he,hslot⟩ := List.mem_map.mp hi'
        exact ht ⟨e,he,hslot⟩
      have hnone : ds.filter (·.slot == i) = [] := by
        rw [List.filter_eq_nil_iff]
        intro d hd hslot
        exact hnot (List.mem_map.mpr ⟨d,hd,by simpa using hslot⟩)
      refine (h.fate i hi).congr ⟨fun hh => absurd hh hgone,fun hh => absurd hh ht⟩ ?_ (by rw [hrel]) ?_
      · rw [hds,hnone]
        simp
      · rw [hmail,Mailbox.slot_foldl_deliver_of_notMem _ hnot]

theorem Orderly.proceed (h : s.Orderly first) (k : Nat) (call : CloseCall) :
    (s.proceed k call).Orderly first := by
  rcases call with ⟨reason,stage⟩
  cases stage with
  | called =>
    cases hr : s.link.closeReason with
    | none =>
      refine h.congr ?_ ?_ ?_ ?_ ?_ ?_ ?_
      all_goals simp [Session.proceed,Connection.recordReason,hr,mark]
    | some r =>
      refine h.congr ?_ ?_ ?_ ?_ ?_ ?_ ?_
      all_goals simp [Session.proceed,Connection.recordReason,hr,mark]
  | recorded => exact h.congr rfl rfl rfl rfl rfl rfl rfl
  | halted => exact h.failPending reason rfl rfl rfl rfl
  | failed => exact h.congr rfl rfl rfl rfl rfl rfl rfl
  | finished => exact h
  | late => exact h

theorem Orderly.enter {s' : Session} (h : s.Orderly first) (phase : Phase) (peer : Option String)
    (hlink : s'.link = ({ s.link with peerName := peer }.enter phase).1)
    (htickets : s'.tickets = s.tickets) (hdel : s'.delivered = s.delivered)
    (hrel : s'.released = s.released) : s'.Orderly first := by
  rcases hlink ▸ Connection.enter_cases { s.link with peerName := peer } phase with hl | hl
  all_goals
    exact h.congr htickets (by rw [hl]) (by rw [hl]) (by rw [hl]) (by rw [hl]) hdel hrel

theorem Orderly.step (h : s.Orderly first) (hfew : s.tickets.length < 2^32) (a : Act) :
    (s.step a).Orderly first := by
  cases a with
  | close reason => exact h.congr rfl rfl rfl rfl rfl rfl rfl
  | proceed k =>
    simp only [Session.step]
    cases s.closes[k]? with
    | none => exact h
    | some call => exact h.proceed k call
  | start tag => exact h.start hfew tag
  | respond reply => exact h.respond hfew reply
  | release k => exact h.release hfew k
  | ready peer => exact h.enter .ready (some peer) rfl rfl rfl rfl
  | handshake => exact h.enter .handshaking s.link.peerName rfl rfl rfl rfl

theorem tickets_proceed (s : Session) (k : Nat) (call : CloseCall) :
    (s.proceed k call).tickets = s.tickets := by
  obtain ⟨link,closes,delivered,h⟩ := s.exists_proceed_eq k call
  rw [h]

theorem tickets_step (s : Session) (a : Act) : s.tickets <+: (s.step a).tickets := by
  cases a with
  | proceed k =>
    simp only [Session.step]
    cases s.closes[k]? with
    | none => exact List.prefix_refl _
    | some call => exact tickets_proceed s k call ▸ List.prefix_refl _
  | start tag =>
    simp only [Session.step,Session.start]
    split
    · exact List.prefix_append ..
    · exact List.prefix_refl _
  | release k =>
    simp only [Session.step,Session.release]
    split
    · exact List.prefix_refl _
    · split <;> exact List.prefix_refl _
  | close reason => exact List.prefix_refl _
  | respond reply => exact List.prefix_refl _
  | ready peer => exact List.prefix_refl _
  | handshake => exact List.prefix_refl _

theorem tickets_run (s : Session) (acts : List Act) : s.tickets <+: (s.run acts).tickets := by
  induction acts generalizing s with
  | nil => exact List.prefix_refl _
  | cons a acts ih => exact (s.tickets_step a).trans (ih (s.step a))

theorem Orderly.run (h : s.Orderly first) (acts : List Act)
    (hfew : (s.run acts).tickets.length < 2^32) : (s.run acts).Orderly first := by
  induction acts generalizing s with
  | nil => exact h
  | cons a acts ih =>
    have hstep := (s.tickets_step a).length_le
    have hrest := (tickets_run (s.step a) acts).length_le
    rw [run_cons] at hfew ⊢
    exact ih (h.step (by omega) a) hfew

/-! ### Where outcomes come from -/

theorem replies_proceed (s : Session) (k : Nat) (call : CloseCall) :
    (s.proceed k call).replies = s.replies := by
  obtain ⟨link,closes,delivered,h⟩ := s.exists_proceed_eq k call
  rw [h]

theorem replies_step (s : Session) {a : Act} (h : ∀ m, a ≠ .respond m) :
    (s.step a).replies = s.replies := by
  cases a with
  | respond reply => exact absurd rfl (h reply)
  | proceed k =>
    simp only [Session.step]
    cases s.closes[k]? with
    | none => rfl
    | some call => exact replies_proceed s k call
  | start tag =>
    simp only [Session.step,Session.start]
    split <;> rfl
  | release k =>
    simp only [Session.step,Session.release]
    split
    · rfl
    · split <;> rfl
  | _ => rfl

/-- An outcome is the loss of the link, or what a reply under the request's counter means. -/
def Source (first : UInt32) (s : Session) (d : Delivery) : Prop :=
  (∃ reason, d.outcome = .error (.lost reason)) ∨
    ∃ m ∈ s.replies, m.counter = (ticketAt first d.slot).counter ∧ d.outcome = Connection.outcomeOf m

def Sourced (first : UInt32) (s : Session) : Prop := ∀ d ∈ s.delivered, Source first s d

theorem sourced_establish (name : String) (role : Role) (peerAddr : String) (counter : UInt32) :
    (establish name role peerAddr counter).Sourced counter := fun d hd => by
  simp [establish] at hd

theorem Source.mono {s' : Session} {d : Delivery} (h : Source first s d)
    (hreplies : ∀ m ∈ s.replies, m ∈ s'.replies) : Source first s' d := by
  rcases h with h | ⟨m,hm,h⟩
  · exact .inl h
  · exact .inr ⟨m,hreplies m hm,h⟩

theorem Sourced.step (h : s.Sourced first) (ho : s.Orderly first) (a : Act) :
    (s.step a).Sourced first := by
  cases a with
  | proceed k =>
    simp only [Session.step]
    cases s.closes[k]? with
    | none => exact h
    | some call =>
      have hkeep : ∀ d, Source first s d → Source first (s.proceed k call) d :=
        fun d hd => hd.mono (replies_proceed s k call ▸ fun _ => id)
      rcases call with ⟨reason,stage⟩
      intro d hd
      cases stage with
      | halted =>
        rcases List.mem_append.mp hd with hd | hd
        · exact hkeep d (h d hd)
        · obtain ⟨e,-,rfl⟩ := List.mem_map.mp hd
          exact .inl ⟨reason,rfl⟩
      | called =>
        refine hkeep d (h d ?_)
        simp only [Session.proceed] at hd
        rcases hr : s.link.recordReason reason with ⟨link,fresh⟩
        rw [hr] at hd
        cases fresh <;> exact hd
      | _ => exact hkeep d (h d hd)
  | respond reply =>
    intro d hd
    rcases List.mem_append.mp hd with hd | hd
    · exact (h d hd).mono fun m hm => List.mem_append_left _ hm
    · unfold Pending.resolve at hd
      cases hf : s.link.pending.find? reply.counter with
      | none => simp [hf] at hd
      | some e =>
        obtain ⟨he,hid⟩ := Pending.mem_of_find?_eq_some hf
        simp only [hf,Option.toList_some,List.mem_singleton] at hd
        subst hd
        exact .inr ⟨reply,by simp [Session.step,Session.respond],hid.symm.trans (ho.entries e he).2,rfl⟩
  | start tag =>
    simp only [Session.step,Session.start]
    split
    · exact h
    · exact h
  | release k =>
    simp only [Session.step,Session.release]
    split
    · exact h
    · split
      · exact h
      · exact h
  | _ => exact h

end Session
end Tether
