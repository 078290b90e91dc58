import Tether.Proofs.Link.Finding

/-! What decides a request, and how a call goes on. A request hears the reply that finds it in the table, and
that reply is what it comes to; if it hears none, it comes to nothing or to the loss of the link. -/
namespace Tether

namespace Session

variable {first : UInt32} {s : Session} {heard : List Message} {i : Nat}

/-- What a request has come to, in view of the replies that it has heard. -/
inductive Decided (first : UInt32) (s : Session) (heard : List Message) (i : Nat) : Prop
  | waiting : heard = [] → s.deliveries i = [] → Decided first s heard i
  | lost (reason : String) : heard = [] → s.deliveries i = [.error (.lost reason)] →
    s.link.closeReason = some reason → Decided first s heard i
  | answered (m : Message) : heard = [m] → m.counter = (ticketAt first i).counter →
    s.deliveries i = [Connection.outcomeOf m] → Decided first s heard i

theorem Decided.congr {s' : Session} (h : s.Decided first heard i)
    (hdeliveries : s'.deliveries i = s.deliveries i) (ho : s.link.Onward s'.link) :
    s'.Decided first heard i := by
  cases h with
  | waiting hnone hd => exact .waiting hnone (hdeliveries.trans hd)
  | lost reason hnone hd hr => exact .lost reason hnone (hdeliveries.trans hd) (ho.reason reason hr)
  | answered m hm hcounter hd => exact .answered m hm hcounter (hdeliveries.trans hd)

theorem InTable.deliveries_eq_nil (ht : s.InTable i) (hf : s.Fate i) : s.deliveries i = [] := by
  cases hf with
  | waiting _ hd => exact hd
  | answered _ hn => exact absurd ht hn
  | left _ hn => exact absurd ht hn

/-- A step of a call to close decides nobody, or those who wait, for its reason. -/
theorem Decided.proceed (h : s.Decided first heard i) (ho : s.Orderly first) (hs : s.Staged) {k : Nat}
    {call : CloseCall} (hk : s.closes[k]? = some call) : (s.proceed k call).Decided first heard i := by
  have honward := s.onward_proceed k call
  rcases call with ⟨reason,stage⟩
  cases stage with
  | called =>
    refine h.congr ?_ honward
    simp only [Session.proceed]
    rcases s.link.recordReason reason with ⟨link,fresh⟩
    cases fresh <;> rfl
  | halted =>
    let ds := s.link.pending.entries.map fun e => (⟨e.slot,.error (.lost reason)⟩ : Delivery)
    have hds := deliveries_append s (s.proceed k ⟨reason,.halted⟩) ds i rfl
    by_cases ht : s.InTable i
    · obtain ⟨e,he,rfl⟩ := ht
      have hnone := InTable.deliveries_eq_nil ⟨e,he,rfl⟩ (ho.fate e.slot (ho.entries e he).1)
      have hlost : (s.proceed k ⟨reason,.halted⟩).deliveries e.slot = [.error (.lost reason)] := by
        have hstep := deliveries_failing_step ho hk he
        rwa [step,hk] at hstep
      have hreason : s.link.closeReason = some reason :=
        (hs.calls _ (List.mem_of_getElem? hk)).reason (by simp [CloseStage.rank])
      cases h with
      | waiting hh _ => exact .lost reason hh hlost (honward.reason reason hreason)
      | lost _ _ hd => simp [hnone] at hd
      | answered m _ _ hd => simp [hnone] at hd
    · have hmiss : ds.filter (·.slot == i) = [] := by
        rw [List.filter_eq_nil_iff]
        intro d hd hslot
        obtain ⟨e,he,rfl⟩ := List.mem_map.mp hd
        exact ht ⟨e,he,by simpa using hslot⟩
      rw [hmiss,List.map_nil,List.append_nil] at hds
      exact h.congr hds honward
  | _ => exact h.congr rfl honward

theorem Decided.step (h : s.Decided first heard i) (ho : s.Orderly first) (hs : s.Staged) {a : Act}
    (ha : ∀ m, a ≠ .respond m) : (s.step a).Decided first heard i := by
  have honward := s.onward_step a
  cases a with
  | respond m => exact absurd rfl (ha m)
  | proceed k =>
    simp only [Session.step]
    cases hk : s.closes[k]? with
    | none => exact h
    | some call => exact h.proceed ho hs hk
  | start tag =>
    refine h.congr ?_ honward
    simp only [Session.step,start]
    split <;> rfl
  | release k =>
    refine h.congr ?_ honward
    simp only [Session.step,Session.release]
    split
    · rfl
    · split <;> rfl
  | _ => exact h.congr rfl honward

theorem Decided.run (h : s.Decided first heard i) (hsound : s.Sound first) {acts : List Act}
    (ha : ∀ a ∈ acts, ∀ m, a ≠ .respond m) (hfew : (s.run acts).tickets.length < 2^32) :
    (s.run acts).Decided first heard i := by
  induction acts generalizing s with
  | nil => exact h
  | cons a acts ih =>
    simp only [List.mem_cons,forall_eq_or_imp] at ha
    have hstep := (tickets_run (s.step a) acts).length_le
    rw [run_cons] at hfew
    exact ih (h.step hsound.orderly hsound.staged ha.1) (hsound.run [a] (by simpa using by omega)) ha.2 hfew

/-- The requests that are registered under the counter of a message. -/
def hearers (s : Session) (m : Message) : List Nat :=
  (s.link.pending.entries.filter (·.id == m.counter)).map (·.slot)

theorem hearers_eq_nil {m : Message} (h : s.link.pending.find? m.counter = none) : s.hearers m = [] := by
  rw [hearers,List.map_eq_nil_iff,List.filter_eq_nil_iff]
  exact fun e he hid => (Pending.find?_eq_none_iff _ _).mp h e he (beq_iff_eq.mp hid)

theorem Orderly.hearers_eq (h : s.Orderly first) (hfew : s.tickets.length < 2^32) {e : PendingEntry}
    (he : e ∈ s.link.pending.entries) {m : Message} (hid : e.id = m.counter) : s.hearers m = [e.slot] := by
  have hcounter : m.counter = (ticketAt first e.slot).counter := hid.symm.trans (h.entries e he).2
  have hsame : s.link.pending.entries.filter (·.id == m.counter) =
      s.link.pending.entries.filter (·.slot == e.slot) := by
    refine List.filter_congr fun e' he' => Bool.eq_iff_iff.mpr ?_
    simp only [beq_iff_eq,hcounter]
    exact h.id_eq_iff hfew he' (Nat.lt_trans (h.entries e he).1 hfew)
  rw [hearers,hsame,filter_key_of_mem PendingEntry.slot h.nodup he]
  rfl

/-- A reply decides the request that it finds, and no other. -/
theorem Decided.respond (h : s.Decided first heard i) (ho : s.Orderly first)
    (hfew : s.tickets.length < 2^32) (m : Message) :
    (s.step (.respond m)).Decided first (heard ++ ((s.hearers m).filter (· == i)).map fun _ => m) i := by
  have honward := s.onward_step (.respond m)
  cases hf : s.link.pending.find? m.counter with
  | none =>
    rw [hearers_eq_nil hf,List.filter_nil,List.map_nil,List.append_nil]
    exact h.congr (by simp [Session.step,Session.respond,deliveries,Pending.resolve,hf]) honward
  | some e =>
    obtain ⟨he,hid⟩ := Pending.mem_of_find?_eq_some hf
    obtain ⟨hslot,hcounter⟩ := ho.entries e he
    have hds := deliveries_append s (s.step (.respond m)) [⟨e.slot,Connection.outcomeOf m⟩] i
      (by simp [Session.step,Session.respond,Pending.resolve,hf])
    rw [ho.hearers_eq hfew he hid]
    by_cases hi : e.slot = i
    · subst hi
      have hnone := InTable.deliveries_eq_nil ⟨e,he,rfl⟩ (ho.fate e.slot hslot)
      have hheard : heard = [] := by
        cases h with
        | waiting hh _ => exact hh
        | lost _ hh => exact hh
        | answered m' _ _ hd => simp [hnone] at hd
      exact .answered m (by simp [hheard]) (hid.symm.trans hcounter) (by simpa [hnone] using hds)
    · simp only [List.filter_cons,List.filter_nil,beq_iff_eq,hi,if_false,List.map_nil,List.append_nil]
      exact h.congr (by simpa [hi] using hds) honward

theorem Orderly.outcome?_eq (h : s.Orderly first) (hi : i < s.tickets.length) (hr : i ∉ s.released) :
    s.link.outcome? (ticketAt first i) = (s.deliveries i).head? ∧
      (s.link.outcome? (ticketAt first i) = none → s.InTable i) := by
  simp only [Connection.outcome?,ticketAt]
  cases h.fate i hi with
  | waiting ht hd _ hm => exact ⟨by simp [hm,hd],fun _ => ht⟩
  | answered o _ hd _ hm => exact ⟨by simp [hm,hd],fun hnone => by simp [hm] at hnone⟩
  | left _ _ _ hleft _ => exact absurd hleft hr

theorem released_step {a : Act} (h : ∀ k, a ≠ .release k) : (s.step a).released = s.released := by
  cases a with
  | release k => exact absurd rfl (h k)
  | proceed k =>
    simp only [step]
    cases s.closes[k]? with
    | none => rfl
    | some call =>
      obtain ⟨link,closes,delivered,hproceed⟩ := s.exists_proceed_eq k call
      simp only [hproceed]
  | start tag =>
    simp only [step,start]
    split <;> rfl
  | _ => rfl

theorem released_release {k : Nat} (h : i ∈ (s.step (.release k)).released) : i ∈ s.released ∨ i = k := by
  simp only [step,release] at h
  split at h
  · exact .inl h
  · split at h
    · exact .inl h
    · simpa using h

/-! ### What a reply leaves alone -/

theorem entries_respond (s : Session) (m : Message) :
    (s.step (.respond m)).link.pending.entries = s.link.pending.entries.filter (·.id != m.counter) := by
  cases hf : s.link.pending.find? m.counter with
  | none =>
    have hall : s.link.pending.entries.filter (·.id != m.counter) = s.link.pending.entries := by
      rw [List.filter_eq_self]
      exact fun e he => by simpa using (Pending.find?_eq_none_iff _ _).mp hf e he
    rw [hall]
    simp [step,Session.respond,Connection.processResponse,Pending.resolve,hf]
  | some e => simp [step,Session.respond,Connection.processResponse,Pending.resolve,Pending.erase,hf]

theorem link_respond_of_hearers {m : Message} (h : s.hearers m = []) :
    (s.step (.respond m)).link = s.link := by
  have hf : s.link.pending.find? m.counter = none := by
    rw [hearers,List.map_eq_nil_iff,List.filter_eq_nil_iff] at h
    exact (Pending.find?_eq_none_iff _ _).mpr fun e he hid => h e he (beq_iff_eq.mpr hid)
  simp [step,Session.respond,Connection.processResponse,Pending.resolve,hf]

theorem Orderly.outcome?_respond (h : s.Orderly first) {m : Message}
    (hne : (ticketAt first i).counter ≠ m.counter) :
    (s.step (.respond m)).link.outcome? (ticketAt first i) = s.link.outcome? (ticketAt first i) := by
  cases hf : s.link.pending.find? m.counter with
  | none => rw [link_respond_of_hearers (hearers_eq_nil hf)]
  | some e =>
    obtain ⟨he,hid⟩ := Pending.mem_of_find?_eq_some hf
    have hslot : i ≠ e.slot := by
      rintro rfl
      exact hne ((h.entries e he).2.symm.trans hid)
    have hmail : (s.step (.respond m)).link.mail = s.link.mail.deliver ⟨e.slot,Connection.outcomeOf m⟩ := by
      simp [Session.step,Session.respond,Connection.processResponse,Pending.resolve,hf]
    simp only [Connection.outcome?,hmail,ticketAt]
    rw [Mailbox.slot_deliver_of_ne _ _ hslot]

end Session

namespace Endpoint

variable {codec : Codec} {e : Endpoint}

def replies (codec : Codec) (e : Endpoint) (ev : Event) : List Message :=
  (Arrival.messages (notes codec e ev)).filter (·.response)

theorem exists_route {ev : Event} {m : Message} (h : .message m ∈ notes codec e ev) :
    ∃ inbound, e.after codec ev = { e with inbound }.route m := by
  by_cases hdecode : ev = .move .decode
  · subst hdecode
    have hd := decodes codec e
    simp only [after,step]
    generalize e.decode codec = e',notes codec e (.move .decode) = found at hd h ⊢
    cases hd with
    | found d ra f m' =>
      obtain rfl : m = m' := by simpa using h
      exact ⟨⟨d,ra⟩,rfl⟩
    | _ => simp at h
  · simp [notes_of_ne hdecode] at h

/-- An event finds a reply and hands it over, or it finds none and hands none over. -/
theorem Living.session_after_of_replies (h : e.Living) (codec : Codec) (ev : Event) :
    (replies codec e ev = [] ∧ ∃ acts, (e.after codec ev).session = e.session.run acts ∧
      ∀ a ∈ acts, ∀ m, a ≠ .respond m) ∨
    ∃ m, replies codec e ev = [m] ∧ (e.after codec ev).session = e.session.step (.respond m) := by
  by_cases hrouted : (e.after codec ev).routed = e.routed
  · have hnone : Arrival.messages (notes codec e ev) = [] := by
      rw [routed_after] at hrouted
      exact List.append_right_eq_self.mp hrouted
    exact .inl ⟨by simp [replies,hnone],h.session_after_of_routed hrouted⟩
  · by_cases hdecode : ev = .move .decode
    · subst hdecode
      have hd := decodes codec e
      simp only [Endpoint.after,Endpoint.step,replies] at hrouted ⊢
      generalize e.decode codec = e',notes codec e (.move .decode) = found at hd hrouted ⊢
      cases hd with
      | found d ra f m =>
        have hone : Arrival.messages [.frame (Inbound.frameSize f),.message m] = [m] := rfl
        unfold route
        cases hm : m.response with
        | true => exact .inr ⟨m,by simp [hone,hm],rfl⟩
        | false => exact .inl ⟨by simp [hone,hm],[],rfl,by simp⟩
      | _ => exact absurd rfl hrouted
    · rw [routed_after,notes_of_ne hdecode] at hrouted
      exact absurd (List.append_nil _) hrouted

end Endpoint
end Tether
