import Mathlib.Data.List.Induction
import Tether.Proofs.Link.Closing
import Tether.Proofs.Link.Requests

/-! Once the call that took its reason down has taken all its steps, nobody waits any more and nothing
can begin again: the table is empty for good, each request has come to one outcome or has been left by
its owner, and whoever starts a request is told the reason. -/
namespace Tether
namespace Session

/-- Outcomes are only added. -/
theorem deliveries_step (s : Session) (a : Act) (slot : Nat) :
    s.deliveries slot <+: (s.step a).deliveries slot := by
  have hgrow : s.delivered <+: (s.step a).delivered := by
    cases a with
    | proceed k =>
      simp only [Session.step]
      cases s.closes[k]? with
      | none => exact List.prefix_refl _
      | some call =>
        rcases call with ⟨reason,stage⟩
        cases stage with
        | halted => exact List.prefix_append ..
        | called =>
          simp only [proceed]
          rcases s.link.recordReason reason with ⟨link,first⟩
          cases first <;> exact List.prefix_refl _
        | _ => exact List.prefix_refl _
    | respond reply => exact List.prefix_append ..
    | start tag =>
      simp only [step,start]
      split <;> exact List.prefix_refl _
    | release k =>
      simp only [step,release]
      split
      · exact List.prefix_refl _
      · split <;> exact List.prefix_refl _
    | _ => exact List.prefix_refl _
  exact (hgrow.filter _).map _

theorem deliveries_run (s : Session) (acts : List Act) (slot : Nat) :
    s.deliveries slot <+: (s.run acts).deliveries slot := by
  induction acts generalizing s with
  | nil => exact List.prefix_refl _
  | cons a acts ih => exact (s.deliveries_step a slot).trans (ih (s.step a))

theorem Fate.length_deliveries_le {s : Session} {i : Nat} (h : s.Fate i) :
    (s.deliveries i).length ≤ 1 := by
  cases h with
  | waiting _ hd => simp [hd]
  | answered outcome _ hd => simp [hd]
  | left outcome _ hd => cases outcome <;> simp [hd]

theorem tickets_step_of_closed {s : Session} {reason : String}
    (hc : s.link.pending.closed = some reason) (a : Act) : (s.step a).tickets = s.tickets := by
  cases a with
  | start tag => simp [step,start,Connection.startRequest_of_closed hc]
  | proceed k =>
    simp only [step]
    cases s.closes[k]? with
    | none => rfl
    | some call => exact tickets_proceed s k call
  | release k =>
    simp only [step,release]
    split
    · rfl
    · split <;> rfl
  | _ => rfl

theorem tickets_run_of_closed {s : Session} {reason : String}
    (hc : s.link.pending.closed = some reason) (acts : List Act) : (s.run acts).tickets = s.tickets := by
  induction acts generalizing s with
  | nil => rfl
  | cons a acts ih =>
    rw [run_cons,ih ((s.onward_step a).closed reason hc),tickets_step_of_closed hc]

/-! ### The step that fails the requests -/

theorem closes_proceed {s : Session} {k : Nat} {call : CloseCall} (hk : s.closes[k]? = some call) :
    ∃ stage, (s.proceed k call).closes = s.closes.set k ⟨call.reason,stage⟩ ∧
      (3 ≤ stage.rank → call.stage = .halted ∨ 3 ≤ call.stage.rank) := by
  obtain ⟨hlt,hget⟩ := List.getElem?_eq_some_iff.mp hk
  have hself : s.closes = s.closes.set k call := by rw [← hget,List.set_getElem_self]
  rcases call with ⟨reason,stage⟩
  cases stage with
  | called =>
    simp only [proceed]
    rcases s.link.recordReason reason with ⟨link,first⟩
    cases first
    · exact ⟨.late,rfl,by simp [CloseStage.rank]⟩
    · exact ⟨.recorded,rfl,by simp [CloseStage.rank]⟩
  | recorded => exact ⟨.halted,rfl,by simp [CloseStage.rank]⟩
  | halted => exact ⟨.failed,rfl,fun _ => .inl rfl⟩
  | failed => exact ⟨.finished,rfl,fun _ => .inr (by simp [CloseStage.rank])⟩
  | finished => exact ⟨.finished,hself,fun _ => .inr (by simp [CloseStage.rank])⟩
  | late => exact ⟨.late,hself,by simp [CloseStage.rank]⟩

theorem of_closes_step {s : Session} {a : Act} {k : Nat} {call : CloseCall}
    (h : (s.step a).closes[k]? = some call) (hrank : 3 ≤ call.stage.rank) :
    (∃ stage, s.closes[k]? = some ⟨call.reason,stage⟩ ∧ 3 ≤ stage.rank) ∨
      a = .proceed k ∧ s.closes[k]? = some ⟨call.reason,.halted⟩ := by
  cases a with
  | close reason =>
    have hlt : k < s.closes.length := by
      by_contra hge
      simp only [step,List.getElem?_append_right (Nat.not_lt.mp hge)] at h
      obtain ⟨_,he⟩ := List.getElem?_eq_some_iff.mp h
      simp only [List.getElem_singleton] at he
      rw [← he] at hrank
      simp [CloseStage.rank] at hrank
    simp only [step,List.getElem?_append_left hlt] at h
    exact .inl ⟨call.stage,h,hrank⟩
  | proceed j =>
    simp only [step] at h
    cases hj : s.closes[j]? with
    | none =>
      rw [hj] at h
      exact .inl ⟨call.stage,h,hrank⟩
    | some c =>
      obtain ⟨stage,hset,hpast⟩ := closes_proceed hj
      rw [hj] at h
      simp only [hset] at h
      by_cases hjk : j = k
      · subst hjk
        rw [List.getElem?_set_self (List.getElem?_eq_some_iff.mp hj).1,Option.some.injEq] at h
        subst h
        rcases c with ⟨reason,stage'⟩
        rcases hpast hrank with hs | hs
        · exact .inr ⟨rfl,hs ▸ hj⟩
        · exact .inl ⟨stage',hj,hs⟩
      · rw [List.getElem?_set_ne hjk] at h
        exact .inl ⟨call.stage,h,hrank⟩
  | start tag =>
    have hsame : (s.step (.start tag)).closes = s.closes := by
      simp only [step,start]
      split <;> rfl
    exact .inl ⟨call.stage,hsame ▸ h,hrank⟩
  | release j =>
    have hsame : (s.step (.release j)).closes = s.closes := by
      simp only [step,release]
      split
      · rfl
      · split <;> rfl
    exact .inl ⟨call.stage,hsame ▸ h,hrank⟩
  | _ => exact .inl ⟨call.stage,h,hrank⟩

theorem exists_failing_step {s : Session} {acts : List Act} {k : Nat} {call : CloseCall}
    (hnone : s.closes = []) (h : (s.run acts).closes[k]? = some call) (hrank : 3 ≤ call.stage.rank) :
    ∃ before after, acts = before ++ .proceed k :: after ∧
      (s.run before).closes[k]? = some ⟨call.reason,.halted⟩ := by
  induction acts using List.reverseRecOn generalizing call with
  | nil => simp [hnone] at h
  | append_singleton acts a ih =>
    rw [run_append] at h
    rcases of_closes_step h hrank with ⟨stage,hstage,hrank'⟩ | ⟨rfl,hhalted⟩
    · obtain ⟨before,after,rfl,hb⟩ := ih hstage hrank'
      exact ⟨before,after ++ [a],by simp,hb⟩
    · exact ⟨acts,[],rfl,hhalted⟩

theorem deliveries_failing_step {s : Session} {first : UInt32} (h : s.Orderly first) {k : Nat}
    {reason : String} (hk : s.closes[k]? = some ⟨reason,.halted⟩) {e : PendingEntry}
    (he : e ∈ s.link.pending.entries) :
    (s.step (.proceed k)).deliveries e.slot = [.error (.lost reason)] := by
  have hnone : s.deliveries e.slot = [] := by
    cases h.fate e.slot (h.entries e he).1 with
    | waiting _ hd => exact hd
    | answered _ hn => exact absurd ⟨e,he,rfl⟩ hn
    | left _ hn => exact absurd ⟨e,he,rfl⟩ hn
  let ds : List Delivery := s.link.pending.entries.map fun e => ⟨e.slot,.error (.lost reason)⟩
  have hdel : (s.step (.proceed k)).delivered = s.delivered ++ ds := by
    simp only [step,hk]
    rfl
  have hslots : ds.map (·.slot) = s.link.pending.entries.map (·.slot) := by simp [ds]
  have hone : ds.filter (·.slot == e.slot) = [⟨e.slot,.error (.lost reason)⟩] :=
    Mailbox.filter_slot_of_mem (hslots ▸ h.nodup)
      (List.mem_map_of_mem (f := fun e => ⟨e.slot,.error (.lost reason)⟩) he)
  rw [deliveries_append s _ ds e.slot hdel,hnone,hone]
  rfl

/-- A finished call to close, and whatever happens afterwards. Before it nothing is assumed but that the
link began empty: calls to close may overlap, requests may be started between any two steps of them, and
the link may still become ready. -/
theorem settled_of_finished (name : String) (role : Role) (peerAddr : String) (counter : UInt32)
    (acts later : List Act) (k : Nat) (reason : String)
    (hfew : ((establish name role peerAddr counter).run (acts ++ later)).tickets.length < 2^32)
    (hdone : ((establish name role peerAddr counter).run acts).closes[k]? = some ⟨reason,.finished⟩) :
    let s := (establish name role peerAddr counter).run acts
    let s' := (establish name role peerAddr counter).run (acts ++ later)
    s'.link.pending.entries = [] ∧
    (∀ i t, s.tickets[i]? = some t →
      (∃ outcome, s'.deliveries t.slot = [outcome] ∧
        (i ∉ s'.released → s'.link.outcome? t = some outcome)) ∨
      i ∈ s'.released ∧ s'.deliveries t.slot = []) ∧
    (∃ before after, acts = before ++ .proceed k :: after ∧
      ((establish name role peerAddr counter).run before).closes[k]? = some ⟨reason,.halted⟩ ∧
      ∀ e ∈ ((establish name role peerAddr counter).run before).link.pending.entries,
        s'.deliveries e.slot = [.error (.lost reason)]) ∧
    s'.tickets = s.tickets ∧
    (∀ tag, s'.link.startRequest tag = .error (.lost reason)) ∧
    s'.link.closeReason = some reason ∧
    s'.link.phase = .disconnected := by
  intro s s'
  have hs' : s' = s.run later := run_append ..
  have hshows := ((staged_establish name role peerAddr counter).run acts).calls _
    (List.mem_of_getElem? hdone)
  have hclosed : s.link.pending.closed = some reason := hshows.closed (by simp [CloseStage.rank])
  have hgone : s.link.phase = .disconnected := hshows.gone (by simp [CloseStage.rank])
  have honward : s.link.Onward s'.link := hs' ▸ s.onward_run later
  have hclosed' := honward.closed reason hclosed
  have hstaged : s'.Staged := (staged_establish name role peerAddr counter).run (acts ++ later)
  obtain ⟨hreason,-,hempty⟩ := hstaged.table reason hclosed'
  have horderly : s'.Orderly counter := (orderly_establish name role peerAddr counter).run _ hfew
  have htickets : s'.tickets = s.tickets := hs' ▸ tickets_run_of_closed hclosed later
  refine ⟨hempty,?_,?_,htickets,Connection.startRequest_of_closed hclosed',hreason,honward.gone hgone⟩
  · intro i t ht
    obtain ⟨hi,rfl⟩ := horderly.ticket (htickets ▸ ht)
    cases horderly.fate i hi with
    | waiting hin => simp [InTable,hempty] at hin
    | answered outcome _ hd hr hm =>
      refine .inl ⟨outcome,hd,fun _ => ?_⟩
      simp [Connection.outcome?,ticketAt,hm]
    | left outcome _ hd hr _ =>
      cases outcome with
      | none => exact .inr ⟨hr,hd⟩
      | some outcome => exact .inl ⟨outcome,hd,fun hn => absurd hr hn⟩
  · obtain ⟨before,after,rfl,hhalted⟩ := exists_failing_step rfl hdone (by simp [CloseStage.rank])
    refine ⟨before,after,rfl,hhalted,fun e he => ?_⟩
    let s₀ := (establish name role peerAddr counter).run before
    have hrest : s' = (s₀.step (.proceed k)).run (after ++ later) := by
      simp [s',s₀,run_append]
    have hgrow := hrest ▸ (s₀.tickets_step (.proceed k)).trans (tickets_run _ (after ++ later))
    have horderly₀ : s₀.Orderly counter := (orderly_establish name role peerAddr counter).run before
      (Nat.lt_of_le_of_lt hgrow.length_le hfew)
    have hone := deliveries_failing_step horderly₀ hhalted he
    have hlater := deliveries_run (s₀.step (.proceed k)) (after ++ later) e.slot
    rw [hone,← hrest] at hlater
    have hslot := Nat.lt_of_lt_of_le (horderly₀.entries e he).1 hgrow.length_le
    have hle := (horderly.fate e.slot hslot).length_deliveries_le
    exact (hlater.eq_of_length_le (by simpa using hle)).symm

/-- Two calls overlap; a reply comes and two more requests are started while the first one is closing. -/
theorem settled_of_overlapping :
    let acts : List Act :=
      [.start .echo,.close "first",.close "second",.proceed 0,.start .echo,.proceed 1,.proceed 0,
        .respond ⟨7,.ok,true,[1]⟩,.start .echo,.proceed 0,.ready "peer",.proceed 0]
    let s' := (establish "own" .initiator "address" 7).run
      (acts ++ [.start .echo,.ready "peer",.proceed 1])
    s'.link.pending.entries = [] ∧ s'.tickets.length = 3 ∧
      (∀ tag, s'.link.startRequest tag = .error (.lost "first")) ∧
      s'.link.closeReason = some "first" ∧ s'.link.phase = .disconnected := by
  intro acts s'
  have h := settled_of_finished "own" .initiator "address" 7 acts
    [.start .echo,.ready "peer",.proceed 1] 0 "first" (by decide) rfl
  obtain ⟨hempty,-,-,htickets,hstart,hreason,hphase⟩ := h
  exact ⟨hempty,congrArg List.length htickets,hstart,hreason,hphase⟩

end Session
end Tether
