import Tether.Proofs.Link.Asking
import Tether.Proofs.Link.Owning

/-! The life of a link: connecting, handshaking, ready, disconnected. It goes back in one case only, when a
ready link says hello anew. A disconnected link stays so for good, with its reason, its table of requests
and everything else, but for the name of the peer, which any later mark of readiness replaces. -/
namespace Tether

/-- The phases in the order in which a link goes through them. -/
def Phase.rank : Phase → Nat
  | .connecting => 0
  | .handshaking => 1
  | .ready => 2
  | .disconnected => 3

theorem Phase.rank_le (p : Phase) : p.rank ≤ Phase.disconnected.rank := by
  cases p <;> decide

theorem Connection.rank_enter_le {c : Connection} {phase : Phase}
    (h : c.phase = .disconnected ∨ c.phase.rank ≤ phase.rank) :
    c.phase.rank ≤ (c.enter phase).1.phase.rank := by
  unfold enter
  split
  · exact Nat.le_refl _
  · rename_i hstays
    exact h.resolve_left fun hd => hstays (.inl hd)

namespace Session

variable {s : Session}

theorem rank_proceed (s : Session) (k : Nat) (call : CloseCall) :
    s.link.phase.rank ≤ (s.proceed k call).link.phase.rank := by
  rcases call with ⟨reason,stage⟩
  cases stage with
  | called =>
    have hphase : (s.link.recordReason reason).1.phase = s.link.phase := by
      unfold Connection.recordReason
      split <;> rfl
    unfold proceed
    rcases hr : s.link.recordReason reason with ⟨link,first⟩
    rw [hr] at hphase
    cases first <;> exact Nat.le_of_eq (congrArg Phase.rank hphase.symm)
  | failed => exact Phase.rank_le _
  | _ => exact Nat.le_refl _

/-- An act that is not a new hello on a ready link leads onward. -/
theorem rank_step {a : Act} (h : a = .handshake → s.link.phase ≠ .ready) :
    s.link.phase.rank ≤ (s.step a).link.phase.rank := by
  cases a with
  | close reason => exact Nat.le_refl _
  | proceed k =>
    simp only [step]
    cases s.closes[k]? with
    | none => exact Nat.le_refl _
    | some call => exact s.rank_proceed k call
  | start tag =>
    simp only [step,start]
    cases hs : s.link.startRequest tag with
    | error e => exact Nat.le_refl _
    | ok result => exact Nat.le_of_eq (congrArg Phase.rank (Connection.unmoved_startRequest hs).phase.symm)
  | respond reply =>
    exact Nat.le_of_eq (congrArg Phase.rank (s.link.unmoved_processResponse reply).phase.symm)
  | release k =>
    simp only [step,release]
    split
    · exact Nat.le_refl _
    · split <;> exact Nat.le_refl _
  | ready peer =>
    refine Connection.rank_enter_le (c := { s.link with peerName := some peer }) ?_
    cases s.link.phase <;> decide
  | handshake =>
    refine Connection.rank_enter_le ?_
    have hnot := h rfl
    revert hnot
    cases s.link.phase <;> decide

theorem rank_run_of_plain {acts : List Act} (h : ∀ a ∈ acts, a.Plain) :
    s.link.phase.rank ≤ (s.run acts).link.phase.rank := by
  induction acts generalizing s with
  | nil => exact Nat.le_refl _
  | cons a acts ih =>
    simp only [List.mem_cons,forall_eq_or_imp] at h
    refine (rank_step fun ha => ?_).trans (ih h.2)
    exact absurd h.1 (ha ▸ id)

theorem link_run_of_disconnected (hs : s.Staged) (ho : s.Owned) (hd : s.link.phase = .disconnected)
    {acts : List Act} (h : ∀ a ∈ acts, a.Plain) :
    ∃ mail, (s.run acts).link = { s.link with mail } := by
  induction acts generalizing s with
  | nil => exact ⟨_,rfl⟩
  | cons a acts ih =>
    simp only [List.mem_cons,forall_eq_or_imp] at h
    obtain ⟨mail,hlink⟩ := link_step_of_disconnected hs ho hd a
    rw [named?_of_plain h.1,Option.none_or] at hlink
    obtain ⟨mail',hlink'⟩ := ih (hs.step a) (ho.step a) ((s.onward_step a).gone hd) h.2
    exact ⟨mail',by rw [run_cons,hlink',hlink]⟩

end Session

namespace Endpoint

variable {codec : Codec} {e : Endpoint}

/-- What holds of an endpoint from its beginning: its uploads are of a length that can be expressed, and
one call at most closes its link. -/
structure Living (e : Endpoint) : Prop where
  bounded : ∀ x ∈ e.errands, x.Bounded
  staged : e.session.Staged
  owned : e.session.Owned

theorem living_establish (name : String) (role : Role) (peerAddr : String) (counter : UInt32) :
    (establish name role peerAddr counter).Living :=
  ⟨fun _ hx => absurd hx List.not_mem_nil,Session.staged_establish ..,Session.owned_establish ..⟩

theorem Living.after (h : e.Living) (codec : Codec) (ev : Event) : (e.after codec ev).Living := by
  cases ev with
  | feed bytes => exact ⟨h.bounded,h.staged,h.owned⟩
  | move m =>
    have hs := @step_cases codec e h.bounded m
    obtain ⟨acts,hacts,-⟩ := hs.session
    exact ⟨hs.bounded h.bounded,hacts ▸ h.staged.run acts,hacts ▸ h.owned.run acts⟩

theorem Living.run (h : e.Living) (codec : Codec) (events : List Event) : (e.run codec events).Living := by
  induction events generalizing e with
  | nil => exact h
  | cons ev events ih => exact ih (h.after codec ev)

theorem Living.exists_acts (h : e.Living) (codec : Codec) (events : List Event) :
    ∃ acts, (e.run codec events).session = e.session.run acts := by
  induction events generalizing e with
  | nil => exact ⟨[],rfl⟩
  | cons ev events ih =>
    obtain ⟨rest,hrest⟩ := ih (h.after codec ev)
    have hfirst : ∃ acts, (e.after codec ev).session = e.session.run acts := by
      cases ev with
      | feed bytes => exact ⟨[],rfl⟩
      | move m =>
        obtain ⟨acts,hacts,-⟩ := (@step_cases codec e h.bounded m).session
        exact ⟨acts,hacts⟩
    obtain ⟨acts,hacts⟩ := hfirst
    exact ⟨acts ++ rest,by rw [run_cons,hrest,hacts,Session.run_append]⟩

def Event.named? : Event → Option String
  | .move (.ready peer) => some peer
  | _ => none

theorem Living.session_after (h : e.Living) (codec : Codec) (ev : Event) :
    (∃ peer, ev = .move (.ready peer)) ∨ ev = .move .handshake ∨
      ev.named? = none ∧ ∃ acts, (e.after codec ev).session = e.session.run acts ∧ ∀ a ∈ acts, a.Plain := by
  cases ev with
  | feed bytes => exact .inr (.inr ⟨rfl,[],rfl,by simp⟩)
  | move m =>
    obtain ⟨acts,hacts,hplain | ⟨a,ha,-⟩⟩ := (@step_cases codec e h.bounded m).session
    · cases m with
      | ready peer => exact .inl ⟨peer,rfl⟩
      | handshake => exact .inr (.inl rfl)
      | _ => exact .inr (.inr ⟨rfl,acts,hacts,hplain⟩)
    · cases m with
      | ready peer => exact .inl ⟨peer,rfl⟩
      | handshake => exact .inr (.inl rfl)
      | _ => simp [Move.entry?] at ha

theorem Living.rank_after (h : e.Living) (ev : Event)
    (hev : ev = .move .handshake → e.session.link.phase ≠ .ready) :
    e.session.link.phase.rank ≤ (e.after codec ev).session.link.phase.rank := by
  rcases h.session_after codec ev with ⟨peer,rfl⟩ | rfl | ⟨-,acts,hacts,hplain⟩
  · exact Session.rank_step (a := .ready peer) (by simp)
  · exact Session.rank_step fun _ => hev rfl
  · rw [hacts]
    exact Session.rank_run_of_plain hplain

theorem Living.rank_run (h : e.Living) {events : List Event}
    (hevents : ∀ before after, events = before ++ .move .handshake :: after →
      (e.run codec before).session.link.phase ≠ .ready) :
    e.session.link.phase.rank ≤ (e.run codec events).session.link.phase.rank := by
  induction events generalizing e with
  | nil => exact Nat.le_refl _
  | cons ev events ih =>
    refine (h.rank_after ev ?_).trans (ih (h.after codec ev) fun before after hsplit => ?_)
    · rintro rfl
      exact hevents [] events rfl
    · exact hevents (ev :: before) after (by rw [hsplit]; rfl)

theorem phase_handshake_of_ready (codec : Codec) (h : e.session.link.phase = .ready) :
    (e.after codec (.move .handshake)).session.link.phase = .handshaking := by
  simp [after,step,Session.step,Connection.enter,h]

theorem Living.link_after (h : e.Living) (codec : Codec) (hd : e.session.link.phase = .disconnected)
    (ev : Event) :
    ∃ mail, (e.after codec ev).session.link =
      { e.session.link with peerName := ev.named?.or e.session.link.peerName, mail } := by
  rcases h.session_after codec ev with ⟨peer,rfl⟩ | rfl | ⟨hnone,acts,hacts,hplain⟩
  · exact Session.link_step_of_disconnected h.staged h.owned hd (.ready peer)
  · exact Session.link_step_of_disconnected h.staged h.owned hd .handshake
  · obtain ⟨mail,hlink⟩ := Session.link_run_of_disconnected h.staged h.owned hd hplain
    exact ⟨mail,by rw [hacts,hlink,hnone,Option.none_or]⟩

theorem Living.link_run (h : e.Living) (hd : e.session.link.phase = .disconnected) (events : List Event) :
    ∃ mail, (e.run codec events).session.link =
      { e.session.link with
        peerName := (events.filterMap Event.named?).getLast?.or e.session.link.peerName, mail } := by
  induction events generalizing e with
  | nil => exact ⟨_,rfl⟩
  | cons ev events ih =>
    obtain ⟨mail,hlink⟩ := h.link_after codec hd ev
    obtain ⟨mail',hlink'⟩ := ih (h.after codec ev) (by rw [hlink]; exact hd)
    refine ⟨mail',?_⟩
    rw [run_cons,hlink',hlink]
    cases hn : ev.named? with
    | none => simp [hn]
    | some peer => simp [hn,List.getLast?_cons]

/-- A link goes back by one event in one phase only, a handshake when it is ready, and otherwise onward.
Disconnected, it has a reason, and nothing but the name of its peer and the slots of its requests changes
any more; the name is the last one that a mark of readiness gave. -/
theorem lifecycle_of_run (codec : Codec) (name : String) (role : Role) (peerAddr : String)
    (counter : UInt32) (events : List Event) :
    let e := (establish name role peerAddr counter).run codec events
    (∀ ev, (e.after codec ev).session.link.phase.rank < e.session.link.phase.rank ↔
      ev = .move .handshake ∧ e.session.link.phase = .ready) ∧
    (∀ later, (∀ before after, later = before ++ .move .handshake :: after →
        (e.run codec before).session.link.phase ≠ .ready) →
      e.session.link.phase.rank ≤ (e.run codec later).session.link.phase.rank) ∧
    (e.session.link.phase = .disconnected → e.session.link.closeReason.isSome ∧
      ∀ later, ∃ mail, (e.run codec later).session.link =
        { e.session.link with
          peerName := (later.filterMap Event.named?).getLast?.or e.session.link.peerName, mail }) := by
  intro e
  have h : e.Living := (living_establish name role peerAddr counter).run codec events
  refine ⟨fun ev => ⟨fun hlt => ?_,?_⟩,fun later => h.rank_run,fun hd => ⟨?_,h.link_run hd⟩⟩
  · by_contra hnot
    exact Nat.not_le_of_lt hlt (h.rank_after ev fun hev hready => hnot ⟨hev,hready⟩)
  · rintro ⟨rfl,hready⟩
    rw [phase_handshake_of_ready codec hready,hready]
    decide
  · obtain ⟨reason,hreason⟩ := Option.isSome_iff_exists.mp (h.staged.phase hd)
    rw [(h.staged.table reason hreason).1]
    rfl

/-- A worker that was served and is gone: it goes nowhere from there, and keeps its name unless it is
given another. -/
theorem lifecycle_of_run_served :
    let e := (establish "master" .acceptor "address" 7).run {}
      (.move (.ready "worker") :: .move (.close "bye") :: List.replicate 4 (.move (.proceed 0)))
    (∀ ev, ¬ (e.after {} ev).session.link.phase.rank < e.session.link.phase.rank) ∧
      ∀ later, (e.run {} later).session.link.phase = .disconnected ∧
        (e.run {} later).session.link.closeReason = some "bye" ∧
        (e.run {} later).session.link.pending = e.session.link.pending ∧
        (e.run {} later).session.link.peerName =
          (later.filterMap Event.named?).getLast?.or (some "worker") := by
  intro e
  obtain ⟨hback,-,hgone⟩ := lifecycle_of_run {} "master" .acceptor "address" 7
    (.move (.ready "worker") :: .move (.close "bye") :: List.replicate 4 (.move (.proceed 0)))
  have hphase : e.session.link.phase = .disconnected := by decide
  have hreason : e.session.link.closeReason = some "bye" := by decide
  refine ⟨fun ev hlt => ?_,fun later => ?_⟩
  · have hready := ((hback ev).mp hlt).2
    rw [hphase] at hready
    exact absurd hready (by decide)
  · obtain ⟨mail,hlink⟩ := (hgone hphase).2 later
    rw [hlink]
    exact ⟨hphase,hreason,rfl,rfl⟩

/-- A closed link takes the name that a late mark of readiness gives, and a ready one that says hello
anew is handshaking again. -/
theorem named_after_close_and_handshaking_after_ready :
    let gone := (establish "master" .acceptor "address" 7).run {}
      (.move (.close "bye") :: List.replicate 4 (.move (.proceed 0)))
    let greeted := (establish "worker" .initiator "address" 7).run {}
      [.move .handshake,.move (.ready "master")]
    (gone.session.link.phase = .disconnected ∧ gone.session.link.peerName = none ∧
      (gone.after {} (.move (.ready "late"))).session.link.peerName = some "late") ∧
    greeted.session.link.phase = .ready ∧
      (greeted.after {} (.move .handshake)).session.link.phase = .handshaking := by
  decide

end Endpoint
end Tether
