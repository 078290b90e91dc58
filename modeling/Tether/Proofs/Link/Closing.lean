import Tether.Proofs.Link.Session

/-! How far closing has come shows in the link: a call that took its reason down owns it, and each later
step of it leaves a mark that no task undoes. -/
namespace Tether

namespace Connection

theorem of_allocate_ok {tag : Tag} {p p' : Pending} {counter : UInt32} {ticket : Ticket} {fuel : Nat}
    (h : allocate tag p counter fuel = .ok (p',ticket)) : p.closed = none ∧ p'.closed = none := by
  induction fuel generalizing counter with
  | zero => simp [allocate] at h
  | succ fuel ih =>
    rw [allocate] at h
    cases hc : p.closed with
    | some reason => simp [Pending.register_of_closed hc] at h
    | none =>
      unfold Pending.register at h
      rw [hc] at h
      by_cases hcontains : p.contains counter = true
      · simp only [hcontains,if_true] at h
        exact ⟨rfl,(ih h).2⟩
      · simp only [hcontains,Bool.false_eq_true,if_false,Except.ok.injEq,Prod.mk.injEq] at h
        exact ⟨rfl,by rw [← h.1]⟩

theorem startRequest_of_closed {c : Connection} {reason : String} (h : c.pending.closed = some reason)
    (tag : Tag) : c.startRequest tag = .error (.lost reason) := by
  simp [startRequest,allocate,Pending.register_of_closed h]

theorem closed_of_startRequest {c c' : Connection} {tag : Tag} {ticket : Ticket}
    (h : c.startRequest tag = .ok (c',ticket)) : c.pending.closed = none := by
  cases hc : c.pending.closed with
  | none => rfl
  | some reason => simp [startRequest_of_closed hc] at h

/-- Closing goes on from one state to the other, if it moves at all. -/
structure Onward (c c' : Connection) : Prop where
  reason : ∀ r, c.closeReason = some r → c'.closeReason = some r
  halted : c.halted = true → c'.halted = true
  closed : ∀ r, c.pending.closed = some r → c'.pending.closed = some r
  gone : c.phase = .disconnected → c'.phase = .disconnected

theorem Onward.refl (c : Connection) : c.Onward c := ⟨fun _ => id,id,fun _ => id,id⟩

theorem Onward.trans {c c' c'' : Connection} (h : c.Onward c') (h' : c'.Onward c'') : c.Onward c'' :=
  ⟨fun r hr => h'.reason r (h.reason r hr),fun hh => h'.halted (h.halted hh),
    fun r hr => h'.closed r (h.closed r hr),fun hg => h'.gone (h.gone hg)⟩

/-- Nothing that closing is about has changed. -/
structure Unmoved (c c' : Connection) : Prop where
  reason : c'.closeReason = c.closeReason
  halted : c'.halted = c.halted
  closed : c'.pending.closed = c.pending.closed
  phase : c'.phase = c.phase

theorem Unmoved.onward {c c' : Connection} (h : c.Unmoved c') : c.Onward c' :=
  ⟨fun _ hr => h.reason ▸ hr,fun hh => h.halted ▸ hh,fun _ hr => h.closed ▸ hr,fun hg => h.phase ▸ hg⟩

theorem unmoved_startRequest {c c' : Connection} {tag : Tag} {ticket : Ticket}
    (h : c.startRequest tag = .ok (c',ticket)) : c.Unmoved c' := by
  have hclosed := closed_of_startRequest h
  unfold startRequest at h
  cases ha : allocate tag c.pending c.nextCounter (c.pending.length + 1) with
  | error e => simp [ha] at h
  | ok result =>
    rcases result with ⟨p,t⟩
    simp only [ha,Except.ok.injEq,Prod.mk.injEq] at h
    rw [← h.1]
    exact ⟨rfl,rfl,by rw [hclosed,(of_allocate_ok ha).2],rfl⟩

theorem unmoved_processResponse (c : Connection) (reply : Message) :
    c.Unmoved (c.processResponse reply).1 := by
  unfold processResponse Pending.resolve
  cases c.pending.find? reply.counter <;> exact ⟨rfl,rfl,rfl,rfl⟩

theorem unmoved_release (c : Connection) (ticket : Ticket) : c.Unmoved (c.release ticket) :=
  ⟨rfl,rfl,rfl,rfl⟩

theorem onward_enter (c : Connection) (phase : Phase) : c.Onward (c.enter phase).1 := by
  unfold enter
  split
  · exact .refl c
  · rename_i hstays
    exact ⟨fun _ => id,id,fun _ => id,fun hg => absurd (.inl hg) hstays⟩

theorem onward_named (c : Connection) (peer : Option String) : c.Onward { c with peerName := peer } :=
  ⟨fun _ => id,id,fun _ => id,id⟩

theorem onward_markReady (c : Connection) (peer : String) : c.Onward (c.markReady peer) :=
  (c.onward_named (some peer)).trans (onward_enter _ .ready)

theorem onward_recordReason (c : Connection) (reason : String) : c.Onward (c.recordReason reason).1 := by
  unfold recordReason
  cases hr : c.closeReason with
  | none => exact ⟨fun r h => by simp [hr] at h,id,fun _ => id,id⟩
  | some r => exact .refl c

theorem onward_failPending (c : Connection) (reason : String) : c.Onward (c.failPending reason) :=
  ⟨fun _ => id,id,fun r h => by simp [failPending,Pending.failAll,h],id⟩

theorem entries_processResponse {c : Connection} (h : c.pending.entries = []) (reply : Message) :
    (c.processResponse reply).1.pending.entries = [] := by
  simp [processResponse,Pending.resolve,Pending.find?,h]

theorem entries_release {c : Connection} (h : c.pending.entries = []) (ticket : Ticket) :
    (c.release ticket).pending.entries = [] := by
  simp [release,Pending.cancel,Pending.erase,h]

end Connection

namespace Session

theorem onward_proceed (s : Session) (k : Nat) (call : CloseCall) :
    s.link.Onward (s.proceed k call).link := by
  rcases call with ⟨reason,stage⟩
  cases stage with
  | called =>
    have h := s.link.onward_recordReason reason
    unfold proceed
    rcases hr : s.link.recordReason reason with ⟨link,first⟩
    rw [hr] at h
    cases first <;> exact h
  | recorded => exact ⟨fun _ => id,fun _ => rfl,fun _ => id,id⟩
  | halted => exact s.link.onward_failPending reason
  | failed => exact ⟨fun _ => id,id,fun _ => id,fun _ => rfl⟩
  | finished => exact .refl _
  | late => exact .refl _

theorem onward_step (s : Session) (a : Act) : s.link.Onward (s.step a).link := by
  cases a with
  | close reason => exact .refl _
  | proceed k =>
    simp only [step]
    cases s.closes[k]? with
    | none => exact .refl _
    | some call => exact s.onward_proceed k call
  | start tag =>
    simp only [step,start]
    cases hs : s.link.startRequest tag with
    | error e => exact .refl _
    | ok result => exact (Connection.unmoved_startRequest hs).onward
  | respond reply => exact (s.link.unmoved_processResponse reply).onward
  | release k =>
    simp only [step,release]
    split
    · exact .refl _
    · split
      · exact .refl _
      · exact (s.link.unmoved_release _).onward
  | ready peer => exact s.link.onward_markReady peer
  | handshake => exact s.link.onward_enter .handshaking

theorem onward_run (s : Session) (acts : List Act) : s.link.Onward (s.run acts).link := by
  induction acts generalizing s with
  | nil => exact .refl _
  | cons a acts ih => exact (s.onward_step a).trans (ih (s.step a))

/-- Every step that a call has taken has left its mark. -/
structure Shows (c : Connection) (call : CloseCall) : Prop where
  reason : 1 ≤ call.stage.rank → c.closeReason = some call.reason
  halted : 2 ≤ call.stage.rank → c.halted = true
  closed : 3 ≤ call.stage.rank → c.pending.closed = some call.reason
  gone : 4 ≤ call.stage.rank → c.phase = .disconnected

theorem Shows.onward {c c' : Connection} {call : CloseCall} (h : Shows c call) (ho : c.Onward c') :
    Shows c' call :=
  ⟨fun hr => ho.reason _ (h.reason hr),fun hr => ho.halted (h.halted hr),
    fun hr => ho.closed _ (h.closed hr),fun hr => ho.gone (h.gone hr)⟩

theorem shows_of_rank (c : Connection) {call : CloseCall} (h : call.stage.rank = 0) : Shows c call :=
  ⟨fun hr => by omega,fun hr => by omega,fun hr => by omega,fun hr => by omega⟩

/-- The marks belong to calls, and they come in their order. -/
structure Staged (s : Session) : Prop where
  calls : ∀ call ∈ s.closes, Shows s.link call
  table : ∀ r, s.link.pending.closed = some r →
    s.link.closeReason = some r ∧ s.link.halted = true ∧ s.link.pending.entries = []
  phase : s.link.phase = .disconnected → s.link.pending.closed.isSome = true

theorem staged_establish (name : String) (role : Role) (peerAddr : String) (counter : UInt32) :
    (establish name role peerAddr counter).Staged := by
  refine ⟨fun _ h => by simp [establish] at h,fun _ h => by simp [establish,Connection.establish] at h,?_⟩
  cases role <;> simp [establish,Connection.establish]

theorem Staged.unmoved {s s' : Session} (h : s.Staged) (hcloses : s'.closes = s.closes)
    (hu : s.link.Unmoved s'.link)
    (hempty : s.link.pending.closed.isSome = true → s.link.pending.entries = [] →
      s'.link.pending.entries = []) : s'.Staged := by
  refine ⟨fun call hc => (h.calls call (hcloses ▸ hc)).onward hu.onward,fun r hr => ?_,fun hp => ?_⟩
  · rw [hu.closed] at hr
    obtain ⟨hreason,hhalted,hentries⟩ := h.table r hr
    exact ⟨hu.reason.trans hreason,hu.halted.trans hhalted,hempty (by simp [hr]) hentries⟩
  · rw [hu.closed]
    exact h.phase (hu.phase ▸ hp)

theorem Staged.enter {s s' : Session} (h : s.Staged) (phase : Phase) (peer : Option String)
    (hphase : phase ≠ .disconnected) (hcloses : s'.closes = s.closes)
    (hlink : s'.link = ({ s.link with peerName := peer }.enter phase).1) : s'.Staged := by
  rcases hlink ▸ Connection.enter_cases { s.link with peerName := peer } phase with hl | hl
  · refine h.unmoved hcloses ?_ ?_
    · rw [hl]
      exact ⟨rfl,rfl,rfl,rfl⟩
    · rw [hl]
      exact fun _ => id
  · have ho : s.link.Onward s'.link :=
      hlink ▸ (s.link.onward_named peer).trans (Connection.onward_enter _ phase)
    refine ⟨fun call hc => (h.calls call (hcloses ▸ hc)).onward ho,?_,?_⟩
    · rw [hl]
      exact h.table
    · rw [hl]
      exact fun hd => absurd hd hphase

theorem shows_mark {s : Session} (h : s.Staged) {link : Connection} (ho : s.link.Onward link) (k : Nat)
    {call : CloseCall} {stage : CloseStage} (hnew : Shows link { call with stage }) :
    ∀ c ∈ (({ s with link }).mark k call stage).closes, Shows link c := by
  intro c hc
  rcases List.mem_or_eq_of_mem_set hc with hc | rfl
  · exact (h.calls c hc).onward ho
  · exact hnew

theorem Staged.proceed {s : Session} (h : s.Staged) (k : Nat) {call : CloseCall}
    (hcall : call ∈ s.closes) : (s.proceed k call).Staged := by
  have hshows := h.calls call hcall
  have ho := s.onward_proceed k call
  rcases call with ⟨reason,stage⟩
  cases stage with
  | called =>
    cases hr : s.link.closeReason with
    | some r =>
      have hlate : s.proceed k ⟨reason,.called⟩ = s.mark k ⟨reason,.called⟩ .late := by
        simp [Session.proceed,Connection.recordReason,hr]
      rw [hlate]
      exact ⟨shows_mark h (.refl _) k (shows_of_rank _ rfl),h.table,h.phase⟩
    | none =>
      have hfirst : s.proceed k ⟨reason,.called⟩ =
          { s with link := { s.link with closeReason := some reason } }.mark k ⟨reason,.called⟩
            .recorded := by
        simp [Session.proceed,Connection.recordReason,hr]
      rw [hfirst] at ho ⊢
      refine ⟨shows_mark h ho k ⟨fun _ => rfl,fun hr => ?_,fun hr => ?_,fun hr => ?_⟩,?_,h.phase⟩
      · simp [CloseStage.rank] at hr
      · simp [CloseStage.rank] at hr
      · simp [CloseStage.rank] at hr
      · intro r hclosed
        have hreason := (h.table r hclosed).1
        simp [hr] at hreason
  | recorded =>
    have hreason := hshows.reason (by simp [CloseStage.rank])
    refine ⟨shows_mark h ho k ⟨fun _ => hreason,fun _ => rfl,fun hr => ?_,fun hr => ?_⟩,?_,h.phase⟩
    · simp [CloseStage.rank] at hr
    · simp [CloseStage.rank] at hr
    · intro r hclosed
      exact ⟨(h.table r hclosed).1,rfl,(h.table r hclosed).2.2⟩
  | halted =>
    have hreason := hshows.reason (by simp [CloseStage.rank])
    have hhalted := hshows.halted (by simp [CloseStage.rank])
    have hclosed : (s.link.failPending reason).pending.closed = some reason := by
      cases hc : s.link.pending.closed with
      | none => simp [Connection.failPending,Pending.failAll,hc]
      | some r =>
        have he := (h.table r hc).1.symm.trans hreason
        simpa [Connection.failPending,Pending.failAll,hc] using he
    refine ⟨shows_mark h ho k ⟨fun _ => hreason,fun _ => hhalted,fun _ => hclosed,fun hr => ?_⟩,?_,
      fun _ => ?_⟩
    · simp [CloseStage.rank] at hr
    · intro r hr
      have he : some r = some reason := hr.symm.trans hclosed
      exact ⟨he ▸ hreason,hhalted,rfl⟩
    · exact Option.isSome_iff_exists.mpr ⟨reason,hclosed⟩
  | failed =>
    have hreason := hshows.reason (by simp [CloseStage.rank])
    have hhalted := hshows.halted (by simp [CloseStage.rank])
    have hclosed := hshows.closed (by simp [CloseStage.rank])
    refine ⟨shows_mark h ho k ⟨fun _ => hreason,fun _ => hhalted,fun _ => hclosed,fun _ => rfl⟩,h.table,
      fun _ => ?_⟩
    exact Option.isSome_iff_exists.mpr ⟨reason,hclosed⟩
  | finished => exact h
  | late => exact h

theorem Staged.step {s : Session} (h : s.Staged) (a : Act) : (s.step a).Staged := by
  cases a with
  | close reason =>
    refine ⟨fun call hc => ?_,h.table,h.phase⟩
    rcases List.mem_append.mp hc with hc | hc
    · exact h.calls call hc
    · obtain rfl := List.mem_singleton.mp hc
      exact shows_of_rank _ rfl
  | proceed k =>
    simp only [Session.step]
    cases hk : s.closes[k]? with
    | none => exact h
    | some call => exact h.proceed k (List.mem_of_getElem? hk)
  | start tag =>
    simp only [Session.step,Session.start]
    cases hs : s.link.startRequest tag with
    | error e => exact h
    | ok result =>
      refine h.unmoved rfl (Connection.unmoved_startRequest hs) fun hc => ?_
      simp [Connection.closed_of_startRequest hs] at hc
  | respond reply =>
    exact h.unmoved rfl (s.link.unmoved_processResponse reply)
      fun _ he => Connection.entries_processResponse he reply
  | release k =>
    simp only [Session.step,Session.release]
    split
    · exact h
    · split
      · exact h
      · exact h.unmoved rfl (s.link.unmoved_release _) fun _ he => Connection.entries_release he _
  | ready peer => exact h.enter .ready (some peer) (by decide) rfl rfl
  | handshake => exact h.enter .handshaking s.link.peerName (by decide) rfl rfl

theorem Staged.run {s : Session} (h : s.Staged) (acts : List Act) : (s.run acts).Staged := by
  induction acts generalizing s with
  | nil => exact h
  | cons a acts ih => exact ih (h.step a)

end Session
end Tether
