import Tether.Proofs.Worker.Managing

/-! What a worker leaves behind when it stops. Every link that its loop leaves is closed first, and nobody
else may use it any more; the one way out that closes nothing is the sign to stop while a link is greeted. -/
namespace Tether

namespace Manager

variable {plan : WorkerPlan} {m : Manager}

/-- The loop holds every link that is open, or has dropped it when it was told to stop. -/
structure Tended (m : Manager) : Prop where
  owned : ∀ s ∈ m.links, s.Owned
  held : ∀ k, m.loop.stage.link? = some k → k < m.links.length
  current : ∀ k, m.loop.current = some k → m.loop.stage = .session k
  entering : m.entering = true → ∃ k, m.loop.stage = .session k
  leaving : ∀ l, m.leaving = some l → m.loop.stage.link? = some l.link ∧
    WorkerLoop.Leaves m.loop.stage l.news ∧ m.entering = false
  dropped : ∀ k, m.dropped = some k → m.loop.stage = .stopped (.ok ())
  tended : ∀ k s, m.links[k]? = some s → m.loop.stage.link? = some k ∨ m.dropped = some k ∨
    s.link.closeReason.isSome = true

theorem tended_start (stopping : Bool) : (start stopping).Tended := by
  have hbegin := WorkerLoop.apart_begin { stopping }
  refine ⟨by simp [start],fun k hk => ?_,fun k hk => ?_,by simp [start],by simp [start],by simp [start],
    by simp [start]⟩
  · simp [start,hbegin.stage] at hk
  · simp [start,hbegin.current] at hk

theorem Tended.onLink (h : m.Tended) (k : Nat) (a : Session.Act) : (m.onLink k a).Tended := by
  have hget : ∀ (j : Nat) (s : Session), (m.links.modify k (·.step a))[j]? = some s →
      ∃ s₀ : Session, m.links[j]? = some s₀ ∧ (s = s₀ ∨ s = s₀.step a) := by
    intro j s hj
    rw [List.getElem?_modify] at hj
    split at hj
    · obtain ⟨s₀,hs₀,rfl⟩ := Option.map_eq_some_iff.mp hj
      exact ⟨s₀,hs₀,.inr rfl⟩
    · exact ⟨s,by simpa using hj,.inl rfl⟩
  refine ⟨fun s hs => ?_,fun j hj => ?_,h.current,h.entering,h.leaving,h.dropped,fun j s hj => ?_⟩
  · obtain ⟨j,hj⟩ := List.getElem?_of_mem hs
    obtain ⟨s₀,hs₀,rfl | rfl⟩ := hget j s hj
    · exact h.owned s (List.mem_of_getElem? hs₀)
    · exact (h.owned s₀ (List.mem_of_getElem? hs₀)).step a
  · rw [Manager.onLink,List.length_modify]
    exact h.held j hj
  · obtain ⟨s₀,hs₀,rfl | rfl⟩ := hget j s hj
    · exact h.tended j s hs₀
    · refine (h.tended j s₀ hs₀).imp_right (Or.imp_right fun hr => ?_)
      obtain ⟨r,hr⟩ := Option.isSome_iff_exists.mp hr
      rw [(s₀.onward_step a).reason r hr]
      rfl

theorem Tended.of_stage_eq (h : m.Tended) {w : WorkerLoop} (hstage : w.stage = m.loop.stage)
    (hcurrent : ∀ k, w.current = some k → m.loop.current = some k) : { m with loop := w }.Tended := by
  refine ⟨h.owned,?_,?_,?_,?_,?_,?_⟩
  · simpa [hstage] using h.held
  · intro k hk
    exact hstage.trans (h.current k (hcurrent k hk))
  · simpa [hstage] using h.entering
  · simpa [hstage] using h.leaving
  · simpa [hstage] using h.dropped
  · simpa [hstage] using h.tended

theorem Tended.of_apart {m' : Manager} (h : m.Tended) (hlinks : m'.links = m.links)
    (hleaving : m'.leaving = none) (hentering : m'.entering = false)
    (hstage : m'.loop.stage.link? = none) (hcurrent : m'.loop.current = none)
    (hdropped : ∀ k, m'.dropped = some k → m'.loop.stage = .stopped (.ok ()))
    (hclosed : ∀ k s, m.links[k]? = some s →
      m'.dropped = some k ∨ s.link.closeReason.isSome = true) : m'.Tended := by
  refine ⟨hlinks ▸ h.owned,fun k hk => ?_,fun k hk => ?_,fun he => ?_,fun l hl => ?_,hdropped,
    fun k s hk => .inr (hclosed k s (hlinks ▸ hk))⟩
  · simp [hstage] at hk
  · simp [hcurrent] at hk
  · simp [hentering] at he
  · simp [hleaving] at hl

theorem Tended.current_eq_none (h : m.Tended) (hstage : ∀ k, m.loop.stage ≠ .session k) :
    m.loop.current = none :=
  Option.eq_none_iff_forall_ne_some.mpr fun k hk => hstage k (h.current k hk)

theorem Tended.entering_eq_false (h : m.Tended) (hstage : ∀ k, m.loop.stage ≠ .session k) :
    m.entering = false :=
  Bool.eq_false_iff.mpr fun he => (h.entering he).elim hstage

theorem Tended.dropped_eq_none (h : m.Tended) (hstage : m.loop.stage ≠ .stopped (.ok ())) :
    m.dropped = none :=
  Option.eq_none_iff_forall_ne_some.mpr fun k hk => hstage (h.dropped k hk)

theorem Tended.dialed (h : m.Tended) (name peerAddr : String) (counter : UInt32) :
    (m.dialed plan name peerAddr counter).Tended := by
  unfold Manager.dialed
  cases hs : m.loop.stage with
  | dialing =>
    have hentering := h.entering_eq_false (by simp [hs])
    have hdropped := h.dropped_eq_none (by simp [hs])
    simp only [WorkerLoop.step,hs]
    refine ⟨fun s hs' => ?_,fun k hk => ?_,fun k hk => ?_,by simp [hentering],fun l hl => ?_,
      by simp [hdropped],fun k s hk => ?_⟩
    · rcases List.mem_append.mp hs' with hs' | hs'
      · exact h.owned s hs'
      · rw [List.mem_singleton.mp hs']
        exact Session.owned_establish ..
    · obtain rfl : m.links.length = k := by simpa [WorkerStage.link?] using hk
      simp
    · simp [h.current_eq_none (by simp [hs])] at hk
    · have hlink := (h.leaving l hl).1
      simp [hs,WorkerStage.link?] at hlink
    · rcases Nat.lt_or_ge k m.links.length with hlt | hge
      · rw [List.getElem?_append_left hlt] at hk
        refine .inr ((h.tended k s hk).resolve_left ?_)
        simp [hs,WorkerStage.link?]
      · have hlen : k < (m.links ++ [_]).length := (List.getElem?_eq_some_iff.mp hk).1
        rw [List.length_append,List.length_singleton] at hlen
        exact .inl (congrArg some (by omega))
  | _ => exact h

theorem Tended.greeted (h : m.Tended) : m.greeted.Tended := by
  unfold Manager.greeted
  cases hs : m.loop.stage with
  | greeting k =>
    by_cases hl : m.leaving.isSome = true
    · simpa [hl] using h
    · have hnone : m.leaving = none := by simpa using hl
      have hheld := h.held
      have htended := h.tended
      have hcurrent := h.current_eq_none (by simp [hs])
      have hdropped := h.dropped_eq_none (by simp [hs])
      simp only [hs,WorkerStage.link?] at hheld htended
      simp only [hl]
      refine ⟨h.owned,hheld,fun j hj => ?_,fun _ => ⟨k,rfl⟩,fun l hl => ?_,fun j hj => ?_,htended⟩
      · simp [WorkerLoop.enter,hcurrent] at hj
      · simp [hnone] at hl
      · simp [hdropped] at hj
  | _ => exact h

theorem Tended.publish (h : m.Tended) : m.publish.Tended := by
  unfold Manager.publish
  cases hs : m.loop.stage with
  | session k =>
    by_cases he : m.entering = true
    · simp only [he,if_true]
      have hheld := h.held
      have htended := h.tended
      have hdropped := h.dropped_eq_none (by simp [hs])
      refine ⟨h.owned,hheld,fun j hj => ?_,fun he => by simp at he,fun l hl => ?_,fun j hj => ?_,htended⟩
      · obtain rfl : k = j := by simpa [WorkerLoop.publish] using hj
        exact hs
      · exact absurd (h.leaving l hl).2.2 (by simp [he])
      · simp [hdropped] at hj
    · simpa [he] using h
  | _ => exact h

theorem Tended.tell (h : m.Tended) (news : WorkerInput) : (m.tell plan news).Tended := by
  unfold Manager.tell
  by_cases hbusy : (m.leaving.isSome || m.entering || !news.isNews) = true
  · rwa [if_pos hbusy]
  · rw [if_neg hbusy]
    simp only [Bool.or_eq_true,Bool.not_eq_true',not_or,Bool.not_eq_true,Bool.not_eq_false,
      Option.isSome_eq_false_iff,Option.isNone_iff_eq_none] at hbusy
    obtain ⟨⟨hleaving,hentering⟩,hnews⟩ := hbusy
    rcases WorkerLoop.news_cases plan m.loop hnews with
      ⟨k,reason,hleaves,hlink,hclose⟩ | ⟨hclose,hsame | ⟨hnolink,hruns,hapart⟩⟩
    · -- the news makes the loop close its link before it leaves it
      obtain ⟨s,hs⟩ : ∃ s, m.links[k]? = some s := ⟨_,List.getElem?_eq_getElem (h.held k hlink)⟩
      have h' := h.onLink k (.close reason)
      simp only [hclose,hs]
      refine ⟨h'.owned,h'.held,h'.current,h'.entering,fun l hl => ?_,h'.dropped,h'.tended⟩
      obtain rfl := Option.some.inj hl
      exact ⟨hlink,hleaves,hentering⟩
    · simpa only [hclose,hsame] using h
    · -- the loop had no link and has none
      simp only [hclose]
      have hnosession : ∀ k, m.loop.stage ≠ .session k := fun k hk => by simp [hk,WorkerStage.link?] at hnolink
      have hdropped := h.dropped_eq_none (hruns _)
      refine h.of_apart rfl hleaving hentering hapart.stage
        (hapart.current.trans (h.current_eq_none hnosession)) (by simp [hdropped]) fun k s hk => ?_
      exact (h.tended k s hk).resolve_left (by simp [hnolink])

theorem leaves_told {stage : WorkerStage} {news : WorkerInput} (h : WorkerLoop.Leaves stage news)
    (s : Session) : WorkerLoop.Leaves stage (told s news) := by
  cases h with
  | failed k error => exact .failed k error
  | timedOut k => exact .timedOut k
  | ended k reason => exact .ended k _

/-- The loop goes on when the link that it leaves has been closed, by this call or by another. -/
theorem Tended.leave (h : m.Tended) : (m.leave plan).Tended := by
  unfold Manager.leave
  cases hl : m.leaving with
  | none => exact h
  | some l =>
    obtain ⟨hlink,hleaves,hentering⟩ := h.leaving l hl
    cases hs : m.links[l.link]? with
    | none => simpa only [hs] using h
    | some s =>
      have hgo : ∀ call ∈ s.closes, call.stage ≠ .called →
          { m with loop := (m.loop.step plan (told s l.news)).1, leaving := none }.Tended := by
        intro call hcall hmoved
        have hreason := (h.owned s (List.mem_of_getElem? hs)).closeReason_of_moved hcall hmoved
        obtain ⟨hstage,hcurrent⟩ := WorkerLoop.step_of_leaves plan (leaves_told hleaves s) h.current
        have hdropped := h.dropped_eq_none fun hstopped => by simp [hstopped,WorkerStage.link?] at hlink
        refine h.of_apart rfl rfl hentering hstage hcurrent (by simp [hdropped]) fun k s' hk => ?_
        rcases h.tended k s' hk with hheld | hrest
        · obtain rfl := Option.some.inj (hlink.symm.trans hheld)
          obtain rfl := Option.some.inj (hs.symm.trans hk)
          exact .inr hreason
        · exact hrest
      simp only [hs]
      split
      · rename_i reason hcall
        exact hgo _ (List.mem_of_getElem? hcall) (by simp)
      · rename_i reason hcall
        exact hgo _ (List.mem_of_getElem? hcall) (by simp)
      · exact h

theorem Tended.take (h : m.Tended) : m.take.Tended := by
  unfold Manager.take
  cases hc : m.loop.current with
  | none => exact h
  | some k => exact (h.onLink k _).of_stage_eq rfl fun j hj => by simp [WorkerLoop.takeCurrent] at hj

theorem Tended.stopWith (h : m.Tended) (hleaving : m.leaving = none)
    (hno : ∀ k, m.loop.stage ≠ .session k) (dropped : Option Nat)
    (hclosed : ∀ k s, m.links[k]? = some s → dropped = some k ∨ s.link.closeReason.isSome = true) :
    { m with loop := m.loop.stopWith (.ok ()), dropped }.Tended :=
  h.of_apart rfl hleaving (h.entering_eq_false hno) rfl (h.current_eq_none hno) (fun _ _ => rfl) hclosed

theorem Tended.notice (h : m.Tended) : m.notice.Tended := by
  unfold Manager.notice
  by_cases hbusy : (m.leaving.isSome || !m.loop.stopping) = true
  · rwa [if_pos hbusy]
  · rw [if_neg hbusy]
    simp only [Bool.or_eq_true,Bool.not_eq_true',not_or,Bool.not_eq_true,Bool.not_eq_false,
      Option.isSome_eq_false_iff,Option.isNone_iff_eq_none] at hbusy
    cases hs : m.loop.stage with
    | greeting k =>
      simp only [WorkerLoop.notice,hs]
      refine h.stopWith hbusy.1 (by simp [hs]) (some k) fun j s hj => ?_
      refine (h.tended j s hj).imp (fun hk => ?_) fun hrest => hrest.resolve_left ?_
      · simpa [hs,WorkerStage.link?] using hk
      · simp [h.dropped_eq_none (by simp [hs])]
    | session k => exact h.of_stage_eq (by simp [WorkerLoop.notice,hs]) (by simp [WorkerLoop.notice,hs])
    | stopped result => exact h.of_stage_eq (by simp [WorkerLoop.notice,hs]) (by simp [WorkerLoop.notice,hs])
    | _ =>
      simp only [WorkerLoop.notice,hs]
      refine h.stopWith hbusy.1 (by simp [hs]) m.dropped fun j s hj => ?_
      exact (h.tended j s hj).resolve_left (by simp [hs,WorkerStage.link?])

theorem Tended.step (h : m.Tended) (a : Act) : (m.step plan a).Tended := by
  cases a with
  | dialed name peerAddr counter => exact h.dialed name peerAddr counter
  | greeted => exact h.greeted
  | publish => exact h.publish
  | tell news => exact h.tell news
  | leave => exact h.leave
  | cancel => exact h.of_stage_eq rfl fun _ => id
  | take => exact h.take
  | notice => exact h.notice
  | link k a => exact h.onLink k a

theorem Tended.run (h : m.Tended) (acts : List Act) : (m.run plan acts).Tended := by
  induction acts generalizing m with
  | nil => exact h
  | cons a acts ih => exact ih (h.step a)

/-- A link is dropped by nothing but the sign to stop, seen while it is greeted. -/
theorem dropped_step (plan : WorkerPlan) (m : Manager) (a : Act) :
    (m.step plan a).dropped = m.dropped ∨ a = .notice ∧ m.loop.stopping = true ∧
      ∃ k, m.loop.stage = .greeting k ∧ (m.step plan a).dropped = some k := by
  cases a with
  | dialed name peerAddr counter =>
    simp only [step,dialed]
    split <;> exact .inl rfl
  | greeted =>
    simp only [step,greeted]
    (repeat' split) <;> exact .inl rfl
  | publish =>
    simp only [step,publish]
    (repeat' split) <;> exact .inl rfl
  | tell news =>
    simp only [step,tell]
    (repeat' split) <;> exact .inl rfl
  | leave =>
    simp only [step,leave]
    (repeat' split) <;> exact .inl rfl
  | take =>
    simp only [step,take]
    split <;> exact .inl rfl
  | notice =>
    simp only [step,notice]
    split
    · exact .inl rfl
    · rename_i hbusy
      have hstopping : m.leaving = none ∧ m.loop.stopping = true := by simpa using hbusy
      split
      · rename_i k hs
        exact .inr ⟨trivial,hstopping.2,k,hs,rfl⟩
      · exact .inl rfl
  | _ => exact .inl rfl

theorem dropped_run {plan : WorkerPlan} {m : Manager} {acts : List Act} {k : Nat}
    (h : (m.run plan acts).dropped = some k) : m.dropped = some k ∨
      ∃ before after, acts = before ++ .notice :: after ∧
        (m.run plan before).loop.stage = .greeting k ∧ (m.run plan before).loop.stopping = true := by
  induction acts generalizing m with
  | nil => exact .inl h
  | cons a acts ih =>
    rcases ih h with hnext | ⟨before,after,rfl,hstage,hstopping⟩
    · rcases m.dropped_step plan a with hsame | ⟨rfl,hstopping,j,hj,hdropped⟩
      · exact .inl (hsame.symm.trans hnext)
      · obtain rfl := Option.some.inj (hdropped.symm.trans hnext)
        exact .inr ⟨[],acts,rfl,hj,hstopping⟩
    · exact .inr ⟨a :: before,after,rfl,hstage,hstopping⟩

/-- A worker that has stopped leaves no link to be used, and each link that it opened is closed: by a call
that has ended, so that the link is disconnected, or that needs only its own steps to get there. The
exception is a link that was being greeted when the loop saw the sign to stop. -/
theorem closed_of_stopped (plan : WorkerPlan) (stopping : Bool) (acts : List Act)
    (result : Except LinkError Unit)
    (hstopped : ((start stopping).run plan acts).loop.stage = .stopped result) :
    let m := (start stopping).run plan acts
    m.loop.current = none ∧
    (∀ k, m.dropped = some k → result = .ok () ∧ ∃ before after, acts = before ++ .notice :: after ∧
      ((start stopping).run plan before).loop.stage = .greeting k ∧
      ((start stopping).run plan before).loop.stopping = true) ∧
    ∀ k s, m.links[k]? = some s → m.dropped ≠ some k →
      ∃ j owner, s.closes[j]? = some owner ∧ s.link.closeReason = some owner.reason ∧
        (s.link.phase = .disconnected ↔ owner.stage = .finished) ∧
        (s.run (List.replicate (4 - owner.stage.rank) (.proceed j))).link.phase = .disconnected := by
  intro m
  have h : m.Tended := (tended_start stopping).run acts
  have hstage : m.loop.stage = .stopped result := hstopped
  refine ⟨h.current_eq_none (by simp [hstage]),fun k hk => ⟨?_,?_⟩,fun k s hk hdropped => ?_⟩
  · simpa using hstage.symm.trans (h.dropped k hk)
  · exact (dropped_run hk).resolve_left (by simp [start])
  · refine (h.owned s (List.mem_of_getElem? hk)).exists_owner ?_
    refine ((h.tended k s hk).resolve_left ?_).resolve_left hdropped
    simp [hstage,WorkerStage.link?]

/-- A greeting that timed out, and a session during which the worker was shut down. -/
theorem closed_of_stopped_in_session :
    let plan : WorkerPlan := { policy := fun _ => some (.ofSeconds 1) }
    let closing (k : Nat) : List Act := List.replicate 4 (.link k (.proceed 0))
    let acts : List Act :=
      [.dialed "worker" "address" 7,.link 0 .handshake,.tell .greetingTimedOut] ++ closing 0 ++
      [.leave,.tell .pauseOver,.dialed "worker" "address" 7,.link 1 .handshake,.link 1 (.ready "master"),
        .greeted,.publish,.cancel,.tell (.sessionEnded "connection closed")] ++ closing 1 ++ [.take,.leave]
    let m := (start false).run plan acts
    m.links.length = 2 ∧ m.loop.current = none ∧ ∀ s ∈ m.links, s.link.phase = .disconnected := by
  intro plan closing acts
  have hrun : let m := (start false).run plan acts
      m.loop.stage = .stopped (.ok ()) ∧ m.dropped = none ∧ m.links.length = 2 ∧
        ∀ s ∈ m.links, ∀ call ∈ s.closes,
          s.link.closeReason = some call.reason → call.stage = .finished := by decide +kernel
  have hclosed := closed_of_stopped plan false acts (.ok ()) hrun.1
  generalize (start false).run plan acts = m at hrun hclosed
  obtain ⟨-,hdropped,hlength,hfinished⟩ := hrun
  obtain ⟨hcurrent,-,hclosed⟩ := hclosed
  refine ⟨hlength,hcurrent,fun s hs => ?_⟩
  obtain ⟨k,hk⟩ := List.getElem?_of_mem hs
  obtain ⟨j,owner,hj,hreason,hphase,-⟩ := hclosed k s hk (by rw [hdropped]; simp)
  exact hphase.mpr (hfinished s hs owner (List.mem_of_getElem? hj) hreason)

/-- Shut down while it says hello, a worker stops and leaves the link open: it goes on handshaking, and
nobody has called to close it. -/
theorem open_after_stopped_greeting :
    let plan : WorkerPlan := { policy := fun _ => some (.ofSeconds 1) }
    let m := (start false).run plan
      [.dialed "worker" "address" 7,.link 0 .handshake,.cancel,.take,.notice]
    m.loop.stage = .stopped (.ok ()) ∧ ∃ s, m.links = [s] ∧ s.link.phase = .handshaking ∧
      s.link.closeReason = none ∧ s.closes = [] := by
  exact ⟨by decide +kernel,_,rfl,rfl,rfl,rfl⟩

end Manager
end Tether
