import Tether.Proofs.Link.Closing

/-! Which of the calls closes the link. The first one to take its reason down is the only one that takes
further steps, and the link is disconnected when that call has taken them all. From then on the link stays
as it is, whatever its tasks do, but for the name of its peer and the slots of the requests. -/
namespace Tether

theorem Connection.enter_disconnected_iff (c : Connection) {phase : Phase} (h : phase ≠ .disconnected) :
    (c.enter phase).1.phase = .disconnected ↔ c.phase = .disconnected := by
  unfold enter
  split
  · exact Iff.rfl
  · rename_i hstays
    exact ⟨fun hd => absurd hd h,fun hd => absurd (.inl hd) hstays⟩

theorem Connection.enter_of_disconnected {c : Connection} (h : c.phase = .disconnected) (phase : Phase) :
    c.enter phase = (c,false) := if_pos (.inl h)

theorem Connection.closeReason_enter (c : Connection) (phase : Phase) :
    (c.enter phase).1.closeReason = c.closeReason := by
  rcases c.enter_cases phase with h | h
  · rw [h]
  · rw [h]

namespace Session

variable {s : Session}

/-- No call has taken its reason down, or one has, and closes the link alone. -/
inductive Owned (s : Session) : Prop
  | free : s.link.closeReason = none → s.link.phase ≠ .disconnected →
    (∀ call ∈ s.closes, call.stage = .called) → Owned s
  | taken (k : Nat) (owner : CloseCall) : s.link.closeReason = some owner.reason →
    s.closes[k]? = some owner → 1 ≤ owner.stage.rank →
    (s.link.phase = .disconnected ↔ owner.stage = .finished) →
    (∀ j call, j ≠ k → s.closes[j]? = some call → call.stage.rank = 0) → Owned s

theorem owned_establish (name : String) (role : Role) (peerAddr : String) (counter : UInt32) :
    (establish name role peerAddr counter).Owned := by
  refine .free rfl ?_ fun call hc => by simp [establish] at hc
  cases role <;> simp [establish,Connection.establish]

theorem Owned.congr {s' : Session} (h : s.Owned) (hcloses : s'.closes = s.closes)
    (hreason : s'.link.closeReason = s.link.closeReason)
    (hphase : s'.link.phase = .disconnected ↔ s.link.phase = .disconnected) : s'.Owned := by
  cases h with
  | free hr hp hc => exact .free (hreason.trans hr) (fun hd => hp (hphase.mp hd)) (hcloses ▸ hc)
  | taken k owner hr hk hrank hp hothers =>
    exact .taken k owner (hreason.trans hr) (hcloses ▸ hk) hrank (hphase.trans hp) (hcloses ▸ hothers)

theorem Owned.unmoved {s' : Session} (h : s.Owned) (hcloses : s'.closes = s.closes)
    (hu : s.link.Unmoved s'.link) : s'.Owned :=
  h.congr hcloses hu.reason (by rw [hu.phase])

theorem Owned.proceed_owner {k : Nat} {owner : CloseCall} (hr : s.link.closeReason = some owner.reason)
    (hk : s.closes[k]? = some owner) (hrank : 1 ≤ owner.stage.rank)
    (hp : s.link.phase = .disconnected ↔ owner.stage = .finished)
    (hothers : ∀ j call, j ≠ k → s.closes[j]? = some call → call.stage.rank = 0) :
    (s.proceed k owner).Owned := by
  have hmark : ∀ (link : Connection) (stage : CloseStage), link.closeReason = some owner.reason →
      1 ≤ stage.rank → (link.phase = .disconnected ↔ stage = .finished) →
      ∀ delivered, ({ s with link,delivered }.mark k owner stage).Owned := by
    intro link stage hreason hstage hphase delivered
    have hlt := (List.getElem?_eq_some_iff.mp hk).1
    refine .taken k { owner with stage } hreason (List.getElem?_set_self hlt) hstage hphase ?_
    intro j call hj hcall
    rw [mark,List.getElem?_set_ne (Ne.symm hj)] at hcall
    exact hothers j call hj hcall
  rcases owner with ⟨reason,stage⟩
  cases stage with
  | called => simp [CloseStage.rank] at hrank
  | late => simp [CloseStage.rank] at hrank
  | recorded => exact hmark s.link.halt .halted hr (by decide) (hp.trans (by simp)) _
  | halted => exact hmark (s.link.failPending reason) .failed hr (by decide) (hp.trans (by simp)) _
  | failed => exact hmark s.link.disconnect .finished hr (by decide) ⟨fun _ => rfl,fun _ => rfl⟩ _
  | finished => exact .taken k _ hr hk hrank hp hothers

theorem Owned.proceed (h : s.Owned) {k : Nat} {call : CloseCall} (hk : s.closes[k]? = some call) :
    (s.proceed k call).Owned := by
  have hlt := (List.getElem?_eq_some_iff.mp hk).1
  cases h with
  | free hr hp hcalled =>
    -- the first call to proceed takes its reason down, and is the owner from then on
    have hstage := hcalled call (List.mem_of_getElem? hk)
    rcases call with ⟨reason,stage⟩
    subst hstage
    have hfirst : s.proceed k ⟨reason,.called⟩ =
        { s with link := { s.link with closeReason := some reason } }.mark k ⟨reason,.called⟩
          .recorded := by
      simp [Session.proceed,Connection.recordReason,hr]
    rw [hfirst]
    refine .taken k ⟨reason,.recorded⟩ rfl (List.getElem?_set_self hlt) (Nat.le_refl 1)
      (by simpa [mark] using hp) ?_
    intro j other hj hother
    rw [mark,List.getElem?_set_ne (Ne.symm hj)] at hother
    rw [hcalled other (List.mem_of_getElem? hother)]
    rfl
  | taken i owner hr hi hrank hp hothers =>
    by_cases hki : k = i
    · subst hki
      obtain rfl := Option.some.inj (hk.symm.trans hi)
      exact .proceed_owner hr hi hrank hp hothers
    · -- any other call finds a reason there and is late
      have hzero := hothers k call hki hk
      rcases call with ⟨reason,stage⟩
      cases stage with
      | called =>
        have hlate : s.proceed k ⟨reason,.called⟩ = s.mark k ⟨reason,.called⟩ .late := by
          simp [Session.proceed,Connection.recordReason,hr]
        rw [hlate]
        refine .taken i owner hr ?_ hrank hp fun j other hj hother => ?_
        · rw [mark,List.getElem?_set_ne hki]
          exact hi
        · by_cases hjk : j = k
          · subst hjk
            rw [mark,List.getElem?_set_self hlt] at hother
            rw [← Option.some.inj hother]
            rfl
          · rw [mark,List.getElem?_set_ne (Ne.symm hjk)] at hother
            exact hothers j other hj hother
      | late => exact .taken i owner hr hi hrank hp hothers
      | _ => simp [CloseStage.rank] at hzero

theorem Owned.enter {s' : Session} (h : s.Owned) {phase : Phase} (peer : Option String)
    (hphase : phase ≠ .disconnected) (hcloses : s'.closes = s.closes)
    (hlink : s'.link = ({ s.link with peerName := peer }.enter phase).1) : s'.Owned :=
  h.congr hcloses (by rw [hlink,Connection.closeReason_enter])
    (by rw [hlink]; exact Connection.enter_disconnected_iff _ hphase)

theorem Owned.step (h : s.Owned) (a : Act) : (s.step a).Owned := by
  cases a with
  | close reason =>
    cases h with
    | free hr hp hcalled =>
      refine .free hr hp fun call hc => ?_
      rcases List.mem_append.mp hc with hc | hc
      · exact hcalled call hc
      · rw [List.mem_singleton.mp hc]
    | taken k owner hr hk hrank hp hothers =>
      have hlt := (List.getElem?_eq_some_iff.mp hk).1
      refine .taken k owner hr ((List.getElem?_append_left hlt).trans hk) hrank hp fun j call hj hcall => ?_
      rcases List.getElem?_append ▸ hcall with hcall
      split at hcall
      · exact hothers j call hj hcall
      · rw [List.mem_singleton.mp (List.mem_of_getElem? hcall)]
        rfl
  | proceed k =>
    simp only [Session.step]
    cases hk : s.closes[k]? with
    | none => exact h
    | some call => exact h.proceed hk
  | start tag =>
    simp only [Session.step,start]
    cases hs : s.link.startRequest tag with
    | error e => exact h
    | ok result => exact h.unmoved rfl (Connection.unmoved_startRequest hs)
  | respond reply => exact h.unmoved rfl (s.link.unmoved_processResponse reply)
  | release k =>
    simp only [Session.step,release]
    split
    · exact h
    · split
      · exact h
      · exact h.unmoved rfl (s.link.unmoved_release _)
  | ready peer => exact h.enter (some peer) (by decide) rfl rfl
  | handshake => exact h.enter s.link.peerName (by decide) rfl rfl

theorem Owned.run (h : s.Owned) (acts : List Act) : (s.run acts).Owned := by
  induction acts generalizing s with
  | nil => exact h
  | cons a acts ih => exact ih (h.step a)

theorem Owned.closeReason_of_moved (h : s.Owned) {call : CloseCall} (hc : call ∈ s.closes)
    (hmoved : call.stage ≠ .called) : s.link.closeReason.isSome = true := by
  cases h with
  | free _ _ hcalled => exact absurd (hcalled call hc) hmoved
  | taken k owner hr _ _ _ _ => simp [hr]

theorem Owned.closeReason_of_disconnected (h : s.Owned) (hd : s.link.phase = .disconnected) :
    s.link.closeReason.isSome = true := by
  cases h with
  | free _ hp _ => exact absurd hd hp
  | taken k owner hr _ _ _ _ => simp [hr]

theorem exists_closes_proceed {k : Nat} {reason : String} {stage : CloseStage}
    (hk : s.closes[k]? = some ⟨reason,stage⟩) (hrank : 1 ≤ stage.rank) (hlt : stage.rank < 4) :
    ∃ next, (s.step (.proceed k)).closes[k]? = some ⟨reason,next⟩ ∧ next.rank = stage.rank + 1 := by
  have hlen := (List.getElem?_eq_some_iff.mp hk).1
  simp only [Session.step,hk]
  cases stage with
  | called => simp [CloseStage.rank] at hrank
  | late => simp [CloseStage.rank] at hrank
  | finished => simp [CloseStage.rank] at hlt
  | recorded => exact ⟨.halted,List.getElem?_set_self hlen,rfl⟩
  | halted => exact ⟨.failed,List.getElem?_set_self hlen,rfl⟩
  | failed => exact ⟨.finished,List.getElem?_set_self hlen,rfl⟩

theorem closes_run_proceed {n k : Nat} {reason : String} {stage : CloseStage}
    (hk : s.closes[k]? = some ⟨reason,stage⟩) (hrank : 1 ≤ stage.rank) (hn : stage.rank + n = 4) :
    (s.run (List.replicate n (.proceed k))).closes[k]? = some ⟨reason,.finished⟩ := by
  induction n generalizing s stage with
  | zero =>
    cases stage with
    | finished => exact hk
    | _ => simp [CloseStage.rank] at hn
  | succ n ih =>
    obtain ⟨next,hnext,hsucc⟩ := exists_closes_proceed hk hrank (by omega)
    rw [List.replicate_succ,run_cons]
    exact ih hnext (by omega) (by omega)

theorem Owned.disconnected_of_finished (h : s.Owned) {k : Nat} {reason : String}
    (hk : s.closes[k]? = some ⟨reason,.finished⟩) : s.link.phase = .disconnected := by
  cases h with
  | free _ _ hcalled => simpa using hcalled _ (List.mem_of_getElem? hk)
  | taken i owner _ hi _ hphase hothers =>
    by_cases hki : k = i
    · subst hki
      rw [hphase,← Option.some.inj (hk.symm.trans hi)]
    · simpa [CloseStage.rank] using hothers k _ hki hk

theorem Owned.exists_closer (h : s.Owned) (hr : s.link.closeReason.isSome = true) :
    ∃ k owner, s.closes[k]? = some owner ∧ s.link.closeReason = some owner.reason ∧
      (s.link.phase = .disconnected ↔ owner.stage = .finished) ∧ 1 ≤ owner.stage.rank ∧
      (s.run (List.replicate (4 - owner.stage.rank) (.proceed k))).link.phase = .disconnected := by
  cases h with
  | free hnone _ _ => simp [hnone] at hr
  | taken k owner hreason hk hrank hphase hothers =>
    refine ⟨k,owner,hk,hreason,hphase,hrank,?_⟩
    have hle : owner.stage.rank ≤ 4 := by cases owner.stage <;> decide
    exact ((taken k owner hreason hk hrank hphase hothers).run _).disconnected_of_finished
      (closes_run_proceed hk hrank (by omega))

theorem Owned.exists_owner (h : s.Owned) (hr : s.link.closeReason.isSome = true) :
    ∃ k owner, s.closes[k]? = some owner ∧ s.link.closeReason = some owner.reason ∧
      (s.link.phase = .disconnected ↔ owner.stage = .finished) ∧
      (s.run (List.replicate (4 - owner.stage.rank) (.proceed k))).link.phase = .disconnected := by
  obtain ⟨k,owner,hk,hreason,hphase,-,hends⟩ := h.exists_closer hr
  exact ⟨k,owner,hk,hreason,hphase,hends⟩

/-! ### After the end -/

def Act.named? : Act → Option String
  | .ready peer => some peer
  | _ => none

theorem named?_of_plain {a : Act} (h : a.Plain) : a.named? = none := by
  cases a with
  | ready peer => exact absurd h id
  | _ => rfl

theorem Owned.link_proceed_of_disconnected (h : s.Owned) (hd : s.link.phase = .disconnected) {k : Nat}
    {call : CloseCall} (hk : s.closes[k]? = some call) : (s.proceed k call).link = s.link := by
  cases h with
  | free _ hp _ => exact absurd hd hp
  | taken i owner hr hi hrank hp hothers =>
    have hstage : call.stage = .finished ∨ call.stage.rank = 0 := by
      by_cases hki : k = i
      · subst hki
        obtain rfl := Option.some.inj (hk.symm.trans hi)
        exact .inl (hp.mp hd)
      · exact .inr (hothers k call hki hk)
    rcases call with ⟨reason,stage⟩
    cases stage with
    | called => simp [Session.proceed,Connection.recordReason,hr,mark]
    | finished => rfl
    | late => rfl
    | _ => simp [CloseStage.rank] at hstage

/-- A disconnected link keeps everything but the slots, and the name of its peer if it is not given one. -/
theorem link_step_of_disconnected (hs : s.Staged) (ho : s.Owned) (hd : s.link.phase = .disconnected)
    (a : Act) : ∃ mail, (s.step a).link =
      { s.link with peerName := a.named?.or s.link.peerName, mail } := by
  obtain ⟨reason,hreason⟩ := Option.isSome_iff_exists.mp (hs.phase hd)
  have hentries := (hs.table reason hreason).2.2
  cases a with
  | close reason => exact ⟨_,rfl⟩
  | proceed k =>
    simp only [step]
    cases hk : s.closes[k]? with
    | none => exact ⟨_,rfl⟩
    | some call => exact ⟨s.link.mail,ho.link_proceed_of_disconnected hd hk⟩
  | start tag => exact ⟨s.link.mail,by simp [step,start,Connection.startRequest_of_closed hreason,Act.named?]⟩
  | respond reply =>
    refine ⟨s.link.mail,?_⟩
    simp [step,respond,Connection.processResponse,Pending.resolve,Pending.find?,hentries,Act.named?]
  | release k =>
    have hpending : ∀ id, s.link.pending.erase id = s.link.pending := by
      intro id
      simp only [Pending.erase,hentries,List.filter_nil]
      rw [← hentries]
    simp only [step,release]
    split
    · exact ⟨_,rfl⟩
    · rename_i ticket _
      split
      · exact ⟨_,rfl⟩
      · refine ⟨(s.link.release ticket).mail,?_⟩
        simp only [Connection.release,Pending.cancel,hpending]
        rfl
  | ready peer =>
    have hgone : ({ s.link with peerName := some peer } : Connection).phase = .disconnected := hd
    exact ⟨s.link.mail,congrArg Prod.fst (Connection.enter_of_disconnected hgone .ready)⟩
  | handshake =>
    exact ⟨s.link.mail,congrArg Prod.fst (Connection.enter_of_disconnected hd .handshaking)⟩

end Session
end Tether
