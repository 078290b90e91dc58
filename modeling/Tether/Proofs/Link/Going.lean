import Tether.Proofs.Link.Ending
import Tether.Proofs.Link.Owning

/-! What the acts of a link keep, however many of them there are: closing goes on, no call to close is
forgotten, and a call that is over stays over. A call that nothing interrupts is over when it has ended. -/
namespace Tether

/-- A call that has nothing left to do: it has closed the link, or has found it closed. -/
def CloseCall.Over (call : CloseCall) : Prop := call.stage = .finished ∨ call.stage = .late

instance (call : CloseCall) : Decidable call.Over := inferInstanceAs (Decidable (_ ∨ _))

namespace Session

/-- What the acts of a link keep: closing goes on, no call is forgotten, and one that is over stays over. -/
structure Goes (s s' : Session) : Prop where
  onward : s.link.Onward s'.link
  owned : s.Owned → s'.Owned
  calls : s.closes.length ≤ s'.closes.length
  settled : ∀ (n : Nat) (call : CloseCall), s.closes[n]? = some call → call.Over →
    s'.closes[n]? = some call

theorem Goes.refl (s : Session) : s.Goes s := ⟨.refl _,id,Nat.le_refl _,fun _ _ hn _ => hn⟩

theorem Goes.trans {s s' s'' : Session} (h : s.Goes s') (h' : s'.Goes s'') : s.Goes s'' :=
  ⟨h.onward.trans h'.onward,h'.owned ∘ h.owned,Nat.le_trans h.calls h'.calls,
    fun n call hn hover => h'.settled n call (h.settled n call hn hover) hover⟩

theorem proceed_of_over {s : Session} {call : CloseCall} (h : call.Over) (k : Nat) :
    s.proceed k call = s := by
  rcases call with ⟨reason,stage⟩
  rcases h with h | h <;> (obtain rfl : stage = _ := h; rfl)

/-- Acts that are no part of a call to close. -/
def Act.Quiet : Act → Prop
  | .close _ | .proceed _ => False
  | _ => True

theorem closes_step_of_quiet (s : Session) {a : Act} (h : a.Quiet) : (s.step a).closes = s.closes := by
  cases a with
  | close reason => exact absurd h id
  | proceed k => exact absurd h id
  | start tag =>
    simp only [step,start]
    split <;> rfl
  | release k =>
    simp only [step,release]
    split
    · rfl
    · split <;> rfl
  | _ => rfl

theorem getElem?_closes_proceed_ne {s : Session} {k n : Nat} (h : k ≠ n) :
    (s.step (.proceed k)).closes[n]? = s.closes[n]? := by
  simp only [step]
  cases hk : s.closes[k]? with
  | none => rfl
  | some call =>
    obtain ⟨stage,hset,-⟩ := closes_proceed hk
    simp only [hset,List.getElem?_set_ne h]

theorem goes_step (s : Session) (a : Act) : s.Goes (s.step a) := by
  have hquiet (hclose : (s.step a).closes = s.closes) : s.Goes (s.step a) :=
    ⟨s.onward_step a,fun ho => ho.step a,hclose ▸ Nat.le_refl _,
      fun n call hn _ => by rw [hclose,hn]⟩
  cases a with
  | close reason =>
    refine ⟨.refl _,fun ho => ho.step _,by simp [step],fun n call hn _ => ?_⟩
    exact (List.getElem?_append_left (List.getElem?_eq_some_iff.mp hn).1).trans hn
  | proceed k =>
    cases hk : s.closes[k]? with
    | none => exact hquiet (by simp only [step,hk])
    | some moving =>
      obtain ⟨stage,hset,-⟩ := closes_proceed hk
      have hstep : s.step (.proceed k) = s.proceed k moving := by simp only [step,hk]
      have hlength : (s.step (.proceed k)).closes.length = s.closes.length := by
        rw [hstep,hset,List.length_set]
      refine ⟨s.onward_step _,fun ho => ho.step _,Nat.le_of_eq hlength.symm,fun n call hn hover => ?_⟩
      by_cases hkn : k = n
      · subst hkn
        obtain rfl := Option.some.inj (hk.symm.trans hn)
        rwa [hstep,proceed_of_over hover]
      · rwa [getElem?_closes_proceed_ne hkn]
  | _ => exact hquiet (closes_step_of_quiet s trivial)

theorem goes_run (s : Session) (acts : List Act) : s.Goes (s.run acts) := by
  induction acts generalizing s with
  | nil => exact .refl s
  | cons a acts ih => exact (s.goes_step a).trans (ih (s.step a))

/-- A call to close that nothing interrupts. -/
def closeNow (s : Session) (reason : String) : Session :=
  s.run (.close reason :: List.replicate 4 (.proceed s.closes.length))

theorem exists_closes_closeNow (s : Session) (reason : String) :
    ∃ call, (s.closeNow reason).closes = s.closes ++ [call] ∧ call.Over := by
  cases hr : s.link.closeReason with
  | none =>
    refine ⟨⟨reason,.finished⟩,?_,.inl rfl⟩
    simp [closeNow,List.replicate,run,step,proceed,mark,Connection.recordReason,hr]
  | some r =>
    refine ⟨⟨reason,.late⟩,?_,.inr rfl⟩
    simp [closeNow,List.replicate,run,step,proceed,mark,Connection.recordReason,hr]

end Session

/-- Links that have gone on, none of them lost and none of them new. -/
structure LinksGo (links links' : List Session) : Prop where
  length : links'.length = links.length
  each : ∀ (k : Nat) (s' : Session), links'[k]? = some s' → ∃ s, links[k]? = some s ∧ s.Goes s'

theorem linksGo_refl (links : List Session) : LinksGo links links := ⟨rfl,fun _ s hs => ⟨s,hs,.refl s⟩⟩

theorem LinksGo.get {links links' : List Session} (h : LinksGo links links') {k : Nat} {s : Session}
    (hs : links[k]? = some s) : ∃ s', links'[k]? = some s' ∧ s.Goes s' := by
  have hlt : k < links'.length := h.length ▸ (List.getElem?_eq_some_iff.mp hs).1
  obtain ⟨s₀,hs₀,hgoes⟩ := h.each k _ (List.getElem?_eq_getElem hlt)
  obtain rfl := Option.some.inj (hs.symm.trans hs₀)
  exact ⟨_,List.getElem?_eq_getElem hlt,hgoes⟩

theorem linksGo_modify (links : List Session) (k : Nat) {f : Session → Session}
    (h : ∀ s : Session, s.Goes (f s)) : LinksGo links (links.modify k f) := by
  refine ⟨List.length_modify ..,fun j s' hs' => ?_⟩
  rw [List.getElem?_modify] at hs'
  obtain ⟨s,hs,rfl⟩ := Option.map_eq_some_iff.mp hs'
  refine ⟨s,hs,?_⟩
  split
  · exact h s
  · exact .refl s

end Tether
