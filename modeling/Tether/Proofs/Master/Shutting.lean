import Tether.Proofs.Master.Keeping

/-! The end of the master. Whatever the other tasks do meanwhile, the links that it has adopted are closed
when its loop returns. -/
namespace Tether
namespace Keeper

variable {w : Keeper} {master : String}

/-! ### Calls that nothing interrupts -/

/-- An act that is no step of another task's call to close: what other tasks close, they close in one go. -/
def Act.Whole : Act → Prop
  | .beside ⟨.link _ a,_⟩ => a.1.Quiet
  | _ => True

/-- No call is half-way but the loop's own. -/
def Settled (w : Keeper) : Prop :=
  ∀ (k : Nat) (s : Session) (n : Nat) (call : CloseCall), w.reception.links[k]? = some s →
    s.closes[n]? = some call → call.Over ∨ w.underway = some (k,n)

theorem settled_start : ({} : Keeper).Settled := fun k s n call hk => by simp at hk

theorem Settled.modify (h : w.Settled) {r : Reception} {k : Nat} {f : Session → Session}
    (hlinks : r.links = w.reception.links.modify k f)
    (hf : ∀ (s : Session) (n : Nat) (call : CloseCall), (f s).closes[n]? = some call →
      call.Over ∨ s.closes[n]? = some call) : { w with reception := r }.Settled := by
  intro j s' n call hj hn
  rw [hlinks,List.getElem?_modify] at hj
  obtain ⟨s,hs,rfl⟩ := Option.map_eq_some_iff.mp hj
  split at hn
  · exact (hf s n call hn).elim .inl (h j s n call hs)
  · exact h j s n call hs hn

theorem Settled.all_over (h : w.Settled) (hunder : w.underway = none) {k n : Nat} {s : Session}
    {call : CloseCall} (hk : w.reception.links[k]? = some s) (hn : s.closes[n]? = some call) : call.Over :=
  (h k s n call hk hn).resolve_right (by simp [hunder])

theorem Settled.still (h : w.Settled) (hunder : w.underway = none) {w' : Keeper}
    (hlinks : w'.reception.links = w.reception.links) : w'.Settled :=
  fun _ _ _ _ hk hn => .inl (h.all_over hunder (hlinks ▸ hk) hn)

theorem Settled.accept (h : w.Settled) (peerAddr : String) (counter : UInt32) :
    (w.accept master peerAddr counter).Settled := by
  unfold Keeper.accept
  cases hp : w.post with
  | serving =>
    intro k s n call hk hn
    simp only [List.getElem?_append] at hk
    split at hk
    · exact .inl (h.all_over (by simp [underway,hp]) hk hn)
    · rw [List.mem_singleton.mp (List.mem_of_getElem? hk)] at hn
      simp [Session.establish] at hn
  | _ => exact h

theorem Settled.stop (h : w.Settled) : w.stop.Settled := by
  unfold Keeper.stop
  cases hp : w.post with
  | serving => exact h.still (by simp [underway,hp]) rfl
  | _ => exact h

/-- The loop begins its next call, which is the only one under way. -/
theorem Settled.closing (h : w.Settled) {rest : List Nat} (hp : w.post = .closing rest none) :
    w.go.Settled := by
  have hunder : w.underway = none := by simp [underway,hp]
  cases rest with
  | nil =>
    simp only [Keeper.go,hp]
    exact h.still hunder rfl
  | cons i rest =>
    cases hi : w.reception.links[i]? with
    | none =>
      simp only [Keeper.go,hp,hi]
      exact h.still hunder rfl
    | some t =>
      simp only [Keeper.go,hp,hi]
      intro k s n call hk hn
      simp only [Reception.onLink,modify_eq_set hi,List.getElem?_set] at hk
      split at hk
      · rename_i hik
        rw [if_pos (List.getElem?_eq_some_iff.mp hi).1,Option.some.injEq] at hk
        subst hk
        simp only [Session.step,List.getElem?_append] at hn
        split at hn
        · exact .inl (h.all_over hunder hi hn)
        · have hlast := (List.getElem?_eq_some_iff.mp hn).1
          rw [List.length_singleton] at hlast
          obtain rfl : n = t.closes.length := by omega
          exact .inr (by rw [hik]; rfl)
      · exact .inl (h.all_over hunder hk hn)

theorem Settled.calling (h : w.Settled) {rest : List Nat} {i m : Nat}
    (hp : w.post = .closing rest (some (i,m))) : w.go.Settled := by
  simp only [Keeper.go,hp]
  cases hcall : w.call? i m with
  | none =>
    intro k s n call hk hn
    refine .inl ((h k s n call hk hn).resolve_right fun hunder => ?_)
    obtain ⟨rfl,rfl⟩ : i = k ∧ m = n := by simpa [underway,hp] using hunder
    simp [call?,hk,hn] at hcall
  | some moving =>
    obtain ⟨t,hi,hm⟩ := Option.bind_eq_some_iff.mp hcall
    by_cases hover : moving.Over
    · simp only [hover,if_true]
      intro k s n call hk hn
      refine .inl ((h k s n call hk hn).elim id fun hunder => ?_)
      obtain ⟨rfl,rfl⟩ : i = k ∧ m = n := by simpa [underway,hp] using hunder
      obtain rfl := Option.some.inj (hi.symm.trans hk)
      obtain rfl := Option.some.inj (hm.symm.trans hn)
      exact hover
    · simp only [hover,if_false]
      rw [← hp]
      intro k s' n call hk hn
      by_cases hsame : i = k ∧ m = n
      · exact .inr (by simp [underway,hp,hsame])
      · simp only [Reception.onLink,List.getElem?_modify] at hk
        obtain ⟨s,hs,rfl⟩ := Option.map_eq_some_iff.mp hk
        split at hn
        · rename_i hik
          rw [Session.getElem?_closes_proceed_ne fun hmn => hsame ⟨hik,hmn⟩] at hn
          exact h k s n call hs hn
        · exact h k s n call hs hn

theorem Settled.go (h : w.Settled) : w.go.Settled := by
  cases hp : w.post with
  | serving => simpa only [Keeper.go,hp] using h
  | adopting i =>
    simp only [Keeper.go,hp]
    exact h.still (by simp [underway,hp]) rfl
  | gathering clients =>
    simp only [Keeper.go,hp]
    exact h.still (by simp [underway,hp]) rfl
  | closing rest call =>
    cases call with
    | none => exact h.closing hp
    | some call => exact h.calling hp
  | returned => simpa only [Keeper.go,hp] using h

theorem Settled.step (h : w.Settled) {a : Act} (ha : a.Whole) : (w.step master a).Settled := by
  cases a with
  | accept peerAddr counter => exact h.accept peerAddr counter
  | stop => exact h.stop
  | go => exact h.go
  | close k reason =>
    refine h.modify rfl fun s n call hn => ?_
    obtain ⟨last,hcloses,hover⟩ := s.exists_closes_closeNow reason
    rw [hcloses,List.getElem?_append] at hn
    split at hn
    · exact .inr hn
    · rw [List.mem_singleton.mp (List.mem_of_getElem? hn)]
      exact .inl hover
  | beside a =>
    obtain ⟨a,hbeside⟩ := a
    rcases Reception.links_step_cases hbeside with hl | ⟨k,act,hl,hact⟩
    · intro k s n call hk hn
      rw [Keeper.step,hl] at hk
      exact h k s n call hk hn
    · have hquiet : act.Quiet := by
        rcases hact with hquiet | ⟨_,rfl⟩
        · exact hquiet
        · exact ha
      refine h.modify hl fun s n call hn => .inr ?_
      rwa [s.closes_step_of_quiet hquiet] at hn

theorem Settled.run (h : w.Settled) {acts : List Act} (ha : ∀ a ∈ acts, a.Whole) :
    (w.run master acts).Settled := by
  induction acts generalizing w with
  | nil => exact h
  | cons a acts ih =>
    simp only [List.mem_cons,forall_eq_or_imp] at ha
    exact ih (h.step ha.1) ha.2

/-! ### The end in one go -/

theorem go_of_over {rest : List Nat} {k n : Nat} {call : CloseCall} (hp : w.post = .closing rest (some (k,n)))
    (hcall : w.call? k n = some call) (hover : call.Over) :
    w.go = { w with post := .closing rest none } := by
  simp only [Keeper.go,hp,hcall,hover,if_true]

theorem go_of_not_over {rest : List Nat} {k n : Nat} {call : CloseCall} {s : Session}
    (hp : w.post = .closing rest (some (k,n))) (hs : w.reception.links[k]? = some s)
    (hn : s.closes[n]? = some call) (hover : ¬ call.Over) :
    w.go = { w with reception := { w.reception with links := w.reception.links.set k (s.step (.proceed n)) } } := by
  have hcall : w.call? k n = some call := Option.bind_eq_some_iff.mpr ⟨s,hs,hn⟩
  simp only [Keeper.go,hp,hcall,hover,if_false,Reception.onLink,modify_eq_set hs]

/-- A call that is over after some steps is left when it has taken them. -/
theorem exists_run_go_of_over (master : String) {rest : List Nat} {k n j : Nat} {s : Session}
    {call : CloseCall} (hp : w.post = .closing rest (some (k,n))) (hs : w.reception.links[k]? = some s)
    (hn : n < s.closes.length) (hcall : (s.run (List.replicate j (.proceed n))).closes[n]? = some call)
    (hover : call.Over) : ∃ m, w.run master (List.replicate m .go) =
      { w with
        reception := { w.reception with
          links := w.reception.links.set k (s.run (List.replicate j (.proceed n))) }
        post := .closing rest none } := by
  induction j generalizing w s with
  | zero =>
    refine ⟨1,(go_of_over hp (Option.bind_eq_some_iff.mpr ⟨s,hs,hcall⟩) hover).trans ?_⟩
    have hself : w.reception.links.set k s = w.reception.links := by
      rw [← (List.getElem?_eq_some_iff.mp hs).2,List.set_getElem_self]
    rw [List.replicate_zero,Session.run_nil,hself]
  | succ j ih =>
    obtain ⟨now,hnow⟩ : ∃ now, s.closes[n]? = some now := ⟨_,List.getElem?_eq_getElem hn⟩
    by_cases hdone : now.Over
    · have hstay : s.step (.proceed n) = s := by
        simp only [Session.step,hnow]
        exact Session.proceed_of_over hdone n
      simp only [List.replicate_succ,Session.run_cons,hstay] at hcall ⊢
      exact ih hp hs hn hcall
    · have hlt := (List.getElem?_eq_some_iff.mp hs).1
      obtain ⟨m,hm⟩ := @ih { w with reception := { w.reception with
        links := w.reception.links.set k (s.step (.proceed n)) } } (s.step (.proceed n)) hp
        (List.getElem?_set_self hlt) (Nat.lt_of_lt_of_le hn (s.goes_step _).calls) hcall
      refine ⟨m + 1,?_⟩
      rw [List.replicate_succ,run_cons,step,go_of_not_over hp hs hnow hdone,hm]
      simp only [List.set_set,List.replicate_succ,Session.run_cons]

/-- The loop closes the next link in one go, if nobody is in its way. -/
theorem exists_run_go_close (master : String) {k : Nat} {rest : List Nat}
    (hp : w.post = .closing (k :: rest) none) :
    ∃ m, (w.run master (List.replicate m .go)).post = .closing rest none ∧
      (w.run master (List.replicate m .go)).reception.roster = w.reception.roster ∧
      (w.run master (List.replicate m .go)).reception.connections =
        w.reception.connections.close k "master shutting down" := by
  cases hs : w.reception.links[k]? with
  | none =>
    have hskip : w.go = { w with post := .closing rest none } := by simp only [Keeper.go,hp,hs]
    have hsame : w.reception.connections.close k "master shutting down" = w.reception.connections :=
      List.modify_eq_self (by simpa [Reception.connections] using List.getElem?_eq_none_iff.mp hs)
    refine ⟨1,?_⟩
    rw [List.replicate_one,run_cons,run_nil,step,hskip,hsame]
    exact ⟨rfl,rfl,rfl⟩
  | some s =>
    let begun := s.step (.close "master shutting down")
    have hlt := (List.getElem?_eq_some_iff.mp hs).1
    have hbegin : w.go = { w with
        reception := { w.reception with links := w.reception.links.set k begun }
        post := .closing rest (some (k,s.closes.length))
        calls := w.calls ++ [(k,s.closes.length)] } := by
      simp only [Keeper.go,hp,hs,Reception.onLink,modify_eq_set hs,begun]
    obtain ⟨call,hcloses,hover⟩ := s.exists_closes_closeNow "master shutting down"
    have hlast : (s.closeNow "master shutting down").closes[s.closes.length]? = some call := by
      simp [hcloses]
    obtain ⟨m,hm⟩ := @exists_run_go_of_over w.go master rest k s.closes.length 4 begun call
      (by rw [hbegin]) (by rw [hbegin]; exact List.getElem?_set_self hlt) (by simp [begun,Session.step])
      hlast hover
    have hclosed : (s.closeNow "master shutting down").link = s.link.close "master shutting down" :=
      s.link_close _
    have hconnection : w.reception.connections[k]? = some s.link := by
      rw [Reception.connections,List.getElem?_map,hs]
      rfl
    refine ⟨m + 1,?_⟩
    rw [List.replicate_succ,run_cons,step,hm,hbegin]
    refine ⟨rfl,rfl,?_⟩
    rw [Links.close,Links.update,modify_eq_set hconnection,← hclosed]
    simp only [Reception.connections,List.set_set,List.map_set]
    rfl

theorem exists_run_go_closeAll (master : String) {rest : List Nat} (hp : w.post = .closing rest none) :
    ∃ m, (w.run master (List.replicate m .go)).post = .returned ∧
      (w.run master (List.replicate m .go)).reception.roster = w.reception.roster ∧
      (w.run master (List.replicate m .go)).reception.connections =
        w.reception.connections.closeAll rest "master shutting down" := by
  induction rest generalizing w with
  | nil => exact ⟨1,by simp [step,Keeper.go,hp,Links.closeAll]⟩
  | cons k rest ih =>
    obtain ⟨m,hpost,hroster,hlinks⟩ := exists_run_go_close master hp
    obtain ⟨m',hpost',hroster',hlinks'⟩ := ih hpost
    refine ⟨m + m',?_⟩
    rw [List.replicate_add,run_append]
    exact ⟨hpost',hroster'.trans hroster,hlinks'.trans (by rw [hlinks]; rfl)⟩

theorem exists_run_stop (master : String) (hp : w.post = .serving) :
    ∃ m, (w.run master (.stop :: List.replicate m .go)).post = .returned ∧
      (w.run master (.stop :: List.replicate m .go)).reception.roster =
        (w.reception.roster.stop w.reception.connections).1 ∧
      (w.run master (.stop :: List.replicate m .go)).reception.connections =
        (w.reception.roster.stop w.reception.connections).2 := by
  have hgathered : w.stop.go.post = .closing
      (w.reception.roster.entries.map (·.link) ++ w.reception.roster.accepted) none := by
    simp only [Keeper.stop,hp,Keeper.go]
  obtain ⟨m,hpost,hroster,hlinks⟩ := exists_run_go_closeAll master hgathered
  refine ⟨m + 1,?_⟩
  rw [List.replicate_succ,run_cons,run_cons]
  refine ⟨hpost,hroster.trans ?_,hlinks.trans ?_⟩
  · simp only [Keeper.stop,hp,Keeper.go,Roster.stop]
  · simp only [Keeper.stop,hp,Keeper.go,Roster.stop]
    rfl

/-! ### What the end leaves -/

theorem Sound.not_mem_calls (h : w.Sound) (hunder : w.underway = none) {k n : Nat} {s : Session}
    {call : CloseCall} (hk : w.reception.links[k]? = some s) (hn : s.closes[n]? = some call)
    (hover : ¬ call.Over) : (k,n) ∉ w.calls := by
  intro hmem
  obtain ⟨call',hcall',hover'⟩ := h.calls_over hunder hmem
  have hcall : w.call? k n = some call := Option.bind_eq_some_iff.mpr ⟨s,hk,hn⟩
  rw [Option.some.inj (hcall.symm.trans hcall')] at hover
  exact hover hover'

/-- However the loop, the clients, the checks and whoever else closes a link take their turns: while the
loop serves, every link that is up is among the accepted ones; it can stop then, and if nobody is in its
way it returns and has stopped the roster and every link of it. When it has returned after any turns, no
client that the roster held is in it, and every link ever adopted is disconnected. The one exception is a
link that another task had begun to close before the loop came to it, as long as that task is between two
steps of its call; the steps that are left to it disconnect the link. If the other tasks close links in one
go there is no exception. -/
theorem disconnected_of_returned (master : String) (acts : List Act) :
    let w := ({} : Keeper).run master acts
    (w.post = .serving →
      (∀ k, w.reception.connections.connected k = true → k ∈ w.reception.roster.accepted) ∧
      ∃ m, (w.run master (.stop :: List.replicate m .go)).post = .returned ∧
        (w.run master (.stop :: List.replicate m .go)).reception.roster =
          (w.reception.roster.stop w.reception.connections).1 ∧
        (w.run master (.stop :: List.replicate m .go)).reception.connections =
          (w.reception.roster.stop w.reception.connections).2) ∧
    (w.post = .returned →
      (∀ client ∈ w.former, client ∉ w.reception.roster.holders) ∧
      (∀ k s, w.reception.links[k]? = some s → s.link.phase = .disconnected ∨
        ∃ n owner, s.closes[n]? = some owner ∧ (k,n) ∉ w.calls ∧ ¬ owner.Over ∧
          s.link.closeReason = some owner.reason ∧
          (s.run (List.replicate (4 - owner.stage.rank) (.proceed n))).link.phase = .disconnected) ∧
      ((∀ a ∈ acts, a.Whole) → ∀ s ∈ w.reception.links, s.link.phase = .disconnected)) := by
  intro w
  have h : w.Sound := sound_start.run acts
  have hsettled : (∀ a ∈ acts, a.Whole) → w.Settled := fun ha => settled_start.run ha
  clear_value w
  refine ⟨fun hp => ⟨fun k hk => ?_,exists_run_stop master hp⟩,fun hp => ?_⟩
  · unfold Links.connected at hk
    split at hk
    · rename_i c hc
      rw [Reception.connections,List.getElem?_map] at hc
      obtain ⟨s,hs,rfl⟩ := Option.map_eq_some_iff.mp hc
      have hcovers := h.covers k s hs
      rw [hp] at hcovers
      exact hcovers.resolve_left (by simpa [Connection.isConnected] using hk)
    · simp at hk
  · have hunder : w.underway = none := by simp [underway,hp]
    have hlinks : ∀ k s, w.reception.links[k]? = some s → s.link.phase = .disconnected ∨
        ∃ n owner, s.closes[n]? = some owner ∧ (k,n) ∉ w.calls ∧ ¬ owner.Over ∧
          s.link.closeReason = some owner.reason ∧
          (s.run (List.replicate (4 - owner.stage.rank) (.proceed n))).link.phase = .disconnected := by
      intro k s hk
      have hcovers := h.covers k s hk
      rw [hp] at hcovers
      obtain ⟨n,owner,hn,hreason,hphase,hrank,hends⟩ :=
        (h.owned s (List.mem_of_getElem? hk)).exists_closer hcovers
      by_cases hover : owner.Over
      · refine .inl (hphase.mpr (hover.resolve_right fun hlate => ?_))
        simp [hlate,CloseStage.rank] at hrank
      · exact .inr ⟨n,owner,hn,h.not_mem_calls hunder hk hn hover,hover,hreason,hends⟩
    refine ⟨fun client hc hmem => h.gone client hmem hc,hlinks,fun ha s hs => ?_⟩
    obtain ⟨k,hk⟩ := List.getElem?_of_mem hs
    refine (hlinks k s hk).resolve_right ?_
    rintro ⟨n,owner,hn,-,hover,-⟩
    exact hover ((hsettled ha).all_over hunder hk hn)

/-- A client and a link without one, when the loop is told to stop. Once the client's link was closed in one
go before; once its reader had only taken its reason down, and the link is still up when the loop returns. -/
theorem disconnected_of_returned_adopted :
    let enter : List Act := [.accept "address" 7,.go,.accept "address" 8,.go,
      .beside ⟨.hello 0 (Utf8.encode "a") 1,trivial⟩]
    let stop : List Act := .stop :: List.replicate 14 .go
    let whole := ({} : Keeper).run "master" (enter ++ [.close 0 "connection closed"] ++ stop)
    let halfway := ({} : Keeper).run "master" (enter ++
      [.beside ⟨.link 0 ⟨.close "connection closed",trivial⟩,trivial⟩,
        .beside ⟨.link 0 ⟨.proceed 0,trivial⟩,trivial⟩] ++ stop)
    whole.former = [("a",0)] ∧ ("a",0) ∉ whole.reception.roster.holders ∧ whole.reception.links.length = 2 ∧
      (∀ s ∈ whole.reception.links, s.link.phase = .disconnected) ∧
      halfway.reception.connections.connected 0 = true ∧ halfway.reception.connections.connected 1 = false ∧
      ∃ s n owner, halfway.reception.links[0]? = some s ∧ s.closes[n]? = some owner ∧ (0,n) ∉ halfway.calls ∧
        (s.run (List.replicate (4 - owner.stage.rank) (.proceed n))).link.phase = .disconnected := by
  intro enter stop whole halfway
  have hwhole := (disconnected_of_returned "master" (enter ++ [.close 0 "connection closed"] ++ stop)).2
    (by decide +kernel)
  have hhalf := (disconnected_of_returned "master" (enter ++
    [.beside ⟨.link 0 ⟨.close "connection closed",trivial⟩,trivial⟩,
      .beside ⟨.link 0 ⟨.proceed 0,trivial⟩,trivial⟩] ++ stop)).2 (by decide +kernel)
  have hformer : whole.former = [("a",0)] := by decide +kernel
  have hacts : ∀ a ∈ enter ++ [.close 0 "connection closed"] ++ stop, a.Whole := by
    intro a ha
    simp only [enter,stop,List.mem_append,List.mem_cons,List.mem_replicate,List.not_mem_nil,or_false] at ha
    rcases ha with ((rfl | rfl | rfl | rfl | rfl) | rfl) | rfl | ⟨-,rfl⟩ <;> exact trivial
  have hup : halfway.reception.connections.connected 0 = true := by decide +kernel
  obtain ⟨s,hs⟩ : ∃ s, halfway.reception.links[0]? = some s := by
    refine ⟨_,List.getElem?_eq_getElem ?_⟩
    decide +kernel
  refine ⟨hformer,hwhole.1 _ (by rw [hformer]; exact List.mem_singleton_self _),by decide +kernel,
    hwhole.2.2 hacts,hup,by decide +kernel,?_⟩
  rcases hhalf.2.1 0 s hs with hdown | ⟨n,owner,hn,hother,-,-,hends⟩
  · simp [Links.connected,Reception.connections,hs,Connection.isConnected,hdown] at hup
  · exact ⟨s,n,owner,hs,hn,hother,hends⟩

/-- A link is adopted, its reader takes down why it is closed and gets no further. The loop is told to stop,
finds that the link is being closed, leaves that to the reader and returns: the link is still up. -/
theorem connected_of_returned :
    let adopted := ({} : Keeper).run "master" [.accept "address" 7,.go]
    let closing := adopted.run "master" [.beside ⟨.link 0 ⟨.close "connection closed",trivial⟩,trivial⟩,
      .beside ⟨.link 0 ⟨.proceed 0,trivial⟩,trivial⟩]
    let w := closing.run "master" (.stop :: List.replicate 5 .go)
    adopted.post = .serving ∧ adopted.reception.roster.accepted = [0] ∧
      w.post = .returned ∧ w.reception.connections.connected 0 = true ∧ w.calls = [(0,1)] := by
  decide +kernel

end Keeper
end Tether
