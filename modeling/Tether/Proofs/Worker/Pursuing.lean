import Tether.Cluster.Script
import Tether.Proofs.Worker.Course
import Tether.Proofs.Worker.Obeying

/-! A worker of the simulated world keeps to a course. What its loop is told is an act of the course, and
what others are told and what is counted in the world is what the course has put out. -/
namespace Tether

/-- A report is heeded if it is due. -/
theorem Course.Disciplined.step_tell {policy : Nat → UInt32 → Option Span} {before : UInt64} {c : Course}
    (h : Disciplined policy before c) (limit : Span) {input : WorkerInput}
    (hdue : (∃ report, input = .reported report) → ∀ o, c.opened = some o → o.working = true) :
    c.step policy limit (.tell input) = c.take (c.plan policy limit) input := by
  by_cases hheeds : c.heeds input = true
  · exact if_pos hheeds
  · refine (if_neg hheeds).trans ?_
    cases input with
    | reported report =>
      have hnone : c.opened = none := Option.eq_none_iff_forall_ne_some.mpr fun o ho =>
        hheeds (by simp [heeds,ho,hdue ⟨report,rfl⟩ o ho])
      have hsession : ∀ link, c.loop.stage ≠ .session link := fun link hlink => by
        simpa [hnone] using h.opened.mpr ⟨link,hlink⟩
      have hstep : c.loop.step (c.plan policy limit) (.reported report) = (c.loop,[]) := by
        cases hs : c.loop.stage with
        | session link => exact absurd hs (hsession link)
        | _ => simp only [WorkerLoop.step,hs]
      have hopened : c.openedBy (.reported report) = c.opened := by
        cases hs : c.loop.stage with
        | session link => exact absurd hs (hsession link)
        | _ => simp only [openedBy,hs]
      rw [Course.take,hstep,hopened]
      simp [attempt?,WorkerLoop.failure?,WorkerLoop.question?,countAll_nil]
    | _ => exact absurd rfl hheeds

namespace Cluster

variable {w w' w'' : World} {i : Nat} {x x' : Worker} {outs : List WorkerOutput}

/-! ### What the loop has still to be told -/

/-- Of one session's work no more is ahead than that it begins, that it goes on, or what has come of it. -/
structure Due (works : Bool) (inputs : List WorkerInput) (opened : Option Opened) : Prop where
  once : inputs.countP WorkerInput.isWork + works.toNat ≤ 1
  working : works = true ∨ (∃ report, .reported report ∈ inputs) →
    ∀ o, opened = some o → o.working = true

variable {works works' : Bool} {inputs new : List WorkerInput} {opened : Option Opened}

theorem Due.mono (h : Due works inputs opened) (hle : works' = true → works = true) :
    Due works' inputs opened := by
  refine ⟨Nat.le_trans (Nat.add_le_add_left ?_ _) h.once,fun hworking => h.working (hworking.imp_left hle)⟩
  cases works' <;> simp_all

theorem Due.append (h : Due works inputs opened) (hnew : ∀ input ∈ new, input.isWork = false) :
    Due works (inputs ++ new) opened := by
  have hnone : new.countP WorkerInput.isWork = 0 :=
    List.countP_eq_zero.mpr fun input hinput => by simp [hnew input hinput]
  refine ⟨by simpa [List.countP_append,hnone] using h.once,fun hworking => h.working ?_⟩
  refine hworking.imp_right fun ⟨report,hreport⟩ => ⟨report,?_⟩
  exact (List.mem_append.mp hreport).resolve_right fun hmem => by simpa [WorkerInput.isWork] using hnew _ hmem

/-- The loop takes an input. -/
theorem Due.take {input : WorkerInput} {c : Course} {plan : WorkerPlan}
    (h : Due works (input :: inputs) c.opened)
    (hworks : works' = true → works = true ∨ ∃ link, .serve link ∈ (c.loop.step plan input).2) :
    Due works' inputs (c.take plan input).opened := by
  have honce := h.once
  rw [List.countP_cons] at honce
  cases hinput : input.isWork with
  | true =>
    -- nothing else is ahead of the work that is told of
    rw [hinput,if_pos rfl] at honce
    have hnone : inputs.countP WorkerInput.isWork = 0 := by omega
    have hidle : works = false := by cases works <;> simp_all
    have hno : ¬∃ report, .reported report ∈ inputs := by
      rintro ⟨report,hmem⟩
      simpa [WorkerInput.isWork] using List.countP_eq_zero.mp hnone _ hmem
    refine ⟨by rw [hnone]; cases works' <;> simp,fun hworking o ho => ?_⟩
    obtain ⟨link,hlink⟩ := (hworks (hworking.resolve_right hno)).resolve_left (by simp [hidle])
    obtain ⟨peer,rfl,hstage⟩ := WorkerLoop.greeted_of_serve_mem hlink
    obtain rfl : { peer } = o := by simpa [Course.take,Course.openedBy,hstage] using ho
    rfl
  | false =>
    have hgoes (hworks' : works' = true) : works = true := by
      refine (hworks hworks').resolve_right ?_
      rintro ⟨link,hlink⟩
      obtain ⟨peer,rfl,-⟩ := WorkerLoop.greeted_of_serve_mem hlink
      simp [WorkerInput.isWork] at hinput
    have hrest : Due works inputs c.opened := by
      refine ⟨by omega,fun hworking => h.working (hworking.imp_right ?_)⟩
      rintro ⟨report,hmem⟩
      exact ⟨report,List.mem_cons_of_mem input hmem⟩
    have hopened : (c.take plan input).opened = c.opened ∨ (c.take plan input).opened = none := by
      simp only [Course.take,Course.openedBy]
      split
      · simp [WorkerInput.isWork] at hinput
      · exact .inr rfl
      · simp [WorkerInput.isWork] at hinput
      · exact .inl rfl
    rcases hopened with hsame | hnone
    · rw [hsame]
      exact hrest.mono hgoes
    · rw [hnone]
      exact ⟨(hrest.mono hgoes).once,fun _ o ho => by simp at ho⟩

/-- The record of a worker is that of its course. -/
structure Keeps (w : World) (x : Worker) (plan : WorkerPlan) (stage : WorkingStage) (c : Course) : Prop where
  plan : x.plan = plan
  loop : x.loop = c.loop
  due : Due stage.works x.inputs c.opened
  /-- What others were told last may still be there to be read. -/
  told : x.events.reverse <:+ c.outputs.filterMap WorkerOutput.event?
  counted : (w.traffics.map Traffic.reconnects)[x.traffic]? = some c.traffic.reconnects
  begun : stage = .unstarted → ∃ result, c.loop.stage = .stopped result

variable {plan : WorkerPlan} {stage stage' : WorkingStage} {c c' : Course}

theorem Keeps.aside (h : Keeps w x plan stage c) (h' : w.Aside w') : Keeps w' x plan stage c :=
  { h with counted := h'.reconnects ▸ h.counted }

theorem Keeps.restage (h : Keeps w x plan stage c) (hworks : stage'.works = true → stage.works = true)
    (hbegun : stage' ≠ .unstarted) : Keeps w x plan stage' c :=
  { h with
    due := h.due.mono hworks
    begun := fun hstage => absurd hstage hbegun }

theorem Keeps.tell (h : Keeps w x plan stage c) {input : WorkerInput}
    (hdue : Due stage'.works (x.inputs ++ [input]) c.opened) (hbegun : stage' ≠ .unstarted) :
    Keeps (w.tellWorker i input) { x with inputs := x.inputs ++ [input] } plan stage' c :=
  { h with
    due := hdue
    begun := fun hstage => absurd hstage hbegun }

/-- Worker `i` has kept to its course, and in the world nothing else has changed that concerns a worker. -/
structure Pursues (w : World) (i : Nat) (x : Worker) (plan : WorkerPlan) (c : Course)
    (result : World × WorkingStage) : Prop where
  keeps : ∃ x', result.1.workers = w.workers.set i x' ∧ x'.traffic = x.traffic ∧
    Keeps result.1 x' plan result.2 c
  elsewhere : ∀ k, k ≠ x.traffic →
    (result.1.traffics.map Traffic.reconnects)[k]? = (w.traffics.map Traffic.reconnects)[k]?

variable {result : World × WorkingStage}

theorem Pursues.worker (h : Pursues w i x plan c result) (hx : w.workers[i]? = some x) :
    ∃ x', result.1.workers[i]? = some x' ∧ Keeps result.1 x' plan result.2 c := by
  obtain ⟨x',hworkers,-,hkeeps⟩ := h.keeps
  refine ⟨x',?_,hkeeps⟩
  rw [hworkers,List.getElem?_set_self (List.getElem?_eq_some_iff.mp hx).1]

theorem Pursues.of_aside (hx : w.workers[i]? = some x) (h : w.Aside w') (hkeeps : Keeps w' x plan stage c) :
    Pursues w i x plan c (w',stage) := by
  obtain ⟨hlt,hget⟩ := List.getElem?_eq_some_iff.mp hx
  refine ⟨⟨x,?_,rfl,hkeeps⟩,fun k _ => by rw [h.reconnects]⟩
  rw [h.workers,← hget,List.set_getElem_self]

theorem Pursues.of_tell (hx : w.workers[i]? = some x) {input : WorkerInput}
    (hkeeps : Keeps (w.tellWorker i input) { x with inputs := x.inputs ++ [input] } plan stage c) :
    Pursues w i x plan c (w.tellWorker i input,stage) :=
  ⟨⟨_,modify_eq_set hx _,rfl,hkeeps⟩,fun _ _ => rfl⟩

theorem Pursues.trans (hx : w.workers[i]? = some x) (h : Pursues w i x plan c (w',stage))
    (hnext : ∀ x', w'.workers[i]? = some x' → Keeps w' x' plan stage c → Pursues w' i x' plan c' result) :
    Pursues w i x plan c' result := by
  obtain ⟨⟨x',hworkers,htraffic,hkeeps⟩,helse⟩ := h
  have hx' : w'.workers[i]? = some x' := by
    rw [hworkers,List.getElem?_set_self (List.getElem?_eq_some_iff.mp hx).1]
  obtain ⟨⟨x'',hworkers',htraffic',hkeeps'⟩,helse'⟩ := hnext x' hx' hkeeps
  refine ⟨⟨x'',?_,htraffic'.trans htraffic,hkeeps'⟩,fun k hk => ?_⟩
  · rw [hworkers',hworkers,List.set_set]
  · exact (helse' k (htraffic ▸ hk)).trans (helse k hk)

theorem Pursues.of_outputs (hx : w.workers[i]? = some x) (hplan : x.plan = plan) (hloop : x.loop = c'.loop)
    (htold : x.events.reverse <:+ c.outputs.filterMap WorkerOutput.event?)
    (hcounted : (w.traffics.map Traffic.reconnects)[x.traffic]? = some c.traffic.reconnects)
    (houtputs : c'.outputs = c.outputs ++ outs)
    (htraffic : c'.traffic = c.traffic.countAll (outs.filterMap WorkerOutput.traffic?))
    (hdue : ∀ works, (works = true → stage.works = true ∨ ∃ link, .serve link ∈ outs) →
      Due works x.inputs c'.opened)
    (hbegun : stage = .unstarted → ∃ result, c'.loop.stage = .stopped result) :
    Pursues w i x plan c' (Working.obeyAll w i stage outs) := by
  obtain ⟨x',h⟩ := Working.exists_obeyedAll hx stage outs
  obtain ⟨hworks,hstage⟩ := Working.stage_obeyAll w i stage outs
  obtain ⟨new,hinputs,hnew⟩ := h.inputs
  refine ⟨⟨x',h.workers,h.traffic,h.plan.trans hplan,h.loop.trans hloop,?_,?_,?_,fun hs =>
    hbegun (hstage hs)⟩,fun k hk => ?_⟩
  · rw [hinputs]
    exact (hdue _ hworks).append hnew
  · obtain ⟨earlier,hearlier⟩ := htold
    refine ⟨earlier,?_⟩
    rw [h.told,houtputs,List.filterMap_append,← hearlier,List.append_assoc]
  · rw [h.counted,h.traffic,List.getElem?_modify_eq,hcounted,htraffic,Traffic.reconnects_countAll]
    rfl
  · rw [h.counted,List.getElem?_modify_ne _ _ hk.symm]

theorem Pursues.of_advance (hx : w.workers[i]? = some x) {next : WorkerLoop × List WorkerOutput}
    (hplan : x.plan = plan) (htold : x.events.reverse <:+ c.outputs.filterMap WorkerOutput.event?)
    (hcounted : (w.traffics.map Traffic.reconnects)[x.traffic]? = some c.traffic.reconnects)
    (hloop : c'.loop = next.1) (houtputs : c'.outputs = c.outputs ++ next.2)
    (htraffic : c'.traffic = c.traffic.countAll (next.2.filterMap WorkerOutput.traffic?))
    (hdue : ∀ works, (works = true → stage.works = true ∨ ∃ link, .serve link ∈ next.2) →
      Due works x.inputs c'.opened)
    (hbegun : stage = .unstarted → ∃ result, c'.loop.stage = .stopped result) :
    Pursues w i x plan c' (Working.advance w i stage next) := by
  have hset : (w.onWorker i fun x => { x with loop := next.1 }).workers =
      w.workers.set i { x with loop := next.1 } := modify_eq_set hx _
  have hget := List.getElem?_set_self (a := { x with loop := next.1 }) (List.getElem?_eq_some_iff.mp hx).1
  rw [← hset] at hget
  obtain ⟨⟨x',hworkers,hsame,hkeeps⟩,helse⟩ :=
    Pursues.of_outputs hget hplan hloop.symm htold hcounted houtputs htraffic hdue hbegun
  refine ⟨⟨x',?_,hsame,hkeeps⟩,helse⟩
  rw [hset,List.set_set] at hworkers
  exact hworkers

theorem Keeps.advance {before : UInt64} (hx : w.workers[i]? = some x) (h : Keeps w x plan stage c)
    (hc : c.Disciplined (fun _ => plan.policy) before) {input : WorkerInput}
    (hdue : Due stage.works (input :: x.inputs) c.opened)
    (hbegun : stage = .unstarted → ∃ result, (c.loop.step plan input).1.stage = .stopped result) :
    Pursues w i x plan (c.step (fun _ => plan.policy) plan.greetingLimit (.tell input))
      (Working.advance w i stage (x.loop.step x.plan input)) := by
  have htell : c.step (fun _ => plan.policy) plan.greetingLimit (.tell input) = c.take plan input :=
    hc.step_tell plan.greetingLimit fun ⟨report,hreport⟩ =>
      hdue.working (.inr ⟨report,hreport ▸ List.mem_cons_self⟩)
  rw [htell,h.plan,h.loop]
  exact .of_advance hx h.plan h.told h.counted rfl rfl rfl (fun works hworks => hdue.take hworks) hbegun

/-! ### The worker's turns -/

theorem Keeps.runWork {link : Nat} {p : Probing} {work : Option Work} (hx : w.workers[i]? = some x)
    (h : Keeps w x plan (.session link p work) c) (hinputs : x.inputs = []) :
    Pursues w i x plan c
      ((Working.runWork w i work).1,.session link p (Working.runWork w i work).2) := by
  cases work with
  | none => exact .of_aside hx (.refl w) h
  | some work =>
    have hrun := work.aside_run w
    simp only [Working.runWork]
    generalize work.run w = ran at hrun ⊢
    have hx₁ : ran.1.workers[i]? = some x := by rw [hrun.workers,hx]
    have hidle : Keeps ran.1 x plan (.session link p none) c :=
      (h.aside hrun).restage (by simp [WorkingStage.works]) (by simp)
    rcases ran with ⟨w₁,work | error | report | report⟩
    · exact .of_aside hx hrun ((h.aside hrun).restage (fun _ => rfl) (by simp))
    · exact .of_aside hx hrun hidle
    · exact .of_aside hx hrun hidle
    · refine (Pursues.of_aside hx hrun hidle).trans hx fun x₁ hx₁' hkeeps => ?_
      obtain rfl : x = x₁ := Option.some.inj (hx₁.symm.trans hx₁')
      refine .of_tell hx₁ (hkeeps.tell ⟨?_,fun _ => ?_⟩ (by simp))
      · rw [hinputs]
        simp [WorkingStage.works,WorkerInput.isWork]
      · exact h.due.working (.inl rfl)

theorem Keeps.concludes (hx : w.workers[i]? = some x) (h : Keeps w x plan stage c) (hw : w.Aside w')
    {input : WorkerInput} (hinput : input.isWork = false) :
    Pursues w i x plan c (w'.tellWorker i input,.idle) := by
  have hidle : Keeps w' x plan .idle c := (h.aside hw).restage (by simp [WorkingStage.works]) (by simp)
  refine (Pursues.of_aside hx hw hidle).trans hx fun x₁ hx₁ hkeeps => ?_
  exact .of_tell hx₁ (hkeeps.tell (hkeeps.due.append (by simp [hinput])) (by simp))

theorem Keeps.endSession (hx : w.workers[i]? = some x) (h : Keeps w x plan stage c) (link : Nat)
    (p : Option Probing) (work : Option Work) (reason : String) :
    Pursues w i x plan c (Working.endSession w i link p work reason) := by
  unfold Working.endSession
  extract_lets w₁ w₂ w₃ reason'
  have hwork : w.Aside w₁ := by
    cases work with
    | none => exact .refl w
    | some work => exact work.aside_drop w
  have hprobing : w₁.Aside w₂ := by
    cases p with
    | none => exact .refl w₁
    | some p => exact p.aside_drop w₁
  exact h.concludes hx ((hwork.trans hprobing).trans (w₂.aside_closeLink ..)) rfl

theorem Keeps.runSession {link : Nat} {p : Probing} {work : Option Work} (hx : w.workers[i]? = some x)
    (h : Keeps w x plan (.session link p work) c) (hinputs : x.inputs = []) (stopping : Bool) :
    Pursues w i x plan c (Working.runSession w i stopping link p work) := by
  have hworked := h.runWork hx hinputs
  unfold Working.runSession
  generalize Working.runWork w i work = worked at hworked ⊢
  obtain ⟨w₁,work₁⟩ := worked
  refine hworked.trans hx fun x₁ hx₁ hkeeps => ?_
  split
  · rename_i w₁' hcrashed
    obtain ⟨rfl,rfl⟩ := Prod.mk.inj hcrashed
    have hdropped := p.aside_drop w₁
    exact .of_aside hx₁ hdropped ((hkeeps.aside hdropped).restage (by simp [WorkingStage.works]) (by simp))
  rename_i w₁' work₁' _ hgoes
  obtain ⟨rfl,rfl⟩ := Prod.mk.inj hgoes
  have hprobed := p.aside_run w₁
  generalize p.run w₁ = probed at hprobed ⊢
  have hx₂ : probed.1.workers[i]? = some x₁ := by rw [hprobed.workers,hx₁]
  rcases probed with ⟨w₂,p₁ | ⟨tracker,e⟩⟩
  · have hgoes : Keeps w₂ x₁ plan (.session link p₁ work₁) c :=
      (hkeeps.aside hprobed).restage (by cases work₁ <;> exact id) (by simp)
    refine (Pursues.of_aside hx₁ hprobed hgoes).trans hx₁ fun x₂ hx₂ hkeeps' => ?_
    dsimp only
    split
    · exact hkeeps'.endSession hx₂ ..
    · split
      · exact hkeeps'.endSession hx₂ ..
      · exact .of_aside hx₂ (.refl w₂) hkeeps'
  · have hgoes : Keeps w₂ x₁ plan (.session link p work₁) c := hkeeps.aside hprobed
    exact (Pursues.of_aside hx₁ hprobed hgoes).trans hx₁ fun x₂ hx₂ hkeeps' =>
      hkeeps'.endSession hx₂ ..

theorem Keeps.runGreeting {link due : Nat} {g : Greeting} (hx : w.workers[i]? = some x)
    (h : Keeps w x plan (.greeting link g due) c) (hinputs : x.inputs = []) :
    Pursues w i x plan c (Working.runGreeting w i link g due) := by
  have hrun := g.aside_run w
  unfold Working.runGreeting
  generalize g.run w = ran at hrun ⊢
  rcases ran with ⟨w₁,g₁ | error | peer⟩
  · have hgoes : Keeps w₁ x plan (.greeting link g₁ due) c := (h.aside hrun).restage id (by simp)
    dsimp only
    split
    · have hlate : WorkerInput.greetingTimedOut.isWork = false := rfl
      refine (h.concludes hx hrun hlate).trans hx fun x₂ hx₂ hkeeps => ?_
      exact .of_aside hx₂ (g₁.aside_drop _) (hkeeps.aside (g₁.aside_drop _))
    · exact .of_aside hx hrun hgoes
  · exact h.concludes hx hrun rfl
  · have hidle : Keeps w₁ x plan .idle c := (h.aside hrun).restage (by simp [WorkingStage.works]) (by simp)
    refine (Pursues.of_aside hx hrun hidle).trans hx fun x₁ hx₁ hkeeps => ?_
    have hx₀ : w₁.workers[i]? = some x := by rw [hrun.workers,hx]
    obtain rfl : x = x₁ := Option.some.inj (hx₀.symm.trans hx₁)
    refine .of_tell hx₁ (hkeeps.tell ⟨?_,fun hworking => ?_⟩ (by simp))
    · rw [hinputs]
      simp [WorkingStage.works,WorkerInput.isWork]
    · simp [hinputs,WorkingStage.works] at hworking

theorem Working.aside_dropStage (w : World) (stage : WorkingStage) : w.Aside (dropStage w stage) := by
  unfold dropStage
  split
  · exact Greeting.aside_drop ..
  · rename_i link p work
    dsimp only
    split
    · exact (p.aside_drop w).trans (Work.aside_drop ..)
    · exact p.aside_drop w
  · exact .refl w

theorem Keeps.dropStage (hx : w.workers[i]? = some x) (h : Keeps w x plan stage c) (hw : w.Aside w') :
    Pursues w i x plan c (Working.dropStage w' stage,.idle) := by
  have hdropped := hw.trans (Working.aside_dropStage w' stage)
  exact .of_aside hx hdropped ((h.aside hdropped).restage (by simp [WorkingStage.works]) (by simp))

theorem Keeps.runStage (hx : w.workers[i]? = some x) (h : Keeps w x plan stage c) (hinputs : x.inputs = [])
    (hbegun : stage ≠ .unstarted) : Pursues w i x plan c (Working.runStage w i x stage) := by
  cases stage with
  | unstarted => exact absurd rfl hbegun
  | idle => exact .of_aside hx (.refl w) h
  | greeting link g due => exact h.runGreeting hx hinputs
  | session link p work => exact h.runSession hx hinputs x.loop.stopping
  | pausing due =>
    simp only [Working.runStage]
    split
    · exact h.concludes hx (.refl w) rfl
    · exact .of_aside hx (.refl w) h
  | crashed => exact .of_aside hx (.refl w) h

/-- What a worker is about once it has ended, or has not. -/
def Working.standing : Option Working → WorkingStage
  | none => .idle
  | some a => a.stage

theorem Pursues.settle (hx : w.workers[i]? = some x) (h : Pursues w i x plan c result) :
    Pursues w i x plan c
      ((Working.settle i x result).1,Working.standing (Working.settle i x result).2) := by
  unfold Working.settle
  split
  · rename_i w₁
    refine h.trans hx fun x₁ hx₁ hkeeps => ?_
    have hgone : w₁.Aside (w₁.find x.id .panicked) := ⟨rfl,rfl⟩
    have hidle : Keeps (w₁.find x.id .panicked) x₁ plan .idle c :=
      (hkeeps.aside hgone).restage (by simp [WorkingStage.works]) (by simp)
    exact .of_aside hx₁ hgone hidle
  · exact h

/-- A turn of the worker. -/
theorem Keeps.run {before : UInt64} (hx : w.workers[i]? = some x) (h : Keeps w x plan stage c)
    (hc : c.Disciplined (fun _ => plan.policy) before) :
    ∃ acts, Pursues w i x plan (c.run (fun _ => plan.policy) plan.greetingLimit acts)
      ((Working.run w ⟨i,stage⟩).1,Working.standing (Working.run w ⟨i,stage⟩).2) := by
  simp only [Working.run,hx]
  by_cases hstopped : ∃ result, x.loop.stage = .stopped result
  · obtain ⟨result,hstopped⟩ := hstopped
    simp only [hstopped]
    exact ⟨[],h.dropStage hx ⟨rfl,rfl⟩⟩
  have hbegun : stage ≠ .unstarted := fun hs => hstopped (h.loop ▸ h.begun hs)
  split
  · rename_i result hresult
    exact absurd ⟨result,hresult⟩ hstopped
  cases hinputs : x.inputs with
  | nil =>
    refine ⟨[],?_⟩
    exact (h.runStage hx hinputs hbegun).settle hx
  | cons input rest =>
    refine ⟨[.tell input],?_⟩
    dsimp only
    have hdue := h.due
    rw [hinputs] at hdue
    have hpopped : Pursues w i x plan c (w.onWorker i fun x => { x with inputs := rest },stage) := by
      refine ⟨⟨{ x with inputs := rest },modify_eq_set hx _,rfl,{ h with due := ⟨?_,fun hworking => ?_⟩ }⟩,
        fun _ _ => rfl⟩
      · have honce := hdue.once
        rw [List.countP_cons] at honce
        exact Nat.le_trans (Nat.add_le_add_right (Nat.le_add_right ..) _) honce
      · exact hdue.working (hworking.imp_right fun ⟨report,hmem⟩ => ⟨report,List.mem_cons_of_mem input hmem⟩)
    have hget := List.getElem?_set_self (a := { x with inputs := rest }) (List.getElem?_eq_some_iff.mp hx).1
    rw [← modify_eq_set hx fun x => { x with inputs := rest }] at hget
    refine hpopped.trans hx fun x₁ hx₁ hkeeps => ?_
    obtain rfl : { x with inputs := rest } = x₁ := Option.some.inj (hget.symm.trans hx₁)
    exact hkeeps.advance hx₁ hc hdue fun hs => absurd hs hbegun

/-! ### A whole run -/

/-- Nothing happened that concerns worker `i`, but that what others were told may have been read. -/
structure World.Beside (i : Nat) (w w' : World) : Prop where
  worker : ∀ x, w.workers[i]? = some x → ∃ events, events <+: x.events ∧
    w'.workers[i]? = some { x with events }
  reconnects : ∀ x n, w.workers[i]? = some x → (w.traffics.map Traffic.reconnects)[x.traffic]? = some n →
    (w'.traffics.map Traffic.reconnects)[x.traffic]? = some n

theorem World.Aside.beside (h : w.Aside w') (i : Nat) : w.Beside i w' :=
  ⟨fun x hx => ⟨x.events,List.prefix_refl _,by rw [h.workers,hx]⟩,fun x n _ hn => by rw [h.reconnects,hn]⟩

theorem Pursues.beside {j : Nat} (h : Pursues w j x plan c result) (hne : j ≠ i)
    (hapart : ∀ y, w.workers[i]? = some y → y.traffic ≠ x.traffic) : w.Beside i result.1 := by
  obtain ⟨x',hworkers,-,-⟩ := h.keeps
  refine ⟨fun y hy => ⟨y.events,List.prefix_refl _,?_⟩,fun y n hy hn => ?_⟩
  · rw [hworkers,List.getElem?_set_ne hne,hy]
  · rw [h.elsewhere _ (hapart y hy),hn]

theorem Keeps.beside (hx : w.workers[i]? = some x) (h : Keeps w x plan stage c) (hw : w.Beside i w') :
    ∃ x', w'.workers[i]? = some x' ∧ Keeps w' x' plan stage c := by
  obtain ⟨events,hevents,hx'⟩ := hw.worker x hx
  refine ⟨_,hx',{ h with told := ?_, counted := ?_ }⟩
  · exact (List.reverse_suffix.mpr hevents).trans h.told
  · exact hw.reconnects x _ hx h.counted

theorem Working.obeyAll_closes (w : World) (i : Nat) (stage stage' : WorkingStage)
    (h : ∀ out ∈ outs, ∃ link reason, out = .close link reason) :
    obeyAll w i stage outs = ((obeyAll w i stage' outs).1,stage) := by
  induction outs generalizing w with
  | nil => rfl
  | cons out outs ih =>
    obtain ⟨link,reason,rfl⟩ := h out List.mem_cons_self
    have hobey (stage : WorkingStage) : obey w i stage (.close link reason) =
        ((obey w i .idle (.close link reason)).1,stage) := by
      unfold obey
      cases w.workers[i]? <;> rfl
    rw [obeyAll,obeyAll,hobey stage,hobey stage']
    exact ih _ fun out hout => h out (List.mem_cons_of_mem _ hout)

theorem Keeps.shutdown {before : UInt64} {id : String} (hid : w.worker? id = some i)
    (hx : w.workers[i]? = some x) (h : Keeps w x plan stage c)
    (hc : c.Disciplined (fun _ => plan.policy) before) :
    Pursues w i x plan (c.step (fun _ => plan.policy) plan.greetingLimit (.tell .shutdown))
      (Cluster.shutdown w (some id),stage) := by
  have hdue : Due stage.works (.shutdown :: x.inputs) c.opened := by
    refine ⟨by simpa [WorkerInput.isWork] using h.due.once,fun hworking => h.due.working ?_⟩
    exact hworking.imp_right fun ⟨report,hmem⟩ => ⟨report,by simpa using hmem⟩
  have hbegun : stage = .unstarted → ∃ result, (c.loop.step plan .shutdown).1.stage = .stopped result := by
    intro hs
    obtain ⟨result,hstopped⟩ := h.begun hs
    exact ⟨result,by simp [WorkerLoop.step,WorkerLoop.shutdown,hstopped]⟩
  have hcloses : ∀ out ∈ x.loop.shutdown.2, ∃ link reason, out = .close link reason := by
    intro out hout
    rw [WorkerLoop.shutdown_eq] at hout
    obtain ⟨link,-,rfl⟩ := List.mem_map.mp hout
    exact ⟨link,_,rfl⟩
  have hadvanced := h.advance hx hc hdue hbegun
  rw [Working.advance,show x.loop.step x.plan .shutdown = x.loop.shutdown from rfl,
    Working.obeyAll_closes _ _ stage .idle hcloses] at hadvanced
  simpa only [Cluster.shutdown,hid,hx] using hadvanced

structure Fresh (w : World) (x : Worker) (plan : WorkerPlan) (before : UInt64) : Prop where
  plan : x.plan = plan
  loop : x.loop = {}
  inputs : x.inputs = []
  events : x.events = []
  counted : (w.traffics.map Traffic.reconnects)[x.traffic]? = some before

theorem Fresh.begins {traffic : Traffic} (hx : w.workers[i]? = some x)
    (h : Fresh w x plan traffic.reconnects) : Pursues w i x plan (Course.start false traffic)
      ((Working.run w ⟨i,.unstarted⟩).1,Working.standing (Working.run w ⟨i,.unstarted⟩).2) := by
  simp only [Working.run,hx,h.inputs,Working.runStage,h.loop]
  refine Pursues.settle hx ?_
  refine .of_advance (c := { loop := {}, traffic }) hx h.plan (by simp [h.events]) h.counted rfl rfl rfl
    (fun works hworks => ?_) (by simp)
  have hidle : works = false := by simpa [WorkingStage.works,WorkerLoop.begin] using hworks
  rw [h.inputs,hidle]
  exact ⟨Nat.zero_le 1,fun _ o ho => by simp [Course.start] at ho⟩

theorem Fresh.shutdown {id : String} {traffic : Traffic} (hid : w.worker? id = some i)
    (hx : w.workers[i]? = some x) (h : Fresh w x plan traffic.reconnects) (hworks : stage.works = false) :
    Pursues w i x plan (Course.start true traffic) (Cluster.shutdown w (some id),stage) := by
  simp only [Cluster.shutdown,hid,hx,h.loop]
  refine ⟨⟨{ x with loop := ({} : WorkerLoop).shutdown.1 },modify_eq_set hx _,rfl,h.plan,rfl,⟨?_,?_⟩,?_,
    h.counted,fun _ => ⟨.ok (),rfl⟩⟩,fun _ _ => rfl⟩
  · simp [h.inputs,hworks]
  · simp [h.inputs,hworks]
  · simp [h.events]

/-- What may happen to a worker: its turns, a shutdown, its end by force, and what happens beside it. -/
inductive Happens (i : Nat) : World × Option Working → World × Option Working → Prop
  | turn (w : World) (stage : WorkingStage) : Happens i (w,some ⟨i,stage⟩) (Working.run w ⟨i,stage⟩)
  | shutdown {w : World} {id : String} (hid : w.worker? id = some i) (a : Option Working) :
      Happens i (w,a) (Cluster.shutdown w (some id),a)
  | abort (w : World) (stage : WorkingStage) :
      Happens i (w,some ⟨i,stage⟩) (Working.drop w ⟨i,stage⟩,none)
  | beside {w w' : World} (hw : w.Beside i w') (a : Option Working) : Happens i (w,a) (w',a)

/-- A worker has not begun, or it keeps to a course. -/
inductive OnCourse (i : Nat) (plan : WorkerPlan) (traffic : Traffic) : World × Option Working → Prop
  | fresh {w : World} {x : Worker} {a : Option Working} (hx : w.workers[i]? = some x)
      (h : Fresh w x plan traffic.reconnects) (ha : a = none ∨ a = some ⟨i,.unstarted⟩) :
      OnCourse i plan traffic (w,a)
  | begun {w : World} {x : Worker} {a : Option Working} (hx : w.workers[i]? = some x) (stopping : Bool)
      (acts : List Course.Act) (h : Keeps w x plan (Working.standing a)
        ((Course.start stopping traffic).run (fun _ => plan.policy) plan.greetingLimit acts)) :
      OnCourse i plan traffic (w,a)

variable {traffic : Traffic} {s s' : World × Option Working}

theorem OnCourse.happens (h : OnCourse i plan traffic s) (hs : Happens i s s') :
    OnCourse i plan traffic s' := by
  have hc (stopping : Bool) (acts : List Course.Act) : ((Course.start stopping traffic).run
      (fun _ => plan.policy) plan.greetingLimit acts).Disciplined (fun _ => plan.policy) traffic.reconnects :=
    (Course.disciplined_start (fun _ => plan.policy) stopping traffic).run plan.greetingLimit acts
  have happend (stopping : Bool) (acts acts' : List Course.Act) :
      ((Course.start stopping traffic).run (fun _ => plan.policy) plan.greetingLimit acts).run
        (fun _ => plan.policy) plan.greetingLimit acts' =
      (Course.start stopping traffic).run (fun _ => plan.policy) plan.greetingLimit (acts ++ acts') :=
    List.foldl_append.symm
  cases h with
  | @fresh w x a hx hfresh ha =>
    cases hs with
    | turn w stage =>
      obtain rfl : stage = .unstarted := by simpa using ha
      obtain ⟨x',hx',hkeeps⟩ := (hfresh.begins hx).worker hx
      exact .begun hx' false [] hkeeps
    | shutdown hid a =>
      have hidle : (Working.standing a).works = false := by rcases ha with rfl | rfl <;> rfl
      obtain ⟨x',hx',hkeeps⟩ := (hfresh.shutdown hid hx hidle).worker hx
      exact .begun hx' true [] hkeeps
    | abort w stage =>
      obtain rfl : stage = .unstarted := by simpa using ha
      exact .fresh hx hfresh (.inl rfl)
    | beside hw a =>
      obtain ⟨events,hevents,hx'⟩ := hw.worker _ hx
      rw [hfresh.events,List.prefix_nil] at hevents
      exact .fresh hx' ⟨hfresh.plan,hfresh.loop,hfresh.inputs,hevents,
        hw.reconnects x _ hx hfresh.counted⟩ ha
  | @begun w x a hx stopping acts hkeeps =>
    cases hs with
    | turn w stage =>
      obtain ⟨acts',hpursues⟩ := hkeeps.run hx (hc stopping acts)
      obtain ⟨x',hx',hkeeps'⟩ := hpursues.worker hx
      rw [happend] at hkeeps'
      exact .begun hx' stopping (acts ++ acts') hkeeps'
    | shutdown hid a =>
      obtain ⟨x',hx',hkeeps'⟩ := (hkeeps.shutdown hid hx (hc stopping acts)).worker hx
      exact .begun hx' stopping (acts ++ [.tell .shutdown]) (happend stopping acts _ ▸ hkeeps')
    | abort w stage =>
      obtain ⟨x',hx',hkeeps'⟩ := (hkeeps.dropStage hx (.refl w)).worker hx
      exact .begun hx' stopping acts hkeeps'
    | beside hw a =>
      obtain ⟨x',hx',hkeeps'⟩ := hkeeps.beside hx hw
      exact .begun hx' stopping acts hkeeps'

theorem OnCourse.run (h : OnCourse i plan traffic s) (hs : Relation.ReflTransGen (Happens i) s s') :
    OnCourse i plan traffic s' := by
  induction hs with
  | refl => exact h
  | tail _ hlast ih => exact ih.happens hlast

/-- The counters of the world, what others can read, and how the loop stands tell of the same attempts:
a reconnect for each session that was not stopped, and an end that the policy decided. -/
theorem OnCourse.exists_attempts (h : OnCourse i plan traffic s) : ∃ x attempts onward,
    s.1.workers[i]? = some x ∧
    (s.1.traffics.map Traffic.reconnects)[x.traffic]? =
      some (traffic.reconnects + .ofNat (attempts.countP Attempt.isLost)) ∧
    x.events.reverse <:+ attempts.flatMap Attempt.events ++ onward ∧
    (onward = [] ∨ ∃ peer report, onward = Attempt.sessionEvents peer report) ∧
    ∀ e, x.loop.stage = .stopped (.error e) ↔ Course.GivenUp (fun _ => plan.policy) attempts e := by
  rcases h with ⟨hx,hfresh,-⟩ | ⟨hx,stopping,acts,hkeeps⟩
  · refine ⟨_,[],[],hx,?_,by simp [hfresh.events],.inl rfl,fun e => ?_⟩
    · simpa using hfresh.counted
    · rw [hfresh.loop]
      exact iff_of_false (by simp) ((Course.passed_nil _).not_givenUp e)
  · have hc := (Course.disciplined_start (fun _ => plan.policy) stopping traffic).run plan.greetingLimit acts
    generalize (Course.start stopping traffic).run (fun _ => plan.policy) plan.greetingLimit acts = c
      at hkeeps hc
    refine ⟨_,c.attempts,c.openEvents,hx,?_,?_,?_,fun e => ?_⟩
    · rw [hkeeps.counted,hc.counted]
    · rw [Course.openEvents,← hc.told]
      exact hkeeps.told
    · rw [Course.openEvents]
      cases c.opened with
      | none => exact .inl rfl
      | some o => exact .inr ⟨o.peer,o.report,by simp⟩
    · rw [hkeeps.loop]
      exact hc.standing.error_iff e

theorem OnCourse.exists_pursues {stage : WorkingStage} (h : OnCourse i plan traffic (w,some ⟨i,stage⟩)) :
    ∃ x c, w.workers[i]? = some x ∧ Pursues w i x plan c
      ((Working.run w ⟨i,stage⟩).1,Working.standing (Working.run w ⟨i,stage⟩).2) := by
  rcases h with ⟨hx,hfresh,ha⟩ | ⟨hx,stopping,acts,hkeeps⟩
  · obtain rfl : stage = .unstarted := by simpa using ha
    exact ⟨_,_,hx,hfresh.begins hx⟩
  · have hc := (Course.disciplined_start (fun _ => plan.policy) stopping traffic).run plan.greetingLimit acts
    obtain ⟨acts',hpursues⟩ := hkeeps.run hx hc
    exact ⟨_,_,hx,hpursues⟩

theorem OnCourse.exists_shutdown {id : String} {a : Option Working} (hid : w.worker? id = some i)
    (h : OnCourse i plan traffic (w,a)) : ∃ x c, w.workers[i]? = some x ∧
      Pursues w i x plan c (Cluster.shutdown w (some id),Working.standing a) := by
  rcases h with ⟨hx,hfresh,ha⟩ | ⟨hx,stopping,acts,hkeeps⟩
  · exact ⟨_,_,hx,hfresh.shutdown hid hx (by rcases ha with rfl | rfl <;> rfl)⟩
  · have hc := (Course.disciplined_start (fun _ => plan.policy) stopping traffic).run plan.greetingLimit acts
    exact ⟨_,_,hx,hkeeps.shutdown hid hx hc⟩

theorem OnCourse.plan_eq {a : Option Working} (h : OnCourse i plan traffic (w,a))
    (hx : w.workers[i]? = some x) : x.plan = plan := by
  rcases h with ⟨hx',hfresh,-⟩ | ⟨hx',stopping,acts,hkeeps⟩
  · rw [Option.some.inj (hx.symm.trans hx')]
    exact hfresh.plan
  · rw [Option.some.inj (hx.symm.trans hx')]
    exact hkeeps.plan

theorem OnCourse.traffic_lt {a : Option Working} (h : OnCourse i plan traffic (w,a))
    (hx : w.workers[i]? = some x) : x.traffic < w.traffics.length := by
  obtain ⟨x',attempts,onward,hx',hcounted,-⟩ := h.exists_attempts
  rw [Option.some.inj (hx.symm.trans hx')]
  simpa using (List.getElem?_eq_some_iff.mp hcounted).1

end Cluster
end Tether
