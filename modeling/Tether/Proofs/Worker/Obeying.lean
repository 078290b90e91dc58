import Tether.Cluster.Working
import Tether.Proofs.Cluster.Counting
import Tether.Proofs.Worker.Attempts

/-! A worker of the simulated world does what its loop asks for. Its record says then what others were told,
and what it has still to tell its loop; the counters of the world say what the loop counts. -/
namespace Tether

/-- What the loop is told of the work of a session: that it begins, or what has come of it. -/
def WorkerInput.isWork : WorkerInput → Bool
  | .greeted _ | .reported _ => true
  | _ => false

/-- Work begins with a hello that came through. -/
theorem WorkerLoop.greeted_of_serve_mem {plan : WorkerPlan} {w : WorkerLoop} {input : WorkerInput}
    {link : Nat} (h : .serve link ∈ (w.step plan input).2) :
    ∃ peer, input = .greeted peer ∧ w.stage = .greeting link := by
  have hconsult (w : WorkerLoop) (e : LinkError) : .serve link ∉ (w.consult plan e).2 := by
    unfold consult
    split <;> simp
  have htakes := w.takes plan input
  generalize w.step plan input = result at h htakes
  cases htakes with
  | failed closes =>
    rcases List.mem_append.mp h with hclose | hfail
    · simp at hclose
    · unfold fail at hfail
      split at hfail <;> simp [hconsult] at hfail
  | ended link' reason =>
    cases hstopping : w.stopping with
    | true => simp [w.endSession_of_stopping plan hstopping reason] at h
    | false => simp [w.endSession_of_not_stopping plan hstopping reason,hconsult] at h
  | greeted link' peer hstage =>
    obtain rfl : link = link' := by simpa using h
    exact ⟨peer,rfl,hstage⟩
  | rested =>
    unfold begin at h
    split at h <;> simp at h
  | shutdown =>
    rw [shutdown_eq] at h
    simp at h
  | _ => simp at h

namespace Cluster

variable {w w' w'' : World} {i : Nat} {x x' x'' : Worker} {outs outs' : List WorkerOutput}

/-- A worker has done what its loop asked for. -/
structure Obeyed (w : World) (i : Nat) (x : Worker) (outs : List WorkerOutput) (w' : World) (x' : Worker) :
    Prop where
  workers : w'.workers = w.workers.set i x'
  plan : x'.plan = x.plan
  loop : x'.loop = x.loop
  traffic : x'.traffic = x.traffic
  inputs : ∃ new, x'.inputs = x.inputs ++ new ∧ ∀ input ∈ new, input.isWork = false
  told : x'.events.reverse = x.events.reverse ++ outs.filterMap WorkerOutput.event?
  counted : w'.traffics.map Traffic.reconnects = (w.traffics.map Traffic.reconnects).modify x.traffic
    (· + .ofNat ((outs.filterMap WorkerOutput.traffic?).count .reconnect))

theorem Obeyed.trans (h : Obeyed w i x outs w' x') (h' : Obeyed w' i x' outs' w'' x'') :
    Obeyed w i x (outs ++ outs') w'' x'' := by
  obtain ⟨new,hnew,hother⟩ := h.inputs
  obtain ⟨new',hnew',hother'⟩ := h'.inputs
  refine ⟨?_,h'.plan.trans h.plan,h'.loop.trans h.loop,h'.traffic.trans h.traffic,⟨new ++ new',?_,?_⟩,?_,?_⟩
  · rw [h'.workers,h.workers,List.set_set]
  · rw [hnew',hnew,List.append_assoc]
  · intro input hinput
    exact (List.mem_append.mp hinput).elim (hother input) (hother' input)
  · rw [h'.told,h.told,List.filterMap_append,List.append_assoc]
  · rw [h'.counted,h.counted,h.traffic,List.modify_modify_eq,List.filterMap_append,List.count_append,
      UInt64.ofNat_add]
    congr 1
    funext n
    exact UInt64.add_assoc ..

theorem obeyed_of_aside (hx : w.workers[i]? = some x) (h : w.Aside w') : Obeyed w i x [] w' x := by
  obtain ⟨hlt,hget⟩ := List.getElem?_eq_some_iff.mp hx
  refine ⟨?_,rfl,rfl,rfl,⟨[],by simp,by simp⟩,by simp,?_⟩
  · rw [h.workers,← hget,List.set_getElem_self]
  · rw [h.reconnects]
    exact ((congrArg _ (funext UInt64.add_zero)).trans (List.modify_id x.traffic _)).symm

theorem Obeyed.aside (h : Obeyed w i x outs w' x') (h' : w'.Aside w'') : Obeyed w i x outs w'' x' :=
  { h with
    workers := h'.workers.trans h.workers
    counted := h'.reconnects.trans h.counted }

theorem Obeyed.silent (h : Obeyed w i x [] w' x') {out : WorkerOutput} (hevent : out.event? = none)
    (htraffic : out.traffic? = none) : Obeyed w i x [out] w' x' :=
  { h with
    told := by simpa [hevent] using h.told
    counted := by simpa [htraffic] using h.counted }

theorem Obeyed.worker (h : Obeyed w i x outs w' x') (hx : w.workers[i]? = some x) :
    w'.workers[i]? = some x' := by
  rw [h.workers,List.getElem?_set_self (List.getElem?_eq_some_iff.mp hx).1]

theorem obeyed_onWorker (hx : w.workers[i]? = some x) (f : Worker → Worker) {new : List WorkerInput}
    (hplan : (f x).plan = x.plan) (hloop : (f x).loop = x.loop) (htraffic : (f x).traffic = x.traffic)
    (hinputs : (f x).inputs = x.inputs ++ new) (hnew : ∀ input ∈ new, input.isWork = false)
    (htold : (f x).events.reverse = x.events.reverse ++ outs.filterMap WorkerOutput.event?)
    (hcounted : outs.filterMap WorkerOutput.traffic? = []) : Obeyed w i x outs (w.onWorker i f) (f x) := by
  refine ⟨modify_eq_set hx f,hplan,hloop,htraffic,⟨new,hinputs,hnew⟩,htold,?_⟩
  rw [hcounted]
  exact ((congrArg _ (funext UInt64.add_zero)).trans (List.modify_id x.traffic _)).symm

theorem obeyed_tell (hx : w.workers[i]? = some x) {input : WorkerInput} (hinput : input.isWork = false) :
    Obeyed w i x [] (w.tellWorker i input) { x with inputs := x.inputs ++ [input] } :=
  obeyed_onWorker hx _ rfl rfl rfl rfl (by simp [hinput]) (by simp) rfl

namespace Working

theorem obeyed_connect (hx : w.workers[i]? = some x) (y : Worker) (source sink : Nat) :
    ∃ x', Obeyed w i x [] (connect w i y source sink) x' := by
  have hadded := w.aside_addLink y.name .initiator y.addr
    { codec := y.codec, source, sink, traffic := y.traffic, registry := y.registry }
  unfold connect
  generalize w.addLink y.name .initiator y.addr
    { codec := y.codec, source, sink, traffic := y.traffic, registry := y.registry } = added at hadded ⊢
  rcases added with ⟨w',link⟩
  have hlinked := obeyed_of_aside hx hadded
  exact ⟨_,hlinked.trans (obeyed_tell (hlinked.worker hx) rfl)⟩

theorem obeyed_dial (hx : w.workers[i]? = some x) (y : Worker) :
    ∃ x', Obeyed w i x [] (dial w i y) x' := by
  unfold dial
  extract_lets far noted
  obtain ⟨x₁,hnoted⟩ : ∃ x₁, Obeyed w i x [] noted x₁ :=
    ⟨_,obeyed_onWorker hx _ rfl rfl rfl (List.append_nil _).symm (by simp) (by simp) rfl⟩
  have hx₁ := hnoted.worker hx
  have hpiped : noted.Aside noted.addPipes.1 := ⟨rfl,rfl⟩
  clear_value noted
  cases rule y with
  | hang => exact ⟨x₁,hnoted⟩
  | fail e =>
    have hfailed : (WorkerInput.dialFailed e).isWork = false := rfl
    exact ⟨_,hnoted.trans (obeyed_tell hx₁ hfailed)⟩
  | peer table =>
    dsimp only
    generalize noted.addPipes = piped at hpiped ⊢
    obtain ⟨w₂,near,away⟩ := piped
    have hadded := obeyed_of_aside hx₁ (hpiped.trans (w₂.aside_addPeer
      { id := far, codec := y.codec, source := away, sink := near, table }))
    obtain ⟨x',hconnected⟩ := obeyed_connect (hadded.worker hx₁) y near away
    exact ⟨x',(hnoted.trans hadded).trans hconnected⟩
  | master =>
    dsimp only
    generalize noted.addPipes = piped at hpiped ⊢
    obtain ⟨w₂,near,away⟩ := piped
    have harrived := obeyed_of_aside hx₁ (hpiped.trans (w₂.aside_arrive far away near))
    obtain ⟨x',hconnected⟩ := obeyed_connect (harrived.worker hx₁) y near away
    exact ⟨x',(hnoted.trans harrived).trans hconnected⟩

theorem exists_obeyed (hx : w.workers[i]? = some x) (stage : WorkingStage) (out : WorkerOutput) :
    ∃ x', Obeyed w i x [out] (obey w i stage out).1 x' := by
  cases out with
  | dial =>
    obtain ⟨x',h⟩ := obeyed_dial hx x
    exact ⟨x',by simpa only [obey,hx] using h.silent rfl rfl⟩
  | greet link => exact ⟨x,by simpa only [obey,hx] using (obeyed_of_aside hx (.refl w)).silent rfl rfl⟩
  | close link reason =>
    exact ⟨x,by simpa only [obey,hx] using (obeyed_of_aside hx (w.aside_closeLink ..)).silent rfl rfl⟩
  | serve link => exact ⟨x,by simpa only [obey,hx] using (obeyed_of_aside hx (.refl w)).silent rfl rfl⟩
  | emit event =>
    refine ⟨{ x with events := event :: x.events },?_⟩
    have hnone : ∀ input ∈ ([] : List WorkerInput), input.isWork = false := by simp
    simpa only [obey,hx] using obeyed_onWorker hx (fun x => { x with events := event :: x.events })
      rfl rfl rfl (List.append_nil _).symm hnone (by simp [WorkerOutput.event?]) rfl
  | countReconnect =>
    have hsame := obeyed_of_aside hx (.refl w)
    simp only [obey,hx]
    exact ⟨x,{ hsame with
      told := by simp [WorkerOutput.event?]
      counted := w.reconnects_count x.traffic [.reconnect] }⟩
  | pause delay => exact ⟨x,by simpa only [obey,hx] using (obeyed_of_aside hx (.refl w)).silent rfl rfl⟩

theorem exists_obeyedAll (hx : w.workers[i]? = some x) (stage : WorkingStage) (outs : List WorkerOutput) :
    ∃ x', Obeyed w i x outs (obeyAll w i stage outs).1 x' := by
  induction outs generalizing w x stage with
  | nil => exact ⟨x,obeyed_of_aside hx (.refl w)⟩
  | cons out outs ih =>
    obtain ⟨x₁,h⟩ := exists_obeyed hx stage out
    obtain ⟨x',h'⟩ := ih (h.worker hx) (obey w i stage out).2
    exact ⟨x',h.trans h'⟩

end Working

def WorkingStage.works : WorkingStage → Bool
  | .session _ _ (some _) => true
  | _ => false

namespace Working

theorem stage_obeyAll (w : World) (i : Nat) (stage : WorkingStage) (outs : List WorkerOutput) :
    ((obeyAll w i stage outs).2.works = true → stage.works = true ∨ ∃ link, .serve link ∈ outs) ∧
      ((obeyAll w i stage outs).2 = .unstarted → stage = .unstarted) := by
  induction outs generalizing w stage with
  | nil => exact ⟨.inl,id⟩
  | cons out outs ih =>
    have hone : ((obey w i stage out).2.works = true → stage.works = true ∨ ∃ link, out = .serve link) ∧
        ((obey w i stage out).2 = .unstarted → stage = .unstarted) := by
      unfold obey
      cases w.workers[i]? with
      | none => exact ⟨.inl,id⟩
      | some x => cases out <;> simp [WorkingStage.works]
    obtain ⟨hworks,hbegun⟩ := ih (obey w i stage out).1 (obey w i stage out).2
    refine ⟨fun h => ?_,fun h => hone.2 (hbegun h)⟩
    rcases hworks h with hstage | ⟨link,hlink⟩
    · exact (hone.1 hstage).imp_right fun ⟨link,hlink⟩ => ⟨link,hlink ▸ List.mem_cons_self⟩
    · exact .inr ⟨link,List.mem_cons_of_mem out hlink⟩

end Working

end Cluster
end Tether
