import Tether.Cluster.Report
import Tether.Proofs.Cluster.Company
import Tether.Proofs.Worker.Pursuing

/-! The workers of a cluster that a script makes and the schedule runs. Each of them keeps to a course of
its own, whatever else there is in the cluster. -/
namespace Tether

namespace Cluster

def Activity.working? (i : Nat) : Activity → Option Working
  | .working a => if a.worker = i then some a else none
  | _ => none

def workingOf (i : Nat) (activities : List Activity) : List Working :=
  activities.filterMap (Activity.working? i)

variable {w w' : World} {i j : Nat} {activities activities' before after : List Activity}

theorem workingOf_append (i : Nat) (before after : List Activity) :
    workingOf i (before ++ after) = workingOf i before ++ workingOf i after :=
  List.filterMap_append

theorem workingOf_cons (i : Nat) (a : Activity) (after : List Activity) :
    workingOf i (a :: after) = (a.working? i).toList ++ workingOf i after := by
  unfold workingOf
  cases h : a.working? i with
  | none => rw [List.filterMap_cons_none h]; rfl
  | some b => rw [List.filterMap_cons_some h]; rfl

theorem workingOf_ofStart (i : Nat) (starts : List Start) :
    workingOf i (starts.map Activity.ofStart) = [] := by
  rw [workingOf,List.filterMap_map,List.filterMap_eq_nil_iff]
  intro start _
  cases start <;> rfl

/-- Each worker is at work once at most, counts on counters of its own, and keeps to a course if it has
begun. -/
structure Employs (w : World) (activities : List Activity) : Prop where
  apart : ∀ (i j : Nat) (x y : Worker), w.workers[i]? = some x → w.workers[j]? = some y → i ≠ j →
    x.traffic ≠ y.traffic
  known : ∀ i, w.workers.length ≤ i → workingOf i activities = []
  once : ∀ i, (workingOf i activities).length ≤ 1
  course : ∀ i x, w.workers[i]? = some x → OnCourse i x.plan {} (w,(workingOf i activities).head?)

/-- What has happened to each of the workers. -/
structure Moves (w : World) (activities : List Activity) (w' : World) (activities' : List Activity) :
    Prop where
  length : w'.workers.length = w.workers.length
  traffic : ∀ (i : Nat) (x x' : Worker), w.workers[i]? = some x → w'.workers[i]? = some x' →
    x'.traffic = x.traffic
  working : ∀ i, (workingOf i activities').length ≤ (workingOf i activities).length
  happens : ∀ i, Relation.ReflTransGen (Happens i) (w,(workingOf i activities).head?)
    (w',(workingOf i activities').head?)

theorem Employs.moves (h : Employs w activities) (hm : Moves w activities w' activities') :
    Employs w' activities' := by
  have hback : ∀ (i : Nat) (x' : Worker), w'.workers[i]? = some x' → ∃ x, w.workers[i]? = some x := by
    intro i x' hx'
    have hlt : i < w.workers.length := hm.length ▸ (List.getElem?_eq_some_iff.mp hx').1
    exact ⟨_,List.getElem?_eq_getElem hlt⟩
  constructor
  · intro i j x' y' hx' hy' hne
    obtain ⟨x,hx⟩ := hback i x' hx'
    obtain ⟨y,hy⟩ := hback j y' hy'
    rw [hm.traffic i x x' hx hx',hm.traffic j y y' hy hy']
    exact h.apart i j x y hx hy hne
  · intro i hi
    have hnone := hm.working i
    rw [h.known i (hm.length ▸ hi)] at hnone
    exact List.eq_nil_of_length_eq_zero (Nat.le_zero.mp hnone)
  · exact fun i => Nat.le_trans (hm.working i) (h.once i)
  · intro i x' hx'
    obtain ⟨x,hx⟩ := hback i x' hx'
    have hcourse := (h.course i x hx).run (hm.happens i)
    rw [hcourse.plan_eq hx']
    exact hcourse

theorem moves_of_beside (hlength : w'.workers.length = w.workers.length) (hw : ∀ i, w.Beside i w')
    (hsame : ∀ i, workingOf i activities' = workingOf i activities) : Moves w activities w' activities' := by
  refine ⟨hlength,fun i x x' hx hx' => ?_,fun i => (congrArg _ (hsame i)).le,fun i => ?_⟩
  · obtain ⟨events,-,hevents⟩ := (hw i).worker x hx
    rw [Option.some.inj (hx'.symm.trans hevents)]
  · rw [hsame]
    exact .single (.beside (hw i) _)

theorem moves_of_aside (hw : w.Aside w')
    (hsame : ∀ i, workingOf i activities' = workingOf i activities) : Moves w activities w' activities' :=
  moves_of_beside (congrArg List.length hw.workers) (fun i => hw.beside i) hsame

/-- A worker has done something, and nothing else happened that concerns a worker. -/
theorem Pursues.moves {k : Nat} {x : Worker} {plan : WorkerPlan} {c : Course} {stage : WorkingStage}
    (h : Pursues w k x plan c (w',stage)) (hx : w.workers[k]? = some x)
    (hapart : ∀ (i : Nat) (y : Worker), w.workers[i]? = some y → i ≠ k → y.traffic ≠ x.traffic)
    (hothers : ∀ i, i ≠ k → workingOf i activities' = workingOf i activities)
    (hworking : (workingOf k activities').length ≤ (workingOf k activities).length)
    (hself : Happens k (w,(workingOf k activities).head?) (w',(workingOf k activities').head?)) :
    Moves w activities w' activities' := by
  obtain ⟨x',hworkers,htraffic,-⟩ := h.keeps
  refine ⟨?_,fun i y y' hy hy' => ?_,fun i => ?_,fun i => ?_⟩
  · rw [hworkers,List.length_set]
  · rw [hworkers] at hy'
    by_cases hi : i = k
    · subst hi
      rw [List.getElem?_set_self (List.getElem?_eq_some_iff.mp hx).1] at hy'
      rw [Option.some.inj (hy.symm.trans hx),← Option.some.inj hy']
      exact htraffic
    · rw [List.getElem?_set_ne (Ne.symm hi)] at hy'
      rw [Option.some.inj (hy.symm.trans hy')]
  · by_cases hi : i = k
    · exact hi ▸ hworking
    · exact (congrArg _ (hothers i hi)).le
  · by_cases hi : i = k
    · exact hi ▸ .single hself
    · rw [hothers i hi]
      exact .single (.beside (h.beside (Ne.symm hi) fun y hy => hapart i y hy hi) _)

/-! ### Turns -/

theorem Working.worker_settle {i : Nat} {x : Worker} {turned : World × WorkingStage} {a : Working}
    (h : (settle i x turned).2 = some a) : a.worker = i := by
  unfold settle at h
  split at h
  · simp at h
  · exact (Option.some.inj h) ▸ rfl

theorem Working.worker_run {a a' : Working} (h : (a.run w).2 = some a') : a'.worker = a.worker := by
  unfold Working.run at h
  split at h
  · simp at h
  · split at h
    · simp at h
    · split at h
      · exact (Option.some.inj h) ▸ rfl
      · exact worker_settle h

theorem workingOf_toList (i : Nat) (a : Option Working) (h : ∀ b, a = some b → b.worker = j) :
    workingOf i (a.map Activity.working).toList = if j = i then a.toList else [] := by
  cases a with
  | none => simp [workingOf]
  | some b =>
    obtain rfl := h b rfl
    have hone : workingOf i [.working b] = ((Activity.working b).working? i).toList := by
      rw [workingOf_cons]
      exact List.append_nil _
    refine hone.trans ?_
    rw [Activity.working?]
    split <;> rfl

/-- A worker takes its turn. -/
theorem Employs.turn {a : Working} (h : Employs w (before ++ .working a :: after)) :
    Employs (a.run w).1 (before ++ ((a.run w).2.map Activity.working).toList ++ after) := by
  obtain ⟨k,stage⟩ := a
  have hold (i : Nat) : workingOf i (before ++ .working ⟨k,stage⟩ :: after) =
      workingOf i before ++ (if k = i then [⟨k,stage⟩] else []) ++ workingOf i after := by
    rw [workingOf_append,workingOf_cons,← List.append_assoc,Activity.working?]
    split <;> rfl
  have hnew (i : Nat) : workingOf i (before ++
      ((Working.run w ⟨k,stage⟩).2.map Activity.working).toList ++ after) =
      workingOf i before ++ (if k = i then (Working.run w ⟨k,stage⟩).2.toList else []) ++
        workingOf i after := by
    rw [workingOf_append,workingOf_append,workingOf_toList i _ fun b hb => Working.worker_run hb]
  have halone : workingOf k before = [] ∧ workingOf k after = [] := by
    have honce := h.once k
    rw [hold,if_pos rfl,List.length_append,List.length_append,List.length_singleton] at honce
    exact ⟨List.eq_nil_of_length_eq_zero (by omega),List.eq_nil_of_length_eq_zero (by omega)⟩
  have hlt : k < w.workers.length := Nat.lt_of_not_le fun hle => by
    have hnone := h.known k hle
    simp [hold] at hnone
  have hcourse := h.course k _ (List.getElem?_eq_getElem hlt)
  have hhead : (workingOf k (before ++ .working ⟨k,stage⟩ :: after)).head? = some ⟨k,stage⟩ := by
    simp [hold,halone]
  rw [hhead] at hcourse
  obtain ⟨x,c,hx,hpursues⟩ := hcourse.exists_pursues
  refine h.moves (hpursues.moves hx (fun i y hy hi => h.apart i k y x hy hx hi) (fun i hi => ?_) ?_ ?_)
  · rw [hold,hnew,if_neg (Ne.symm hi),if_neg (Ne.symm hi)]
  · rw [hold,hnew,if_pos rfl,if_pos rfl]
    cases (Working.run w ⟨k,stage⟩).2 <;> simp
  · rw [hold,hnew,if_pos rfl,if_pos rfl,halone.1,halone.2,List.nil_append,List.nil_append,List.append_nil,
      List.append_nil,Option.head?_toList]
    exact .turn w stage

theorem Activity.working?_eq_none {a : Activity} (h : ∀ b, a ≠ .working b) (i : Nat) :
    a.working? i = none := by
  cases a with
  | working b => exact absurd rfl (h b)
  | _ => rfl

/-- What runs does not become a worker. -/
theorem Activity.ne_working_run {a a' : Activity} (h : ∀ b, a ≠ .working b) (ha : (a.run w).2 = some a')
    (b : Working) : a' ≠ .working b := by
  rintro rfl
  cases a with
  | working b => exact absurd rfl (h b)
  | reading r => simp [run] at ha
  | listening peer => simp [run] at ha
  | watching link due ms =>
    simp only [run,watch] at ha
    split at ha
    · simp at ha
    · simp at ha
    · simp at ha
    · split at ha <;> simp at ha
  | leaving name link =>
    simp only [run,leave] at ha
    split at ha <;> simp at ha
  | sending peer due m close =>
    simp only [run] at ha
    split at ha <;> simp at ha
  | admitting id a =>
    simp only [run] at ha
    split at ha <;> simp at ha
  | batching id b =>
    simp only [run] at ha
    split at ha <;> simp at ha
  | calling id call =>
    simp only [run] at ha
    split at ha <;> simp at ha

theorem workingOf_cons_of_ne {a : Activity} (h : ∀ b, a ≠ .working b) (i : Nat) (after : List Activity) :
    workingOf i (a :: after) = workingOf i after := by
  rw [workingOf_cons,a.working?_eq_none h]
  rfl

theorem Employs.other {a : Activity} (h : Employs w (before ++ a :: after)) (ha : ∀ b, a ≠ .working b) :
    Employs (a.run w).1 (before ++ (a.run w).2.toList ++ after) := by
  refine h.moves (moves_of_aside (a.aside_run w ha) fun i => ?_)
  rw [List.append_assoc,workingOf_append,workingOf_append,workingOf_append,workingOf_cons_of_ne ha]
  cases hrun : (a.run w).2 with
  | none => rfl
  | some a' =>
    rw [Option.toList_some,workingOf_cons_of_ne (Activity.ne_working_run ha hrun)]
    rfl

/-! ### The schedule -/

theorem Employs.step {a : Activity} (h : Employs w (before ++ a :: after)) :
    Employs (a.run w).1 (before ++ (a.run w).2.toList ++ after) := by
  by_cases ha : ∃ b, a = .working b
  · obtain ⟨b,rfl⟩ := ha
    exact h.turn
  · exact h.other fun b hb => ha ⟨b,hb⟩

theorem Employs.runAll {done todo : List Activity} (h : Employs w (done ++ todo)) :
    Employs (runAll w todo).1 (done ++ (Cluster.runAll w todo).2) := by
  induction todo generalizing w done with
  | nil => exact h
  | cons a rest ih =>
    have hstep := ih h.step
    rw [List.append_assoc] at hstep
    exact hstep

/-- The workers of a cluster keep to their courses. -/
def Employing (c : Cluster) : Prop := Employs c.world c.activities

variable {c : Cluster}

theorem Employing.enlist (h : c.Employing) : c.enlist.Employing := by
  refine Employs.moves h (moves_of_aside ⟨rfl,rfl⟩ fun i => ?_)
  rw [Cluster.enlist,workingOf_append,workingOf_ofStart,List.append_nil]

theorem Employing.round (h : c.Employing) : c.round.Employing := by
  have hran : Employs c.enlist.world ([] ++ c.enlist.activities) := h.enlist
  exact (show Employing ⟨_,_⟩ from hran.runAll).enlist

theorem Employing.settle (h : c.Employing) (fuel : Nat) : (c.settle fuel).Employing := by
  induction fuel generalizing c with
  | zero => exact h
  | succ fuel ih =>
    unfold Cluster.settle
    dsimp only
    split
    · exact h.round
    · exact ih h.round

theorem Employing.setTime (h : c.Employing) (now : Nat) : (c.setTime now).Employing :=
  Employs.moves h (moves_of_aside ⟨rfl,rfl⟩ fun _ => rfl)

theorem Employing.passUntil (h : c.Employing) (target fuel : Nat) :
    (passUntil target c fuel).Employing := by
  induction fuel generalizing c with
  | zero => exact h
  | succ fuel ih =>
    have hrest : c.rest.Employing := h.settle _
    unfold Cluster.passUntil
    dsimp only
    split
    · split
      · exact ih (hrest.setTime _)
      · exact (hrest.setTime target).settle _
    · exact (hrest.setTime target).settle _

theorem Employing.pass (h : c.Employing) (ms : Nat) : (c.pass ms).Employing := h.passUntil ..

/-! ### Scripts -/

/-- New counters may have come, but nothing happened that concerns a worker. -/
structure World.Grows (w w' : World) : Prop where
  workers : w'.workers = w.workers
  reconnects : w.traffics.map Traffic.reconnects <+: w'.traffics.map Traffic.reconnects

namespace World

theorem Aside.grows (h : w.Aside w') : w.Grows w' := ⟨h.workers,h.reconnects ▸ List.prefix_refl _⟩

theorem Grows.trans {w'' : World} (h : w.Grows w') (h' : w'.Grows w'') : w.Grows w'' :=
  ⟨h'.workers.trans h.workers,h.reconnects.trans h'.reconnects⟩

theorem Grows.beside (h : w.Grows w') (i : Nat) : w.Beside i w' := by
  refine ⟨fun x hx => ⟨x.events,List.prefix_refl _,by rw [h.workers,hx]⟩,fun x n _ hn => ?_⟩
  obtain ⟨more,hmore⟩ := h.reconnects
  rw [← hmore,List.getElem?_append_left (List.getElem?_eq_some_iff.mp hn).1,hn]

theorem grows_addTraffic (w : World) : w.Grows w.addTraffic.1 :=
  ⟨rfl,by simp [addTraffic]⟩

end World

theorem moves_of_grows (hw : w.Grows w')
    (hsame : ∀ i, workingOf i activities' = workingOf i activities) : Moves w activities w' activities' :=
  moves_of_beside (congrArg List.length hw.workers) (fun i => hw.beside i) hsame

open World

theorem grows_addHandler (w : World) (spec : LinkSpec) (addr : String) (source sink : Nat) :
    w.Grows (addHandler w spec addr source sink) := by
  have hregistered : w.addTraffic.1.Aside (w.addTraffic.1.addRegistry spec.registry).1 := ⟨rfl,rfl⟩
  have hlinked := (w.addTraffic.1.addRegistry spec.registry).1.aside_addLink spec.name spec.role addr
    { codec := spec.codec, source, sink, allowance := spec.allowance, traffic := w.traffics.length
      registry := w.registries.length }
  exact (w.grows_addTraffic.trans (hregistered.trans hlinked).grows).trans (Aside.grows ⟨rfl,rfl⟩)

theorem aside_onSink (w : World) (id : String) (f : World → Nat → World)
    (hf : ∀ sink, w.Aside (f w sink)) : w.Aside (onSink w id f) := by
  unfold onSink
  split
  · exact hf _
  · exact .refl w

theorem aside_event (w : World) (id label : String) (body : Json) : w.Aside (event w id label body).1 := by
  unfold event
  split
  · exact .refl w
  · split
    · exact .refl w
    · dsimp only
      split <;> exact ⟨rfl,rfl⟩

theorem aside_onEvent (w : World) (id label : String) (f : EventQueue → Uid → EventQueue × StepResult) :
    w.Aside (onEvent w id label f).1 := by
  unfold onEvent
  split
  · exact .refl w
  · split <;> exact ⟨rfl,rfl⟩

theorem aside_send (w : World) (id : String) (counter : CounterSpec) (response : Option Bool) (tag : Tag)
    (payload : List UInt8) : w.Aside (send w id counter response tag payload) := by
  unfold send
  split
  · exact .refl w
  · dsimp only
    split
    · refine Aside.trans ?_ (Far.aside_send ..)
      exact ⟨rfl,rfl⟩
    · exact Far.aside_send ..

theorem aside_processResponse (w : World) (id : String) (counter : CounterSpec) (tag : Tag)
    (payload : List UInt8) : w.Aside (processResponse w id counter tag payload).1 := by
  unfold processResponse
  split
  · exact .refl w
  · split
    · exact .refl w
    · exact (w.aside_onLink ..).trans (aside_countOn _ _ (Reading.reconnect_notMem_responseEvents _ _))

/-- What the script does, but for shutting a worker down. -/
theorem grows_act (w : World) (step : Step) (h : ∀ id, step ≠ .shutdown (some id)) :
    w.Grows (act w step).1 := by
  have hpiped : w.Aside w.addPipes.1 := ⟨rfl,rfl⟩
  cases step with
  | handler spec => exact (hpiped.grows.trans (grows_addHandler ..)).trans (aside_addPeer ..).grows
  | pair a b => exact (hpiped.grows.trans (grows_addHandler ..)).trans (grows_addHandler ..)
  | dial id codec table => exact ((hpiped.trans (aside_arrive ..)).trans (aside_addPeer ..)).grows
  | acceptFault e => exact (w.aside_onMaster _).grows
  | send id counter response tag payload => exact (aside_send ..).grows
  | raw id bytes =>
    exact (aside_onSink w id (fun w sink => w.pour sink bytes) fun sink => w.aside_pour sink bytes).grows
  | hangUp id => exact (aside_onSink w id _ fun sink => w.aside_endPipe sink).grows
  | markReady id name =>
    simp only [act]
    split
    · exact (w.aside_onLink ..).grows
    · exact (Aside.refl w).grows
  | close id reason =>
    simp only [act,close]
    split
    · exact (w.aside_closeLink ..).grows
    · exact (Aside.refl w).grows
  | processResponse id counter tag payload => exact (aside_processResponse ..).grows
  | checkKeepalives => exact (Admitting.aside_check w).grows
  | shutdown id =>
    cases id with
    | none => exact (w.aside_onMaster _).grows
    | some id => exact absurd rfl (h id)
  | event id label body => exact (aside_event ..).grows
  | forget id label => exact (aside_onEvent ..).grows
  | take id label => exact (aside_onEvent ..).grows
  | closeQueue id =>
    simp only [act]
    split <;> exact Aside.grows ⟨rfl,rfl⟩
  | _ => exact Aside.grows ⟨rfl,rfl⟩

theorem aside_call (w : World) (id on : String) (spec : CallSpec) : w.Aside (call w id on spec).1 := by
  have hon (link : Nat) : w.Aside (callOn w link id spec).1 := by cases spec <;> exact ⟨rfl,rfl⟩
  cases spec with
  | response label limit =>
    simp only [call,response]
    split <;> exact ⟨rfl,rfl⟩
  | gather events settings =>
    simp only [call]
    split <;> exact .refl w
  | sendTo client tag payload => exact .refl w
  | _ =>
    simp only [call]
    split
    · exact hon _
    · exact .refl w

theorem Employs.shutdown (h : Employs w activities) (id : String) :
    Employs (Cluster.shutdown w (some id)) activities := by
  cases hid : w.worker? id with
  | none =>
    rw [Cluster.shutdown,hid]
    exact h
  | some k =>
    have hlt : k < w.workers.length := (List.findIdx?_eq_some_iff_getElem.mp hid).1
    obtain ⟨x,c,hx,hpursues⟩ := (h.course k _ (List.getElem?_eq_getElem hlt)).exists_shutdown hid
    exact h.moves (hpursues.moves hx (fun i y hy hi => h.apart i k y x hy hx hi) (fun _ _ => rfl)
      (Nat.le_refl _) (.shutdown hid _))

theorem Employs.perm (h : Employs w activities) (hp : activities.Perm activities') :
    Employs w activities' := by
  have hsame (i : Nat) : workingOf i activities' = workingOf i activities := by
    have hworking : (workingOf i activities).Perm (workingOf i activities') := hp.filterMap _
    have honce := h.once i
    rcases hworking₁ : workingOf i activities with _ | ⟨a,_ | ⟨b,rest⟩⟩
    · rw [hworking₁] at hworking
      exact hworking.nil_eq.symm
    · rw [hworking₁] at hworking
      exact (List.singleton_perm.mp hworking).symm
    · simp [hworking₁] at honce
  exact h.moves (moves_of_aside (.refl w) hsame)

/-- An activity is given up. -/
theorem Employs.drop {a : Activity} (h : Employs w (a :: activities)) : Employs (a.drop w) activities := by
  by_cases ha : ∃ b, a = .working b
  · obtain ⟨⟨k,stage⟩,rfl⟩ := ha
    have hdropped : w.Aside (Working.dropStage w stage) := Working.aside_dropStage w stage
    have hold (i : Nat) : workingOf i (.working ⟨k,stage⟩ :: activities) =
        (if k = i then [⟨k,stage⟩] else []) ++ workingOf i activities := by
      rw [workingOf_cons,Activity.working?]
      split <;> rfl
    refine h.moves ⟨congrArg List.length hdropped.workers,fun i x x' hx hx' => ?_,fun i => ?_,fun i => ?_⟩
    · rw [Activity.drop,Working.drop,hdropped.workers] at hx'
      rw [Option.some.inj (hx.symm.trans hx')]
    · rw [hold,List.length_append]
      exact Nat.le_add_left ..
    · by_cases hi : k = i
      · subst hi
        have honce := h.once k
        rw [hold,if_pos rfl,List.length_append,List.length_singleton] at honce
        have hnone : workingOf k activities = [] := List.eq_nil_of_length_eq_zero (by omega)
        rw [hold,if_pos rfl,hnone]
        exact .single (.abort w stage)
      · rw [hold,if_neg hi]
        exact .single (.beside (hdropped.beside i) _)
  · have hother : ∀ b, a ≠ .working b := fun b hb => ha ⟨b,hb⟩
    exact h.moves (moves_of_aside (a.aside_drop w hother) fun i => (workingOf_cons_of_ne hother ..).symm)

theorem Employs.dropAll {gone kept : List Activity} (h : Employs w (gone ++ kept)) :
    Employs (gone.foldl (fun w a => a.drop w) w) kept := by
  induction gone generalizing w with
  | nil => exact h
  | cons a gone ih => exact ih h.drop

theorem Employing.abort (h : c.Employing) (id : String) : (c.abort id).Employing := by
  have hparts := h.perm (List.filter_append_perm (fun a => a.id? c.world == some id) c.activities).symm
  unfold Cluster.abort
  rw [List.partition_eq_filter_filter]
  exact hparts.dropAll

/-! ### The script -/

theorem Employing.add {a : Activity} (h : c.Employing) (ha : ∀ b, a ≠ .working b) :
    (c.add a).Employing := by
  refine Employs.moves h (moves_of_aside (.refl c.world) fun i => ?_)
  rw [Cluster.add,workingOf_append,workingOf_cons_of_ne ha]
  exact List.append_nil _

theorem Employing.grows (h : c.Employing) (hw : c.world.Grows w) : Employing { c with world := w } :=
  Employs.moves h (moves_of_grows hw fun _ => rfl)

theorem Employing.master (h : c.Employing) (spec : MasterSpec) : (master c spec).Employing := by
  refine Employing.add (h.grows (c.world.grows_addTraffic.trans (Aside.grows ⟨rfl,rfl⟩))) fun b => ?_
  split <;> simp

theorem Employing.batcher (h : c.Employing) (spec : BatcherSpec) : (batcher c spec).Employing := by
  have hadded (b : Batcher) : Employing
      { c with world := { c.world with batchers := c.world.batchers ++ [b], moves := c.world.moves + 1 } } :=
    h.grows (Aside.grows ⟨rfl,rfl⟩)
  unfold Cluster.batcher
  dsimp only
  split
  · exact (hadded _).add (by simp)
  · exact hadded _

/-- A new worker counts on new counters. -/
theorem Employs.hire (h : Employs w activities) {x : Worker} {n : UInt64} {a : Option Working}
    (hworkers : w'.workers = w.workers ++ [x])
    (htraffics : w'.traffics.map Traffic.reconnects = w.traffics.map Traffic.reconnects ++ [n])
    (htraffic : x.traffic = w.traffics.length) (hfresh : Fresh w' x x.plan 0)
    (ha : a = none ∨ a = some ⟨w.workers.length,.unstarted⟩) :
    Employs w' (activities ++ (a.map Activity.working).toList) := by
  have hnew : w'.workers[w.workers.length]? = some x := by rw [hworkers,List.getElem?_concat_length]
  have hold (i : Nat) (y : Worker) (hy : w'.workers[i]? = some y) (hi : i ≠ w.workers.length) :
      w.workers[i]? = some y := by
    have hlt := (List.getElem?_eq_some_iff.mp hy).1
    rw [hworkers,List.length_append,List.length_singleton] at hlt
    rwa [hworkers,List.getElem?_append_left (by omega)] at hy
  have hapart (i : Nat) (y : Worker) (hy : w.workers[i]? = some y) : y.traffic < w.traffics.length :=
    (h.course i y hy).traffic_lt hy
  have hworking (i : Nat) : workingOf i (activities ++ (a.map Activity.working).toList) =
      workingOf i activities ++ if w.workers.length = i then a.toList else [] := by
    rw [workingOf_append,workingOf_toList i a fun b hb => ?_]
    rcases ha with rfl | rfl
    · simp at hb
    · exact (Option.some.inj hb) ▸ rfl
  have hidle : workingOf w.workers.length activities = [] := h.known _ (Nat.le_refl _)
  constructor
  · intro i j y z hy hz hne
    by_cases hi : i = w.workers.length
    · have hj : j ≠ w.workers.length := fun hj => hne (hi.trans hj.symm)
      subst hi
      rw [← Option.some.inj (hnew.symm.trans hy),htraffic]
      exact (hapart j z (hold j z hz hj)).ne'
    · by_cases hj : j = w.workers.length
      · subst hj
        rw [← Option.some.inj (hnew.symm.trans hz),htraffic]
        exact (hapart i y (hold i y hy hi)).ne
      · exact h.apart i j y z (hold i y hy hi) (hold j z hz hj) hne
  · intro i hi
    rw [hworkers,List.length_append,List.length_singleton] at hi
    rw [hworking,if_neg (by omega),h.known i (by omega)]
    rfl
  · intro i
    rw [hworking]
    split
    · rename_i hi
      rw [← hi,hidle]
      cases a <;> simp
    · simpa using h.once i
  · intro i y hy
    by_cases hi : i = w.workers.length
    · subst hi
      obtain rfl : x = y := Option.some.inj (hnew.symm.trans hy)
      rw [hworking,if_pos rfl,hidle,List.nil_append,Option.head?_toList]
      exact .fresh hnew hfresh ha
    · rw [hworking,if_neg (Ne.symm hi),List.append_nil]
      refine (h.course i y (hold i y hy hi)).happens (.beside ⟨fun z hz => ?_,fun z k hz hk => ?_⟩ _)
      · exact ⟨z.events,List.prefix_refl _,by
          rw [hy,Option.some.inj ((hold i y hy hi).symm.trans hz)]⟩
      · rw [htraffics,List.getElem?_append_left (by simpa using hapart i z hz),hk]

theorem Employing.worker (h : c.Employing) (spec : WorkerSpec) : (worker c spec).Employing := by
  have htraffics : (c.world.traffics ++ [({} : Traffic)]).map Traffic.reconnects =
      c.world.traffics.map Traffic.reconnects ++ [0] := List.map_append
  have hcounted : ((c.world.traffics ++ [({} : Traffic)]).map Traffic.reconnects)[c.world.traffics.length]? =
      some 0 := by simp
  simp only [Cluster.worker,World.addTraffic,World.addRegistry]
  split
  · exact Employs.hire h rfl htraffics rfl ⟨rfl,rfl,rfl,rfl,hcounted⟩ (.inr rfl)
  · rw [Employing,← List.append_nil c.activities]
    exact Employs.hire h rfl htraffics rfl ⟨rfl,rfl,rfl,rfl,hcounted⟩ (.inl rfl)

theorem Employing.perform (h : c.Employing) (step : Step) : (perform c step).1.Employing := by
  have hact (hs : ∀ id, step ≠ .shutdown (some id)) :
      Employing { c with world := (act c.world step).1 } := h.grows (grows_act c.world step hs)
  cases step with
  | master spec => exact h.master spec
  | worker spec => exact h.worker spec
  | batcher spec => exact h.batcher spec
  | runBatcher id =>
    simp only [Cluster.perform]
    split
    · exact h.add (by simp)
    · exact h
  | call id on spec => exact Employing.add (h.grows (aside_call c.world id on spec).grows) (by simp)
  | abort id => exact h.abort id
  | pass ms => exact Employing.pass (h.settle _) ms
  | shutdown id =>
    cases id with
    | none => exact hact (by simp)
    | some id => exact Employs.shutdown h id
  | _ => exact hact (by simp)

theorem Employing.clear (h : c.Employing) : Employing { c with world := clear c.world } := by
  refine Employs.moves h (moves_of_beside (List.length_map _) (fun i => ⟨fun x hx => ?_,fun _ _ _ hn => hn⟩)
    fun _ => rfl)
  exact ⟨[],List.nil_prefix,by simp [Cluster.clear,hx]⟩

theorem Employing.runSteps (h : c.Employing) (steps : List Step) : (runSteps c steps).1.Employing := by
  induction steps generalizing c with
  | nil => exact h
  | cons step rest ih => exact ih ((h.perform step).pass stepTime).clear

/-- In every script, at any time, the counters of a worker and how its loop stands tell of the same
attempts: a reconnect for each session that was not stopped, and an end that the policy decided. -/
theorem exists_attempts_of_script (steps : List Step) {x : Worker}
    (hx : x ∈ (runSteps {} steps).1.world.workers) : ∃ attempts : List Attempt,
      ((runSteps {} steps).1.world.traffics.getD x.traffic {}).reconnects =
        .ofNat (attempts.countP Attempt.isLost) ∧
      ∀ e, x.loop.stage = .stopped (.error e) ↔ Course.GivenUp (fun _ => x.plan.policy) attempts e := by
  have hnone : Employing {} :=
    ⟨fun i j x y hx => by simp at hx,fun _ _ => rfl,fun _ => Nat.zero_le 1,fun i x hx => by simp at hx⟩
  obtain ⟨i,hi⟩ := List.getElem?_of_mem hx
  obtain ⟨x',attempts,onward,hx',hcounted,-,-,hstage⟩ :=
    ((hnone.runSteps steps).course i x hi).exists_attempts
  obtain rfl : x = x' := Option.some.inj (hi.symm.trans hx')
  refine ⟨attempts,?_,hstage⟩
  rw [List.getElem?_map,Option.map_eq_some_iff] at hcounted
  obtain ⟨traffic,htraffic,hreconnects⟩ := hcounted
  rw [List.getD_eq_getElem?_getD,htraffic,Option.getD_some,hreconnects]
  exact UInt64.zero_add _

end Cluster
end Tether
