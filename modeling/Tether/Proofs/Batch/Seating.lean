import Tether.Batch.Desk
import Tether.Proofs.Batch.Mailroom

/-! The desk runs its waiters and receivers one after the other, and what it does in one go is a run of
acts of those who use its queue. What it hands out is what they are recorded to have got. -/
namespace Tether

def SlotEntry.value? : SlotEntry → Option Json
  | .given _ value => some value
  | _ => none

namespace Woken

def event? : Woken → Option Event
  | .event event? => event?
  | .answer _ => none

def value? : Woken → Option Json
  | .answer value? => value?
  | .event _ => none

end Woken

namespace WaitStage

theorem value?_eq_none {stage : WaitStage} (h : stage.isFinished = false) : stage.value? = none := by
  cases stage with
  | finished answer => simp [isFinished] at h
  | _ => rfl

@[simp] theorem entries_self (uid : Uid) (stage : WaitStage) : stage.entries uid stage = [] := by
  cases h : stage.isFinished <;> simp [entries,h,value?_eq_none]

theorem entries_append {before middle : WaitStage} (h : before.isFinished = false) (uid : Uid)
    (after : WaitStage) (hafter : middle.isFinished = true → after = middle) :
    before.entries uid middle ++ middle.entries uid after = before.entries uid after := by
  cases hm : middle.isFinished with
  | true => simp [hafter hm]
  | false => simp [entries,h,hm,value?_eq_none]

theorem run_finished (uid : Uid) (waiter fuel : Nat) (q : EventQueue) (answer : Option Json) :
    run uid waiter fuel q (.finished answer) = (q,.finished answer) := by
  cases fuel <;> rfl

theorem run_succ (uid : Uid) (waiter fuel : Nat) (q : EventQueue) (stage : WaitStage) :
    run uid waiter (fuel+1) q stage = (q,stage) ∨ stage.isFinished = false ∧
      run uid waiter (fuel+1) q stage =
        run uid waiter fuel (stage.step uid waiter q).1 (stage.step uid waiter q).2 := by
  cases stage with
  | finished answer => exact .inl rfl
  | parked =>
    cases hregistered : q.isRegistered waiter with
    | true => exact .inl (by simp [run,hregistered])
    | false => exact .inr ⟨rfl,by simp [run,step,hregistered]⟩
  | _ => exact .inr ⟨rfl,rfl⟩

theorem snd_run_of_isFinished {uid : Uid} {waiter fuel : Nat} {q : EventQueue} {stage : WaitStage}
    (h : stage.isFinished = true) : (run uid waiter fuel q stage).2 = stage := by
  cases stage with
  | finished answer => rw [run_finished]
  | _ => simp [isFinished] at h

end WaitStage

namespace Mailroom

variable {m : Mailroom} {k : Nat} {uid : Uid} {stage : WaitStage}

/-! ### What is done in one go -/

theorem run_send (m : Mailroom) (e : Event) :
    m.run [.call e,.enter m.calls.length,.push m.calls.length] =
      match m.queue.send e with
      | .ok queue =>
        { m with
          queue
          calls := m.calls ++ [⟨e,.accepted⟩]
          accepted := m.accepted ++ [e]
          log := m.log ++ [.sent e.uid] }
      | .error error => { m with calls := m.calls ++ [⟨e,.refused error⟩] } := by
  have hsend := m.send_eq e
  cases hq : m.queue.send e <;> rw [hq] at hsend <;> simp [step,enter,push,hsend.1,hsend.2.1,hsend.2.2]

theorem exists_run_forget (m : Mailroom) (uid : Uid) : ∃ acts, m.run acts =
    { m with
      queue := (m.queue.forget uid).1
      log := m.log ++ [.forgotten uid (m.queue.forget uid).2] } := by
  unfold EventQueue.forget EventQueue.dropSlot
  rcases hs : m.queue.slot? uid with _ | bell | answer
  · exact ⟨[.drop uid],by simp [step,drop,EventQueue.dropSlot,hs]⟩
  · exact ⟨[.drop uid,.ring bell],by simp [step,drop,EventQueue.dropSlot,hs]⟩
  · exact ⟨[.drop uid],by simp [step,drop,EventQueue.dropSlot,hs]⟩

/-- A waiter has come from one stage to another, with what it got. -/
def waited (m : Mailroom) (k : Nat) (uid : Uid) (stage : WaitStage) (result : EventQueue × WaitStage) :
    Mailroom :=
  { m with
    queue := result.1
    waiters := m.waiters.set k (uid,some result.2)
    log := m.log ++ stage.entries uid result.2 }

theorem step_poll (hk : m.waiters[k]? = some (uid,some stage)) :
    m.step (.poll k) = m.waited k uid stage (stage.step uid k m.queue) := by
  simp only [step,poll,hk]
  rfl

theorem waited_self (hk : m.waiters[k]? = some (uid,some stage)) :
    m.waited k uid stage (m.queue,stage) = m := by
  have hset : m.waiters.set k (uid,some stage) = m.waiters := by
    rw [← (List.getElem?_eq_some_iff.mp hk).2]
    exact List.set_getElem_self ..
  simp [waited,hset]

theorem waited_waited {result next : EventQueue × WaitStage} (h : stage.isFinished = false)
    (hnext : result.2.isFinished = true → next.2 = result.2) :
    (m.waited k uid stage result).waited k uid result.2 next = m.waited k uid stage next := by
  simp only [waited,List.set_set,List.append_assoc,WaitStage.entries_append h uid next.2 hnext]

theorem exists_run_poll (fuel : Nat) (hk : m.waiters[k]? = some (uid,some stage)) :
    ∃ n, m.run (List.replicate n (.poll k)) =
      m.waited k uid stage (WaitStage.run uid k fuel m.queue stage) := by
  induction fuel generalizing m stage with
  | zero => exact ⟨0,(waited_self hk).symm⟩
  | succ fuel ih =>
    rcases WaitStage.run_succ uid k fuel m.queue stage with hsame | ⟨hgoes,hrun⟩
    · exact ⟨0,by rw [hsame,waited_self hk]; rfl⟩
    · have hlt : k < m.waiters.length := (List.getElem?_eq_some_iff.mp hk).1
      have hnext : (m.waited k uid stage (stage.step uid k m.queue)).waiters[k]? =
          some (uid,some (stage.step uid k m.queue).2) := by simp [waited,hlt]
      obtain ⟨n,hn⟩ := ih hnext
      refine ⟨n+1,?_⟩
      rw [List.replicate_succ,run_cons,step_poll hk,hn,waited_waited hgoes WaitStage.snd_run_of_isFinished,
        hrun]
      rfl

end Mailroom

/-! ### The desk -/

namespace QueueDesk

variable {d : QueueDesk} {m : Mailroom}

def Stands (m : Mailroom) (w : DeskWaiter) : Prop :=
  m.waiters[w.number]? = some (w.uid,some w.stage) ∧ w.stage.isFinished = false

/-- The desk shows those who wait at a queue. -/
structure Seated (d : QueueDesk) (m : Mailroom) : Prop where
  queue : m.queue = d.queue
  next : m.waiters.length = d.nextNumber
  distinct : (d.waiters.map (·.number)).Nodup
  stands : ∀ w ∈ d.waiters, Stands m w

theorem Seated.of_waiters_eq {m' : Mailroom} (h : d.Seated m) (hwaiters : m'.waiters = m.waiters) :
    { d with queue := m'.queue }.Seated m' := by
  refine ⟨rfl,by rw [hwaiters]; exact h.next,h.distinct,fun w hw => ?_⟩
  rw [Stands,hwaiters]
  exact h.stands w hw

theorem Seated.wait (h : d.Seated m) (id : String) (uid : Uid) :
    (d.wait id uid).Seated (m.step (.wait uid)) := by
  have hlt : ∀ w ∈ d.waiters, w.number < m.waiters.length := fun w hw =>
    (List.getElem?_eq_some_iff.mp (h.stands w hw).1).1
  refine ⟨h.queue,?_,?_,fun w hw => ?_⟩
  · simp [Mailroom.step,QueueDesk.wait,h.next]
  · rw [QueueDesk.wait,List.map_append,List.map_singleton]
    refine List.nodup_append.mpr ⟨h.distinct,by simp,fun a ha b hb hab => ?_⟩
    obtain ⟨w,hw,rfl⟩ := List.mem_map.mp ha
    have hnumber : w.number = d.nextNumber := hab.trans (List.mem_singleton.mp hb)
    have := hlt w hw
    rw [h.next,hnumber] at this
    exact absurd this (Nat.lt_irrefl _)
  · rcases List.mem_append.mp hw with hw | hw
    · obtain ⟨hk,hstage⟩ := h.stands w hw
      exact ⟨(List.getElem?_append_left (hlt w hw)).trans hk,hstage⟩
    · obtain rfl := List.mem_singleton.mp hw
      exact ⟨by simp [Mailroom.step,← h.next],rfl⟩

theorem Seated.tryTake (h : d.Seated m) : ∃ acts, d.tryTake.1.Seated (m.run acts) ∧
    (m.run acts).taken = m.taken ++ d.tryTake.2.toList := by
  unfold QueueDesk.tryTake
  split
  · have hseated : { d with queue := (m.step .take).queue }.Seated (m.step .take) := h.of_waiters_eq rfl
    have hqueue : (m.step .take).queue = d.queue.take.1 := by rw [← h.queue]; rfl
    rw [hqueue] at hseated
    exact ⟨[.take],hseated,by rw [← h.queue]; rfl⟩
  · exact ⟨[],h,by simp⟩

theorem exists_run_serve (receivers : List String) {q : EventQueue} (h : m.queue = q) :
    ∃ acts, m.run acts = { m with
      queue := (serve q receivers).1
      taken := m.taken ++ (serve q receivers).2.2.filterMap (·.2.event?) } := by
  induction receivers generalizing m q with
  | nil => exact ⟨[],by simp [serve,← h]⟩
  | cons id rest ih =>
    subst h
    rcases htake : m.queue.take with ⟨q,_ | e⟩
    · cases hopen : m.queue.isOpen with
      | true => exact ⟨[],by simp [serve,htake,hopen]⟩
      | false =>
        obtain ⟨acts,hacts⟩ := ih (m := m) rfl
        have hserve : serve m.queue (id :: rest) = ((serve m.queue rest).1,(serve m.queue rest).2.1,
            (id,.event none) :: (serve m.queue rest).2.2) := by
          simp [serve,htake,hopen]
        exact ⟨acts,by rw [hacts,hserve,List.filterMap_cons_none rfl]⟩
    · have hstep : m.step .take = { m with queue := q, taken := m.taken ++ [e] } := by
        simp [Mailroom.step,Mailroom.take,htake]
      obtain ⟨acts,hacts⟩ := ih (m := m.step .take) (q := q) (by rw [hstep])
      have hserve : serve m.queue (id :: rest) = ((serve q rest).1,(serve q rest).2.1,
          (id,.event (some e)) :: (serve q rest).2.2) := by
        simp [serve,htake]
      have hevents : ((id,Woken.event (some e)) :: (serve q rest).2.2).filterMap (·.2.event?) =
          e :: (serve q rest).2.2.filterMap (·.2.event?) := List.filterMap_cons_some rfl
      refine ⟨.take :: acts,?_⟩
      rw [Mailroom.run_cons,hacts,hstep,hserve,hevents]
      simp

theorem value?_serve (q : EventQueue) (receivers : List String) :
    (serve q receivers).2.2.filterMap (·.2.value?) = [] := by
  induction receivers generalizing q with
  | nil => rfl
  | cons id rest ih =>
    have hcons (event? : Option Event) (q : EventQueue) :
        ((id,Woken.event event?) :: (serve q rest).2.2).filterMap (·.2.value?) = [] :=
      (List.filterMap_cons_none rfl).trans (ih q)
    simp only [serve]
    rcases q.take with ⟨q',_ | e⟩
    · cases q.isOpen with
      | true => rfl
      | false => exact hcons none q
    · exact hcons (some e) q'

theorem event?_runWaiters (q : EventQueue) (waiters : List DeskWaiter) :
    (runWaiters q waiters).2.2.filterMap (·.2.event?) = [] := by
  induction waiters generalizing q with
  | nil => rfl
  | cons w rest ih =>
    simp only [runWaiters]
    split
    · exact (List.filterMap_cons_none rfl).trans (ih _)
    · exact ih _

theorem value?_waited {w : DeskWaiter} (hstage : w.stage.isFinished = false) (result : EventQueue × WaitStage) :
    (m.waited w.number w.uid w.stage result).log.filterMap SlotEntry.value? =
      m.log.filterMap SlotEntry.value? ++ result.2.value?.toList := by
  have hentries : (w.stage.entries w.uid result.2).filterMap SlotEntry.value? = result.2.value?.toList := by
    rw [WaitStage.entries,if_neg (by simp [hstage])]
    cases result.2.value? <;> rfl
  rw [Mailroom.waited,List.filterMap_append,hentries]

/-- The waiters at these numbers have run, with this result. -/
structure Woke (m m' : Mailroom) (waiters : List DeskWaiter)
    (result : EventQueue × List DeskWaiter × List (String × Woken)) : Prop where
  queue : m'.queue = result.1
  length : m'.waiters.length = m.waiters.length
  taken : m'.taken = m.taken
  values : m'.log.filterMap SlotEntry.value? =
    m.log.filterMap SlotEntry.value? ++ result.2.2.filterMap (·.2.value?)
  stands : ∀ w ∈ result.2.1, Stands m' w
  left : (result.2.1.map (·.number)).Sublist (waiters.map (·.number))
  others : ∀ k, k ∉ waiters.map (·.number) → m'.waiters[k]? = m.waiters[k]?

theorem exists_run_waiters (waiters : List DeskWaiter) (hdistinct : (waiters.map (·.number)).Nodup)
    (hstands : ∀ w ∈ waiters, Stands m w) :
    ∃ acts, Woke m (m.run acts) waiters (runWaiters m.queue waiters) := by
  induction waiters generalizing m with
  | nil => exact ⟨[],rfl,rfl,rfl,by simp [runWaiters],by simp [runWaiters],by simp [runWaiters],fun _ _ => rfl⟩
  | cons w rest ih =>
    obtain ⟨hk,hstage⟩ := hstands w (by simp)
    have hnot : w.number ∉ rest.map (·.number) := (List.nodup_cons.mp hdistinct).1
    obtain ⟨n,hn⟩ := Mailroom.exists_run_poll WaitStage.settleSteps hk
    obtain ⟨⟨q,stage⟩,hresult⟩ : ∃ r, r = WaitStage.run w.uid w.number WaitStage.settleSteps m.queue w.stage :=
      ⟨_,rfl⟩
    rw [← hresult] at hn
    obtain ⟨acts,hwoke⟩ := ih (m := m.waited w.number w.uid w.stage (q,stage))
      (List.nodup_cons.mp hdistinct).2 fun w' hw' => by
        obtain ⟨hk',hstage'⟩ := hstands w' (by simp [hw'])
        have hne : w.number ≠ w'.number := fun he => hnot (List.mem_map.mpr ⟨w',hw',he.symm⟩)
        exact ⟨by simpa [Mailroom.waited,hne] using hk',hstage'⟩
    have hvalues := value?_waited (m := m) hstage (q,stage)
    have hw : ((m.waited w.number w.uid w.stage (q,stage)).run acts).waiters[w.number]? =
        some (w.uid,some stage) := by
      rw [hwoke.others w.number hnot]
      simp [Mailroom.waited,(List.getElem?_eq_some_iff.mp hk).1]
    refine ⟨List.replicate n (.poll w.number) ++ acts,?_⟩
    rw [Mailroom.run_append,hn]
    have hqueue : (m.waited w.number w.uid w.stage (q,stage)).queue = q := rfl
    rw [hqueue] at hwoke
    have hlength := hwoke.length.trans (by simp [Mailroom.waited] : _ = m.waiters.length)
    have hothers : ∀ k, k ∉ (w :: rest).map (·.number) →
        ((m.waited w.number w.uid w.stage (q,stage)).run acts).waiters[k]? = m.waiters[k]? := fun k hk' => by
      obtain ⟨hne,hrest⟩ := not_or.mp (mt List.mem_cons.mpr hk')
      rw [hwoke.others k hrest]
      exact List.getElem?_set_ne (Ne.symm hne)
    cases hfinished : stage.isFinished with
    | true =>
      obtain ⟨answer,rfl⟩ : ∃ answer, stage = .finished answer := by
        cases stage <;> simp [WaitStage.isFinished] at hfinished ⊢
      have hrun : runWaiters m.queue (w :: rest) = ((runWaiters q rest).1,(runWaiters q rest).2.1,
          (w.id,.answer answer) :: (runWaiters q rest).2.2) := by
        simp only [runWaiters,← hresult]
      rw [hrun]
      refine ⟨hwoke.queue,hlength,hwoke.taken,?_,hwoke.stands,hwoke.left.cons _,hothers⟩
      rw [hwoke.values,hvalues,List.append_assoc]
      cases answer <;> rfl
    | false =>
      have hrun : runWaiters m.queue (w :: rest) = ((runWaiters q rest).1,
          { w with stage } :: (runWaiters q rest).2.1,(runWaiters q rest).2.2) := by
        simp only [runWaiters,← hresult]
        cases stage with
        | finished answer => simp [WaitStage.isFinished] at hfinished
        | _ => rfl
      rw [hrun]
      refine ⟨hwoke.queue,hlength,hwoke.taken,?_,fun w' hw' => ?_,hwoke.left.cons_cons w.number,hothers⟩
      · rw [hwoke.values,hvalues,WaitStage.value?_eq_none hfinished]
        simp
      · rcases List.mem_cons.mp hw' with rfl | hw'
        · exact ⟨hw,hfinished⟩
        · exact hwoke.stands w' hw'

theorem exists_run_settle (h : d.Seated m) : ∃ acts, d.settle.1.Seated (m.run acts) ∧
    (m.run acts).taken = m.taken ++ d.settle.2.filterMap (·.2.event?) ∧
    (m.run acts).log.filterMap SlotEntry.value? =
      m.log.filterMap SlotEntry.value? ++ d.settle.2.filterMap (·.2.value?) := by
  obtain ⟨served,hserved⟩ := exists_run_serve d.receivers h.queue
  have hqueue : (m.run served).queue = (serve d.queue d.receivers).1 := by rw [hserved]
  have hstands : ∀ w ∈ d.waiters, Stands (m.run served) w := by
    rw [hserved]
    exact h.stands
  obtain ⟨acts,hwoke⟩ := exists_run_waiters d.waiters h.distinct hstands
  rw [hqueue] at hwoke
  refine ⟨served ++ acts,?_⟩
  rw [Mailroom.run_append]
  refine ⟨⟨hwoke.queue,?_,h.distinct.sublist hwoke.left,hwoke.stands⟩,?_,?_⟩
  · rw [hwoke.length,hserved]
    exact h.next
  · rw [hwoke.taken,hserved,settle,List.filterMap_append,event?_runWaiters,List.append_nil]
  · rw [hwoke.values,hserved,settle,List.filterMap_append,value?_serve,List.nil_append]

end QueueDesk
end Tether
