import Tether.Proofs.Batch.Fates

/-! A queue and all who use it, under every order in which they take their steps: those who send events,
who take them, who answer them, who read the answers, wait for them or give events up, and who closes the
queue. A waiter may be cancelled while it sleeps. What each of them has got is kept as a record. -/
namespace Tether

open Senders (Call CallStage)

namespace WaitStage

def isFinished : WaitStage → Bool
  | .finished _ => true
  | _ => false

def value? : WaitStage → Option Json
  | .finished answer => answer
  | _ => none

/-- What a waiter gets on its way from one stage to another. -/
def entries (uid : Uid) (before after : WaitStage) : List SlotEntry :=
  if before.isFinished then [] else after.value?.toList.map (.given uid)

end WaitStage

structure Mailroom extends Senders where
  /-- Who waits, for what, and how far each has come; none once it is cancelled. -/
  waiters : List (Uid × Option WaitStage) := []
  accepted : List Event := []
  taken : List Event := []
  log : List SlotEntry := []

namespace Mailroom

inductive Act
  | call (event : Event)
  | enter (call : Nat)
  | push (call : Nat)
  | close
  | take
  | answer (event : Event)
  | collect (uid : Uid)
  | wait (uid : Uid)
  | poll (waiter : Nat)
  | cancel (waiter : Nat)
  | drop (uid : Uid)
  | ring (bell : Nat)

/-- A call opens the slot of its event, unless there is one. -/
def enter (m : Mailroom) (k : Nat) : Mailroom :=
  let (senders,opened) := m.toSenders.enter k
  { m with toSenders := senders, log := m.log ++ opened.toList.map .sent }

/-- A call hands its event over, which is then accepted. -/
def push (m : Mailroom) (k : Nat) : Mailroom :=
  let (senders,handed) := m.toSenders.push k
  { m with toSenders := senders, accepted := m.accepted ++ handed.toList }

def take (m : Mailroom) : Mailroom :=
  { m with queue := m.queue.take.1, taken := m.taken ++ m.queue.take.2.toList }

def answer (m : Mailroom) (e : Event) : Mailroom :=
  { m with queue := (m.queue.answer e).1, log := m.log ++ [.answered e (m.queue.answer e).2] }

def collect (m : Mailroom) (uid : Uid) : Mailroom :=
  { m with
    queue := (m.queue.collect uid).1
    log := m.log ++ (m.queue.collect uid).2.toList.map (.given uid) }

def poll (m : Mailroom) (k : Nat) : Mailroom :=
  match m.waiters[k]? with
  | some (uid,some stage) =>
    { m with
      queue := (stage.step uid k m.queue).1
      waiters := m.waiters.set k (uid,some (stage.step uid k m.queue).2)
      log := m.log ++ stage.entries uid (stage.step uid k m.queue).2 }
  | _ => m

/-- A waiter that sleeps is cancelled, and hears of no bell any more. -/
def cancel (m : Mailroom) (k : Nat) : Mailroom :=
  match m.waiters[k]? with
  | some (uid,some .parked) =>
    { m with queue := m.queue.unregister k, waiters := m.waiters.set k (uid,none) }
  | _ => m

def drop (m : Mailroom) (uid : Uid) : Mailroom :=
  { m with
    queue := (m.queue.dropSlot uid).1
    log := m.log ++ [.forgotten uid (m.queue.slot? uid).isSome] }

def step (m : Mailroom) : Act → Mailroom
  | .call e => { m with toSenders := m.call e }
  | .enter k => m.enter k
  | .push k => m.push k
  | .close => { m with queue := m.queue.close }
  | .take => m.take
  | .answer e => m.answer e
  | .collect uid => m.collect uid
  | .wait uid => { m with waiters := m.waiters ++ [(uid,some .looking)] }
  | .poll k => m.poll k
  | .cancel k => m.cancel k
  | .drop uid => m.drop uid
  | .ring bell => { m with queue := m.queue.ring bell }

def run (m : Mailroom) (acts : List Act) : Mailroom := acts.foldl step m

@[simp] theorem run_nil (m : Mailroom) : m.run [] = m := rfl

@[simp] theorem run_cons (m : Mailroom) (a : Act) (acts : List Act) :
    m.run (a :: acts) = (m.step a).run acts := rfl

theorem run_append (m : Mailroom) (acts more : List Act) : m.run (acts ++ more) = (m.run acts).run more :=
  List.foldl_append

/-! ### What is done to the slots -/

variable {m : Mailroom}

open EventQueue (Records records_nil)

theorem records_wait (h : m.queue.Distinct) (uid : Uid) (k : Nat) (stage : WaitStage) :
    Records m.queue (stage.entries uid (stage.step uid k m.queue).2) (stage.step uid k m.queue).1 := by
  have hlook := EventQueue.records_look h uid
  cases stage with
  | looking =>
    simp only [WaitStage.step]
    rcases hs : m.queue.look uid with ⟨q,_ | value | bell⟩ <;> rw [hs] at hlook <;> exact hlook
  | enabling bell => exact records_nil h rfl
  | checking =>
    simp only [WaitStage.step]
    rcases hs : m.queue.look uid with ⟨q,_ | value | bell⟩ <;> rw [hs] at hlook
    · exact hlook.append (records_nil hlook.distinct rfl)
    · exact hlook.append (records_nil hlook.distinct rfl)
    · exact hlook
  | parked =>
    simp only [WaitStage.step]
    split <;> exact records_nil h rfl
  | finished answer => exact records_nil h rfl

def slotted (m : Mailroom) : Nat := m.calls.countP Call.isSlotted

/-- What an act adds to the record is what it does to the slots, and what it opens is counted. -/
theorem exists_records (h : m.queue.Distinct) (a : Act) : ∃ new, (m.step a).log = m.log ++ new ∧
    Records m.queue new (m.step a).queue ∧
    (m.step a).slotted = m.slotted + new.countP SlotEntry.isSent := by
  cases a with
  | call e =>
    refine ⟨[],by simp [step],records_nil h rfl,?_⟩
    cases hopen : m.queue.isOpen <;> simp [step,Senders.call,slotted,hopen,Call.isSlotted]
  | enter k =>
    simp only [step,enter,Senders.enter]
    split
    · rename_i e hk
      have hslotted := Senders.countP_setCall Call.isSlotted hk
      split
      · refine ⟨[],by simp,records_nil h rfl,?_⟩
        simpa [Call.isSlotted,slotted] using hslotted (.refused (.duplicate e.uid))
      · rename_i hslot
        refine ⟨[.sent e.uid],rfl,EventQueue.records_openSlot h (by simpa using hslot),?_⟩
        simpa [Call.isSlotted,slotted,SlotEntry.isSent,Senders.setCall] using hslotted .opened
    · exact ⟨[],by simp,records_nil h rfl,rfl⟩
  | push k =>
    simp only [step,push,Senders.push]
    split
    · rename_i e hk
      refine ⟨[],by simp,records_nil h rfl,?_⟩
      simpa [Call.isSlotted,slotted,Senders.setCall] using Senders.countP_setCall Call.isSlotted hk .accepted
    · exact ⟨[],by simp,records_nil h rfl,rfl⟩
  | take =>
    refine ⟨[],by simp [step,take],records_nil h ?_,rfl⟩
    simp only [step,take,EventQueue.take]
    split <;> rfl
  | answer e => exact ⟨_,rfl,EventQueue.records_answer h e,rfl⟩
  | collect uid =>
    have hlook := EventQueue.records_look h uid
    refine ⟨_,rfl,?_,?_⟩
    · simp only [step,collect,EventQueue.collect]
      rcases hs : m.queue.look uid with ⟨q,_ | value | bell⟩ <;> rw [hs] at hlook <;> exact hlook
    · cases (m.queue.collect uid).2 <;> simp [step,collect,slotted,SlotEntry.isSent]
  | poll k =>
    simp only [step,poll]
    split
    · rename_i uid stage hk
      refine ⟨_,rfl,records_wait h uid k stage,?_⟩
      have hsent (value? : Option Json) :
          (value?.toList.map (SlotEntry.given uid)).countP SlotEntry.isSent = 0 := by
        cases value? <;> rfl
      unfold WaitStage.entries
      split
      · rfl
      · rw [hsent]
        rfl
    · exact ⟨[],by simp,records_nil h rfl,rfl⟩
  | cancel k =>
    simp only [step,cancel]
    split <;> exact ⟨[],by simp,records_nil h rfl,rfl⟩
  | drop uid => exact ⟨_,rfl,EventQueue.records_dropSlot h uid,rfl⟩
  | _ => exact ⟨[],by simp [step],records_nil h rfl,rfl⟩

/-- The record of all that was done to the slots, from the beginning. -/
structure Recorded (m : Mailroom) : Prop where
  records : Records {} m.log m.queue
  sent : m.slotted = m.log.countP SlotEntry.isSent

theorem recorded_empty : ({} : Mailroom).Recorded := by
  refine ⟨records_nil ?_ rfl,rfl⟩
  simp [EventQueue.Distinct]

theorem Recorded.step (h : m.Recorded) (a : Act) : (m.step a).Recorded := by
  obtain ⟨new,hlog,hrecords,hsent⟩ := exists_records h.records.distinct a
  refine ⟨?_,?_⟩
  · rw [hlog]
    exact h.records.append hrecords
  · rw [hsent,hlog,List.countP_append,h.sent]

theorem Recorded.run (h : m.Recorded) (acts : List Act) : (m.run acts).Recorded := by
  induction acts generalizing m with
  | nil => exact h
  | cons a acts ih => exact ih (h.step a)

/-! ### Events -/

theorem queued_wait (q : EventQueue) (uid : Uid) (k : Nat) (stage : WaitStage) :
    (stage.step uid k q).1.queued = q.queued ∧ (stage.step uid k q).1.isOpen = q.isOpen := by
  have hqueued := q.queued_look uid
  have hopen := q.isOpen_look uid
  cases stage with
  | looking =>
    simp only [WaitStage.step]
    rcases hs : q.look uid with ⟨q',_ | value | bell⟩ <;> rw [hs] at hqueued hopen <;> exact ⟨hqueued,hopen⟩
  | checking =>
    simp only [WaitStage.step]
    rcases hs : q.look uid with ⟨q',_ | value | bell⟩ <;> rw [hs] at hqueued hopen <;> exact ⟨hqueued,hopen⟩
  | parked =>
    simp only [WaitStage.step]
    split <;> exact ⟨rfl,rfl⟩
  | _ => exact ⟨rfl,rfl⟩

/-- How events come in and go out with an act. -/
inductive Passes (m m' : Mailroom) : Prop
  /-- Calls may begin while the queue is open, and may be refused. -/
  | neither (hqueued : m'.queue.queued = m.queue.queued) (haccepted : m'.accepted = m.accepted)
      (htaken : m'.taken = m.taken) (hopen : m'.queue.isOpen = true → m.queue.isOpen = true)
      (hunderway : m.queue.isOpen = false → m'.underway.Subperm m.underway)
  | accepts (e : Event) (hqueued : m'.queue.queued = m.queue.queued ++ [e])
      (haccepted : m'.accepted = m.accepted ++ [e]) (htaken : m'.taken = m.taken)
      (hopen : m'.queue.isOpen = m.queue.isOpen) (hunderway : (e :: m'.underway).Perm m.underway)
  | takes (e : Event) (hqueued : m.queue.queued = e :: m'.queue.queued)
      (haccepted : m'.accepted = m.accepted) (htaken : m'.taken = m.taken ++ [e])
      (hopen : m'.queue.isOpen = m.queue.isOpen) (hunderway : m'.underway = m.underway)

theorem passes (m : Mailroom) (a : Act) : m.Passes (m.step a) := by
  cases a with
  | call e =>
    refine .neither rfl rfl rfl id fun hclosed => ?_
    have hsame : (m.step (.call e)).underway = m.underway := by
      simp [step,Senders.call,Senders.underway,hclosed,Call.isUnderway]
    rw [hsame]
  | enter k =>
    simp only [step,enter,Senders.enter]
    split
    · rename_i e hk
      split
      · have hperm := Senders.underway_setCall hk rfl (.refused (.duplicate e.uid))
        exact .neither rfl rfl rfl id fun _ => (List.sublist_append_right ..).subperm.trans hperm.subperm
      · have hperm := Senders.underway_setCall hk rfl .opened
        exact .neither rfl rfl rfl id fun _ => hperm.subperm
    · exact .neither rfl rfl rfl id fun _ => .refl _
  | push k =>
    simp only [step,push,Senders.push]
    split
    · rename_i e hk
      exact .accepts e rfl rfl rfl rfl (Senders.underway_setCall hk rfl .accepted)
    · exact .neither rfl (List.append_nil _) rfl id fun _ => .refl _
  | close => exact .neither rfl rfl rfl (by simp [step,EventQueue.close]) fun _ => .refl _
  | take =>
    cases hq : m.queue.queued with
    | nil =>
      have htake : m.queue.take = (m.queue,none) := by rw [EventQueue.take,hq]
      refine .neither ?_ rfl ?_ ?_ fun _ => .refl _ <;> simp [step,take,htake]
    | cons e rest =>
      have htake : m.queue.take = ({ m.queue with queued := rest },some e) := by rw [EventQueue.take,hq]
      refine .takes e ?_ rfl ?_ ?_ rfl <;> simp [step,take,htake,hq]
  | answer e => exact .neither (m.queue.queued_answer e) rfl rfl (by simp [step,answer]) fun _ => .refl _
  | collect uid =>
    have hlook : (m.queue.collect uid).1 = (m.queue.look uid).1 := by
      simp only [EventQueue.collect]
      split <;> simp_all
    refine .neither ?_ rfl rfl ?_ fun _ => .refl _ <;> simp [step,collect,hlook]
  | poll k =>
    simp only [step,poll]
    split
    · rename_i uid stage hk
      obtain ⟨hqueued,hopen⟩ := queued_wait m.queue uid k stage
      exact .neither hqueued rfl rfl (fun h => hopen ▸ h) fun _ => .refl _
    · exact .neither rfl rfl rfl id fun _ => .refl _
  | cancel k =>
    simp only [step,cancel]
    split <;> exact .neither rfl rfl rfl id fun _ => .refl _
  | _ => exact .neither rfl rfl rfl id fun _ => .refl _

theorem taken_append_queued (m : Mailroom) (h : m.taken ++ m.queue.queued = m.accepted) (acts : List Act) :
    (m.run acts).taken ++ (m.run acts).queue.queued = (m.run acts).accepted := by
  induction acts generalizing m with
  | nil => exact h
  | cons a acts ih =>
    refine ih (m.step a) ?_
    cases m.passes a with
    | neither hqueued haccepted htaken _ _ => rw [hqueued,haccepted,htaken,h]
    | accepts e hqueued haccepted htaken _ _ => rw [hqueued,haccepted,htaken,← h,List.append_assoc]
    | takes e hqueued haccepted htaken _ _ =>
      rw [htaken,haccepted,← h,hqueued,List.append_assoc]
      rfl

theorem exists_late (m : Mailroom) (hclosed : m.queue.isOpen = false) (acts : List Act) :
    (m.run acts).queue.isOpen = false ∧ ∃ late, (m.run acts).accepted = m.accepted ++ late ∧
      (late ++ (m.run acts).underway).Subperm m.underway := by
  induction acts generalizing m with
  | nil => exact ⟨hclosed,[],by simp,.refl _⟩
  | cons a acts ih =>
    cases m.passes a with
    | neither _ haccepted _ hopen hunderway =>
      obtain ⟨hend,late,hlate,hsub⟩ := ih (m.step a) (by
        by_contra hstep
        simp [hopen (by simpa using hstep)] at hclosed)
      exact ⟨hend,late,by rw [run_cons,hlate,haccepted],hsub.trans (hunderway hclosed)⟩
    | accepts e _ haccepted _ hopen hunderway =>
      obtain ⟨hend,late,hlate,hsub⟩ := ih (m.step a) (hopen.trans hclosed)
      refine ⟨hend,e :: late,by rw [run_cons,hlate,haccepted,List.append_assoc]; rfl,?_⟩
      exact ((List.subperm_cons e).mpr hsub).trans hunderway.subperm
    | takes e _ haccepted _ hopen hunderway =>
      obtain ⟨hend,late,hlate,hsub⟩ := ih (m.step a) (hopen.trans hclosed)
      exact ⟨hend,late,by rw [run_cons,hlate,haccepted],hunderway ▸ hsub⟩

/-- A call that is refused changes nothing but the call. -/
theorem queue_of_refused {a : Act} {k : Nat} {e : Event} {error : BatchError}
    (hbefore : m.calls[k]? ≠ some ⟨e,.refused error⟩)
    (hafter : (m.step a).calls[k]? = some ⟨e,.refused error⟩) : (m.step a).queue = m.queue := by
  have hset {j : Nat} {event : Event} {stage : CallStage} (hstage : stage ≠ .refused error)
      (h : (m.calls.set j ⟨event,stage⟩)[k]? = some ⟨e,.refused error⟩) : False := by
    rw [List.getElem?_set] at h
    split at h
    · split at h
      · simp [hstage] at h
      · cases h
    · exact hbefore h
  cases a with
  | call e => rfl
  | enter j =>
    simp only [step,enter,Senders.enter] at hafter ⊢
    split at hafter
    · split at hafter
      · simp_all [Senders.setCall]
      · exact (hset (by simp) hafter).elim
    · rfl
  | push j =>
    simp only [step,push,Senders.push] at hafter ⊢
    split at hafter
    · exact (hset (by simp) hafter).elim
    · rfl
  | poll j =>
    simp only [step,poll] at hafter
    split at hafter <;> exact absurd hafter hbefore
  | cancel j =>
    simp only [step,cancel] at hafter
    split at hafter <;> exact absurd hafter hbefore
  | _ => exact absurd hafter hbefore

/-! ### A whole run -/

def fate (m : Mailroom) (uid : Uid) : List SlotEntry := m.log.filter (·.uid == uid)

theorem Recorded.traces (h : m.Recorded) (uid : Uid) :
    SlotEntry.Traces none (m.fate uid) (m.queue.shows uid) :=
  h.records.traces uid

/-- Events are taken in the order in which they were accepted, and once the queue is closed no more are
than those accepted already and those of the calls that hold it. Between two sends of an identifier the
first answer counts, unless the event was given up before, and it is given to one reader; all others are
refused. The slots that are left are those of the sends, without those read or given up. -/
theorem delivered_of_run (acts : List Act) :
    let m := ({} : Mailroom).run acts
    m.taken ++ m.queue.queued = m.accepted ∧
    (∀ earlier later, acts = earlier ++ .close :: later → ∃ late,
      m.accepted = (({} : Mailroom).run earlier).accepted ++ late ∧
        late.Subperm (({} : Mailroom).run earlier).underway) ∧
    (∀ uid own rest, m.fate uid = own ++ rest → (∀ x ∈ own, x.isSent = false) →
      ∀ x ∈ own, x.isIdle = true) ∧
    (∀ uid before own rest, m.fate uid = before ++ .sent uid :: (own ++ rest) →
      (∀ x ∈ own, x.isSent = false) → SlotEntry.Epoch uid own) ∧
    m.queue.outstanding + m.log.countP SlotEntry.isGiven + m.log.countP SlotEntry.isForgotten = m.slotted ∧
    (∀ e, (m.queue.answer e).2 = false → (m.queue.answer e).1 = m.queue) ∧
    (∀ k, (m.step (.cancel k)).queue.slots = m.queue.slots ∧
      (m.step (.cancel k)).queue.queued = m.queue.queued ∧ (m.step (.cancel k)).log = m.log) ∧
    ∀ (a : Act) (k : Nat) (e : Event) (error : BatchError), m.calls[k]? ≠ some ⟨e,.refused error⟩ →
      (m.step a).calls[k]? = some ⟨e,.refused error⟩ → (m.step a).queue = m.queue := by
  intro m
  have h : m.Recorded := recorded_empty.run acts
  refine ⟨taken_append_queued {} rfl acts,?_,?_,?_,?_,?_,?_,fun a k e error => queue_of_refused⟩
  · intro earlier later hacts
    have hrun : m = ((({} : Mailroom).run earlier).step .close).run later := by
      simp only [m,hacts,run_append,run_cons]
    obtain ⟨-,late,hlate,hsub⟩ := exists_late ((({} : Mailroom).run earlier).step .close) rfl later
    rw [← hrun] at hlate hsub
    exact ⟨late,hlate,(List.sublist_append_left ..).subperm.trans hsub⟩
  · intro uid own rest hfate hsent
    have htraces := h.traces uid
    rw [hfate] at htraces
    obtain ⟨middle,hown,-⟩ := htraces.split
    exact hown.idle hsent
  · intro uid before own rest hfate hsent
    have htraces := h.traces uid
    rw [hfate] at htraces
    obtain ⟨first,-,hafter⟩ := htraces.split
    cases hafter with
    | cons hmove hrest =>
      cases hmove with
      | sent =>
        obtain ⟨middle,hown,-⟩ := hrest.split
        refine hown.epoch hsent fun x hx => ?_
        have hmem : x ∈ m.fate uid := by simp [hfate,hx]
        simpa using (List.mem_filter.mp hmem).2
  · rw [h.sent]
    simpa [EventQueue.outstanding] using h.records.outstanding
  · intro e hrefused
    by_cases hshows : m.queue.shows e.uid = some none
    · obtain ⟨bell,hs⟩ := EventQueue.exists_pending hshows
      simp [EventQueue.answer_of_pending hs] at hrefused
    · rw [EventQueue.answer_of_not_pending hshows]
  · intro k
    simp only [step,cancel]
    split <;> exact ⟨rfl,rfl,rfl⟩

def straggler : Event := ⟨.nil,.null⟩

/-- A call gets hold of the queue, and then the queue is closed. Nothing was accepted and nothing is left to
be taken; yet the call goes on, opens its slot under the closed queue, is told that its event is accepted,
and the event is taken. -/
theorem taken_of_closed :
    let closed := ({} : Mailroom).run [.call straggler,.close]
    let m := closed.run [.enter 0,.push 0]
    closed.queue.isOpen = false ∧ closed.accepted = [] ∧ closed.queue.queued = [] ∧
      m.queue.isOpen = false ∧ m.calls = [⟨straggler,.accepted⟩] ∧ m.queue.outstanding = 1 ∧
      m.accepted = [straggler] ∧ (m.step .take).taken = [straggler] :=
  ⟨rfl,rfl,rfl,rfl,rfl,rfl,rfl,rfl⟩

end Mailroom
end Tether
