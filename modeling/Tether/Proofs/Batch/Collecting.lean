import Tether.Proofs.Batch.Answers
import Tether.Proofs.Node.Launching

/-! A collecting loop between its steps. Events arrive, a timer may be found due, and the queue may end; why
each batch was flushed is kept as a record, and when each event arrived. The first event of a batch arms the
timer, and the program stops there if the clock cannot show when the timer is due. -/
namespace Tether

/-- Events that reach a limit, by their number or by the bytes of their bodies. -/
def BatchLimits.Reached (limits : BatchLimits) (events : List Event) : Prop :=
  limits.elements ≤ events.length ∨ limits.size ≤ (events.map (·.msg.size)).sum

theorem BatchLimits.reached_nil_iff {limits : BatchLimits} :
    limits.Reached [] ↔ limits.elements = 0 ∨ limits.size = 0 := by
  simp [Reached]

theorem BatchLimits.Reached.append {limits : BatchLimits} {events : List Event} (h : limits.Reached events)
    (more : List Event) : limits.Reached (events ++ more) := by
  rw [Reached,List.length_append,List.map_append,List.sum_append]
  exact h.imp Nat.le_add_right_of_le Nat.le_add_right_of_le

namespace BatchBuffer

variable {b : BatchBuffer}

theorem isEmpty_iff : b.isEmpty = true ↔ b.events = [] := by
  simp [isEmpty,events]

theorem events_add (b : BatchBuffer) (e : Event) : (b.add e).events = b.events ++ [e] := by
  simp [add,events]

/-- The buffer knows the bytes of the bodies. -/
def Weighed (b : BatchBuffer) : Prop := b.size = (b.events.map (·.msg.size)).sum

theorem Weighed.add (h : b.Weighed) (e : Event) : (b.add e).Weighed := by
  rw [Weighed,events_add,List.map_append,List.sum_append,← h]
  simp [BatchBuffer.add]

theorem Weighed.isFull_iff (h : b.Weighed) (limits : BatchLimits) :
    b.isFull limits = true ↔ limits.Reached b.events := by
  rw [BatchLimits.Reached,← h,isFull,Bool.or_eq_true,events,List.length_reverse]
  exact or_congr decide_eq_true_iff decide_eq_true_iff

end BatchBuffer

namespace Collector

/-- An event arrives: the reading at which its batch will be due is taken first, if it begins one. -/
def accept (limits : BatchLimits) (maxTime : Span) (now : Instant) (c : Collector) (e : Event) :
    Except Panic (Collector × Flush) := do
  if c.buffer.isEmpty then let _ ← now.add maxTime
  return c.receive ⟨limits,maxTime.nanos⟩ now.elapsed.nanos e

variable {limits : BatchLimits} {maxTime : Span} {now : Instant} {c : Collector} {e : Event}

/-- The timer that the event would arm is due when the clock cannot show it. -/
def Overruns (maxTime : Span) (now : Instant) (c : Collector) : Prop :=
  c.buffer.events = [] ∧ Instant.limit ≤ (now.elapsed.add maxTime).seconds

theorem accept_of_overruns (h : c.Overruns maxTime now) :
    c.accept limits maxTime now e = .error .instantOverflow := by
  rw [accept,if_pos (BatchBuffer.isEmpty_iff.mpr h.1),Instant.add_eq_error h.2]
  rfl

theorem accept_of_not_overruns (h : ¬c.Overruns maxTime now) : c.accept limits maxTime now e =
    .ok (c.receive ⟨limits,maxTime.nanos⟩ now.elapsed.nanos e) := by
  unfold accept
  by_cases hempty : c.buffer.isEmpty = true
  · have hlt : (now.elapsed.add maxTime).seconds < Instant.limit :=
      Nat.lt_of_not_le fun hle => h ⟨BatchBuffer.isEmpty_iff.mp hempty,hle⟩
    have hdue : now.add maxTime = .ok ⟨_,hlt⟩ := Instant.add_eq_ok_iff.mpr rfl
    rw [if_pos hempty,hdue]
    rfl
  · rw [if_neg hempty]
    rfl

/-- When the batch is due to which the next event belongs. -/
def dueFrom (settings : CollectorSettings) (now : Nat) (c : Collector) : Option Nat :=
  if c.buffer.isEmpty then some (now + settings.maxWait) else c.deadline

theorem receive_of_full {settings : CollectorSettings} {now : Nat}
    (h : (c.buffer.add e).isFull settings.limits = true) :
    c.receive settings now e = (⟨{},none⟩,some (c.buffer.events ++ [e])) := by
  simp only [receive,h,if_true,flush_eq,BatchBuffer.events_add]
  simp

theorem receive_of_room {settings : CollectorSettings} {now : Nat}
    (h : ¬(c.buffer.add e).isFull settings.limits = true) :
    c.receive settings now e = (⟨c.buffer.add e,c.dueFrom settings now⟩,none) := by
  simp only [receive,h,dueFrom]
  rfl

theorem flush_of_ne_nil (h : c.buffer.events ≠ []) : c.flush = (⟨{},none⟩,some c.buffer.events) := by
  rw [flush_eq,List.isEmpty_eq_false_iff.mpr h]
  rfl

theorem flush_of_nil (h : c.buffer.events = []) : c.flush = (⟨{},none⟩,none) := by
  rw [flush_eq,h]
  rfl

end Collector

inductive FlushReason
  | limit
  | due
  | closed
deriving DecidableEq, Repr

/-- A collector with a record of what has arrived, and when, and of what it has flushed. -/
structure Collecting where
  collector : Collector := {}
  arrivals : List (Instant × Event) := []
  batches : List (FlushReason × List Event) := []
  ended : Bool := false

namespace Collecting

inductive Act
  | receive (now : Instant) (event : Event)
  | tick (now : Instant)
  | close

variable (limits : BatchLimits) (maxTime : Span)

/-- Puts down what has become of the collector, and the batch that was flushed, if there is one. -/
def record (g : Collecting) (why : FlushReason) (r : Collector × Collector.Flush) : Collecting :=
  { g with collector := r.1, batches := g.batches ++ r.2.toList.map (why,·) }

def step (g : Collecting) : Act → Except Panic Collecting
  | .receive now e =>
    if g.ended then .ok g
    else do
      let r ← g.collector.accept limits maxTime now e
      return { g with arrivals := g.arrivals ++ [(now,e)] }.record .limit r
  | .tick now =>
    .ok (if !g.ended && g.collector.isDue now.elapsed.nanos then g.record .due g.collector.expire else g)
  | .close => .ok (if g.ended then g else { g.record .closed g.collector.finish with ended := true })

def run (g : Collecting) (acts : List Act) : Except Panic Collecting := acts.foldlM (step limits maxTime) g

def received : List Act → List (Instant × Event)
  | [] => []
  | .receive now e :: acts => (now,e) :: received acts
  | .tick _ :: acts => received acts
  | .close :: _ => []

def upcoming (g : Collecting) (acts : List Act) : List (Instant × Event) :=
  if g.ended then [] else received acts

/-- The program stops: the clock cannot show when the batch that the event begins will be due. -/
def Stops (g : Collecting) (a : Act) : Prop :=
  g.ended = false ∧ ∃ now e, a = .receive now e ∧ g.collector.Overruns maxTime now

def flushed (g : Collecting) : List Event := (g.batches.map (·.2)).flatten

def waiting (g : Collecting) : List (Instant × Event) := g.arrivals.drop g.flushed.length

structure Batched (why : FlushReason) (batch : List Event) : Prop where
  nonempty : batch ≠ []
  reached : why = .limit → limits.Reached batch
  /-- No event came to a batch that was full; but a limit of nothing is reached before there is any event. -/
  prompt : limits.Reached batch.dropLast → batch.dropLast = [] ∧ (limits.elements = 0 ∨ limits.size = 0)

/-- What holds of a loop between two of its steps. -/
structure Collected (g : Collecting) : Prop where
  weighed : g.collector.buffer.Weighed
  /-- The batches and then the buffer are the events as they arrived. -/
  ordered : g.flushed ++ g.collector.buffer.events = g.arrivals.map (·.2)
  /-- The timer is armed for the first event that waits, and only then. -/
  armed : g.collector.deadline = g.waiting.head?.map (·.1.elapsed.nanos + maxTime.nanos)
  /-- What waits has not reached a limit. -/
  room : g.collector.buffer.events ≠ [] → ¬limits.Reached g.collector.buffer.events
  batched : ∀ why batch, (why,batch) ∈ g.batches → Batched limits why batch
  drained : g.ended = true → g.collector.buffer.events = []

variable {limits maxTime} {g g' : Collecting} {now : Instant} {e : Event} {a : Act} {why : FlushReason}
  {batch : List Event}

@[simp] theorem record_none (g : Collecting) (why : FlushReason) (c : Collector) :
    g.record why (c,none) = { g with collector := c } := by
  simp [record]

theorem flushed_record_some (g : Collecting) (why : FlushReason) (c : Collector) (batch : List Event) :
    (g.record why (c,some batch)).flushed = g.flushed ++ batch := by
  simp [flushed,record]

theorem mem_batches_record_some {c : Collector} {r : FlushReason × List Event} :
    r ∈ (g.record why (c,some batch)).batches ↔ r ∈ g.batches ∨ r = (why,batch) := by
  simp [record]

theorem batched_of_room {events : List Event} (h : events ≠ [] → ¬limits.Reached events) :
    limits.Reached events → events = [] ∧ (limits.elements = 0 ∨ limits.size = 0) := by
  intro hreached
  have hnil : events = [] := Classical.byContradiction fun hne => h hne hreached
  exact ⟨hnil,BatchLimits.reached_nil_iff.mp (hnil ▸ hreached)⟩

namespace Collected

theorem waiting_eq (h : g.Collected limits maxTime) :
    g.waiting.map (·.2) = g.collector.buffer.events := by
  rw [waiting,List.map_drop,← h.ordered,List.drop_left]

theorem waiting_eq_nil_iff (h : g.Collected limits maxTime) :
    g.waiting = [] ↔ g.collector.buffer.events = [] := by
  rw [← h.waiting_eq,List.map_eq_nil_iff]

theorem initial : Collected limits maxTime {} where
  weighed := rfl
  ordered := rfl
  armed := rfl
  room := fun h => absurd rfl h
  batched := fun _ _ h => by cases h
  drained := fun h => by cases h

theorem emptied (hbatched : ∀ why batch, (why,batch) ∈ g.batches → Batched limits why batch)
    (hbatch : Batched limits why batch) (hordered : g.flushed ++ batch = g.arrivals.map (·.2)) :
    (g.record why ({},some batch)).Collected limits maxTime := by
  have hflushed : (g.record why ({},some batch)).flushed = g.arrivals.map (·.2) := by
    rw [flushed_record_some,hordered]
  have hwaiting : (g.record why ({},some batch)).waiting = [] := by
    rw [waiting,hflushed,List.length_map]
    exact List.drop_length
  refine ⟨rfl,?_,?_,fun h => absurd rfl h,fun why' batch' hmem => ?_,fun _ => rfl⟩
  · rw [hflushed]
    exact List.append_nil _
  · rw [hwaiting]
    rfl
  · rcases mem_batches_record_some.mp hmem with hmem | hmem
    · exact hbatched why' batch' hmem
    · cases hmem
      exact hbatch

theorem flush (h : g.Collected limits maxTime) (hwhy : why ≠ .limit) :
    (g.record why g.collector.flush).Collected limits maxTime := by
  by_cases hnil : g.collector.buffer.events = []
  · rw [Collector.flush_of_nil hnil,record_none]
    refine ⟨rfl,?_,?_,fun hne => absurd rfl hne,h.batched,fun _ => rfl⟩
    · rw [← h.ordered,hnil]
      rfl
    · change none = g.waiting.head?.map _
      rw [h.waiting_eq_nil_iff.mpr hnil]
      rfl
  · rw [Collector.flush_of_ne_nil hnil]
    refine emptied h.batched ⟨hnil,fun hlimit => absurd hlimit hwhy,fun hreached => ?_⟩ h.ordered
    have hall := hreached.append [g.collector.buffer.events.getLast hnil]
    rw [List.dropLast_append_getLast hnil] at hall
    exact absurd hall (h.room hnil)

theorem fill (h : g.Collected limits maxTime) (now : Instant)
    (hfull : limits.Reached (g.collector.buffer.events ++ [e])) :
    ({ g with arrivals := g.arrivals ++ [(now,e)] }.record .limit
      ({},some (g.collector.buffer.events ++ [e]))).Collected limits maxTime := by
  refine emptied h.batched ⟨by simp,fun _ => hfull,?_⟩ ?_
  · rw [List.dropLast_concat]
    exact batched_of_room h.room
  · rw [List.map_append,← h.ordered,List.append_assoc]
    rfl

/-- An event arrives that leaves room in its batch. -/
theorem put (h : g.Collected limits maxTime) (hended : g.ended = false) (now : Instant)
    (hroom : ¬limits.Reached (g.collector.buffer.events ++ [e])) :
    Collected limits maxTime { g with
      arrivals := g.arrivals ++ [(now,e)]
      collector := ⟨g.collector.buffer.add e,
        g.collector.dueFrom ⟨limits,maxTime.nanos⟩ now.elapsed.nanos⟩ } := by
  have hle : g.flushed.length ≤ g.arrivals.length := by
    rw [← g.arrivals.length_map (·.2),← h.ordered,List.length_append]
    exact Nat.le_add_right _ _
  refine ⟨h.weighed.add e,?_,?_,fun _ => ?_,h.batched,fun hends => ?_⟩
  · rw [List.map_append,← h.ordered,BatchBuffer.events_add,List.append_assoc]
    rfl
  · change g.collector.dueFrom _ _ = ((g.arrivals ++ [(now,e)]).drop g.flushed.length).head?.map _
    rw [List.drop_append_of_le_length hle]
    change _ = (g.waiting ++ [(now,e)]).head?.map _
    by_cases hnil : g.collector.buffer.events = []
    · rw [h.waiting_eq_nil_iff.mpr hnil,Collector.dueFrom,if_pos (BatchBuffer.isEmpty_iff.mpr hnil)]
      rfl
    · rw [Collector.dueFrom,if_neg (mt BatchBuffer.isEmpty_iff.mp hnil),h.armed,
        List.head?_append_of_ne_nil _ (mt h.waiting_eq_nil_iff.mp hnil)]
  · rw [BatchBuffer.events_add]
    exact hroom
  · rw [hended] at hends
    cases hends

theorem receive (h : g.Collected limits maxTime) (hended : g.ended = false) (now : Instant) (e : Event) :
    ({ g with arrivals := g.arrivals ++ [(now,e)] }.record .limit
      (g.collector.receive ⟨limits,maxTime.nanos⟩ now.elapsed.nanos e)).Collected limits maxTime := by
  have hiff := (h.weighed.add e).isFull_iff limits
  rw [BatchBuffer.events_add] at hiff
  by_cases hfull : (g.collector.buffer.add e).isFull limits = true
  · rw [Collector.receive_of_full hfull]
    exact h.fill now (hiff.mp hfull)
  · rw [Collector.receive_of_room hfull,record_none]
    exact h.put hended now (mt hiff.mpr hfull)

theorem close (h : g.Collected limits maxTime) :
    { g.record .closed g.collector.finish with ended := true }.Collected limits maxTime := by
  have hflush : (g.record .closed g.collector.flush).Collected limits maxTime := h.flush (by decide)
  exact ⟨hflush.weighed,hflush.ordered,hflush.armed,hflush.room,hflush.batched,fun _ => rfl⟩

end Collected

/-- A step leaves the loop as it should be, or the program stops there. -/
theorem Collected.step (h : g.Collected limits maxTime) (a : Act) :
    (g.Stops maxTime a ∧ g.step limits maxTime a = .error .instantOverflow) ∨
    ∃ g', g.step limits maxTime a = .ok g' ∧ g'.Collected limits maxTime ∧
      ∀ acts, g'.arrivals ++ g'.upcoming acts = g.arrivals ++ g.upcoming (a :: acts) := by
  cases hended : g.ended with
  | true =>
    have hsame : g.step limits maxTime a = .ok g := by cases a <;> simp [Collecting.step,hended]
    exact .inr ⟨g,hsame,h,fun acts => by simp [upcoming,hended]⟩
  | false =>
    cases a with
    | receive now e =>
      by_cases hover : g.collector.Overruns maxTime now
      · refine .inl ⟨⟨hended,now,e,rfl,hover⟩,?_⟩
        simp [Collecting.step,hended,Collector.accept_of_overruns hover,bind,Except.bind]
      · refine .inr ⟨_,?_,h.receive hended now e,fun acts => ?_⟩
        · simp [Collecting.step,hended,Collector.accept_of_not_overruns hover,bind,Except.bind,pure,Except.pure]
        · simp [upcoming,record,hended,received]
    | tick now =>
      refine .inr ⟨_,rfl,?_,fun acts => ?_⟩
      · split
        · exact h.flush (by decide)
        · exact h
      · split <;> simp [upcoming,record,hended,received]
    | close =>
      refine .inr ⟨_,by rw [Collecting.step,hended]; rfl,h.close,fun acts => ?_⟩
      simp [upcoming,record,hended,received]

theorem run_cons_of_ok (h : g.step limits maxTime a = .ok g') (acts : List Act) :
    g.run limits maxTime (a :: acts) = g'.run limits maxTime acts := by
  rw [run,List.foldlM_cons,h]
  rfl

theorem run_cons_of_error {panic : Panic} (h : g.step limits maxTime a = .error panic) (acts : List Act) :
    g.run limits maxTime (a :: acts) = .error panic := by
  rw [run,List.foldlM_cons,h]
  rfl

theorem Collected.run (h : g.Collected limits maxTime) (acts : List Act) :
    (∃ g', g.run limits maxTime acts = .ok g' ∧ g'.Collected limits maxTime ∧
      g'.arrivals = g.arrivals ++ g.upcoming acts) ∨
    ∃ before a after g', acts = before ++ a :: after ∧ g.run limits maxTime before = .ok g' ∧
      g'.Stops maxTime a ∧ g.run limits maxTime acts = .error .instantOverflow := by
  induction acts generalizing g with
  | nil => exact .inl ⟨g,rfl,h,by cases hended : g.ended <;> simp [upcoming,hended,received]⟩
  | cons a acts ih =>
    rcases h.step a with ⟨hstops,herror⟩ | ⟨g',hok,hg',harrivals⟩
    · exact .inr ⟨[],a,acts,g,rfl,rfl,hstops,run_cons_of_error herror acts⟩
    · rcases ih hg' with ⟨g'',hrun,hg'',hall⟩ | ⟨before,b,after,g'',rfl,hbefore,hstops,herror⟩
      · exact .inl ⟨g'',(run_cons_of_ok hok acts).trans hrun,hg'',hall.trans (harrivals acts)⟩
      · exact .inr ⟨a :: before,b,after,g'',rfl,(run_cons_of_ok hok before).trans hbefore,hstops,
          (run_cons_of_ok hok _).trans herror⟩

theorem Collected.deadline_eq_none_iff (h : g.Collected limits maxTime) :
    g.collector.deadline = none ↔ g.collector.buffer.events = [] := by
  rw [h.armed,Option.map_eq_none_iff,List.head?_eq_none_iff,h.waiting_eq_nil_iff]

/-- Whatever arrives, whenever the timer is found due and the queue ends, and with whatever limits: the timer
is armed just while something waits, for the first event of it; the batches and what waits are the events as
they were received; and a batch that was flushed for its limits has reached one, which none had before its
last event came, unless a limit is nothing. The loop stops only where the clock cannot show when a batch is
due. -/
theorem collected_of_run (limits : BatchLimits) (maxTime : Span) (acts : List Act) :
    (∃ g, run limits maxTime {} acts = .ok g ∧ g.Collected limits maxTime ∧ g.arrivals = received acts ∧
      g.waiting.map (·.2) = g.collector.buffer.events ∧
      (g.collector.deadline = none ↔ g.collector.buffer.events = [])) ∨
    ∃ before a after g, acts = before ++ a :: after ∧ run limits maxTime {} before = .ok g ∧
      g.Stops maxTime a ∧ run limits maxTime {} acts = .error .instantOverflow := by
  refine (Collected.initial.run acts).imp_left fun ⟨g,hrun,hg,harrivals⟩ => ?_
  exact ⟨g,hrun,hg,harrivals,hg.waiting_eq,hg.deadline_eq_none_iff⟩

/-- With a limit of no events a batch has reached it before its only event comes. -/
theorem reached_early_of_run :
    let limits : BatchLimits := ⟨0,30000⟩
    let e : Event := ⟨.nil,.null⟩
    ∃ g, run limits (.ofMillis 5000) {} [.receive .zero e] = .ok g ∧ g.batches = [(.limit,[e])] ∧
      limits.Reached [e].dropLast := by
  intro limits e
  exact ⟨_,rfl,rfl,.inl (Nat.le_refl 0)⟩

end Collecting
end Tether
