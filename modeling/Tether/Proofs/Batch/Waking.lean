import Mathlib.Data.List.Induction
import Tether.Proofs.Batch.Bells

/-! Who wakes a waiter. Between its look at a slot and its registration the slot may be answered, read and
opened again for the same identifier, and then the waiter registers at a bell that has rung already. All
others sleep only as long as the slot they wait for shows their own bell. -/
namespace Tether

namespace Vigil

open Mailroom (Act)

variable {v v' : Vigil}

/-! ### The waiters -/

/-- One step of a waiter, as far as bells are concerned. -/
inductive Progress (q : EventQueue) (uid : Uid) (k : Nat) : WaitStage → EventQueue → WaitStage → Prop
  | sees {b : Nat} (hb : q.bell? uid = some b) : Progress q uid k .looking q (.enabling b)
  | finds {q' : EventQueue} (answer : Option Json) (hreg : q'.registered = q.registered) :
      Progress q uid k .looking q' (.finished answer)
  | registers (b : Nat) : Progress q uid k (.enabling b) (q.register k b) .checking
  | parks {b : Nat} (hb : q.bell? uid = some b) : Progress q uid k .checking q .parked
  | leaves {q' : EventQueue} (answer : Option Json)
      (hreg : q'.registered = q.registered.filter fun r => r.1 != k) :
      Progress q uid k .checking q' (.finished answer)
  | sleeps (h : q.isRegistered k = true) : Progress q uid k .parked q .parked
  | wakes (h : q.isRegistered k = false) : Progress q uid k .parked q .looking
  | stays (answer : Option Json) : Progress q uid k (.finished answer) q (.finished answer)

theorem progress (q : EventQueue) (uid : Uid) (k : Nat) (stage : WaitStage) :
    Progress q uid k stage (stage.step uid k q).1 (stage.step uid k q).2 := by
  cases stage with
  | looking =>
    simp only [WaitStage.step,EventQueue.look]
    rcases hs : q.slot? uid with _ | bell | answer
    · exact .finds none rfl
    · exact .sees (EventQueue.bell?_eq_some_iff.mpr hs)
    · exact .finds (some answer) rfl
  | enabling b => exact .registers b
  | checking =>
    simp only [WaitStage.step,EventQueue.look]
    rcases hs : q.slot? uid with _ | bell | answer
    · exact .leaves none rfl
    · exact .parks (EventQueue.bell?_eq_some_iff.mpr hs)
    · exact .leaves (some answer) rfl
  | parked =>
    simp only [WaitStage.step]
    split
    · rename_i h
      exact .sleeps h
    · rename_i h
      exact .wakes (by simpa using h)
  | finished answer => exact .stays answer

/-- What an act does to the waiters: nothing, but that some may hear their bell, or one of them comes,
moves or is cancelled. -/
inductive Shift (v v' : Vigil) : Act → Prop
  | rests {a : Act} (hwaiters : v'.room.waiters = v.room.waiters)
      (hreg : ∀ r ∈ v'.room.queue.registered, r ∈ v.room.queue.registered)
      (hkept : ∀ k b, (k,b) ∈ v.room.queue.registered → ¬ v.Sounds b →
        (k,b) ∈ v'.room.queue.registered) : Shift v v' a
  | comes (uid : Uid) (hwaiters : v'.room.waiters = v.room.waiters ++ [(uid,some .looking)])
      (hqueue : v'.room.queue = v.room.queue) : Shift v v' (.wait uid)
  | moves {k : Nat} {uid : Uid} {stage next : WaitStage} {q' : EventQueue}
      (hk : v.room.waiters[k]? = some (uid,some stage))
      (hp : Progress v.room.queue uid k stage q' next) (hqueue : v'.room.queue = q')
      (hwaiters : v'.room.waiters = v.room.waiters.set k (uid,some next)) : Shift v v' (.poll k)
  | cancels {k : Nat} {uid : Uid} (hk : v.room.waiters[k]? = some (uid,some .parked))
      (hqueue : v'.room.queue = v.room.queue.unregister k)
      (hwaiters : v'.room.waiters = v.room.waiters.set k (uid,none)) : Shift v v' (.cancel k)

theorem shift_of_same {a : Act} (hwaiters : v'.room.waiters = v.room.waiters)
    (hreg : v'.room.queue.registered = v.room.queue.registered) : v.Shift v' a :=
  .rests hwaiters (fun _ hr => hreg ▸ hr) fun _ _ hr _ => hreg ▸ hr

theorem shift (v : Vigil) (a : Act) : v.Shift (v.step a) a := by
  cases a with
  | poll k =>
    simp only [step,Mailroom.step,Mailroom.poll]
    split
    · rename_i uid stage hk
      exact .moves hk (progress ..) rfl rfl
    · exact shift_of_same rfl rfl
  | cancel k =>
    simp only [step,Mailroom.step,Mailroom.cancel]
    split
    · rename_i uid hk
      exact .cancels hk rfl rfl
    · exact shift_of_same rfl rfl
  | wait uid => exact .comes uid rfl rfl
  | answer e =>
    have hmem := v.room.queue.mem_registered_answer e
    refine .rests rfl (fun r hr => ((hmem r).mp hr).1) fun k b hr hs => (hmem _).mpr ⟨hr,fun hb => ?_⟩
    exact hs (.inr ⟨e.uid,hb⟩)
  | ring b =>
    simp only [step,Mailroom.step]
    split
    · rename_i hb
      refine .rests rfl (fun r hr => (List.mem_filter.mp hr).1) fun k b' hr hs => ?_
      refine List.mem_filter.mpr ⟨hr,?_⟩
      have hne : b' ≠ b := fun he => hs (.inl (he ▸ hb))
      simpa using hne
    · exact shift_of_same rfl rfl
  | enter k =>
    simp only [step,Mailroom.step,Mailroom.enter,Senders.enter]
    (repeat' split) <;> exact shift_of_same rfl rfl
  | push k =>
    simp only [step,Mailroom.step,Mailroom.push,Senders.push]
    split <;> exact shift_of_same rfl rfl
  | take =>
    simp only [step,Mailroom.step,Mailroom.take,EventQueue.take]
    split <;> exact shift_of_same rfl rfl
  | collect uid =>
    refine shift_of_same rfl ?_
    simp [step,Mailroom.step,Mailroom.collect,EventQueue.collect_fst]
  | call _ | close | drop _ => exact shift_of_same rfl rfl

theorem isRegistered_of_mem {q : EventQueue} {k b : Nat} (h : (k,b) ∈ q.registered) :
    q.isRegistered k = true :=
  List.any_eq_true.mpr ⟨_,h,beq_self_eq_true k⟩

/-- Who has seen a bell has seen that of a send of its identifier, and only who has registered, and has
not woken since, is registered. -/
structure Posted (v : Vigil) : Prop where
  seen : ∀ (k : Nat) (uid : Uid) (b : Nat),
    v.room.waiters[k]? = some (uid,some (.enabling b)) → v.sends[b]? = some uid
  registered : ∀ (k b : Nat), (k,b) ∈ v.room.queue.registered → ∃ uid stage,
    v.room.waiters[k]? = some (uid,some stage) ∧ (stage = .checking ∨ stage = .parked) ∧
      v.sends[b]? = some uid

theorem posted_empty : ({} : Vigil).Posted := ⟨by simp,by simp⟩

theorem Posted.of_mem (h : v.Posted) {k b : Nat} {uid : Uid} {stage : WaitStage}
    (hk : v.room.waiters[k]? = some (uid,some stage)) (hmem : (k,b) ∈ v.room.queue.registered) :
    (stage = .checking ∨ stage = .parked) ∧ v.sends[b]? = some uid := by
  obtain ⟨uid',stage',hk',hstage,hsent⟩ := h.registered k b hmem
  obtain ⟨rfl,rfl⟩ : uid' = uid ∧ stage' = stage := by simpa [hk] using hk'.symm
  exact ⟨hstage,hsent⟩

/-- One waiter moves. -/
theorem Posted.move (h : v.Posted) (ht : v.Turn v') {k : Nat} {uid : Uid} {stage : WaitStage}
    {next : Option WaitStage} (hk : v.room.waiters[k]? = some (uid,some stage))
    (hwaiters : v'.room.waiters = v.room.waiters.set k (uid,next))
    (hothers : ∀ j b, j ≠ k → (j,b) ∈ v'.room.queue.registered → (j,b) ∈ v.room.queue.registered)
    (hself : ∀ b, (k,b) ∈ v'.room.queue.registered →
      (next = some .checking ∨ next = some .parked) ∧ v.sends[b]? = some uid)
    (hseen : ∀ b, next = some (.enabling b) → v.sends[b]? = some uid) : v'.Posted := by
  have hlt := (List.getElem?_eq_some_iff.mp hk).1
  refine ⟨fun j u b hj => ?_,fun j b hmem => ?_⟩
  · rw [hwaiters,List.getElem?_set] at hj
    split at hj
    · obtain ⟨rfl,hnext⟩ : uid = u ∧ next = some (.enabling b) := by simpa [hlt] using hj
      exact ht.sends_getElem? (hseen b hnext)
    · exact ht.sends_getElem? (h.seen j u b hj)
  · by_cases hj : j = k
    · subst hj
      obtain ⟨hnext,hsent⟩ := hself b hmem
      have hset : v'.room.waiters[j]? = some (uid,next) := by
        rw [hwaiters,List.getElem?_set_self hlt]
      rcases hnext with rfl | rfl
      · exact ⟨uid,_,hset,.inl rfl,ht.sends_getElem? hsent⟩
      · exact ⟨uid,_,hset,.inr rfl,ht.sends_getElem? hsent⟩
    · obtain ⟨u,stage,hu,hstage,hsent⟩ := h.registered j b (hothers j b hj hmem)
      refine ⟨u,stage,?_,hstage,ht.sends_getElem? hsent⟩
      rwa [hwaiters,List.getElem?_set_ne (Ne.symm hj)]

theorem Progress.mem_registered {q q' : EventQueue} {uid : Uid} {k : Nat} {stage next : WaitStage}
    (hp : Progress q uid k stage q' next) {j b : Nat} (hmem : (j,b) ∈ q'.registered) :
    (j,b) ∈ q.registered ∨ j = k ∧ stage = .enabling b := by
  cases hp with
  | finds answer hreg => exact .inl (hreg ▸ hmem)
  | registers b' => simpa [EventQueue.register,or_comm,eq_comm] using hmem
  | leaves answer hreg => exact .inl (List.mem_filter.mp (hreg ▸ hmem)).1
  | sees _ | parks _ | sleeps _ | wakes _ | stays _ => exact .inl hmem

theorem Posted.progress (h : v.Posted) (hnum : v.Numbered) (ht : v.Turn v') {k : Nat} {uid : Uid}
    {stage next : WaitStage} {q' : EventQueue} (hk : v.room.waiters[k]? = some (uid,some stage))
    (hp : Progress v.room.queue uid k stage q' next) (hqueue : v'.room.queue = q')
    (hwaiters : v'.room.waiters = v.room.waiters.set k (uid,some next)) : v'.Posted := by
  refine h.move ht hk hwaiters (fun j b hj hmem => ?_) (fun b hmem => ?_) fun b hnext => ?_
  · rw [hqueue] at hmem
    exact (hp.mem_registered hmem).resolve_right fun hself => hj hself.1
  · rw [hqueue] at hmem
    cases hp with
    | sees _ => simpa using (h.of_mem hk hmem).1
    | finds answer hreg => simpa using (h.of_mem hk (hreg ▸ hmem)).1
    | registers b' =>
      rcases List.mem_cons.mp hmem with heq | hmem
      · obtain rfl := (Prod.mk.inj heq).2
        exact ⟨.inl rfl,h.seen k uid b hk⟩
      · simpa using (h.of_mem hk hmem).1
    | parks _ => exact ⟨.inr rfl,(h.of_mem hk hmem).2⟩
    | leaves answer hreg => simp [hreg] at hmem
    | sleeps _ => exact ⟨.inr rfl,(h.of_mem hk hmem).2⟩
    | wakes hno => simp [isRegistered_of_mem hmem] at hno
    | stays _ => simpa using (h.of_mem hk hmem).1
  · cases hp with
    | sees hb =>
      cases hnext
      exact hnum.shown hb
    | finds _ _ | registers _ | parks _ | leaves _ _ | sleeps _ | wakes _ | stays _ => cases hnext

theorem Posted.step (h : v.Posted) (hnum : v.Numbered) (a : Act) : (v.step a).Posted := by
  have ht := v.turn a
  cases v.shift a with
  | rests hwaiters hreg _ =>
    refine ⟨fun k uid b hk => ht.sends_getElem? (h.seen k uid b (hwaiters ▸ hk)),fun k b hmem => ?_⟩
    obtain ⟨uid,stage,hk,hstage,hsent⟩ := h.registered k b (hreg _ hmem)
    exact ⟨uid,stage,hwaiters ▸ hk,hstage,ht.sends_getElem? hsent⟩
  | comes uid hwaiters hqueue =>
    refine ⟨fun k u b hk => ?_,fun k b hmem => ?_⟩
    · rw [hwaiters,List.getElem?_append] at hk
      split at hk
      · exact ht.sends_getElem? (h.seen k u b hk)
      · have hnew := List.mem_of_getElem? hk
        simp at hnew
    · obtain ⟨u,stage,hk,hstage,hsent⟩ := h.registered k b (hqueue ▸ hmem)
      refine ⟨u,stage,?_,hstage,ht.sends_getElem? hsent⟩
      rw [hwaiters,List.getElem?_append_left (List.getElem?_eq_some_iff.mp hk).1,hk]
  | moves hk hp hqueue hwaiters => exact h.progress hnum ht hk hp hqueue hwaiters
  | cancels hk hqueue hwaiters =>
    refine h.move ht hk hwaiters (fun j b _ hmem => ?_) (fun b hmem => ?_) (by simp)
    · exact (List.mem_filter.mp (hqueue ▸ hmem)).1
    · simp [hqueue,EventQueue.unregister] at hmem

/-! ### Sleeping -/

/-- A waiter that sleeps at a silent bell sleeps on, unless it is cancelled. -/
theorem Sleeps.step {k : Nat} {uid : Uid} {b : Nat} (h : v.Sleeps k uid b) (hs : ¬ v.Sounds b) {a : Act}
    (ha : a ≠ .cancel k) : (v.step a).Sleeps k uid b := by
  obtain ⟨hk,hmem⟩ := h
  have hlt := (List.getElem?_eq_some_iff.mp hk).1
  cases v.shift a with
  | rests hwaiters _ hkept => exact ⟨hwaiters ▸ hk,hkept k b hmem hs⟩
  | comes u hwaiters hqueue =>
    exact ⟨by rw [hwaiters,List.getElem?_append_left hlt,hk],hqueue ▸ hmem⟩
  | @moves j u stage next q' hj hp hqueue hwaiters =>
    by_cases hjk : j = k
    · subst hjk
      obtain ⟨rfl,rfl⟩ : u = uid ∧ stage = .parked := by simpa [hk] using hj.symm
      cases hp with
      | sleeps _ => exact ⟨by rw [hwaiters,List.getElem?_set_self hlt],hqueue ▸ hmem⟩
      | wakes hno => simp [isRegistered_of_mem hmem] at hno
    · refine ⟨by rw [hwaiters,List.getElem?_set_ne hjk,hk],?_⟩
      rw [hqueue]
      cases hp with
      | finds answer hreg => exact hreg ▸ hmem
      | registers b' => exact List.mem_cons_of_mem _ hmem
      | leaves answer hreg => simpa [hreg,hmem] using Ne.symm hjk
      | sees _ | parks _ | sleeps _ | wakes _ | stays _ => exact hmem
  | @cancels j u hj hqueue hwaiters =>
    have hjk : j ≠ k := fun he => ha (he ▸ rfl)
    refine ⟨by rw [hwaiters,List.getElem?_set_ne hjk,hk],?_⟩
    simpa [hqueue,EventQueue.unregister,hmem] using Ne.symm hjk

/-- A waiter that sleeps has slept before, or it has just found its slot pending. -/
theorem sleeps_of_step {a : Act} {k : Nat} {uid : Uid} {b : Nat} (h : (v.step a).Sleeps k uid b) :
    v.Sleeps k uid b ∨ v.room.waiters[k]? = some (uid,some .checking) ∧
      (k,b) ∈ v.room.queue.registered ∧ ∃ b', v.room.queue.bell? uid = some b' := by
  obtain ⟨hk,hmem⟩ := h
  cases v.shift a with
  | rests hwaiters hreg _ => exact .inl ⟨hwaiters ▸ hk,hreg _ hmem⟩
  | comes u hwaiters hqueue =>
    rw [hwaiters,List.getElem?_append] at hk
    split at hk
    · exact .inl ⟨hk,hqueue ▸ hmem⟩
    · have hnew := List.mem_of_getElem? hk
      simp at hnew
  | @moves j u stage next q' hj hp hqueue hwaiters =>
    have hlt := (List.getElem?_eq_some_iff.mp hj).1
    rw [hqueue] at hmem
    rw [hwaiters,List.getElem?_set] at hk
    split at hk
    · rename_i hjk
      subst hjk
      obtain ⟨rfl,rfl⟩ : u = uid ∧ next = .parked := by simpa [hlt] using hk
      cases hp with
      | parks hb => exact .inr ⟨hj,hmem,_,hb⟩
      | sleeps _ => exact .inl ⟨hj,hmem⟩
    · rename_i hjk
      refine .inl ⟨hk,(hp.mem_registered hmem).resolve_right fun hself => hjk hself.1.symm⟩
  | cancels _ hqueue hwaiters =>
    rw [hwaiters,List.getElem?_set] at hk
    split at hk
    · simp at hk
    · rw [hqueue] at hmem
      exact .inl ⟨hk,(List.mem_filter.mp hmem).1⟩

theorem registered_of_step {a : Act} {k b : Nat} (hmem : (k,b) ∈ (v.step a).room.queue.registered) :
    (k,b) ∈ v.room.queue.registered ∨
      a = .poll k ∧ ∃ uid, v.room.waiters[k]? = some (uid,some (.enabling b)) := by
  cases v.shift a with
  | rests _ hreg _ => exact .inl (hreg _ hmem)
  | comes _ _ hqueue => exact .inl (hqueue ▸ hmem)
  | moves hk hp hqueue _ =>
    rw [hqueue] at hmem
    refine (hp.mem_registered hmem).imp id ?_
    rintro ⟨rfl,rfl⟩
    exact ⟨rfl,_,hk⟩
  | cancels _ hqueue _ =>
    rw [hqueue] at hmem
    exact .inl (List.mem_filter.mp hmem).1

theorem mem_missed_iff {k j b : Nat} : (j,b) ∈ v.missed k ↔ j = k ∧ ∃ uid,
    v.room.waiters[k]? = some (uid,some (.enabling b)) ∧
      v.room.queue.bell? uid ≠ some b ∧ b ∉ v.owed := by
  unfold missed
  split
  · rename_i uid b' hk
    split
    · rename_i hsounds
      simp only [List.not_mem_nil,hk,false_iff]
      rintro ⟨-,u,hu,hbell,howed⟩
      cases hu
      exact hsounds.elim hbell howed
    · rename_i hsounds
      simp only [List.mem_singleton,Prod.mk.injEq,hk]
      constructor
      · rintro ⟨rfl,rfl⟩
        exact ⟨rfl,uid,rfl,fun hb => hsounds (.inl hb),fun hb => hsounds (.inr hb)⟩
      · rintro ⟨rfl,u,hu,-⟩
        cases hu
        exact ⟨rfl,rfl⟩
  · rename_i hno
    simp only [List.not_mem_nil,false_iff]
    rintro ⟨-,u,hu,-⟩
    exact hno u b hu

theorem mem_late_step_iff {a : Act} {k b : Nat} :
    (k,b) ∈ (v.step a).late ↔ (a = .poll k ∧ (k,b) ∈ v.missed k) ∨ (k,b) ∈ v.late := by
  cases a with
  | poll j =>
    simp only [step,List.mem_append,Act.poll.injEq]
    refine or_congr ⟨fun h => ?_,?_⟩ Iff.rfl
    · obtain ⟨rfl,-⟩ := mem_missed_iff.mp h
      exact ⟨rfl,h⟩
    · rintro ⟨rfl,h⟩
      exact h
  | ring b =>
    simp only [step]
    split <;> simp
  | _ => simp [step]

/-- Who has registered in time is registered at a bell that can still ring; a bell at which somebody came
too late is silent, and who sleeps there has found its slot opened anew. -/
structure Attended (v : Vigil) : Prop where
  numbered : v.Numbered
  posted : v.Posted
  awake : ∀ k b, (k,b) ∈ v.room.queue.registered → (k,b) ∉ v.late → v.Sounds b
  silent : ∀ k b, (k,b) ∈ v.late → b < v.sends.length ∧ ¬ v.Sounds b
  again : ∀ k uid b, v.Sleeps k uid b → (k,b) ∈ v.late → ∃ b', b < b' ∧ v.sends[b']? = some uid

theorem attended_empty : ({} : Vigil).Attended :=
  ⟨numbered_empty,posted_empty,by simp,by simp,by simp⟩

theorem Attended.silent_of_missed (h : v.Attended) {k b : Nat} (hm : (k,b) ∈ v.missed k) :
    b < v.sends.length ∧ ¬ v.Sounds b := by
  obtain ⟨-,uid,hk,hbell,howed⟩ := mem_missed_iff.mp hm
  have hsent := h.posted.seen k uid b hk
  refine ⟨(List.getElem?_eq_some_iff.mp hsent).1,?_⟩
  rintro (hmem | ⟨u,hu⟩)
  · exact howed hmem
  · obtain rfl := Option.some.inj ((h.numbered.shown hu).symm.trans hsent)
    exact hbell hu

theorem Attended.step (h : v.Attended) (a : Act) : (v.step a).Attended := by
  have ht := v.turn a
  have hgrows := ht.sends_prefix.length_le
  have hsilent : ∀ k b, (k,b) ∈ (v.step a).late → b < v.sends.length ∧ ¬ v.Sounds b := by
    intro k b hlate
    rcases mem_late_step_iff.mp hlate with ⟨-,hm⟩ | hlate
    · exact h.silent_of_missed hm
    · exact h.silent k b hlate
  refine ⟨h.numbered.turn ht,h.posted.step h.numbered a,fun k b hmem hlate => ?_,fun k b hlate => ?_,
    fun k uid b hsleeps hlate => ?_⟩
  · by_contra hs
    by_cases hbefore : v.Sounds b
    · exact ht.not_registered hbefore hs k hmem
    · rcases registered_of_step hmem with hmem | ⟨rfl,uid,hk⟩
      · exact hbefore (h.awake k b hmem fun hl => hlate (mem_late_step_iff.mpr (.inr hl)))
      · refine hlate (mem_late_step_iff.mpr (.inl ⟨rfl,mem_missed_iff.mpr ⟨rfl,uid,hk,?_,?_⟩⟩))
        · exact fun hb => hbefore (.inr ⟨uid,hb⟩)
        · exact fun hb => hbefore (.inl hb)
  · obtain ⟨hlt,hs⟩ := hsilent k b hlate
    exact ⟨Nat.lt_of_lt_of_le hlt hgrows,ht.not_sounds h.numbered hlt hs⟩
  · obtain ⟨hlt,hs⟩ := hsilent k b hlate
    rcases sleeps_of_step hsleeps with hslept | ⟨hk,hmem,b',hb'⟩
    · have hold : (k,b) ∈ v.late := by
        by_contra hnot
        exact hs (h.awake k b hslept.registered hnot)
      obtain ⟨b',hlt',hb'⟩ := h.again k uid b hslept hold
      exact ⟨b',hlt',ht.sends_getElem? hb'⟩
    · -- the slot shows the bell of the last send, and that cannot be the silent one
      have hle := h.numbered.last hb' (h.posted.of_mem hk hmem).2
      have hne : b ≠ b' := fun he => hs (.inr ⟨uid,he ▸ hb'⟩)
      exact ⟨b',by omega,ht.sends_getElem? (h.numbered.shown hb')⟩

theorem Attended.run (h : v.Attended) (acts : List Act) : (v.run acts).Attended := by
  induction acts generalizing v with
  | nil => exact h
  | cons a acts ih => exact ih (h.step a)

theorem Attended.pending (h : v.Attended) {k : Nat} {uid : Uid} {b : Nat} (hs : v.Sleeps k uid b)
    (hlate : (k,b) ∉ v.late) : v.room.queue.slot? uid = some (.pending b) ∨ b ∈ v.owed := by
  rcases h.awake k b hs.registered hlate with howed | ⟨u,hu⟩
  · exact .inr howed
  · have hsent := (h.posted.of_mem hs.parked hs.registered).2
    obtain rfl := Option.some.inj ((h.numbered.shown hu).symm.trans hsent)
    exact .inl (EventQueue.bell?_eq_some_iff.mp hu)

theorem Attended.sleeps_run (h : v.Attended) {k : Nat} {uid : Uid} {b : Nat} (hs : v.Sleeps k uid b)
    (hlate : (k,b) ∈ v.late) {later : List Act} (hlater : .cancel k ∉ later) :
    (v.run later).Sleeps k uid b ∧ ¬ (v.run later).Sounds b := by
  induction later generalizing v with
  | nil => exact ⟨hs,(h.silent k b hlate).2⟩
  | cons a later ih =>
    have ha : a ≠ .cancel k := fun he => hlater (by simp [he])
    refine ih (h.step a) (hs.step (h.silent k b hlate).2 ha) (mem_late_step_iff.mpr (.inr hlate)) ?_
    exact fun hmem => hlater (List.mem_cons_of_mem a hmem)

theorem mem_late_run_iff (acts : List Act) (k b : Nat) : (k,b) ∈ (({} : Vigil).run acts).late ↔
    ∃ before after, acts = before ++ .poll k :: after ∧ (k,b) ∈ (({} : Vigil).run before).missed k := by
  induction acts using List.reverseRecOn with
  | nil => simp [run]
  | append_singleton acts a ih =>
    rw [run_append,run_cons,run_nil,mem_late_step_iff,ih]
    constructor
    · rintro (⟨rfl,hm⟩ | ⟨before,after,rfl,hm⟩)
      · exact ⟨acts,[],rfl,hm⟩
      · exact ⟨before,after ++ [a],by simp,hm⟩
    · rintro ⟨before,after,hsplit,hm⟩
      rcases List.eq_nil_or_concat after with rfl | ⟨rest,last,rfl⟩
      · obtain ⟨rfl,ha⟩ := List.append_inj' hsplit rfl
        exact .inl ⟨List.singleton_inj.mp ha,hm⟩
      · refine .inr ⟨before,rest,?_,hm⟩
        simp only [List.concat_eq_append,← List.cons_append,← List.append_assoc] at hsplit
        exact (List.append_inj' hsplit rfl).1

/-- A waiter that sleeps waits for a slot that shows the very bell at which it registered, or whose bell is
owed, and the act after which neither is so wakes it. The only other one is a waiter that registered when
its slot had been taken away since its look, and has been opened anew: nothing wakes it any more. There is
none as long as no identifier is sent twice. -/
theorem woken_of_run (acts : List Act) :
    let v := ({} : Vigil).run acts
    (∀ k uid b, v.Sleeps k uid b → (k,b) ∉ v.late →
      (v.room.queue.slot? uid = some (.pending b) ∨ b ∈ v.owed) ∧
        ∀ a, ¬ (v.step a).Sounds b → ¬ (v.step a).Sleeps k uid b) ∧
    (∀ k uid b, v.Sleeps k uid b → (k,b) ∈ v.late →
      (∃ b', b < b' ∧ v.sends[b']? = some uid) ∧ ∀ later, .cancel k ∉ later →
        (v.run later).Sleeps k uid b ∧ ¬ (v.run later).Sounds b) ∧
    (v.sends.Nodup → ∀ k uid b, v.Sleeps k uid b →
      v.room.queue.slot? uid = some (.pending b) ∨ b ∈ v.owed) ∧
    ∀ k b, (k,b) ∈ v.late ↔ ∃ before after uid, acts = before ++ .poll k :: after ∧
      (({} : Vigil).run before).room.waiters[k]? = some (uid,some (.enabling b)) ∧
      (({} : Vigil).run before).room.queue.slot? uid ≠ some (.pending b) ∧
      b ∉ (({} : Vigil).run before).owed := by
  intro v
  have h : v.Attended := attended_empty.run acts
  refine ⟨fun k uid b hs hlate => ⟨h.pending hs hlate,fun a hsilent hstill => ?_⟩,
    fun k uid b hs hlate => ⟨h.again k uid b hs hlate,fun later => h.sleeps_run hs hlate⟩,
    fun hids k uid b hs => h.pending hs fun hlate => ?_,fun k b => ?_⟩
  · exact (v.turn a).not_registered (h.awake k b hs.registered hlate) hsilent k hstill.registered
  · obtain ⟨b',hlt,hb'⟩ := h.again k uid b hs hlate
    have hb := (h.posted.of_mem hs.parked hs.registered).2
    obtain ⟨hi,hget⟩ := List.getElem?_eq_some_iff.mp hb
    obtain ⟨hi',hget'⟩ := List.getElem?_eq_some_iff.mp hb'
    have hsame : b = b' := (hids.getElem_inj_iff).mp (hget.trans hget'.symm)
    omega
  · rw [mem_late_run_iff]
    simp only [mem_missed_iff,true_and,ne_eq,EventQueue.bell?_eq_some_iff]
    constructor
    · rintro ⟨before,after,hsplit,uid,hk,hbell,howed⟩
      exact ⟨before,after,uid,hsplit,hk,hbell,howed⟩
    · rintro ⟨before,after,uid,hsplit,hk,hbell,howed⟩
      exact ⟨before,after,hsplit,uid,hk,hbell,howed⟩

def twice : Event := ⟨.nil,.null⟩

/-- A waiter looks; then its event is answered, the answer is read, and the event is sent again. The waiter
registers at the first bell, finds its slot pending and sleeps. -/
def crossing : List Act :=
  [.call twice,.enter 0,.push 0,.wait twice.uid,.poll 0,.answer twice,.collect twice.uid,
    .call twice,.enter 1,.push 1,.poll 0,.poll 0]

/-- The second answer comes, and nothing was given up; the waiter sleeps on. -/
theorem asleep_of_crossing :
    (({} : Vigil).run (crossing ++ [.answer twice])).Sleeps 0 twice.uid 0 ∧
      (({} : Vigil).run (crossing ++ [.answer twice])).owed = [] ∧
      (({} : Vigil).run (crossing ++ [.answer twice])).room.queue.slot? twice.uid =
        some (.ready twice.msg) :=
  ⟨⟨rfl,.head _⟩,rfl,rfl⟩

end Vigil
end Tether
