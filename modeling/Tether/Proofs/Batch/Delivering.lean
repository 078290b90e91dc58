import Tether.Proofs.Batch.Pipeline

/-! Where the events and the answers of a batcher are. Every accepted event is queued, collected or in one
batch, and every answer to a batch has been delivered or is left to be. A batcher returns only when nothing
is left anywhere. With one call for each identifier, what is delivered answers an accepted event. -/
namespace Tether

namespace Pipeline

open Senders (Call CallStage)

variable {settings : CollectorSettings} {p : Pipeline}

/-- No event is lost on its way to the sink, and no answer on its way back. -/
structure Flows (p : Pipeline) : Prop where
  events : (p.flushes.flatMap (·.batch) ++ p.collector.buffer.events ++ p.queue.queued).Perm p.accepted
  answers : (p.delivered ++ p.flushes.flatMap (·.left)).Perm (p.flushes.flatMap (·.answers))
  ended : p.ended = true → p.queue.queued = [] ∧ p.collector.buffer.events = [] ∧
    p.queue.isOpen = false ∧ ∀ c ∈ p.calls, c.isUnderway = false
  returned : p.returned = true → p.ended = true ∧ ∀ f ∈ p.flushes, f.isDone = true

theorem flows_empty : ({} : Pipeline).Flows := ⟨.refl _,.refl _,by simp,by simp⟩

/-! ### One step -/

theorem Flows.congr {p' : Pipeline} (h : p.Flows) (hqueued : p'.queue.queued = p.queue.queued)
    (hopen : p'.queue.isOpen = p.queue.isOpen) (hcollector : p'.collector = p.collector)
    (hcalls : p'.calls = p.calls) (hflushes : p'.flushes = p.flushes) (hended : p'.ended = p.ended)
    (hreturned : p'.returned = p.returned) (hdelivered : p'.delivered = p.delivered) : p'.Flows := by
  have haccepted : p'.accepted = p.accepted := by rw [Senders.accepted,Senders.accepted,hcalls]
  refine ⟨?_,?_,?_,?_⟩
  · rw [hflushes,hcollector,hqueued,haccepted]
    exact h.events
  · rw [hflushes,hdelivered]
    exact h.answers
  · rw [hended,hqueued,hcollector,hopen,hcalls]
    exact h.ended
  · rw [hreturned,hended,hflushes]
    exact h.returned

theorem Flows.call (h : p.Flows) (e : Event) : (p.step settings (.call e)).Flows := by
  have haccepted : (p.call e).accepted = p.accepted := by
    simp only [Senders.accepted,Senders.call,List.filter_append,List.map_append]
    cases p.queue.isOpen <;> simp
  refine ⟨haccepted ▸ h.events,h.answers,fun hended => ?_,h.returned⟩
  obtain ⟨hqueued,hbuffer,hclosed,hcalls⟩ := h.ended hended
  refine ⟨hqueued,hbuffer,hclosed,fun c hc => ?_⟩
  rcases List.mem_append.mp hc with hc | hc
  · exact hcalls c hc
  · obtain rfl := List.mem_singleton.mp hc
    simp [hclosed,Call.isUnderway]

theorem Flows.not_ended (h : p.Flows) {k : Nat} {c : Call} (hk : p.calls[k]? = some c)
    (hc : c.isUnderway = true) : p.ended = false := by
  refine Bool.eq_false_iff.mpr fun hended => ?_
  have hnot := (h.ended hended).2.2.2 c (List.mem_of_getElem? hk)
  simp [hc] at hnot

theorem Flows.enter (h : p.Flows) (k : Nat) : (p.step settings (.enter k)).Flows := by
  simp only [Pipeline.step,Senders.enter]
  split
  · rename_i e hk
    have hended := h.not_ended hk rfl
    split
    · have hsame := Senders.accepted_setCall hk (by simp) (.refused (.duplicate e.uid))
      simp only [reduceCtorEq,if_false,List.append_nil] at hsame
      exact ⟨h.events.trans hsame.symm,h.answers,by simp [hended],h.returned⟩
    · have hsame := Senders.accepted_setCall hk (by simp) .opened
      simp only [reduceCtorEq,if_false,List.append_nil] at hsame
      exact ⟨h.events.trans hsame.symm,h.answers,by simp [hended],h.returned⟩
  · exact h

theorem Flows.push (h : p.Flows) (k : Nat) : (p.step settings (.push k)).Flows := by
  simp only [Pipeline.step,Senders.push]
  split
  · rename_i e hk
    have hended := h.not_ended hk rfl
    have hmore := Senders.accepted_setCall hk (by simp) .accepted
    rw [if_pos rfl] at hmore
    refine ⟨?_,h.answers,by simp [hended],h.returned⟩
    simp only [Senders.setCall,EventQueue.push,← List.append_assoc]
    exact (h.events.append_right [e]).trans hmore.symm
  · exact h

section Add

variable (p : Pipeline) (collected : Collector × Collector.Flush)

theorem batches_add : (p.add collected).flushes.flatMap (·.batch) =
    p.flushes.flatMap (·.batch) ++ Collector.Flush.events collected.2 := by
  rcases collected with ⟨collector,_ | batch⟩ <;> simp [add,Collector.Flush.events]

theorem left_add : (p.add collected).flushes.flatMap (·.left) = p.flushes.flatMap (·.left) := by
  rcases collected with ⟨collector,_ | batch⟩ <;> simp [add,Flush.left]

theorem answers_add : (p.add collected).flushes.flatMap (·.answers) = p.flushes.flatMap (·.answers) := by
  rcases collected with ⟨collector,_ | batch⟩ <;> simp [add,Flush.answers]

end Add

theorem Flows.receive (h : p.Flows) (now : Nat) : (p.receive settings now).Flows := by
  unfold Pipeline.receive
  by_cases hended : p.ended = true
  · rwa [if_pos hended]
  · rw [if_neg hended]
    unfold EventQueue.take
    cases hq : p.queue.queued with
    | nil => simpa using h
    | cons e rest =>
      have hevents := h.events
      have hanswers := h.answers
      rw [hq] at hevents
      refine ⟨(?_ : List.Perm _ p.accepted),?_,fun hend => absurd hend hended,
        fun hret => absurd (h.returned hret).1 hended⟩
      · rw [batches_add]
        simp only [add,List.append_assoc]
        rw [← List.append_assoc (Collector.Flush.events _),Collector.events_receive]
        simpa only [List.append_assoc,List.singleton_append] using hevents
      · rw [left_add,answers_add]
        exact hanswers

theorem Flows.expire (h : p.Flows) : p.expire.Flows := by
  unfold Pipeline.expire
  by_cases hended : p.ended = true
  · rwa [if_pos hended]
  · rw [if_neg hended]
    refine ⟨(?_ : List.Perm _ p.accepted),?_,fun hend => absurd hend hended,
      fun hret => absurd (h.returned hret).1 hended⟩
    · rw [batches_add,Collector.expire,Collector.events_flush]
      simpa [add,Collector.flush_eq,BatchBuffer.events] using h.events
    · rw [left_add,answers_add]
      exact h.answers

theorem Flows.finish (h : p.Flows) : p.finish.Flows := by
  unfold Pipeline.finish
  split
  · rename_i hend
    simp only [Bool.and_eq_true,List.isEmpty_iff,Bool.not_eq_true',List.all_eq_true] at hend
    obtain ⟨⟨hqueued,hclosed⟩,hcalls⟩ := hend
    refine ⟨(?_ : List.Perm _ p.accepted),?_,fun _ => ⟨hqueued,rfl,hclosed,hcalls⟩,fun hret => ?_⟩
    · simp only [batches_add,Collector.finish,Collector.events_flush]
      simpa [add,Collector.flush_eq,BatchBuffer.events] using h.events
    · simp only [left_add,answers_add]
      exact h.answers
    · obtain ⟨hended,hdone⟩ := h.returned hret
      have hbuffer := (h.ended hended).2.1
      simpa [add,Collector.finish,Collector.flush_eq,hbuffer] using hdone
  · exact h

theorem Flows.isDone (h : p.Flows) (hreturned : p.returned = true) {k : Nat} {f : Flush}
    (hk : p.flushes[k]? = some f) : f.isDone = true :=
  (h.returned hreturned).2 f (List.mem_of_getElem? hk)

/-- The sink has returned, and all answers to the batch are left to be delivered. -/
theorem Flows.process (h : p.Flows) (k : Nat) (result : Except BatchError (List Event)) :
    (p.process k result).Flows := by
  unfold Pipeline.process
  split
  · rename_i batch hk
    let f : Flush := ⟨batch,.answered result (answersFor batch result)⟩
    -- before the sink returns there are no answers to the batch, and then all of them are left
    have hbatches := flatMap_set_perm hk f (·.batch)
    have hleft := flatMap_set_perm hk f (·.left)
    have hanswers := flatMap_set_perm hk f (·.answers)
    refine ⟨(?_ : List.Perm _ p.accepted),?_,h.ended,fun hret => ?_⟩
    · refine .trans ?_ h.events
      exact (((List.perm_append_left_iff batch).mp hbatches).append_right _).append_right _
    · calc (p.delivered ++ (p.flushes.set k f).flatMap (·.left)).Perm
            (p.delivered ++ (answersFor batch result ++ p.flushes.flatMap (·.left))) :=
            hleft.append_left _
        _ |>.Perm (answersFor batch result ++ (p.delivered ++ p.flushes.flatMap (·.left))) :=
            List.perm_append_comm_assoc ..
        _ |>.Perm (answersFor batch result ++ p.flushes.flatMap (·.answers)) :=
            h.answers.append_left _
        _ |>.Perm ((p.flushes.set k f).flatMap Flush.answers) := hanswers.symm
    · have hdone := h.isDone hret hk
      simp [Flush.isDone,Flush.result?] at hdone
  · exact h

/-- An answer that was left is delivered. -/
theorem Flows.deliver (h : p.Flows) (k i : Nat) : (p.deliver k i).Flows := by
  unfold Pipeline.deliver
  split
  · rename_i batch result left hk
    split
    · rename_i e he
      let f : Flush := ⟨batch,.answered result (left.eraseIdx i)⟩
      have hbatches := flatMap_set_perm hk f (·.batch)
      have hanswers := flatMap_set_perm hk f (·.answers)
      have hrest : (e :: left.eraseIdx i).Perm left := by
        obtain ⟨hi,hget⟩ := List.getElem?_eq_some_iff.mp he
        exact hget ▸ List.getElem_cons_eraseIdx_perm hi
      have hleft : (e :: (p.flushes.set k f).flatMap (·.left)).Perm (p.flushes.flatMap (·.left)) := by
        have hset := (hrest.append_right _).trans (flatMap_set_perm hk f (·.left))
        refine (List.perm_append_left_iff (left.eraseIdx i)).mp (.trans ?_ hset)
        exact List.perm_middle
      refine ⟨(?_ : List.Perm _ p.accepted),?_,?_,fun hret => ?_⟩
      · rw [EventQueue.queued_answer]
        refine .trans ?_ h.events
        exact (((List.perm_append_left_iff batch).mp hbatches).append_right _).append_right _
      · simp only [List.append_assoc,List.singleton_append]
        exact ((hleft.append_left _).trans h.answers).trans
          ((List.perm_append_left_iff _).mp hanswers).symm
      · rw [EventQueue.queued_answer,EventQueue.isOpen_answer]
        exact h.ended
      · have hdone := h.isDone hret hk
        obtain rfl : left = [] := by simpa [Flush.isDone,Flush.result?,Flush.left] using hdone
        simp at he
    · exact h
  · exact h

theorem Flows.conclude (h : p.Flows) : p.conclude.Flows := by
  unfold Pipeline.conclude
  split
  · rename_i hall
    rw [Bool.and_eq_true,List.all_eq_true] at hall
    exact ⟨h.events,h.answers,h.ended,fun _ => hall⟩
  · exact h

theorem Flows.step (h : p.Flows) (a : Act) : (p.step settings a).Flows := by
  cases a with
  | call e => exact h.call e
  | enter k => exact h.enter k
  | push k => exact h.push k
  | close =>
    refine ⟨h.events,h.answers,fun hended => ?_,h.returned⟩
    obtain ⟨hqueued,hbuffer,-,hcalls⟩ := h.ended hended
    exact ⟨hqueued,hbuffer,rfl,hcalls⟩
  | receive now => exact h.receive now
  | expire => exact h.expire
  | finish => exact h.finish
  | process k result => exact h.process k result
  | deliver k i => exact h.deliver k i
  | conclude => exact h.conclude
  | look uid =>
    exact h.congr (EventQueue.queued_look ..) (EventQueue.isOpen_look ..) rfl rfl rfl rfl rfl rfl
  | _ => exact h.congr rfl rfl rfl rfl rfl rfl rfl rfl

/-! ### A whole run -/

theorem flows_run (h : p.Flows) (acts : List Act) : (p.run settings acts).Flows := by
  induction acts generalizing p with
  | nil => exact h
  | cons a acts ih => exact ih (h.step a)

/-! ### Identifiers -/

theorem uids_prefix_step (a : Act) : p.uids <+: (p.step settings a).uids := by
  cases a with
  | call e => exact ⟨[e.uid],by simp [Senders.uids,step,Senders.call]⟩
  | enter k =>
    simp only [step,Senders.enter]
    split
    · rename_i e hk
      split <;> exact (Senders.uids_setCall hk _).symm ▸ List.prefix_rfl
    · exact List.prefix_rfl
  | push k =>
    simp only [step,Senders.push]
    split
    · rename_i e hk
      exact (Senders.uids_setCall hk _).symm ▸ List.prefix_rfl
    · exact List.prefix_rfl
  | _ =>
    simp only [step,receive,expire,finish,process,deliver,conclude]
    (repeat' split) <;> exact List.prefix_rfl

theorem uids_prefix_run (acts : List Act) : p.uids <+: (p.run settings acts).uids := by
  induction acts generalizing p with
  | nil => exact List.prefix_rfl
  | cons a acts ih => exact (uids_prefix_step a).trans ih

theorem nodup_accepted (hids : p.uids.Nodup) : (p.accepted.map Event.uid).Nodup := by
  rw [Senders.accepted,List.map_map]
  exact hids.sublist (List.filter_sublist.map _)

theorem Flows.nodup_batches (h : p.Flows) (hids : p.uids.Nodup) :
    ((p.flushes.flatMap (·.batch)).map Event.uid).Nodup := by
  refine List.Nodup.sublist ?_ ((h.events.map Event.uid).nodup_iff.mpr (nodup_accepted hids))
  rw [List.append_assoc]
  exact (List.sublist_append_left ..).map _

theorem Flows.nodup_batch (h : p.Flows) (hids : p.uids.Nodup) {f : Flush} (hf : f ∈ p.flushes) :
    (f.batch.map Event.uid).Nodup := by
  have hbatches := h.nodup_batches hids
  rw [List.map_flatMap,List.nodup_flatMap] at hbatches
  exact hbatches.1 f hf

theorem Flush.uids_answers {f : Flush} (h : (f.batch.map Event.uid).Nodup) (hresult : f.result?.isSome) :
    (f.answers.map Event.uid).Perm (f.batch.map Event.uid) := by
  obtain ⟨result,hresult⟩ := Option.isSome_iff_exists.mp hresult
  have hperm := (answersFor_perm h result).map Event.uid
  simp only [List.map_map,Function.comp_def,uid_answerTo] at hperm
  rwa [Flush.answers_eq hresult]

theorem Flows.accepted_of_delivered (h : p.Flows) (hids : p.uids.Nodup) {a : Event}
    (ha : a ∈ p.delivered) : a.uid ∈ p.accepted.map Event.uid := by
  obtain ⟨f,hf,hanswer⟩ := List.mem_flatMap.mp (h.answers.subset (List.mem_append_left _ ha))
  have hresult : f.result?.isSome := by
    rcases f with ⟨batch,_ | ⟨result,left⟩⟩
    · simp [Flush.answers] at hanswer
    · rfl
  have hbatch := (Flush.uids_answers (h.nodup_batch hids hf) hresult).subset (List.mem_map_of_mem hanswer)
  obtain ⟨e,he,huid⟩ := List.mem_map.mp hbatch
  have hbatches : e ∈ p.flushes.flatMap (·.batch) := List.mem_flatMap.mpr ⟨f,hf,he⟩
  exact huid ▸ List.mem_map_of_mem (h.events.subset (by simp [hbatches]))

end Pipeline
end Tether
