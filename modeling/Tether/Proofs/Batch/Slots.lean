import Tether.Proofs.Batch.Delivering

/-! The slots of a batcher's queue. Unless somebody has emptied it, the slot of an identifier is there
from the moment a call has opened it, and shows the first answer that was delivered. When the batcher
returns, each accepted event has been answered once, and the slots tell nothing about the order in which
the batches went through. -/
namespace Tether

def EventSlot.answer? : EventSlot → Option Json
  | .pending _ => none
  | .ready answer => some answer

theorem EventQueue.answer?_answer (q : EventQueue) (e : Event) (u : Uid) :
    ((q.answer e).1.slot? u).map EventSlot.answer? =
      ((q.slot? u).map EventSlot.answer?).map fun answer? =>
        answer?.or (if e.uid = u then some e.msg else none) := by
  by_cases hu : e.uid = u
  · subst hu
    rw [slot?_answer_self]
    rcases q.slot? e.uid with _ | _ | _ <;> simp [EventSlot.answer?]
  · rw [slot?_answer_of_ne q (Ne.symm hu)]
    simp [hu,Function.comp_def]

namespace Pipeline

open Senders (Call CallStage)

variable {settings : CollectorSettings} {p p' : Pipeline} {u : Uid}

def slotted (p : Pipeline) (uid : Uid) : Bool := p.calls.any fun c => c.event.uid == uid && c.isSlotted

/-- The slot of an identifier, as it is if nobody has emptied it. -/
def Shows (p : Pipeline) (uid : Uid) : Prop :=
  (p.queue.slot? uid).map EventSlot.answer? =
    if p.slotted uid then some ((p.delivered.find? (·.uid == uid)).map (·.msg)) else none

theorem Shows.congr (h : p.Shows u) (hslot : p'.queue.slot? u = p.queue.slot? u)
    (hslotted : p'.slotted u = p.slotted u) (hdelivered : p'.delivered = p.delivered) : p'.Shows u := by
  rw [Shows,hslot,hslotted,hdelivered]
  exact h

/-! ### One step -/

theorem Shows.call (h : p.Shows u) (e : Event) : (p.step settings (.call e)).Shows u := by
  refine h.congr rfl ?_ rfl
  simp only [slotted,Pipeline.step,Senders.call,List.any_append]
  cases p.queue.isOpen <;> simp [Call.isSlotted]

theorem Flows.find?_delivered (hflows : p.Flows) (hids : p.uids.Nodup) {k : Nat} {e : Event}
    {stage : CallStage} (hk : p.calls[k]? = some ⟨e,stage⟩) (hstage : stage ≠ .accepted) :
    p.delivered.find? (·.uid == e.uid) = none := by
  rw [List.find?_eq_none]
  intro a ha huid
  have haccepted := hflows.accepted_of_delivered hids ha
  rw [beq_iff_eq.mp huid] at haccepted
  obtain ⟨e',he',huid'⟩ := List.mem_map.mp haccepted
  obtain ⟨c,hc,rfl⟩ := List.mem_map.mp he'
  obtain ⟨hmem,hc⟩ := List.mem_filter.mp hc
  obtain rfl := List.inj_on_of_nodup_map hids hmem (List.mem_of_getElem? hk) huid'
  exact hstage (by simpa using hc)

theorem Shows.enter (hflows : p.Flows) (hids : p.uids.Nodup) (h : p.Shows u) (k : Nat) :
    (p.step settings (.enter k)).Shows u := by
  simp only [Pipeline.step,Senders.enter]
  split
  · rename_i e hk
    obtain ⟨others,hbefore,hafter⟩ := Senders.any_setCall (fun c => c.event.uid == u && c.isSlotted) hk
    split
    · exact h.congr rfl ((hafter _).trans hbefore.symm) rfl
    · rename_i hfree
      have hslot := EventQueue.slot?_openSlot (Option.not_isSome_iff_eq_none.mp hfree) u
      by_cases hu : u = e.uid
      · subst hu
        -- an answer that had been delivered already would be to another call with the same identifier
        have hnone := hflows.find?_delivered hids hk (by simp)
        have hslotted := (hafter .opened).trans (by simp [Call.isSlotted] : _ = true)
        rw [if_pos rfl] at hslot
        change Option.map _ ((p.queue.openSlot e.uid).slot? e.uid) =
          if (p.setCall k e .opened).calls.any (fun c => c.event.uid == e.uid && c.isSlotted) then
            some ((p.delivered.find? (·.uid == e.uid)).map (·.msg)) else none
        simp [hslot,hslotted,hnone,EventSlot.answer?]
      · have hother : (e.uid == u) = false := beq_false_of_ne (Ne.symm hu)
        simp only [hother,Bool.false_and] at hbefore hafter
        exact h.congr (hslot.trans (if_neg hu)) ((hafter _).trans hbefore.symm) rfl
  · exact h

theorem Shows.push (h : p.Shows u) (k : Nat) : (p.step settings (.push k)).Shows u := by
  simp only [Pipeline.step,Senders.push]
  split
  · rename_i e hk
    obtain ⟨others,hbefore,hafter⟩ := Senders.any_setCall (fun c => c.event.uid == u && c.isSlotted) hk
    exact h.congr rfl ((hafter _).trans hbefore.symm) rfl
  · exact h

theorem Shows.deliver (h : p.Shows u) (k i : Nat) : (p.deliver k i).Shows u := by
  unfold Pipeline.deliver
  split
  · split
    · rename_i e he
      change Option.map _ ((p.queue.answer e).1.slot? u) =
        if p.slotted u then some (((p.delivered ++ [e]).find? (·.uid == u)).map (·.msg)) else none
      rw [EventQueue.answer?_answer,h,List.find?_append,List.find?_singleton]
      cases p.slotted u
      · rfl
      · cases p.delivered.find? (·.uid == u) <;> by_cases hu : e.uid = u <;> simp [hu]
    · exact h
  · exact h

theorem Shows.receive (h : p.Shows u) (now : Nat) : (p.receive settings now).Shows u := by
  unfold Pipeline.receive EventQueue.take
  split
  · exact h
  · cases p.queue.queued <;> exact h.congr rfl rfl rfl

theorem Shows.look (h : p.Shows u) {uid : Uid} (hu : u ∉ (p.look uid).emptied) : (p.look uid).Shows u := by
  refine h.congr ?_ rfl rfl
  simp only [Pipeline.look,EventQueue.look] at hu ⊢
  cases hslot : p.queue.slot? uid with
  | none => rfl
  | some slot =>
    cases slot with
    | pending bell => rfl
    | ready answer =>
      simp only [hslot,List.mem_cons,not_or] at hu
      rw [EventQueue.slot?_eraseSlot,if_neg hu.1]

theorem Shows.drop (h : p.Shows u) {uid : Uid} (hu : u ∉ (p.drop uid).emptied) : (p.drop uid).Shows u := by
  refine h.congr ?_ rfl rfl
  simp only [Pipeline.drop,EventQueue.dropSlot] at hu ⊢
  rw [EventQueue.slot?_eraseSlot]
  by_cases he : u = uid
  · subst he
    cases hslot : p.queue.slot? u with
    | none => simp
    | some slot => simp [hslot] at hu
  · rw [if_neg he]

theorem emptied_subset_step (a : Act) : p.emptied ⊆ (p.step settings a).emptied := by
  cases a with
  | look uid =>
    simp only [step,look]
    split
    · exact List.subset_cons_self ..
    · exact List.Subset.refl _
  | drop uid =>
    simp only [step,drop]
    split
    · exact List.subset_cons_self ..
    · exact List.Subset.refl _
  | _ =>
    simp only [step,receive,expire,finish,process,deliver,conclude]
    (repeat' split) <;> exact List.Subset.refl _

theorem Shows.step (hflows : p.Flows) (hids : p.uids.Nodup) (h : p.Shows u) (a : Act)
    (hu : u ∉ (p.step settings a).emptied) : (p.step settings a).Shows u := by
  cases a with
  | call e => exact h.call e
  | enter k => exact h.enter hflows hids k
  | push k => exact h.push k
  | deliver k i => exact h.deliver k i
  | receive now => exact h.receive now
  | look uid => exact h.look hu
  | drop uid => exact h.drop hu
  | _ =>
    simp only [Pipeline.step,expire,finish,process,conclude]
    (repeat' split) <;> exact h.congr rfl rfl rfl

/-! ### A whole run -/

theorem emptied_subset_run (acts : List Act) : p.emptied ⊆ (p.run settings acts).emptied := by
  induction acts generalizing p with
  | nil => exact List.Subset.refl _
  | cons a acts ih => exact List.Subset.trans (emptied_subset_step a) ih

theorem shows_run (hflows : p.Flows) (h : p.Shows u) {acts : List Act}
    (hids : (p.run settings acts).uids.Nodup) (hu : u ∉ (p.run settings acts).emptied) :
    (p.run settings acts).Shows u := by
  induction acts generalizing p with
  | nil => exact h
  | cons a acts ih =>
    -- identifiers are distinct at the end of the run, and a step only adds to them
    have hbefore : p.uids.Nodup := hids.sublist (uids_prefix_run (a :: acts)).sublist
    exact ih (hflows.step a) (h.step hflows hbefore a fun hin => hu (emptied_subset_run acts hin)) hids hu

/-! ### The batcher has returned -/

theorem Flows.batches_of_returned (h : p.Flows) (hreturned : p.returned = true) :
    (p.flushes.flatMap (·.batch)).Perm p.accepted := by
  obtain ⟨hqueued,hbuffer,-,-⟩ := h.ended (h.returned hreturned).1
  have hevents := h.events
  rwa [hqueued,hbuffer,List.append_nil,List.append_nil] at hevents

theorem Flows.delivered_of_returned (h : p.Flows) (hreturned : p.returned = true) :
    p.delivered.Perm (p.flushes.flatMap (·.answers)) := by
  have hleft : p.flushes.flatMap (·.left) = [] := by
    rw [List.flatMap_eq_nil_iff]
    intro f hf
    have hdone := (h.returned hreturned).2 f hf
    rw [Flush.isDone,Bool.and_eq_true,List.isEmpty_iff] at hdone
    exact hdone.2
  have hanswers := h.answers
  rwa [hleft,List.append_nil] at hanswers

theorem Flows.uids_delivered (h : p.Flows) (hids : p.uids.Nodup) (hreturned : p.returned = true) :
    (p.delivered.map Event.uid).Perm (p.accepted.map Event.uid) := by
  have heach : ∀ f ∈ p.flushes, (f.answers.map Event.uid).Perm (f.batch.map Event.uid) := fun f hf =>
    Flush.uids_answers (h.nodup_batch hids hf)
      (Bool.and_eq_true_iff.mp ((h.returned hreturned).2 f hf)).1
  have hanswers := (h.delivered_of_returned hreturned).map Event.uid
  rw [List.map_flatMap] at hanswers
  have hbatches := (h.batches_of_returned hreturned).map Event.uid
  rw [List.map_flatMap] at hbatches
  exact (hanswers.trans (List.Perm.flatMap_left _ heach)).trans hbatches

theorem Flows.filter_delivered (h : p.Flows) (hids : p.uids.Nodup) (hreturned : p.returned = true)
    {f : Flush} (hf : f ∈ p.flushes) {result : Except BatchError (List Event)}
    (hresult : f.result? = some result) {e : Event} (he : e ∈ f.batch) :
    p.delivered.filter (·.uid == e.uid) = [answerTo result e.uid] := by
  have hanswer : answerTo result e.uid ∈ f.answers := by
    rw [Flush.answers_eq hresult]
    exact (answersFor_perm (h.nodup_batch hids hf) result).symm.subset (List.mem_map.mpr ⟨e,he,rfl⟩)
  have hdelivered := (h.delivered_of_returned hreturned).symm.subset
    (List.mem_flatMap.mpr ⟨f,hf,hanswer⟩)
  have hnodup : (p.delivered.map Event.uid).Nodup :=
    (h.uids_delivered hids hreturned).nodup_iff.mpr (nodup_accepted hids)
  have hone := filter_key_of_mem Event.uid hnodup hdelivered
  rwa [uid_answerTo] at hone

theorem Flows.slotted_iff (h : p.Flows) (hreturned : p.returned = true) (uid : Uid) :
    p.slotted uid = true ↔ uid ∈ p.accepted.map Event.uid := by
  have hcalls := (h.ended (h.returned hreturned).1).2.2.2
  have hstage : ∀ c ∈ p.calls, c.isSlotted = true ↔ c.stage = .accepted := by
    intro c hc
    have hdone := hcalls c hc
    simp only [Call.isUnderway,decide_eq_false_iff_not,not_or] at hdone
    simp [Call.isSlotted,hdone.2]
  simp only [slotted,List.any_eq_true,Bool.and_eq_true,beq_iff_eq,Senders.accepted,List.map_map,List.mem_map,
    List.mem_filter,decide_eq_true_eq,Function.comp_apply]
  constructor
  · rintro ⟨c,hc,huid,hs⟩
    exact ⟨c,⟨hc,(hstage c hc).mp hs⟩,huid⟩
  · rintro ⟨c,⟨hc,hs⟩,huid⟩
    exact ⟨c,hc,huid,(hstage c hc).mpr hs⟩

theorem Shows.ready (hshows : p.Shows u) (hslotted : p.slotted u = true) {a : Event}
    (ha : p.delivered.filter (·.uid == u) = [a]) : p.queue.slot? u = some (.ready a.msg) := by
  rw [Shows,if_pos hslotted,← List.head?_filter,ha] at hshows
  obtain ⟨slot,hslot,hready⟩ := Option.map_eq_some_iff.mp hshows
  cases slot with
  | pending bell => simp [EventSlot.answer?] at hready
  | ready answer =>
    obtain rfl : answer = a.msg := by simpa [EventSlot.answer?] using hready
    exact hslot

theorem Shows.gone (hshows : p.Shows u) (hslotted : p.slotted u = false) : p.queue.slot? u = none := by
  rw [Shows,hslotted] at hshows
  simpa using hshows

section Returned

variable {acts : List Act} (hrun : ({} : Pipeline).run settings acts = p) (hids : p.uids.Nodup)

include hrun hids

theorem shows_of_run (hu : u ∉ p.emptied) : p.Shows u := by
  subst hrun
  exact shows_run flows_empty rfl hids hu

variable (hreturned : p.returned = true)

include hreturned

theorem answered_of_mem_batch {f : Flush} (hf : f ∈ p.flushes) :
    ∃ result, f.result? = some result ∧ ∀ e ∈ f.batch,
      p.delivered.filter (·.uid == e.uid) = [answerTo result e.uid] ∧
      (e.uid ∉ p.emptied → p.queue.slot? e.uid = some (.ready (answerTo result e.uid).msg)) := by
  have h : p.Flows := hrun ▸ flows_run flows_empty acts
  obtain ⟨result,hresult⟩ := Option.isSome_iff_exists.mp
    (Bool.and_eq_true_iff.mp ((h.returned hreturned).2 f hf)).1
  refine ⟨result,hresult,fun e he => ?_⟩
  have hanswer := h.filter_delivered hids hreturned hf hresult he
  refine ⟨hanswer,fun hu => (shows_of_run hrun hids hu).ready ?_ hanswer⟩
  have haccepted := (h.batches_of_returned hreturned).subset (List.mem_flatMap.mpr ⟨f,hf,he⟩)
  exact (h.slotted_iff hreturned e.uid).mpr (List.mem_map_of_mem haccepted)

theorem silent_of_not_accepted (hu : u ∉ p.accepted.map Event.uid) :
    (∀ a ∈ p.delivered, a.uid ≠ u) ∧ (u ∉ p.emptied → p.queue.slot? u = none) := by
  have h : p.Flows := hrun ▸ flows_run flows_empty acts
  refine ⟨fun a ha he => hu (he ▸ h.accepted_of_delivered hids ha),fun hemptied => ?_⟩
  refine (shows_of_run hrun hids hemptied).gone (Bool.eq_false_iff.mpr fun hslotted => ?_)
  exact hu ((h.slotted_iff hreturned u).mp hslotted)

end Returned

/-- When the batcher returns, every accepted event has been in one batch, and one answer was delivered for
it: the sink's first answer with its identifier, or an error object. Nothing was delivered for any other
identifier. A slot that nobody has emptied holds that answer, so whatever else the order of the steps
was, the same batches with the same results leave the same slots. -/
theorem answered_once_of_returned {acts : List Act} (hrun : ({} : Pipeline).run settings acts = p)
    (hids : p.uids.Nodup) (hreturned : p.returned = true) :
    (p.flushes.flatMap (·.batch)).Perm p.accepted ∧
    (p.delivered.map Event.uid).Perm (p.accepted.map Event.uid) ∧
    (∀ f ∈ p.flushes, ∃ result, f.result? = some result ∧ ∀ e ∈ f.batch,
      p.delivered.filter (·.uid == e.uid) = [answerTo result e.uid] ∧
      (e.uid ∉ p.emptied → p.queue.slot? e.uid = some (.ready (answerTo result e.uid).msg))) ∧
    (∀ uid, uid ∉ p.accepted.map Event.uid →
      (∀ a ∈ p.delivered, a.uid ≠ uid) ∧ (uid ∉ p.emptied → p.queue.slot? uid = none)) ∧
    ∀ (settings' : CollectorSettings) (acts' : List Act) (p' : Pipeline),
      ({} : Pipeline).run settings' acts' = p' → p'.uids.Nodup → p'.returned = true →
      (p'.flushes.map fun f => (f.batch,f.result?)).Perm (p.flushes.map fun f => (f.batch,f.result?)) →
      ∀ uid, uid ∉ p.emptied → uid ∉ p'.emptied → p'.queue.slot? uid = p.queue.slot? uid := by
  have h : p.Flows := hrun ▸ flows_run flows_empty acts
  refine ⟨h.batches_of_returned hreturned,h.uids_delivered hids hreturned,
    fun f hf => answered_of_mem_batch hrun hids hreturned hf,
    fun uid hu => silent_of_not_accepted hrun hids hreturned hu,?_⟩
  intro settings' acts' p' hrun' hids' hreturned' hsame uid hu hu'
  have h' : p'.Flows := hrun' ▸ flows_run flows_empty acts'
  by_cases hmem : uid ∈ p.accepted.map Event.uid
  · obtain ⟨e,he,rfl⟩ := List.mem_map.mp hmem
    obtain ⟨f,hf,hbatch⟩ := List.mem_flatMap.mp ((h.batches_of_returned hreturned).symm.subset he)
    obtain ⟨f',hf',hpair⟩ := List.mem_map.mp
      (hsame.symm.subset (List.mem_map_of_mem (f := fun f => (f.batch,f.result?)) hf))
    obtain ⟨hbatch',hresult'⟩ := Prod.mk.injEq .. ▸ hpair
    obtain ⟨result,hresult,hslot⟩ := answered_of_mem_batch hrun hids hreturned hf
    obtain ⟨result',hresult'',hslot'⟩ := answered_of_mem_batch hrun' hids' hreturned' hf'
    obtain rfl : result' = result := Option.some.inj (hresult''.symm.trans (hresult'.trans hresult))
    rw [(hslot e hbatch).2 hu,(hslot' e (hbatch' ▸ hbatch)).2 hu']
  · have hbatches : (p'.accepted.map Event.uid).Perm (p.accepted.map Event.uid) := by
      have hbatches := hsame.flatMap_right Prod.fst
      simp only [List.flatMap_map] at hbatches
      exact (((h'.batches_of_returned hreturned').symm.trans hbatches).trans
        (h.batches_of_returned hreturned)).map Event.uid
    have hmem' : uid ∉ p'.accepted.map Event.uid := fun hin => hmem (hbatches.subset hin)
    rw [(silent_of_not_accepted hrun hids hreturned hmem).2 hu,
      (silent_of_not_accepted hrun' hids' hreturned' hmem').2 hu']

/-- Two batches, one of which fails while the sink leaves out an event of the other and answers the rest
twice, and an event too many; a call that has hold of the queue when it is closed. Whichever batch is
through first, the slots are the same. -/
theorem answered_once_of_returned_twice :
    let uid (k : UInt64) : Uid := ⟨0,k⟩
    let event (k : UInt64) : Event := ⟨uid k,.null⟩
    let settings : CollectorSettings := { limits := { elements := 2 } }
    let answers : Except BatchError (List Event) :=
      .ok [⟨uid 9,.null⟩,⟨uid 2,.bool true⟩,⟨uid 2,.bool false⟩]
    let collecting : List Act :=
      [.call (event 1),.call (event 2),.enter 1,.enter 0,.push 0,.call (event 3),.push 1,.receive 0,.close,
        .call (event 4),.receive 1,.finish,.enter 2,.push 2,.receive 2,.expire,.finish]
    let first : List Act := [.process 0 answers,.deliver 0 1,.deliver 0 0]
    let second : List Act := [.process 1 (.error .queueClosed),.deliver 1 0]
    let p := ({} : Pipeline).run settings (collecting ++ first ++ second ++ [.conclude])
    let p' := ({} : Pipeline).run settings (collecting ++ second ++ first ++ [.conclude])
    p.delivered.filter (·.uid == uid 1) = [⟨uid 1,errorBody "no response"⟩] ∧
      p.delivered.filter (·.uid == uid 2) = [⟨uid 2,.bool true⟩] ∧
      p.delivered.filter (·.uid == uid 3) = [⟨uid 3,errorBody BatchError.queueClosed.message⟩] ∧
      p.delivered.length = 3 ∧ ∀ k, p'.queue.slot? k = p.queue.slot? k := by
  intro uid event settings answers collecting first second p p'
  have hrun : p.uids.Nodup ∧ p.returned = true ∧ p.emptied = [] ∧ p.delivered.length = 3 := by
    decide +kernel
  have hrun' : p'.uids.Nodup ∧ p'.returned = true ∧ p'.emptied = [] := by decide +kernel
  have hflushes : p'.flushes = p.flushes ∧ p.flushes = [⟨[event 1,event 2],.answered answers []⟩,
      ⟨[event 3],.answered (.error .queueClosed) []⟩] := by
    simp only [p,p',collecting,first,second,answers,settings,event,uid]
    constructor <;> rfl
  have hp : ({} : Pipeline).run settings (collecting ++ first ++ second ++ [.conclude]) = p := rfl
  obtain ⟨-,-,hanswered,-,hslots⟩ := answered_once_of_returned hp hrun.1 hrun.2.1
  have hsame := hslots settings _ p' rfl hrun'.1 hrun'.2.1 (by rw [hflushes.1])
  generalize p = m at hrun hanswered hflushes hsame ⊢
  generalize p' = m' at hrun' hsame ⊢
  rw [hflushes.2] at hanswered
  obtain ⟨result,hresult,hone⟩ := hanswered _ (List.mem_cons_self ..)
  obtain rfl : answers = result := Option.some.inj hresult
  obtain ⟨result,hresult,hother⟩ := hanswered _ (List.mem_cons_of_mem _ (List.mem_cons_self ..))
  obtain rfl : .error .queueClosed = result := Option.some.inj hresult
  refine ⟨(hone (event 1) (by simp)).1,(hone (event 2) (by simp)).1,(hother (event 3) (by simp)).1,
    hrun.2.2.2,fun k => hsame k ?_ ?_⟩
  · simp [hrun.2.2.1]
  · simp [hrun'.2.2]

end Pipeline
end Tether
