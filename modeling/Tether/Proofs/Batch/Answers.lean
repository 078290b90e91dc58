import Tether.Batch.Collector
import Tether.Proofs.Keyed

/-! What the parts of a batcher do by themselves: the answers to a batch are one for each of its events,
whatever the sink has returned; a collector hands on every event that it is given; and the slots of a
queue, seen one identifier at a time. -/
namespace Tether

/-! ### Answers -/

/-- The answer to an event: the first one that its sink gave, or else an object with an error. -/
def answerTo (result : Except BatchError (List Event)) (uid : Uid) : Event :=
  match result with
  | .ok answers => (answers.find? (·.uid == uid)).getD ⟨uid,errorBody "no response"⟩
  | .error e => ⟨uid,errorBody e.message⟩

@[simp] theorem uid_answerTo (result : Except BatchError (List Event)) (uid : Uid) :
    (answerTo result uid).uid = uid := by
  cases result with
  | error e => rfl
  | ok answers =>
    simp only [answerTo]
    cases h : answers.find? (·.uid == uid) with
    | none => rfl
    | some e => simpa using List.find?_some h

/-- Of the answers to an identifier the first one counts, if it is waited for; without one it is left. -/
theorem firstAnswers_eq (unanswered : List Uid) (answers : List Event) :
    (∀ uid, (firstAnswers unanswered answers).1.filter (·.uid == uid) =
      (if uid ∈ unanswered then answers.find? (·.uid == uid) else none).toList) ∧
    (firstAnswers unanswered answers).2 =
      unanswered.filter fun uid => (answers.find? (·.uid == uid)).isNone := by
  induction answers generalizing unanswered with
  | nil => simp [firstAnswers]
  | cons answer rest ih =>
    by_cases hmem : unanswered.contains answer.uid = true
    · obtain ⟨hfound,hleft⟩ := ih (unanswered.filter (· != answer.uid))
      simp only [firstAnswers,hmem,if_true]
      refine ⟨fun uid => ?_,?_⟩
      · by_cases hu : answer.uid = uid
        · subst hu
          have hnone : answer.uid ∉ unanswered.filter (· != answer.uid) := by simp
          rw [List.filter_cons_of_pos (by simp),hfound,if_neg hnone,if_pos (by simpa using hmem)]
          simp
        · simp [hu,hfound,List.mem_filter,Ne.symm hu]
      · rw [hleft,List.filter_filter]
        refine List.filter_congr fun uid _ => ?_
        by_cases hu : answer.uid = uid
        · simp [hu]
        · simp [hu,Ne.symm hu]
    · obtain ⟨hfound,hleft⟩ := ih unanswered
      have hne : ∀ uid ∈ unanswered, answer.uid ≠ uid := fun uid hu he => hmem (by simpa [he] using hu)
      simp only [firstAnswers,hmem]
      refine ⟨fun uid => ?_,hleft.trans (List.filter_congr fun uid hu => by simp [hne uid hu])⟩
      refine (hfound uid).trans (congrArg Option.toList ?_)
      by_cases hu : uid ∈ unanswered
      · simp [hu,hne uid hu]
      · simp [hu]

theorem answersFor_perm {batch : List Event} (h : (batch.map Event.uid).Nodup)
    (result : Except BatchError (List Event)) :
    (answersFor batch result).Perm (batch.map fun e => answerTo result e.uid) := by
  cases result with
  | error e =>
    rw [answersFor,List.map_map]
    exact .refl _
  | ok answers =>
    refine perm_of_filter_key Event.uid fun uid => ?_
    obtain ⟨hfound,hleft⟩ := firstAnswers_eq (batch.map Event.uid) answers
    simp only [answersFor,List.filter_append,hfound,hleft,List.filter_map,Function.comp_def,uid_answerTo]
    rw [List.filter_comm]
    by_cases hu : uid ∈ batch.map Event.uid
    · obtain ⟨e,he,rfl⟩ := List.mem_map.mp hu
      rw [if_pos hu,filter_key_of_mem Event.uid h he]
      cases hf : answers.find? (·.uid == e.uid) <;> simp [hf,answerTo]
    · have hnone : batch.filter (fun e => e.uid == uid) = [] :=
        List.filter_eq_nil_iff.mpr fun a ha he => hu (List.mem_map.mpr ⟨a,ha,beq_iff_eq.mp he⟩)
      rw [if_neg hu,hnone]
      rfl

/-! ### The collector -/

namespace Collector

variable {c : Collector}

theorem flush_eq (c : Collector) : c.flush =
    (⟨{},none⟩,if c.buffer.events.isEmpty then none else some c.buffer.events) := rfl

def Flush.events (f : Flush) : List Event := f.getD []

theorem events_flush (c : Collector) : Flush.events c.flush.2 = c.buffer.events := by
  rw [flush_eq]
  cases h : c.buffer.events <;> simp [Flush.events]

theorem events_receive (settings : CollectorSettings) (now : Nat) (c : Collector) (e : Event) :
    Flush.events (c.receive settings now e).2 ++ (c.receive settings now e).1.buffer.events =
      c.buffer.events ++ [e] := by
  have hadd : (c.buffer.add e).events = c.buffer.events ++ [e] := by
    simp [BatchBuffer.add,BatchBuffer.events]
  unfold receive
  simp only
  split
  · rw [events_flush,flush_eq]
    exact (List.append_nil _).trans hadd
  · simp [Flush.events,hadd]

end Collector

/-! ### Slots -/

namespace EventQueue

variable {q : EventQueue}

theorem lookup_cons_eq (u uid : Uid) (slot : EventSlot) (slots : List (Uid × EventSlot)) :
    ((uid,slot) :: slots).lookup u = if u = uid then some slot else slots.lookup u := by
  by_cases h : u = uid
  · simp [h]
  · simp [List.lookup_cons,h,show (u == uid) = false by simpa using h]

theorem slot?_eraseSlot (q : EventQueue) (uid u : Uid) :
    (q.eraseSlot uid).slot? u = if u = uid then none else q.slot? u := by
  simp only [slot?,eraseSlot]
  induction q.slots with
  | nil => simp
  | cons s slots ih =>
    rcases s with ⟨key,slot⟩
    rw [lookup_cons_eq]
    by_cases hkey : key = uid
    · rw [List.filter_cons_of_neg (by simp [hkey]),ih]
      by_cases hu : u = uid <;> simp [hu,hkey]
    · rw [List.filter_cons_of_pos (by simp [hkey]),lookup_cons_eq,ih]
      by_cases hu : u = key
      · simp [hu,hkey]
      · simp [hu]

theorem slot?_setSlot (q : EventQueue) (uid u : Uid) (slot : EventSlot) :
    (q.setSlot uid slot).slot? u = if u = uid then (q.slot? u).map fun _ => slot else q.slot? u := by
  simp only [slot?,setSlot]
  induction q.slots with
  | nil => simp
  | cons s slots ih =>
    rcases s with ⟨key,old⟩
    have hset : (if (key == uid) = true then (uid,slot) else (key,old)) =
        (key,if key = uid then slot else old) := by
      by_cases hkey : key = uid <;> simp [hkey]
    rw [List.map_cons,hset,lookup_cons_eq,lookup_cons_eq,ih]
    by_cases hu : u = key
    · subst hu
      by_cases hkey : u = uid <;> simp [hkey]
    · simp [hu]

@[simp] theorem queued_answer (q : EventQueue) (e : Event) : (q.answer e).1.queued = q.queued := by
  unfold answer
  split <;> rfl

@[simp] theorem isOpen_answer (q : EventQueue) (e : Event) : (q.answer e).1.isOpen = q.isOpen := by
  unfold answer
  split <;> rfl

@[simp] theorem queued_look (q : EventQueue) (uid : Uid) : (q.look uid).1.queued = q.queued := by
  unfold look
  split <;> rfl

@[simp] theorem isOpen_look (q : EventQueue) (uid : Uid) : (q.look uid).1.isOpen = q.isOpen := by
  unfold look
  split <;> rfl

@[simp] theorem slot?_ring (q : EventQueue) (bell : Nat) (u : Uid) : (q.ring bell).slot? u = q.slot? u := rfl

theorem slot?_answer_self (q : EventQueue) (e : Event) : (q.answer e).1.slot? e.uid =
    match q.slot? e.uid with
    | some (.pending _) => some (.ready e.msg)
    | slot => slot := by
  unfold answer
  cases hs : q.slot? e.uid with
  | none => simpa using hs
  | some slot =>
    cases slot with
    | pending bell => simp [slot?_setSlot,hs]
    | ready answer => simpa using hs

theorem slot?_answer_of_ne (q : EventQueue) {e : Event} {u : Uid} (h : u ≠ e.uid) :
    (q.answer e).1.slot? u = q.slot? u := by
  unfold answer
  split
  · simp [slot?_setSlot,h]
  · rfl

end EventQueue

end Tether
