import Tether.Proofs.Batch.Answers

/-! Those who send events to a queue, in any order of their steps: a call gets hold of the queue, opens the
slot of its event and hands the event over. -/
namespace Tether

namespace EventQueue

def openSlot (q : EventQueue) (uid : Uid) : EventQueue :=
  { q with slots := q.slots ++ [(uid,.pending q.nextBell)], nextBell := q.nextBell + 1 }

def push (q : EventQueue) (e : Event) : EventQueue := { q with queued := q.queued ++ [e] }

theorem send_eq (q : EventQueue) (e : Event) : q.send e =
    if !q.isOpen then .error .queueClosed
    else if (q.slot? e.uid).isSome then .error (.duplicate e.uid)
    else .ok ((q.openSlot e.uid).push e) := rfl

theorem slot?_openSlot {q : EventQueue} {uid : Uid} (h : q.slot? uid = none) (u : Uid) :
    (q.openSlot uid).slot? u = if u = uid then some (.pending q.nextBell) else q.slot? u := by
  rw [slot?] at h
  rw [slot?,openSlot,List.lookup_append,lookup_cons_eq,slot?]
  by_cases hu : u = uid
  · simp [hu,h]
  · simp [hu]

end EventQueue

namespace Senders

/-- How far a call that sends an event has come. -/
inductive CallStage
  | holding
  | opened
  | accepted
  | refused (error : BatchError)
deriving DecidableEq

structure Call where
  event : Event
  stage : CallStage

/-- The call keeps the queue from ending. -/
def Call.isUnderway (c : Call) : Bool := c.stage = .holding ∨ c.stage = .opened

/-- The call has opened the slot of its event. -/
def Call.isSlotted (c : Call) : Bool := c.stage = .opened ∨ c.stage = .accepted

end Senders

structure Senders where
  queue : EventQueue := {}
  calls : List Senders.Call := []

namespace Senders

/-- The events whose call was told that they were accepted. -/
def accepted (s : Senders) : List Event := (s.calls.filter fun c => c.stage = .accepted).map (·.event)

/-- The identifiers of all calls, in the order in which they were made. -/
def uids (s : Senders) : List Uid := s.calls.map (·.event.uid)

/-- The events of calls that hold the queue. -/
def underway (s : Senders) : List Event := (s.calls.filter Call.isUnderway).map (·.event)

def call (s : Senders) (e : Event) : Senders :=
  { s with calls := s.calls ++ [⟨e,if s.queue.isOpen then .holding else .refused .queueClosed⟩] }

def setCall (s : Senders) (k : Nat) (e : Event) (stage : CallStage) : Senders :=
  { s with calls := s.calls.set k ⟨e,stage⟩ }

/-- A call opens the slot of its event, unless there is one. The identifier is told if it does. -/
def enter (s : Senders) (k : Nat) : Senders × Option Uid :=
  match s.calls[k]? with
  | some ⟨e,.holding⟩ =>
    if (s.queue.slot? e.uid).isSome then (s.setCall k e (.refused (.duplicate e.uid)),none)
    else ({ s with queue := s.queue.openSlot e.uid }.setCall k e .opened,some e.uid)
  | _ => (s,none)

def push (s : Senders) (k : Nat) : Senders × Option Event :=
  match s.calls[k]? with
  | some ⟨e,.opened⟩ => ({ s with queue := s.queue.push e }.setCall k e .accepted,some e)
  | _ => (s,none)

variable {s : Senders} {k : Nat} {e : Event} {stage : CallStage}

theorem send_eq (s : Senders) (e : Event) :
    let entered := (s.call e).enter s.calls.length
    let pushed := entered.1.push s.calls.length
    match s.queue.send e with
    | .ok queue =>
      pushed.1 = ⟨queue,s.calls ++ [⟨e,.accepted⟩]⟩ ∧ entered.2 = some e.uid ∧ pushed.2 = some e
    | .error error =>
      pushed.1 = { s with calls := s.calls ++ [⟨e,.refused error⟩] } ∧ entered.2 = none ∧ pushed.2 = none := by
  rw [EventQueue.send_eq]
  by_cases hopen : s.queue.isOpen = true
  · by_cases hslot : (s.queue.slot? e.uid).isSome = true <;> simp [call,enter,push,setCall,hopen,hslot]
  · simp [call,enter,push,hopen]

/-! ### A call moves on -/

theorem exists_split (hk : s.calls[k]? = some ⟨e,stage⟩) : ∃ before after,
    s.calls = before ++ ⟨e,stage⟩ :: after ∧
    ∀ next, (s.setCall k e next).calls = before ++ ⟨e,next⟩ :: after := by
  obtain ⟨before,after,hcalls,hset⟩ := exists_split_of_getElem? hk
  exact ⟨before,after,hcalls,fun next => hset ⟨e,next⟩⟩

theorem accepted_setCall (hk : s.calls[k]? = some ⟨e,stage⟩) (hstage : stage ≠ .accepted)
    (next : CallStage) :
    (s.setCall k e next).accepted.Perm (s.accepted ++ if next = .accepted then [e] else []) := by
  obtain ⟨before,after,hcalls,hset⟩ := exists_split hk
  simp only [accepted,hset,hcalls]
  by_cases hnext : next = .accepted
  · simp only [hnext,List.filter_append,List.filter_cons,hstage,List.map_append,decide_true,if_true,
      decide_false,Bool.false_eq_true,if_false,List.map_cons]
    exact List.perm_middle.trans (List.perm_append_singleton ..).symm
  · simp [List.filter_append,hstage,hnext]

theorem uids_setCall (hk : s.calls[k]? = some ⟨e,stage⟩) (next : CallStage) :
    (s.setCall k e next).uids = s.uids := by
  obtain ⟨before,after,hcalls,hset⟩ := exists_split hk
  simp [uids,hset,hcalls]

theorem underway_setCall (hk : s.calls[k]? = some ⟨e,stage⟩)
    (hstage : Call.isUnderway ⟨e,stage⟩ = true) (next : CallStage) :
    ((if Call.isUnderway ⟨e,next⟩ then [] else [e]) ++ (s.setCall k e next).underway).Perm s.underway := by
  obtain ⟨before,after,hcalls,hset⟩ := exists_split hk
  simp only [underway,hset,hcalls,List.filter_append,List.filter_cons,hstage,if_true,List.map_append,
    List.map_cons]
  split
  · exact .refl _
  · simpa using List.perm_middle.symm

theorem countP_setCall (p : Call → Bool) (hk : s.calls[k]? = some ⟨e,stage⟩) (next : CallStage) :
    (s.setCall k e next).calls.countP p + (if p ⟨e,stage⟩ then 1 else 0) =
      s.calls.countP p + if p ⟨e,next⟩ then 1 else 0 := by
  obtain ⟨before,after,hcalls,hset⟩ := exists_split hk
  simp only [hset,hcalls,List.countP_append,List.countP_cons]
  omega

theorem any_setCall (p : Call → Bool) (hk : s.calls[k]? = some ⟨e,stage⟩) : ∃ others : Bool,
    s.calls.any p = (others || p ⟨e,stage⟩) ∧
    ∀ next, (s.setCall k e next).calls.any p = (others || p ⟨e,next⟩) := by
  obtain ⟨before,after,hcalls,hset⟩ := exists_split hk
  have hany (c : Call) : (before ++ c :: after).any p = ((before ++ after).any p || p c) := by
    rw [List.any_append,List.any_append,List.any_cons,Bool.or_assoc,Bool.or_comm (p c)]
  exact ⟨(before ++ after).any p,by rw [hcalls,hany],fun next => by rw [hset,hany]⟩

end Senders
end Tether
