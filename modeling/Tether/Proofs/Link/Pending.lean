import Mathlib.Algebra.Group.Nat.Defs
import Mathlib.Tactic.Common
import Tether.Link.Connection
import Tether.Proofs.Keyed

/-! One law for each operation of the mailbox and of the table of requests in flight. A slot is waiting
until something is delivered to it or its owner leaves, and neither can be undone. -/
namespace Tether

namespace Mailbox

@[simp] theorem length_deliver (m : Mailbox) (d : Delivery) : (m.deliver d).length = m.length := by
  unfold deliver
  split <;> simp

@[simp] theorem length_abandon (m : Mailbox) (n : Nat) : (m.abandon n).length = m.length := by
  simp [abandon]

@[simp] theorem length_foldl_deliver (ds : List Delivery) (m : Mailbox) :
    (ds.foldl deliver m).length = m.length := by
  induction ds generalizing m with
  | nil => rfl
  | cons d ds ih => simp [ih]

theorem slot_append_waiting (m : Mailbox) (n : Nat) :
    Mailbox.slot (m ++ [.waiting]) n = if n = m.length then .waiting else m.slot n := by
  unfold slot
  by_cases hlt : n < m.length
  · rw [if_neg (by omega)]
    simp [hlt,List.getElem?_append_left]
  · by_cases hn : n = m.length
    · simp [hn]
    · rw [if_neg hn]
      simp [List.getElem?_eq_none (show m.length ≤ n by omega),
        List.getElem?_eq_none (show (m ++ [ReplySlot.waiting]).length ≤ n by simp; omega)]

theorem slot_set (m : Mailbox) (n k : Nat) (s : ReplySlot) (hn : n < m.length) :
    Mailbox.slot (m.set n s) k = if k = n then s else m.slot k := by
  unfold slot
  by_cases hk : k = n
  · subst hk
    simp [hn]
  · rw [if_neg hk]
    simp [List.getElem?_set_ne (Ne.symm hk)]

theorem slot_abandon (m : Mailbox) (n k : Nat) (hn : n < m.length) :
    (m.abandon n).slot k = if k = n then .abandoned else m.slot k := slot_set m n k _ hn

theorem lt_of_slot_waiting {m : Mailbox} {n : Nat} (h : m.slot n = .waiting) : n < m.length := by
  by_contra hn
  simp [slot,List.getElem?_eq_none (Nat.not_lt.mp hn)] at h

theorem slot_deliver_self {m : Mailbox} {d : Delivery} (h : m.slot d.slot = .waiting) :
    (m.deliver d).slot d.slot = .holding d.outcome := by
  rw [deliver,h]
  simp [slot_set m d.slot d.slot _ (lt_of_slot_waiting h)]

theorem slot_deliver_of_ne (m : Mailbox) (d : Delivery) {n : Nat} (h : n ≠ d.slot) :
    (m.deliver d).slot n = m.slot n := by
  unfold deliver
  split
  · rename_i hw
    simp [slot_set m d.slot n _ (lt_of_slot_waiting hw),h]
  · rfl

theorem release_of_ne_waiting {m : Mailbox} {n : Nat} (h : m.slot n ≠ .waiting) : m.release n = m := by
  unfold release
  split
  · rename_i hw
    exact absurd hw h
  · rfl

theorem slot_foldl_deliver_of_notMem {ds : List Delivery} (m : Mailbox) {n : Nat}
    (h : n ∉ ds.map (·.slot)) : (ds.foldl deliver m).slot n = m.slot n := by
  induction ds generalizing m with
  | nil => rfl
  | cons d ds ih =>
    simp only [List.map_cons,List.mem_cons,not_or] at h
    rw [List.foldl_cons,ih _ h.2,slot_deliver_of_ne m d h.1]

theorem slot_foldl_deliver_of_mem {ds : List Delivery} {m : Mailbox} {d : Delivery}
    (hnodup : (ds.map (·.slot)).Nodup) (hd : d ∈ ds) (h : m.slot d.slot = .waiting) :
    (ds.foldl deliver m).slot d.slot = .holding d.outcome := by
  induction ds generalizing m with
  | nil => simp at hd
  | cons d' ds ih =>
    simp only [List.map_cons,List.nodup_cons] at hnodup
    rw [List.foldl_cons]
    rcases List.mem_cons.mp hd with rfl | hd
    · rw [slot_foldl_deliver_of_notMem _ hnodup.1,slot_deliver_self h]
    · have hne : d.slot ≠ d'.slot := fun he => hnodup.1 (he ▸ List.mem_map_of_mem hd)
      exact ih hnodup.2 hd (by rw [slot_deliver_of_ne m d' hne,h])

theorem filter_slot_of_mem {ds : List Delivery} {d : Delivery} (hnodup : (ds.map (·.slot)).Nodup)
    (hd : d ∈ ds) : ds.filter (·.slot == d.slot) = [d] :=
  filter_key_of_mem Delivery.slot hnodup hd

end Mailbox

namespace Pending

theorem find?_eq_none_iff (p : Pending) (id : UInt32) :
    p.find? id = none ↔ ∀ e ∈ p.entries, e.id ≠ id := by
  simp [find?]

theorem mem_of_find?_eq_some {p : Pending} {id : UInt32} {e : PendingEntry} (h : p.find? id = some e) :
    e ∈ p.entries ∧ e.id = id := by
  simp only [find?] at h
  exact ⟨List.mem_of_find?_eq_some h,by simpa using List.find?_some h⟩

theorem register_of_fresh {p : Pending} {id : UInt32} (tag : Tag) (hc : p.closed = none)
    (hf : ∀ e ∈ p.entries, e.id ≠ id) :
    p.register id tag = .ok
      ({ p with entries := p.entries ++ [⟨id,tag,p.nextSlot⟩], nextSlot := p.nextSlot + 1 },
        p.nextSlot) := by
  have hnone := (find?_eq_none_iff p id).mpr hf
  simp [register,hc,contains,hnone]

theorem register_of_closed {p : Pending} {reason : String} (hc : p.closed = some reason)
    (id : UInt32) (tag : Tag) : p.register id tag = .error (.lost reason) := by
  simp [register,hc]

theorem mem_erase {p : Pending} {id : UInt32} {e : PendingEntry} :
    e ∈ (p.erase id).entries ↔ e ∈ p.entries ∧ e.id ≠ id := by
  simp [erase]

end Pending
end Tether
