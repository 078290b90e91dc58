import Tether.Proofs.Link.Pending

/-! A table of requests over its whole history: requests are registered under counters that may come
back, resolved, cancelled, and failed all at once, and their receivers look at their slots or go. Every
registration is accounted for by an entry, an outcome or a cancelled entry. -/
namespace Tether

namespace Mailbox

theorem slot_release_of_waiting {m : Mailbox} {n : Nat} (h : m.slot n = .waiting) (k : Nat) :
    (m.release n).slot k = if k = n then .closed else m.slot k := by
  rw [release,h]
  exact slot_set m n k _ (lt_of_slot_waiting h)

@[simp] theorem length_release (m : Mailbox) (n : Nat) : (m.release n).length = m.length := by
  unfold release
  split <;> simp

@[simp] theorem length_take (m : Mailbox) (n : Nat) : (m.take n).1.length = m.length := by
  unfold take
  split <;> simp

theorem slot_take_of_ne (m : Mailbox) {n k : Nat} (h : k ≠ n) : (m.take n).1.slot k = m.slot k := by
  unfold take
  split
  · simp [slot,List.getElem?_set_ne (Ne.symm h)]
  · rfl

theorem slot_take_of_holding {m : Mailbox} {n : Nat} {outcome : Outcome}
    (h : m.slot n = .holding outcome) : (m.take n).1.slot n = .closed := by
  have hlt : n < m.length := by
    by_contra hn
    simp [slot,List.getElem?_eq_none (Nat.not_lt.mp hn)] at h
  rw [take,h]
  simp [slot_set m n n _ hlt]

theorem take_of_not_holding {m : Mailbox} {n : Nat} (h : ∀ outcome, m.slot n ≠ .holding outcome) :
    (m.take n).1 = m := by
  unfold take
  split
  · rename_i hh
    exact absurd hh (h _)
  · rfl

theorem slot_abandon_of_ne (m : Mailbox) {n k : Nat} (h : k ≠ n) : (m.abandon n).slot k = m.slot k := by
  simp [abandon,slot,List.getElem?_set_ne (Ne.symm h)]

theorem deliver_of_ne_waiting {m : Mailbox} {d : Delivery} (h : m.slot d.slot ≠ .waiting) :
    m.deliver d = m := by
  unfold deliver
  split
  · rename_i hw
    exact absurd hw h
  · rfl

theorem foldl_deliver_slot_of_ne_waiting {ds : List Delivery} {m : Mailbox} {n : Nat}
    (h : m.slot n ≠ .waiting) : (ds.foldl deliver m).slot n = m.slot n := by
  induction ds generalizing m with
  | nil => rfl
  | cons d ds ih =>
    have hd : (m.deliver d).slot n = m.slot n := by
      by_cases hn : n = d.slot
      · rw [deliver_of_ne_waiting (hn ▸ h)]
      · exact slot_deliver_of_ne m d hn
    rw [List.foldl_cons,ih (hd.symm ▸ h),hd]

end Mailbox

namespace Pending

def Holds (p : Pending) (n : Nat) : Prop := ∃ e ∈ p.entries, e.slot = n

theorem find?_of_mem {p : Pending} (h : (p.entries.map (·.id)).Nodup) {e : PendingEntry}
    (he : e ∈ p.entries) : p.find? e.id = some e := by
  have hf := filter_key_of_mem PendingEntry.id h he
  rw [find?,← List.head?_filter,hf]
  rfl

theorem erase_of_find?_eq_none {p : Pending} {id : UInt32} (h : p.find? id = none) : p.erase id = p := by
  have hall := (p.find?_eq_none_iff id).mp h
  simp only [erase]
  rw [List.filter_eq_self.mpr (by simpa using hall)]

theorem failAll_of_closed {p : Pending} {reason : String} (hnil : p.entries = [])
    (hc : p.closed = some reason) (later : String) : p.failAll later = (p,[]) := by
  obtain ⟨entries,closed,resolved,nextSlot⟩ := p
  obtain rfl : entries = [] := hnil
  obtain rfl : closed = some reason := hc
  rfl

theorem length_erase {p : Pending} (h : (p.entries.map (·.id)).Nodup) {e : PendingEntry}
    (he : e ∈ p.entries) : (p.erase e.id).length + 1 = p.length := by
  have hone := filter_key_of_mem PendingEntry.id h he
  have hsplit := List.length_eq_length_filter_add (l := p.entries) (·.id == e.id)
  simp only [hone,List.length_singleton] at hsplit
  simp only [length,erase,bne,hsplit]
  omega

end Pending

/-- A table, the slots of its requests, and what has happened: the counter of each registration, what
was handed over, and whose entries were cancelled. -/
structure Docket where
  table : Pending := {}
  mail : Mailbox := []
  issued : List UInt32 := []
  sent : List Delivery := []
  cancelled : List Nat := []

namespace Docket

inductive Op
  | register (id : UInt32) (tag : Tag)
  | resolve (id : UInt32) (outcome : Outcome)
  | cancel (id : UInt32)
  | failAll (reason : String)
  | drop (slot : Nat)
  | take (slot : Nat)

def Op.subject? : Op → Option UInt32
  | .register id _ | .resolve id _ | .cancel id => some id
  | .failAll _ | .drop _ | .take _ => none

def Op.reason? : Op → Option String
  | .failAll reason => some reason
  | _ => none

def step (d : Docket) : Op → Docket
  | .register id tag => match d.table.register id tag with
    | .ok (table,_) => { d with table, mail := d.mail ++ [.waiting], issued := d.issued ++ [id] }
    | .error _ => d
  | .resolve id outcome =>
    let delivery := (d.table.resolve id outcome).2
    { d with
      table := (d.table.resolve id outcome).1
      mail := delivery.elim d.mail d.mail.deliver
      sent := d.sent ++ delivery.toList }
  | .cancel id =>
    let entry := (d.table.cancel id).2
    { d with
      table := (d.table.cancel id).1
      mail := entry.elim d.mail fun e => d.mail.release e.slot
      cancelled := d.cancelled ++ (entry.map (·.slot)).toList }
  | .failAll reason =>
    let deliveries := (d.table.failAll reason).2
    { d with
      table := (d.table.failAll reason).1
      mail := deliveries.foldl Mailbox.deliver d.mail
      sent := d.sent ++ deliveries }
  | .drop n => { d with mail := d.mail.abandon n }
  | .take n => { d with mail := (d.mail.take n).1 }

def run (d : Docket) (ops : List Op) : Docket := ops.foldl step d

def outcomes (d : Docket) (n : Nat) : List Outcome :=
  (d.sent.filter (·.slot == n)).map (·.outcome)

@[simp] theorem run_nil (d : Docket) : d.run [] = d := rfl

@[simp] theorem run_cons (d : Docket) (op : Op) (ops : List Op) :
    d.run (op :: ops) = (d.step op).run ops := rfl

theorem run_append (d : Docket) (ops later : List Op) : d.run (ops ++ later) = (d.run ops).run later :=
  List.foldl_append

/-! ### What becomes of a request -/

inductive Lot
  | waiting
  | settled (outcome : Outcome)
  | cancelled

namespace Lot

def outcome? : Lot → Option Outcome
  | .settled outcome => some outcome
  | .waiting | .cancelled => none

/-- The first operation that resolves or cancels the counter of a request, or fails all requests,
decides about it. -/
def next (id : UInt32) : Lot → Op → Lot
  | .waiting, .resolve id' outcome => if id' = id then .settled outcome else .waiting
  | .waiting, .cancel id' => if id' = id then .cancelled else .waiting
  | .waiting, .failAll reason => .settled (.error (.lost reason))
  | lot, _ => lot

/-- The lot of a request under this counter, after these operations. -/
def after (id : UInt32) (ops : List Op) : Lot := ops.foldl (next id) .waiting

theorem next_of_ne_waiting {id : UInt32} {lot : Lot} (h : lot ≠ .waiting) (op : Op) :
    lot.next id op = lot := by
  cases lot with
  | waiting => exact absurd rfl h
  | settled outcome => rfl
  | cancelled => rfl

end Lot

/-- What the receiver of a request finds in its slot `n`, if it is still there. -/
def seen (id : UInt32) (n : Nat) : ReplySlot → Op → ReplySlot
  | .waiting, .resolve id' outcome => if id' = id then .holding outcome else .waiting
  | .waiting, .cancel id' => if id' = id then .closed else .waiting
  | .waiting, .failAll reason => .holding (.error (.lost reason))
  | .holding outcome, .take k => if k = n then .closed else .holding outcome
  | slot, .drop k => if k = n then .abandoned else slot
  | slot, _ => slot

/-! ### Every registration is accounted for -/

/-- Entries are found under counters of their own, which are those of their registrations; what was
registered is in the table, resolved or cancelled; and a closed table is empty. -/
structure Balanced (d : Docket) : Prop where
  slots : d.table.nextSlot = d.issued.length
  mail : d.mail.length = d.issued.length
  entries : ∀ e ∈ d.table.entries, d.issued[e.slot]? = some e.id
  ids : (d.table.entries.map (·.id)).Nodup
  sent : d.sent.length = d.table.resolved
  balance : d.issued.length = d.table.length + d.table.resolved + d.cancelled.length
  closed : d.table.closed ≠ none → d.table.entries = []
  delivered : ∀ m ∈ d.sent, m.slot < d.issued.length
  removed : ∀ n ∈ d.cancelled, n < d.issued.length

theorem balanced_empty : Balanced {} where
  slots := rfl
  mail := rfl
  entries := by simp
  ids := List.nodup_nil
  sent := rfl
  balance := rfl
  closed _ := rfl
  delivered := by simp
  removed := by simp

variable {d : Docket}

theorem Balanced.lt_of_mem (h : d.Balanced) {e : PendingEntry} (he : e ∈ d.table.entries) :
    e.slot < d.issued.length :=
  (List.getElem?_eq_some_iff.mp (h.entries e he)).1

theorem Balanced.slots_nodup (h : d.Balanced) : (d.table.entries.map (·.slot)).Nodup := by
  apply List.Nodup.of_map (f := (d.issued[·]?))
  have hmap : (d.table.entries.map (·.slot)).map (d.issued[·]?) =
      (d.table.entries.map (·.id)).map some := by
    simp only [List.map_map]
    exact List.map_congr_left fun e he => h.entries e he
  rw [hmap]
  exact h.ids.map fun _ _ => Option.some.inj

theorem Balanced.holds_erase (h : d.Balanced) {e : PendingEntry} (he : e ∈ d.table.entries) (n : Nat) :
    (d.table.erase e.id).Holds n ↔ d.table.Holds n ∧ n ≠ e.slot := by
  constructor
  · rintro ⟨e',he',rfl⟩
    obtain ⟨hmem,hne⟩ := Pending.mem_erase.mp he'
    refine ⟨⟨e',hmem,rfl⟩,fun hslot => hne ?_⟩
    have hid := h.entries e' hmem
    rw [hslot,h.entries e he,Option.some.injEq] at hid
    exact hid.symm
  · rintro ⟨⟨e',hmem,rfl⟩,hne⟩
    refine ⟨e',Pending.mem_erase.mpr ⟨hmem,fun hid => hne ?_⟩,rfl⟩
    exact congrArg PendingEntry.slot (List.inj_on_of_nodup_map h.ids hmem he hid)

/-- An entry goes out of the table, with or without an outcome. -/
theorem Balanced.remove (h : d.Balanced) {e : PendingEntry} (he : e ∈ d.table.entries)
    {d' : Docket} (resolved : Nat) (htable : d'.table = { d.table.erase e.id with resolved })
    (hmail : d'.mail.length = d.mail.length) (hissued : d'.issued = d.issued)
    (hsent : d'.sent.length = resolved)
    (hcount : resolved + d'.cancelled.length = d.table.resolved + d.cancelled.length + 1)
    (hdelivered : ∀ m ∈ d'.sent, m ∈ d.sent ∨ m.slot = e.slot)
    (hremoved : ∀ n ∈ d'.cancelled, n ∈ d.cancelled ∨ n = e.slot) : d'.Balanced := by
  have hlt := h.lt_of_mem he
  have hlen := Pending.length_erase h.ids he
  have hbalance := h.balance
  refine ⟨by rw [htable,hissued]; exact h.slots,by rw [hmail,hissued,h.mail],?_,?_,
    by rw [htable]; exact hsent,?_,?_,?_,?_⟩
  · intro e' he'
    rw [htable] at he'
    rw [hissued]
    exact h.entries e' (Pending.mem_erase.mp he').1
  · rw [htable]
    exact h.ids.sublist (List.filter_sublist.map _)
  · rw [htable,hissued]
    simp only [Pending.length] at hlen hbalance ⊢
    omega
  · intro hc
    rw [htable] at hc ⊢
    have hnil := h.closed hc
    rw [hnil] at he
    simp at he
  · intro m hm
    rw [hissued]
    rcases hdelivered m hm with hm | hm
    · exact h.delivered m hm
    · omega
  · intro n hn
    rw [hissued]
    rcases hremoved n hn with hn | hn
    · exact h.removed n hn
    · omega

theorem register_eq_ok {p p' : Pending} {id : UInt32} {tag : Tag} {n : Nat}
    (h : p.register id tag = .ok (p',n)) :
    p.closed = none ∧ p.find? id = none ∧ n = p.nextSlot ∧
      p' = { p with entries := p.entries ++ [⟨id,tag,p.nextSlot⟩], nextSlot := p.nextSlot + 1 } := by
  unfold Pending.register at h
  split at h
  · cases h
  · rename_i hc
    split at h
    · cases h
    · rename_i hnew
      cases h
      exact ⟨hc,by simpa [Pending.contains] using hnew,rfl,rfl⟩

theorem Balanced.step (h : d.Balanced) (op : Op) : (d.step op).Balanced := by
  cases op with
  | register id tag =>
    simp only [Docket.step]
    cases hr : d.table.register id tag with
    | error e => exact h
    | ok entered =>
      obtain ⟨table,n⟩ := entered
      obtain ⟨hc,hnew,rfl,rfl⟩ := register_eq_ok hr
      have hfree := (d.table.find?_eq_none_iff id).mp hnew
      refine ⟨by simp [h.slots],by simp [h.mail],?_,?_,h.sent,?_,?_,?_,?_⟩
      · intro e he
        rcases List.mem_append.mp he with he | he
        · rw [List.getElem?_append_left (h.lt_of_mem he)]
          exact h.entries e he
        · simp only [List.mem_singleton] at he
          subst he
          simp [h.slots]
      · simp only [List.map_append,List.map_cons,List.map_nil]
        refine List.nodup_append.mpr ⟨h.ids,List.nodup_singleton _,?_⟩
        intro id' hid' id'' hid'' he
        obtain ⟨e,hmem,rfl⟩ := List.mem_map.mp hid'
        exact hfree e hmem (he.trans (List.mem_singleton.mp hid''))
      · have hb := h.balance
        simp only [Pending.length,List.length_append,List.length_singleton] at hb ⊢
        omega
      · exact fun hn => absurd hc hn
      · intro m hm
        have := h.delivered m hm
        simp only [List.length_append,List.length_singleton]
        omega
      · intro k hk
        have := h.removed k hk
        simp only [List.length_append,List.length_singleton]
        omega
  | resolve id outcome =>
    cases hf : d.table.find? id with
    | none => simpa [Docket.step,Pending.resolve,hf] using h
    | some e =>
      obtain ⟨he,rfl⟩ := Pending.mem_of_find?_eq_some hf
      refine h.remove he (d.table.resolved + 1) ?_ ?_ ?_ ?_ ?_ ?_ ?_ <;>
        simp [Docket.step,Pending.resolve,hf,h.sent]
      · omega
      · rintro m (hm | rfl)
        · exact .inl hm
        · exact .inr rfl
      · exact fun n hn => .inl hn
  | cancel id =>
    cases hf : d.table.find? id with
    | none => simpa [Docket.step,Pending.cancel,hf,Pending.erase_of_find?_eq_none hf] using h
    | some e =>
      obtain ⟨he,rfl⟩ := Pending.mem_of_find?_eq_some hf
      refine h.remove he d.table.resolved ?_ ?_ ?_ ?_ ?_ ?_ ?_ <;>
        simp [Docket.step,Pending.cancel,hf,h.sent,Pending.erase]
      · omega
      · exact fun m hm => .inl hm
  | failAll reason =>
    refine ⟨h.slots,by simpa [Docket.step] using h.mail,by simp [Docket.step,Pending.failAll],
      by simp [Docket.step,Pending.failAll],
      by simp [Docket.step,Pending.failAll,Pending.length,h.sent],?_,
      fun _ => rfl,?_,h.removed⟩
    · have hb := h.balance
      simp only [Docket.step,Pending.failAll,Pending.length,List.length_nil] at hb ⊢
      omega
    · intro m hm
      simp only [Docket.step,Pending.failAll,List.mem_append,List.mem_map] at hm ⊢
      rcases hm with hm | ⟨e,he,rfl⟩
      · exact h.delivered m hm
      · exact h.lt_of_mem he
  | drop n =>
    exact ⟨h.slots,by simpa [Docket.step] using h.mail,h.entries,h.ids,h.sent,h.balance,h.closed,
      h.delivered,h.removed⟩
  | take n =>
    exact ⟨h.slots,by simpa [Docket.step] using h.mail,h.entries,h.ids,h.sent,h.balance,h.closed,
      h.delivered,h.removed⟩

theorem Balanced.run (h : d.Balanced) (ops : List Op) : (d.run ops).Balanced := by
  induction ops generalizing d with
  | nil => exact h
  | cons op ops ih => exact ih (h.step op)

end Docket
end Tether
