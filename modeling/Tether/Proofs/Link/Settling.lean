import Mathlib.Data.List.Induction
import Tether.Proofs.Link.Docket

/-! What becomes of a request is told by the operations after its registration alone: the first one that
is about its counter, or that fails all requests, settles it, and no other does. -/
namespace Tether

namespace Docket

variable {d : Docket}

/-! ### One request -/

/-- What the books say of the request that was registered as number `n` under this counter. -/
structure Stands (d : Docket) (id : UInt32) (n : Nat) (lot : Lot) (slot : ReplySlot) : Prop where
  issued : d.issued[n]? = some id
  table : d.table.Holds n ↔ lot = .waiting
  sent : d.outcomes n = lot.outcome?.toList
  cancelled : n ∈ d.cancelled ↔ lot = .cancelled
  mail : d.mail.slot n = slot
  /-- Its receiver does not wait for nothing. -/
  live : slot = .waiting → lot = .waiting

variable {id : UInt32} {n : Nat} {lot : Lot} {slot : ReplySlot}

theorem Balanced.find?_of_holds (h : d.Balanced) (hissued : d.issued[n]? = some id)
    (hn : d.table.Holds n) : ∃ e ∈ d.table.entries, e.slot = n ∧ e.id = id := by
  obtain ⟨e,he,rfl⟩ := hn
  exact ⟨e,he,rfl,Option.some.inj ((h.entries e he).symm.trans hissued)⟩

theorem outcomes_append {d d' : Docket} {ds : List Delivery} (h : d'.sent = d.sent ++ ds) (n : Nat) :
    d'.outcomes n = d.outcomes n ++ (ds.filter (·.slot == n)).map (·.outcome) := by
  simp [outcomes,h]

theorem Stands.register (h : d.Stands id n lot slot) (hb : d.Balanced) (id' : UInt32) (tag : Tag) :
    (d.step (.register id' tag)).Stands id n lot slot := by
  have hn := (List.getElem?_eq_some_iff.mp h.issued).1
  simp only [Docket.step]
  cases hr : d.table.register id' tag with
  | error e => exact h
  | ok entered =>
    obtain ⟨table,k⟩ := entered
    obtain ⟨hc,hnew,rfl,rfl⟩ := register_eq_ok hr
    refine ⟨by rw [List.getElem?_append_left hn]; exact h.issued,?_,h.sent,h.cancelled,?_,h.live⟩
    · rw [← h.table]
      constructor
      · rintro ⟨e,he,hslot⟩
        rcases List.mem_append.mp he with he | he
        · exact ⟨e,he,hslot⟩
        · obtain rfl := List.mem_singleton.mp he
          have := hb.slots
          simp only at hslot
          omega
      · rintro ⟨e,he,hslot⟩
        exact ⟨e,List.mem_append_left _ he,hslot⟩
    · rw [Mailbox.slot_append_waiting,if_neg (by rw [hb.mail]; omega)]
      exact h.mail

theorem balanced_register (h : d.Balanced) {tag : Tag} {table : Pending}
    (hr : d.table.register id tag = .ok (table,n)) :
    (d.step (.register id tag)).Stands id n .waiting .waiting := by
  obtain ⟨hc,hnew,rfl,rfl⟩ := register_eq_ok hr
  simp only [Docket.step,hr]
  refine ⟨by simp [h.slots],iff_of_true ⟨_,List.mem_append_right _ (List.mem_singleton_self _),rfl⟩ rfl,
    ?_,?_,?_,fun _ => rfl⟩
  · simp only [outcomes,Lot.outcome?,Option.toList_none,List.map_eq_nil_iff,List.filter_eq_nil_iff,
      beq_iff_eq]
    intro m hm hslot
    have := h.delivered m hm
    have := h.slots
    omega
  · refine iff_of_false (fun hn => ?_) (by simp)
    have := h.removed _ hn
    have := h.slots
    omega
  · rw [Mailbox.slot_append_waiting,if_pos (by rw [h.mail,h.slots])]

theorem Stands.mine_or_aside (h : d.Stands id n lot slot) (hb : d.Balanced) (id' : UInt32) :
    (lot = .waiting ∧ id' = id ∧ ∃ e ∈ d.table.entries, e.id = id ∧ e.slot = n ∧
      d.table.find? id = some e) ∨
    ((lot = .waiting → id' ≠ id) ∧ ∀ e, d.table.find? id' = some e → n ≠ e.slot) := by
  by_cases hmine : lot = .waiting ∧ id' = id
  · obtain ⟨hw,rfl⟩ := hmine
    obtain ⟨e,he,hslot,hid⟩ := hb.find?_of_holds h.issued (h.table.mpr hw)
    exact .inl ⟨hw,rfl,e,he,hid,hslot,hid ▸ Pending.find?_of_mem hb.ids he⟩
  · refine .inr ⟨fun hw hid => hmine ⟨hw,hid⟩,fun e hf hslot => hmine ?_⟩
    obtain ⟨he,rfl⟩ := Pending.mem_of_find?_eq_some hf
    have hissued := hb.entries e he
    rw [← hslot,h.issued,Option.some.injEq] at hissued
    exact ⟨h.table.mp ⟨e,he,hslot.symm⟩,hissued.symm⟩

theorem Stands.congr (h : d.Stands id n lot slot) {d' : Docket} (hissued : d'.issued = d.issued)
    (htable : d'.table.Holds n ↔ d.table.Holds n) (hsent : d'.outcomes n = d.outcomes n)
    (hcancelled : n ∈ d'.cancelled ↔ n ∈ d.cancelled) (hmail : d'.mail.slot n = d.mail.slot n) :
    d'.Stands id n lot slot :=
  ⟨hissued ▸ h.issued,htable.trans h.table,hsent.trans h.sent,hcancelled.trans h.cancelled,
    hmail.trans h.mail,h.live⟩

theorem Stands.aside (h : d.Stands id n lot slot) (op : Op) {id' : UInt32}
    (hop : op.subject? = some id') (hother : lot = .waiting → id' ≠ id) :
    lot.next id op = lot ∧ seen id n slot op = slot := by
  have hslot : slot = .waiting → id' ≠ id := fun hs => hother (h.live hs)
  cases op with
  | register _ _ => exact ⟨by cases lot <;> rfl,by cases slot <;> rfl⟩
  | resolve _ _ | cancel _ =>
    obtain rfl := Option.some.inj hop
    constructor
    · cases lot with
      | waiting => exact if_neg (hother rfl)
      | settled _ | cancelled => rfl
    · cases slot with
      | waiting => exact if_neg (hslot rfl)
      | holding _ | closed | abandoned => rfl
  | failAll _ | drop _ | take _ => cases hop

theorem Stands.resolve (h : d.Stands id n lot slot) (hb : d.Balanced) (id' : UInt32) (outcome : Outcome) :
    (d.step (.resolve id' outcome)).Stands id n (lot.next id (.resolve id' outcome))
      (seen id n slot (.resolve id' outcome)) := by
  rcases h.mine_or_aside hb id' with ⟨rfl,rfl,e,he,rfl,rfl,hf⟩ | ⟨hother,hslot⟩
  · have hnext : Lot.next e.id .waiting (.resolve e.id outcome) = .settled outcome := if_pos rfl
    have hcancelled : e.slot ∉ d.cancelled := fun hn => by cases h.cancelled.mp hn
    rw [hnext]
    simp only [Docket.step,Pending.resolve,hf,Option.elim_some]
    refine ⟨h.issued,iff_of_false (fun hn => ((hb.holds_erase he _).mp hn).2 rfl) (by simp),?_,
      iff_of_false hcancelled (by simp),?_,?_⟩
    · have hnone : d.outcomes e.slot = [] := h.sent
      rw [outcomes_append rfl,hnone]
      simp [Lot.outcome?]
    · rw [← h.mail]
      cases hm : d.mail.slot e.slot with
      | waiting =>
        rw [Mailbox.slot_deliver_self (d := ⟨e.slot,outcome⟩) hm]
        exact (if_pos rfl).symm
      | holding _ | closed | abandoned =>
        rw [Mailbox.deliver_of_ne_waiting (by simp [hm]),hm]
        rfl
    · cases slot with
      | waiting => simp [seen]
      | holding _ | closed | abandoned => simp [seen]
  · obtain ⟨hnext,hseen⟩ := h.aside (.resolve id' outcome) rfl hother
    rw [hnext,hseen]
    cases hf : d.table.find? id' with
    | none => simpa [Docket.step,Pending.resolve,hf] using h
    | some e =>
      obtain ⟨he,rfl⟩ := Pending.mem_of_find?_eq_some hf
      have hne := hslot e hf
      simp only [Docket.step,Pending.resolve,hf]
      refine h.congr rfl ?_ ?_ Iff.rfl (Mailbox.slot_deliver_of_ne d.mail _ hne)
      · exact (hb.holds_erase he n).trans (and_iff_left hne)
      · rw [outcomes_append rfl]
        simp [Ne.symm hne]

theorem Stands.cancel (h : d.Stands id n lot slot) (hb : d.Balanced) (id' : UInt32) :
    (d.step (.cancel id')).Stands id n (lot.next id (.cancel id')) (seen id n slot (.cancel id')) := by
  rcases h.mine_or_aside hb id' with ⟨rfl,rfl,e,he,rfl,rfl,hf⟩ | ⟨hother,hslot⟩
  · have hnext : Lot.next e.id .waiting (.cancel e.id) = .cancelled := if_pos rfl
    rw [hnext]
    simp only [Docket.step,Pending.cancel,hf,Option.elim_some]
    refine ⟨h.issued,iff_of_false (fun hn => ((hb.holds_erase he _).mp hn).2 rfl) (by simp),h.sent,
      iff_of_true (by simp) rfl,?_,?_⟩
    · rw [← h.mail]
      cases hm : d.mail.slot e.slot with
      | waiting =>
        rw [Mailbox.slot_release_of_waiting hm,if_pos rfl]
        exact (if_pos rfl).symm
      | holding _ | closed | abandoned =>
        rw [Mailbox.release_of_ne_waiting (by simp [hm]),hm]
        rfl
    · cases slot with
      | waiting => simp [seen]
      | holding _ | closed | abandoned => simp [seen]
  · obtain ⟨hnext,hseen⟩ := h.aside (.cancel id') rfl hother
    rw [hnext,hseen]
    cases hf : d.table.find? id' with
    | none =>
      simpa [Docket.step,Pending.cancel,hf,Pending.erase_of_find?_eq_none hf] using h
    | some e =>
      obtain ⟨he,rfl⟩ := Pending.mem_of_find?_eq_some hf
      have hne := hslot e hf
      simp only [Docket.step,Pending.cancel,hf,Option.elim_some]
      refine h.congr rfl ?_ rfl ?_ ?_
      · exact (hb.holds_erase he n).trans (and_iff_left hne)
      · simp [hne]
      · by_cases hw : d.mail.slot e.slot = .waiting
        · rw [Mailbox.slot_release_of_waiting hw,if_neg hne]
        · rw [Mailbox.release_of_ne_waiting hw]

/-- All requests of the table are failed: each of them gets the one outcome, all others none. -/
theorem Stands.failAll (h : d.Stands id n lot slot) (hb : d.Balanced) (reason : String) :
    (d.step (.failAll reason)).Stands id n (lot.next id (.failAll reason))
      (seen id n slot (.failAll reason)) := by
  have hslots : ((d.table.failAll reason).2.map (·.slot)) = d.table.entries.map (·.slot) := by
    simp [Pending.failAll,Function.comp_def]
  by_cases hn : d.table.Holds n
  · obtain ⟨e,he,rfl⟩ := hn
    obtain rfl := h.table.mp ⟨e,he,rfl⟩
    have hmem : (⟨e.slot,.error (.lost reason)⟩ : Delivery) ∈ (d.table.failAll reason).2 :=
      List.mem_map.mpr ⟨e,he,rfl⟩
    have hnodup : ((d.table.failAll reason).2.map (·.slot)).Nodup := hslots ▸ hb.slots_nodup
    have hcancelled : e.slot ∉ d.cancelled := fun hn => by cases h.cancelled.mp hn
    refine ⟨h.issued,iff_of_false (by simp [Docket.step,Pending.failAll,Pending.Holds]) (by simp [Lot.next]),
      ?_,iff_of_false hcancelled (by simp [Lot.next]),?_,?_⟩
    · have hnone : d.outcomes e.slot = [] := h.sent
      rw [outcomes_append rfl,hnone,Mailbox.filter_slot_of_mem hnodup hmem]
      rfl
    · rw [← h.mail]
      cases hm : d.mail.slot e.slot with
      | waiting => exact Mailbox.slot_foldl_deliver_of_mem hnodup hmem hm
      | holding _ | closed | abandoned =>
        exact (Mailbox.foldl_deliver_slot_of_ne_waiting (by simp [hm])).trans hm
    · cases slot with
      | waiting => simp [seen]
      | holding _ | closed | abandoned => simp [seen]
  · have hlot : lot ≠ .waiting := fun hw => hn (h.table.mpr hw)
    have hseen : seen id n slot (.failAll reason) = slot := by
      cases slot with
      | waiting => exact absurd (h.live rfl) hlot
      | holding _ | closed | abandoned => rfl
    have hnot : n ∉ (d.table.failAll reason).2.map (·.slot) := by
      rw [hslots]
      simpa [Pending.Holds] using hn
    rw [Lot.next_of_ne_waiting hlot,hseen]
    refine h.congr rfl (iff_of_false (by simp [Docket.step,Pending.failAll,Pending.Holds]) hn) ?_ Iff.rfl
      (Mailbox.slot_foldl_deliver_of_notMem d.mail hnot)
    have hnone : (d.table.failAll reason).2.filter (·.slot == n) = [] := by
      simpa [List.filter_eq_nil_iff] using hnot
    rw [outcomes_append rfl,hnone]
    exact List.append_nil _

theorem Stands.drop (h : d.Stands id n lot slot) (hb : d.Balanced) (k : Nat) :
    (d.step (.drop k)).Stands id n (lot.next id (.drop k)) (seen id n slot (.drop k)) := by
  have hn : n < d.mail.length := hb.mail ▸ (List.getElem?_eq_some_iff.mp h.issued).1
  have hlot : lot.next id (.drop k) = lot := by cases lot <;> rfl
  have hseen : seen id n slot (.drop k) = if k = n then .abandoned else slot := by cases slot <;> rfl
  rw [hlot,hseen]
  refine ⟨h.issued,h.table,h.sent,h.cancelled,?_,?_⟩
  · split
    · rename_i hk
      subst hk
      simp [Docket.step,Mailbox.slot_abandon d.mail k k hn]
    · rename_i hk
      exact (Mailbox.slot_abandon_of_ne d.mail (Ne.symm hk)).trans h.mail
  · split
    · simp
    · exact h.live

theorem Stands.take (h : d.Stands id n lot slot) (k : Nat) :
    (d.step (.take k)).Stands id n (lot.next id (.take k)) (seen id n slot (.take k)) := by
  have hlot : lot.next id (.take k) = lot := by cases lot <;> rfl
  rw [hlot]
  refine ⟨h.issued,h.table,h.sent,h.cancelled,?_,?_⟩
  · by_cases hk : n = k
    · subst hk
      cases slot with
      | holding outcome => exact (Mailbox.slot_take_of_holding h.mail).trans (if_pos rfl).symm
      | waiting | closed | abandoned =>
        simp only [Docket.step]
        rw [Mailbox.take_of_not_holding (by simp [h.mail]),h.mail]
        rfl
    · have hseen : seen id n slot (.take k) = slot := by
        cases slot with
        | holding _ => exact if_neg (Ne.symm hk)
        | waiting | closed | abandoned => rfl
      rw [hseen]
      exact (Mailbox.slot_take_of_ne d.mail hk).trans h.mail
  · cases slot with
    | waiting => exact h.live
    | holding _ =>
      simp only [seen]
      split <;> simp
    | closed | abandoned => simp [seen]

theorem Stands.step (h : d.Stands id n lot slot) (hb : d.Balanced) (op : Op) :
    (d.step op).Stands id n (lot.next id op) (seen id n slot op) := by
  cases op with
  | register id' tag =>
    have hlot : lot.next id (.register id' tag) = lot := by cases lot <;> rfl
    have hseen : seen id n slot (.register id' tag) = slot := by cases slot <;> rfl
    rw [hlot,hseen]
    exact h.register hb id' tag
  | resolve id' outcome => exact h.resolve hb id' outcome
  | cancel id' => exact h.cancel hb id'
  | failAll reason => exact h.failAll hb reason
  | drop k => exact h.drop hb k
  | take k => exact h.take k

theorem Stands.run (h : d.Stands id n lot slot) (hb : d.Balanced) (ops : List Op) :
    (d.run ops).Stands id n (ops.foldl (Lot.next id) lot) (ops.foldl (seen id n) slot) := by
  induction ops generalizing d lot slot with
  | nil => exact h
  | cons op ops ih => exact ih (h.step hb op) (hb.step op)

/-! ### The whole history -/

theorem closed_step (d : Docket) (op : Op) :
    (d.step op).table.closed = d.table.closed.or op.reason? := by
  cases op with
  | register id tag =>
    simp only [step,Op.reason?,Option.or_none]
    split
    · rename_i table n hr
      obtain ⟨hc,-,-,rfl⟩ := register_eq_ok hr
      rfl
    · rfl
  | resolve id outcome =>
    simp only [step,Op.reason?,Option.or_none,Pending.resolve]
    split <;> rfl
  | cancel id => exact Option.or_none.symm
  | failAll reason => cases hc : d.table.closed <;> simp [step,Op.reason?,Pending.failAll,hc]
  | drop n => exact Option.or_none.symm
  | take n => exact Option.or_none.symm

theorem closed_run (d : Docket) (ops : List Op) :
    (d.run ops).table.closed = d.table.closed.or (ops.findSome? Op.reason?) := by
  induction ops generalizing d with
  | nil => exact Option.or_none.symm
  | cons op ops ih =>
    rw [run_cons,ih,closed_step,Option.or_assoc,List.findSome?_cons]
    cases op.reason? <;> rfl

theorem Balanced.table_of_closed (h : d.Balanced) {reason : String} (hc : d.table.closed = some reason) :
    d.table.entries = [] ∧ (∀ id tag, d.table.register id tag = .error (.lost reason)) ∧
      (∀ id outcome, d.table.resolve id outcome = (d.table,none)) ∧
      (∀ id, d.table.cancel id = (d.table,none)) ∧ ∀ later, d.table.failAll later = (d.table,[]) := by
  have hnil := h.closed (by simp [hc])
  have hfind : ∀ id, d.table.find? id = none := fun id => by simp [Pending.find?,hnil]
  refine ⟨hnil,Pending.register_of_closed hc,fun id outcome => ?_,fun id => ?_,fun later => ?_⟩
  · simp [Pending.resolve,hfind]
  · rw [Pending.cancel,hfind,Pending.erase_of_find?_eq_none (hfind id)]
  · exact Pending.failAll_of_closed hnil hc later

theorem exists_register {ops : List Op} {n : Nat} (hn : n < (run {} ops).issued.length) :
    ∃ before id tag table after, ops = before ++ .register id tag :: after ∧
      (run {} before).table.register id tag = .ok (table,n) := by
  induction ops using List.reverseRecOn with
  | nil => simp at hn
  | append_singleton ops op ih =>
    by_cases hold : n < (run {} ops).issued.length
    · obtain ⟨before,id,tag,table,after,rfl,hr⟩ := ih hold
      exact ⟨before,id,tag,table,after ++ [op],by simp,hr⟩
    · rw [run_append,run_cons,run_nil] at hn
      cases op with
      | register id tag =>
        simp only [step] at hn
        split at hn
        · rename_i table k hr
          obtain ⟨-,-,rfl,-⟩ := register_eq_ok hr
          have hslots := (balanced_empty.run ops).slots
          simp only [List.length_append,List.length_singleton] at hn
          obtain rfl : n = (run {} ops).table.nextSlot := by omega
          exact ⟨ops,id,tag,table,[],rfl,hr⟩
        · exact absurd hn hold
      | _ => exact absurd hn hold

structure Alike (d d' : Docket) (n : Nat) : Prop where
  table : d'.table.Holds n ↔ d.table.Holds n
  sent : d'.outcomes n = d.outcomes n
  cancelled : n ∈ d'.cancelled ↔ n ∈ d.cancelled
  mail : d'.mail.slot n = d.mail.slot n

theorem Stands.alike {d' : Docket} (h : d.Stands id n lot slot) (h' : d'.Stands id n lot slot) :
    d.Alike d' n :=
  ⟨h'.table.trans h.table.symm,h'.sent.trans h.sent.symm,h'.cancelled.trans h.cancelled.symm,
    h'.mail.trans h.mail.symm⟩

theorem stands_of_register {before : List Op} {tag : Tag} {table : Pending}
    (hr : (run {} before).table.register id tag = .ok (table,n)) (after : List Op) :
    (run {} (before ++ .register id tag :: after)).Stands id n (Lot.after id after)
      (after.foldl (seen id n) .waiting) := by
  have hb := balanced_empty.run before
  rw [run_append,run_cons]
  exact (balanced_register hb hr).run (hb.step _) after

/-- Whatever is done to a table of requests: each registration is counted once among the entries, the
outcomes and the cancelled entries; a request comes to what the first operation on its counter after its
own registration says, or the first failing of all, with no outcome but this one; an operation on
another counter does nothing to it; and a closed table stays empty under its first reason. -/
theorem settled_of_run (ops : List Op) :
    (run {} ops).issued.length =
        (run {} ops).table.length + (run {} ops).table.resolved + (run {} ops).cancelled.length ∧
      (∀ before id tag after table n, ops = before ++ .register id tag :: after →
        (run {} before).table.register id tag = .ok (table,n) →
        (run {} ops).Stands id n (Lot.after id after) (after.foldl (seen id n) .waiting)) ∧
      (∀ n < (run {} ops).issued.length, ∃ before id tag after table,
        ops = before ++ .register id tag :: after ∧
        (run {} before).table.register id tag = .ok (table,n)) ∧
      (∀ op id' id n, op.subject? = some id' → (run {} ops).issued[n]? = some id → id ≠ id' →
        (run {} ops).Alike ((run {} ops).step op) n) ∧
      (run {} ops).table.closed = ops.findSome? Op.reason? ∧
      ∀ reason, ops.findSome? Op.reason? = some reason →
        (run {} ops).table.entries = [] ∧
        (∀ id tag, (run {} ops).table.register id tag = .error (.lost reason)) ∧
        (∀ id outcome, (run {} ops).table.resolve id outcome = ((run {} ops).table,none)) ∧
        (∀ id, (run {} ops).table.cancel id = ((run {} ops).table,none)) ∧
        ∀ later, (run {} ops).table.failAll later = ((run {} ops).table,[]) := by
  have hb := balanced_empty.run ops
  have hclosed : (run {} ops).table.closed = ops.findSome? Op.reason? := closed_run {} ops
  refine ⟨hb.balance,?_,?_,?_,hclosed,?_⟩
  · rintro before id tag after table n rfl hr
    exact stands_of_register hr after
  · intro n hn
    obtain ⟨before,id,tag,table,after,hops,hr⟩ := exists_register hn
    exact ⟨before,id,tag,after,table,hops,hr⟩
  · intro op id' id n hop hid hne
    obtain ⟨before,id₀,tag,table,after,rfl,hr⟩ := exists_register (List.getElem?_eq_some_iff.mp hid).1
    have h := stands_of_register hr after
    obtain rfl := Option.some.inj (h.issued.symm.trans hid)
    obtain ⟨hlot,hseen⟩ := h.aside op hop fun _ he => hne he.symm
    have h' := h.step hb op
    rw [hlot,hseen] at h'
    exact h.alike h'
  · intro reason hr
    exact hb.table_of_closed (hclosed.trans hr)

end Docket
end Tether
