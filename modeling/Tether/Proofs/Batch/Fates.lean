import Tether.Proofs.Batch.Slots

/-! What is done to the slots of a queue, as a record of sends, answers, readings and slots given up. The
record of one identifier tells what its slot shows, and how many slots there are. -/
namespace Tether

/-- Something that was done to a slot, or came too late for one. -/
inductive SlotEntry
  | sent (uid : Uid)
  | answered (answer : Event) (kept : Bool)
  | given (uid : Uid) (value : Json)
  | forgotten (uid : Uid) (found : Bool)

namespace SlotEntry

def uid : SlotEntry → Uid
  | .sent uid | .given uid _ | .forgotten uid _ => uid
  | .answered e _ => e.uid

def isSent : SlotEntry → Bool
  | .sent _ => true
  | _ => false

def isGiven : SlotEntry → Bool
  | .given .. => true
  | _ => false

def isForgotten : SlotEntry → Bool
  | .forgotten _ found => found
  | _ => false

/-- An answer was refused, or there was nothing to give up. -/
def isIdle : SlotEntry → Bool
  | .answered _ kept => !kept
  | .forgotten _ found => !found
  | _ => false

/-- How an entry changes what a slot shows, if there is one, and the answer in it. -/
inductive Moves : Option (Option Json) → SlotEntry → Option (Option Json) → Prop
  | sent (uid : Uid) : Moves none (.sent uid) (some none)
  | answered (e : Event) : Moves (some none) (.answered e true) (some (some e.msg))
  | refused (e : Event) {shown : Option (Option Json)} (h : shown ≠ some none) :
      Moves shown (.answered e false) shown
  | given (uid : Uid) (value : Json) : Moves (some (some value)) (.given uid value) none
  | forgotten (uid : Uid) (answer? : Option Json) : Moves (some answer?) (.forgotten uid true) none
  | unknown (uid : Uid) : Moves none (.forgotten uid false) none

/-- What a slot showed, what was done to it, and what it shows after that. -/
inductive Traces : Option (Option Json) → List SlotEntry → Option (Option Json) → Prop
  | nil (shown : Option (Option Json)) : Traces shown [] shown
  | cons {first middle last : Option (Option Json)} {x : SlotEntry} {entries : List SlotEntry}
      (hmove : Moves first x middle) (hrest : Traces middle entries last) : Traces first (x :: entries) last

variable {first middle last : Option (Option Json)} {entries more : List SlotEntry} {uid : Uid}

theorem Traces.append (h : Traces first entries middle) (hmore : Traces middle more last) :
    Traces first (entries ++ more) last := by
  induction h with
  | nil => exact hmore
  | cons hmove _ ih => exact .cons hmove (ih hmore)

theorem Traces.split (h : Traces first (entries ++ more) last) :
    ∃ middle, Traces first entries middle ∧ Traces middle more last := by
  induction entries generalizing first with
  | nil => exact ⟨first,.nil first,h⟩
  | cons x entries ih =>
    cases h with
    | cons hmove hrest =>
      obtain ⟨middle,hentries,hmore⟩ := ih hrest
      exact ⟨middle,.cons hmove hentries,hmore⟩

theorem Traces.idle (h : Traces none entries last) (hsent : ∀ x ∈ entries, x.isSent = false) :
    ∀ x ∈ entries, x.isIdle = true := by
  induction entries with
  | nil => simp
  | cons x entries ih =>
    have hsent' : ∀ y ∈ entries, y.isSent = false := fun y hy => hsent y (List.mem_cons_of_mem _ hy)
    cases h with
    | cons hmove hrest =>
      cases hmove with
      | sent uid => simp [isSent] at hsent
      | refused e _ => simpa [isIdle] using ih hrest hsent'
      | unknown uid => simpa [isIdle] using ih hrest hsent'

theorem Traces.ready {value : Json} (h : Traces (some (some value)) entries last)
    (hsent : ∀ x ∈ entries, x.isSent = false) (huid : ∀ x ∈ entries, x.uid = uid) :
    (∀ x ∈ entries, x.isIdle = true) ∨ ∃ refused x rest, entries = refused ++ x :: rest ∧
      (x = .given uid value ∨ x = .forgotten uid true) ∧ ∀ y ∈ refused ++ rest, y.isIdle = true := by
  induction entries with
  | nil => exact .inl (by simp)
  | cons x entries ih =>
    have hx : x.uid = uid := huid x (by simp)
    have hsent' : ∀ y ∈ entries, y.isSent = false := fun y hy => hsent y (List.mem_cons_of_mem _ hy)
    cases h with
    | cons hmove hrest =>
      cases hmove with
      | refused e _ =>
        rcases ih hrest hsent' (fun y hy => huid y (List.mem_cons_of_mem _ hy)) with
          hidle | ⟨refused,x,rest,rfl,hlast,hidle⟩
        · exact .inl (by simpa [isIdle] using hidle)
        · exact .inr ⟨.answered e false :: refused,x,rest,rfl,hlast,by simpa [isIdle] using hidle⟩
      | given u value =>
        exact .inr ⟨[],_,entries,rfl,.inl (by rw [← hx]; rfl),by simpa using hrest.idle hsent'⟩
      | forgotten u answer? =>
        exact .inr ⟨[],_,entries,rfl,.inr (by rw [← hx]; rfl),by simpa using hrest.idle hsent'⟩

/-- What is done to an identifier between one send of it and the next: the first answer is kept unless the
slot was given up before, no other is, and a reader gets none but that one, and gets it once. -/
structure Epoch (uid : Uid) (entries : List SlotEntry) : Prop where
  kept : ∀ (k : Nat) (e : Event) (kept : Bool), entries[k]? = some (.answered e kept) → (kept = true ↔ k = 0)
  given : ∀ value, .given uid value ∈ entries → ∃ refused rest,
    entries = .answered ⟨uid,value⟩ true :: (refused ++ .given uid value :: rest) ∧
    ∀ x ∈ refused ++ rest, x.isIdle = true

theorem Traces.refused (h : Traces first entries last) (hfirst : first ≠ some none)
    (hsent : ∀ x ∈ entries, x.isSent = false) {e : Event} {kept : Bool}
    (hmem : .answered e kept ∈ entries) : kept = false := by
  induction entries generalizing first with
  | nil => simp at hmem
  | cons x entries ih =>
    have hsent' : ∀ y ∈ entries, y.isSent = false := fun y hy => hsent y (List.mem_cons_of_mem _ hy)
    cases h with
    | cons hmove hrest =>
      cases hmove with
      | sent uid => simp [isSent] at hsent
      | answered e => exact absurd rfl hfirst
      | refused e' _ =>
        rcases List.mem_cons.mp hmem with heq | hmem
        · cases heq
          rfl
        · exact ih hrest hfirst hsent' hmem
      | given uid value => exact ih hrest (by simp) hsent' (List.mem_of_ne_of_mem (by simp) hmem)
      | forgotten uid answer? => exact ih hrest (by simp) hsent' (List.mem_of_ne_of_mem (by simp) hmem)
      | unknown uid => exact ih hrest (by simp) hsent' (List.mem_of_ne_of_mem (by simp) hmem)

theorem Traces.epoch (h : Traces (some none) entries last) (hsent : ∀ x ∈ entries, x.isSent = false)
    (huid : ∀ x ∈ entries, x.uid = uid) : Epoch uid entries := by
  cases h with
  | nil => exact ⟨by simp,by simp⟩
  | cons hmove hrest =>
    rename_i x middle entries
    have hsent' : ∀ y ∈ entries, y.isSent = false := fun y hy => hsent y (List.mem_cons_of_mem _ hy)
    have huid' : ∀ y ∈ entries, y.uid = uid := fun y hy => huid y (List.mem_cons_of_mem _ hy)
    cases hmove with
    | refused e hne => exact absurd rfl hne
    | answered e =>
      obtain ⟨u,value⟩ := e
      obtain rfl : u = uid := huid (.answered ⟨u,value⟩ true) (by simp)
      refine ⟨fun k e kept hk => ?_,fun v hv => ?_⟩
      · cases k with
        | zero =>
          obtain ⟨-,rfl⟩ : _ ∧ true = kept := by simpa using hk
          simp
        | succ k => simpa using hrest.refused (by simp) hsent' (List.mem_of_getElem? hk)
      · have hmem : .given u v ∈ entries := by simpa using hv
        rcases hrest.ready hsent' huid' with hidle | ⟨refused,x,rest,rfl,hx,hidle⟩
        · simpa [isIdle] using hidle _ hmem
        · have hv : .given u v = x := by
            by_contra hne
            have hother : .given u v ∈ refused ++ rest := by simpa [hne] using hmem
            simpa [isIdle] using hidle _ hother
          subst hv
          obtain rfl : v = value := by simpa using hx
          exact ⟨refused,rest,rfl,hidle⟩
    | forgotten u answer? =>
      have hidle := hrest.idle hsent'
      refine ⟨fun k e kept hk => ?_,fun v hv => ?_⟩
      · cases k with
        | zero => simp at hk
        | succ k => simpa using hrest.refused (by simp) hsent' (List.mem_of_getElem? hk)
      · have hmem : .given uid v ∈ entries := by simpa using hv
        simpa [isIdle] using hidle _ hmem

end SlotEntry

namespace EventQueue

open SlotEntry (Traces)

variable {q q' : EventQueue} {uid : Uid}

/-- What the slot of an identifier shows, if there is one, and the answer in it. -/
def shows (q : EventQueue) (uid : Uid) : Option (Option Json) := (q.slot? uid).map EventSlot.answer?

/-- No identifier has two slots. -/
def Distinct (q : EventQueue) : Prop := (q.slots.map Prod.fst).Nodup

theorem slot?_eq_none_iff : q.slot? uid = none ↔ uid ∉ q.slots.map Prod.fst := by
  unfold slot?
  induction q.slots with
  | nil => simp
  | cons s slots ih =>
    rcases s with ⟨key,slot⟩
    rw [lookup_cons_eq]
    by_cases hkey : uid = key <;> simp [hkey,ih]

theorem Distinct.openSlot (h : q.Distinct) (huid : q.slot? uid = none) : (q.openSlot uid).Distinct := by
  rw [Distinct,EventQueue.openSlot,List.map_append,List.map_singleton]
  refine List.nodup_append.mpr ⟨h,by simp,fun a ha b hb hab => ?_⟩
  refine slot?_eq_none_iff.mp huid ?_
  rw [hab,List.mem_singleton.mp hb] at ha
  exact ha

theorem keys_setSlot (q : EventQueue) (uid : Uid) (slot : EventSlot) :
    (q.setSlot uid slot).slots.map Prod.fst = q.slots.map Prod.fst := by
  rw [setSlot,List.map_map]
  refine List.map_congr_left fun s _ => ?_
  by_cases hs : s.1 = uid <;> simp [hs]

theorem Distinct.eraseSlot (h : q.Distinct) (uid : Uid) : (q.eraseSlot uid).Distinct :=
  h.sublist (List.filter_sublist.map Prod.fst)

theorem outstanding_eraseSlot (h : q.Distinct) (uid : Uid) :
    (q.eraseSlot uid).outstanding + (if (q.slot? uid).isSome then 1 else 0) = q.outstanding := by
  have hall : q.outstanding = (q.slots.filter (·.1 == uid)).length + (q.eraseSlot uid).outstanding :=
    List.length_eq_length_filter_add _
  cases hs : q.slot? uid with
  | none =>
    have hnone : q.slots.filter (·.1 == uid) = [] := by
      refine List.filter_eq_nil_iff.mpr fun s hs' he => slot?_eq_none_iff.mp hs ?_
      exact List.mem_map.mpr ⟨s,hs',by simpa using he⟩
    simp [hall,hnone]
  | some slot =>
    have hmem : uid ∈ q.slots.map Prod.fst := by
      by_contra hnot
      rw [slot?_eq_none_iff.mpr hnot] at hs
      cases hs
    obtain ⟨s,hs',rfl⟩ := List.mem_map.mp hmem
    have hone : q.slots.filter (·.1 == s.1) = [s] := filter_key_of_mem Prod.fst h hs'
    simp [hall,hone,Nat.add_comm]

/-- What is recorded when the slots become those of another queue. -/
structure Records (q : EventQueue) (entries : List SlotEntry) (q' : EventQueue) : Prop where
  traces : ∀ u, Traces (q.shows u) (entries.filter (·.uid == u)) (q'.shows u)
  outstanding : q'.outstanding + entries.countP SlotEntry.isGiven + entries.countP SlotEntry.isForgotten =
    q.outstanding + entries.countP SlotEntry.isSent
  distinct : q'.Distinct

theorem Records.append {entries more : List SlotEntry} {q'' : EventQueue} (h : Records q entries q')
    (hmore : Records q' more q'') : Records q (entries ++ more) q'' := by
  refine ⟨fun u => ?_,?_,hmore.distinct⟩
  · rw [List.filter_append]
    exact (h.traces u).append (hmore.traces u)
  · have hfirst := h.outstanding
    have hlast := hmore.outstanding
    simp only [List.countP_append]
    omega

theorem records_nil (h : q.Distinct) (hslots : q'.slots = q.slots) : Records q [] q' := by
  refine ⟨fun u => ?_,by simp [EventQueue.outstanding,hslots],by rwa [Distinct,hslots]⟩
  have hshows : q'.shows u = q.shows u := by rw [shows,slot?,hslots]; rfl
  rw [hshows]
  exact .nil _

theorem records_singleton {x : SlotEntry} (uid : Uid) (hx : x.uid = uid)
    (hself : SlotEntry.Moves (q.shows uid) x (q'.shows uid))
    (hother : ∀ u, u ≠ uid → q'.shows u = q.shows u)
    (hout : q'.outstanding + (if x.isGiven then 1 else 0) + (if x.isForgotten then 1 else 0) =
      q.outstanding + if x.isSent then 1 else 0) (hdistinct : q'.Distinct) : Records q [x] q' := by
  refine ⟨fun u => ?_,by simpa [List.countP_cons] using hout,hdistinct⟩
  by_cases hu : uid = u
  · rw [← hu,List.filter_cons_of_pos (by simpa using hx)]
    exact .cons hself (.nil _)
  · rw [hother u (Ne.symm hu),List.filter_cons_of_neg (by simpa [hx] using hu)]
    exact .nil _

theorem records_openSlot (h : q.Distinct) (huid : q.slot? uid = none) :
    Records q [.sent uid] (q.openSlot uid) := by
  have hshows (u : Uid) : (q.openSlot uid).shows u = if u = uid then some none else q.shows u := by
    rw [shows,slot?_openSlot huid]
    split <;> rfl
  refine records_singleton uid rfl ?_ (fun u hu => by rw [hshows,if_neg hu]) ?_ (h.openSlot huid)
  · rw [hshows,if_pos rfl,shows,huid]
    exact .sent uid
  · simp [EventQueue.outstanding,EventQueue.openSlot,SlotEntry.isGiven,SlotEntry.isForgotten,
      SlotEntry.isSent]

theorem answer_of_pending {e : Event} {bell : Nat} (h : q.slot? e.uid = some (.pending bell)) :
    q.answer e = ((q.setSlot e.uid (.ready e.msg)).ring bell,true) := by
  rw [answer,h]

theorem answer_of_not_pending {e : Event} (h : q.shows e.uid ≠ some none) : q.answer e = (q,false) := by
  unfold answer
  split
  · rename_i bell hs
    simp [shows,hs,EventSlot.answer?] at h
  · rfl

theorem exists_pending (h : q.shows uid = some none) : ∃ bell, q.slot? uid = some (.pending bell) := by
  unfold shows at h
  rcases hs : q.slot? uid with _ | bell | answer
  · simp [hs] at h
  · exact ⟨bell,rfl⟩
  · simp [hs,EventSlot.answer?] at h

theorem records_answer (h : q.Distinct) (e : Event) :
    Records q [.answered e (q.answer e).2] (q.answer e).1 := by
  by_cases hshows : q.shows e.uid = some none
  · obtain ⟨bell,hs⟩ := exists_pending hshows
    rw [answer_of_pending hs]
    refine records_singleton e.uid rfl ?_ (fun u hu => ?_) ?_ ?_
    · rw [hshows,shows,slot?_ring,slot?_setSlot,if_pos rfl,hs]
      exact .answered e
    · rw [shows,slot?_ring,slot?_setSlot,if_neg hu,shows]
    · simp [EventQueue.outstanding,ring,setSlot,SlotEntry.isGiven,SlotEntry.isForgotten,SlotEntry.isSent]
    · rw [Distinct,ring,keys_setSlot]
      exact h
  · rw [answer_of_not_pending hshows]
    exact records_singleton e.uid rfl (.refused e hshows) (fun _ _ => rfl) rfl h

theorem shows_eraseSlot (q : EventQueue) (uid u : Uid) :
    (q.eraseSlot uid).shows u = if u = uid then none else q.shows u := by
  rw [shows,slot?_eraseSlot]
  split <;> rfl

theorem isSome_slot? (q : EventQueue) (uid : Uid) : (q.slot? uid).isSome = (q.shows uid).isSome := by
  rw [shows,Option.isSome_map]

theorem records_dropSlot (h : q.Distinct) (uid : Uid) :
    Records q [.forgotten uid (q.slot? uid).isSome] (q.dropSlot uid).1 := by
  refine records_singleton uid rfl ?_ (fun u hu => ?_) ?_ (h.eraseSlot uid)
  · rw [dropSlot,shows_eraseSlot,if_pos rfl,isSome_slot?]
    cases q.shows uid with
    | none => exact .unknown uid
    | some answer? => exact .forgotten uid answer?
  · rw [dropSlot,shows_eraseSlot,if_neg hu]
  · have hcount := outstanding_eraseSlot h uid
    cases hs : q.slot? uid <;>
      simpa [dropSlot,hs,SlotEntry.isGiven,SlotEntry.isForgotten,SlotEntry.isSent] using hcount

def Look.entries (uid : Uid) : Look → List SlotEntry
  | .ready value => [.given uid value]
  | _ => []

theorem records_look (h : q.Distinct) (uid : Uid) :
    Records q ((q.look uid).2.entries uid) (q.look uid).1 := by
  rcases hs : q.slot? uid with _ | bell | value
  · rw [look,hs]
    exact records_nil h rfl
  · rw [look,hs]
    exact records_nil h rfl
  · have hlook : q.look uid = (q.eraseSlot uid,.ready value) := by rw [look,hs]
    rw [hlook]
    refine records_singleton uid rfl ?_ (fun u hu => ?_) ?_ (h.eraseSlot uid)
    · rw [shows_eraseSlot,if_pos rfl,shows,hs]
      exact .given uid value
    · rw [shows_eraseSlot,if_neg hu]
    · have hcount := outstanding_eraseSlot h uid
      simpa [hs,SlotEntry.isGiven,SlotEntry.isForgotten,SlotEntry.isSent] using hcount

end EventQueue
end Tether
