import Mathlib.Data.List.Nodup
import Mathlib.Data.Nat.Find
import Mathlib.Tactic.IntervalCases
import Tether.Proofs.Link.Requests

/-! How a request comes to its counter. The search has no bound of its own: it draws one counter after the
other, and goes on for as long as the table holds the one that was drawn. On an open table that leaves a counter
free it ends at the first such counter, and as the counters before it are outstanding it takes one round more
than there are requests at most. With the bound that the link puts on it, it finds the same. -/
namespace Tether

namespace Pending

variable {p : Pending} {counter id : UInt32} {n : Nat}

theorem contains_iff : p.contains id = true ↔ id ∈ p.entries.map (·.id) := by
  simp [contains,find?]

theorem contains_eq_false_iff : p.contains id = false ↔ p.find? id = none := by
  simp [contains]

def enter (p : Pending) (id : UInt32) (tag : Tag) : Pending :=
  { p with entries := p.entries ++ [⟨id,tag,p.nextSlot⟩], nextSlot := p.nextSlot + 1 }

theorem register_of_free (hopen : p.closed = none) (h : p.contains id = false) (tag : Tag) :
    p.register id tag = .ok (p.enter id tag,p.nextSlot) :=
  register_of_fresh tag hopen ((find?_eq_none_iff p id).mp (contains_eq_false_iff.mp h))

theorem register_of_outstanding (hopen : p.closed = none) (h : p.contains id = true) (tag : Tag) :
    p.register id tag = .error (.protocol (.outstanding id)) := by
  simp [register,hopen,h]

theorem find?_enter (h : p.contains id = false) (tag : Tag) (other : UInt32) :
    (p.enter id tag).find? other = if other = id then some ⟨id,tag,p.nextSlot⟩ else p.find? other := by
  have hnone : p.entries.find? (·.id == id) = none := contains_eq_false_iff.mp h
  simp only [enter,find?,List.find?_append]
  split
  · rename_i heq
    subst heq
    simp [hnone]
  · rename_i hne
    simp [Ne.symm hne]

/-! ### Counters in a row -/

theorem le_length_of_outstanding (hn : n ≤ 2^32)
    (h : ∀ k < n, p.contains (counter + .ofNat k) = true) : n ≤ p.length := by
  have hnodup : ((List.range n).map fun k => counter + UInt32.ofNat k).Nodup := by
    refine List.nodup_range.map_on fun i hi j hj hij => ?_
    rw [List.mem_range] at hi hj
    exact Session.counter_inj (Nat.lt_of_lt_of_le hi hn) (Nat.lt_of_lt_of_le hj hn) hij
  have hsubset : ((List.range n).map fun k => counter + UInt32.ofNat k) ⊆ p.entries.map (·.id) := by
    intro id hid
    obtain ⟨k,hk,rfl⟩ := List.mem_map.mp hid
    exact contains_iff.mp (h k (List.mem_range.mp hk))
  simpa [length] using (List.subperm_of_subset hnodup hsubset).length_le

theorem exists_free (h : p.length < 2^32) : ∃ id, p.contains id = false := by
  by_contra hnone
  have hall : ∀ k < 2^32, p.contains (0 + .ofNat k) = true := fun k _ => by simpa using not_exists.mp hnone _
  exact absurd (le_length_of_outstanding (Nat.le_refl _) hall) (not_le.mpr h)

theorem exists_first_free (h : ∃ id, p.contains id = false) (counter : UInt32) :
    ∃ k < 2^32, p.contains (counter + .ofNat k) = false ∧
      ∀ j < k, p.contains (counter + .ofNat j) = true := by
  obtain ⟨id,hid⟩ := h
  have hid' : p.contains (counter + .ofNat (id - counter).toNat) = false := by
    rwa [UInt32.ofNat_toNat,UInt32.add_comm,UInt32.sub_add_cancel]
  have hfree : ∃ k, p.contains (counter + .ofNat k) = false := ⟨_,hid'⟩
  exact ⟨Nat.find hfree,Nat.lt_of_le_of_lt (Nat.find_min' hfree hid') (id - counter).toNat_lt,
    Nat.find_spec hfree,fun j hj => by simpa using Nat.find_min hfree hj⟩

end Pending

namespace Connection

/-- How a search ends: with the table, and with a ticket or the reason why there is none. -/
structure Found where
  table : Pending
  result : Except LinkError Ticket

/-- One round draws a counter. There is no end yet if the table holds it. -/
def round (tag : Tag) (p : Pending) (counter : UInt32) : Option Found :=
  match p.register counter tag with
  | .ok (table,slot) => some ⟨table,.ok ⟨counter,slot⟩⟩
  | .error (.protocol _) => none
  | .error e => some ⟨p,.error e⟩

/-- A search without a bound, from a counter on, with the number of its rounds. -/
inductive Search (tag : Tag) (p : Pending) : UInt32 → Nat → Found → Prop
  | ends {counter found} : round tag p counter = some found → Search tag p counter 1 found
  | goesOn {counter rounds found} : round tag p counter = none → Search tag p (counter + 1) rounds found →
    Search tag p counter (rounds + 1) found

variable {tag : Tag} {p : Pending} {counter : UInt32} {rounds : Nat} {found : Found}

theorem round_of_free (hopen : p.closed = none) (h : p.contains counter = false) :
    round tag p counter = some ⟨p.enter counter tag,.ok ⟨counter,p.nextSlot⟩⟩ := by
  rw [round,Pending.register_of_free hopen h]

theorem round_of_outstanding (hopen : p.closed = none) (h : p.contains counter = true) :
    round tag p counter = none := by
  rw [round,Pending.register_of_outstanding hopen h]

theorem round_of_closed {reason : String} (hclosed : p.closed = some reason) :
    round tag p counter = some ⟨p,.error (.lost reason)⟩ := by
  rw [round,Pending.register_of_closed hclosed]

theorem Search.unique {found' : Found} {rounds' : Nat} (h : Search tag p counter rounds found)
    (h' : Search tag p counter rounds' found') : rounds' = rounds ∧ found' = found := by
  induction h generalizing rounds' with
  | ends hround =>
    cases h' with
    | ends hround' => exact ⟨rfl,Option.some.inj (hround'.symm.trans hround)⟩
    | goesOn hround' _ => cases hround'.symm.trans hround
  | goesOn hround _ ih =>
    cases h' with
    | ends hround' => cases hround'.symm.trans hround
    | goesOn _ hrest =>
      obtain ⟨rfl,rfl⟩ := ih hrest
      exact ⟨rfl,rfl⟩

theorem Search.iff_eq (h : Search tag p counter rounds found) (rounds' : Nat) (found' : Found) :
    Search tag p counter rounds' found' ↔ rounds' = rounds ∧ found' = found := by
  constructor
  · exact h.unique
  · rintro ⟨rfl,rfl⟩
    exact h

theorem Search.pass (hopen : p.closed = none) {k : Nat}
    (hall : ∀ j < k, p.contains (counter + .ofNat j) = true)
    (h : Search tag p (counter + .ofNat k) rounds found) : Search tag p counter (rounds + k) found := by
  induction k generalizing rounds with
  | zero => simpa using h
  | succ k ih =>
    have hnext : counter + .ofNat k + 1 = counter + .ofNat (k + 1) := by
      rw [UInt32.ofNat_add,UInt32.add_assoc]
      rfl
    have hlast : Search tag p (counter + .ofNat k) (rounds + 1) found :=
      .goesOn (round_of_outstanding hopen (hall k (Nat.lt_succ_self k))) (hnext ▸ h)
    have hfront := ih (fun j hj => hall j (Nat.lt_succ_of_lt hj)) hlast
    rwa [Nat.add_right_comm] at hfront

theorem search_of_first_free (hopen : p.closed = none) {k : Nat}
    (hall : ∀ j < k, p.contains (counter + .ofNat j) = true)
    (hfree : p.contains (counter + .ofNat k) = false) :
    Search tag p counter (k + 1)
      ⟨p.enter (counter + .ofNat k) tag,.ok ⟨counter + .ofNat k,p.nextSlot⟩⟩ := by
  rw [Nat.add_comm]
  exact .pass hopen hall (.ends (round_of_free hopen hfree))

theorem not_search_of_full (hopen : p.closed = none) (hfull : ∀ id, p.contains id = true) :
    ¬ Search tag p counter rounds found := by
  intro h
  induction h with
  | ends hround => cases hround.symm.trans (round_of_outstanding hopen (hfull _))
  | goesOn _ _ ih => exact ih

theorem exists_search_iff : (∃ rounds found, Search tag p counter rounds found) ↔
    p.closed ≠ none ∨ ∃ id, p.contains id = false := by
  constructor
  · rintro ⟨rounds,found,h⟩
    by_contra hnot
    simp only [not_or,not_not,not_exists,Bool.not_eq_false] at hnot
    exact not_search_of_full hnot.1 hnot.2 h
  · intro h
    cases hclosed : p.closed with
    | some reason => exact ⟨_,_,.ends (round_of_closed hclosed)⟩
    | none =>
      obtain ⟨k,-,hfree,hall⟩ := Pending.exists_first_free (h.resolve_left (not_not.mpr hclosed)) counter
      exact ⟨_,_,search_of_first_free hclosed hall hfree⟩

theorem allocate_succ (tag : Tag) (p : Pending) (counter : UInt32) (fuel : Nat) :
    allocate tag p counter (fuel + 1) = match round tag p counter with
      | some found => found.result.map (found.table,·)
      | none => allocate tag p (counter + 1) fuel := by
  rw [allocate,round]
  cases p.register counter tag with
  | ok entered => rfl
  | error e => cases e <;> rfl

theorem Search.allocate_eq (h : Search tag p counter rounds found) {fuel : Nat} (hfuel : rounds ≤ fuel) :
    allocate tag p counter fuel = found.result.map (found.table,·) := by
  induction h generalizing fuel with
  | ends hround =>
    obtain ⟨fuel,rfl⟩ := Nat.exists_eq_add_of_le' hfuel
    rw [allocate_succ,hround]
  | goesOn hround _ ih =>
    obtain ⟨fuel,rfl⟩ := Nat.exists_eq_add_of_le' (Nat.le_of_add_left_le hfuel)
    rw [allocate_succ,hround]
    exact ih (Nat.le_of_succ_le_succ hfuel)

theorem Search.startRequest_eq {c : Connection} (h : Search tag c.pending c.nextCounter rounds found)
    (hrounds : rounds ≤ c.pending.length + 1) : c.startRequest tag = found.result.map fun ticket =>
      ({ c with pending := found.table, mail := c.mail ++ [.waiting], nextCounter := ticket.counter + 1 },
        ticket) := by
  rw [startRequest,h.allocate_eq hrounds]
  cases found.result <;> rfl

/-- Starting a request ends. On a closed table it is refused in the first round, for the reason of the table,
and nothing changes. On an open one that holds fewer than 2^32 requests it takes one round more than there are
outstanding counters from the next one on, which are no more than there are requests; the request gets the
first counter behind them, modulo 2^32, is the only new one in the table, and the search goes on from the
counter after its own. -/
theorem numbered_of_search (c : Connection) (tag : Tag) :
    (∀ reason, c.pending.closed = some reason →
      (∀ rounds found, Search tag c.pending c.nextCounter rounds found ↔
        rounds = 1 ∧ found = ⟨c.pending,.error (.lost reason)⟩) ∧
      c.startRequest tag = .error (.lost reason) ∧
      ∀ s : Session, s.link = c → s.step (.start tag) = s) ∧
    (c.pending.closed = none → c.pending.length < 2^32 → ∃ k ≤ c.pending.length, ∃ id table,
      id = c.nextCounter + .ofNat k ∧ c.pending.contains id = false ∧
      (∀ j < k, c.pending.contains (c.nextCounter + .ofNat j) = true) ∧
      (∀ rounds found, Search tag c.pending c.nextCounter rounds found ↔
        rounds = k + 1 ∧ found = ⟨table,.ok ⟨id,c.pending.nextSlot⟩⟩) ∧
      table.entries = c.pending.entries ++ [⟨id,tag,c.pending.nextSlot⟩] ∧
      (∀ other, table.find? other =
        if other = id then some ⟨id,tag,c.pending.nextSlot⟩ else c.pending.find? other) ∧
      c.startRequest tag = .ok
        ({ c with pending := table, mail := c.mail ++ [.waiting], nextCounter := id + 1 },
          ⟨id,c.pending.nextSlot⟩)) := by
  refine ⟨fun reason hclosed => ?_,fun hopen hfew => ?_⟩
  · have hsearch : Search tag c.pending c.nextCounter 1 _ := .ends (round_of_closed hclosed)
    have hstart := hsearch.startRequest_eq (Nat.le_add_left _ _)
    refine ⟨hsearch.iff_eq,hstart,fun s hs => ?_⟩
    subst hs
    simp only [Session.step,Session.start,hstart,Except.map]
  · obtain ⟨k,hk,hfree,hall⟩ := Pending.exists_first_free (Pending.exists_free hfew) c.nextCounter
    have hle := Pending.le_length_of_outstanding (Nat.le_of_lt hk) hall
    have hsearch : Search tag c.pending c.nextCounter (k + 1) _ := search_of_first_free hopen hall hfree
    exact ⟨k,hle,_,_,rfl,hfree,hall,hsearch.iff_eq,rfl,Pending.find?_enter hfree tag,
      hsearch.startRequest_eq (Nat.succ_le_succ hle)⟩

/-- Two requests around the end of the counters, and the next one draws the last counter. -/
def brimming : Connection :=
  { establish "worker" .initiator "peer" 4294967295 with
    pending := { entries := [⟨4294967295,.echo,0⟩,⟨0,.echo,1⟩], nextSlot := 2 }
    mail := [.waiting,.waiting] }

/-- It is the third counter that is free, behind the one that the count begins with again. -/
theorem numbered_of_search_brimming :
    (brimming.pending.closed = none ∧ brimming.pending.length < 2^32 ∧
      ∃ table, Search .echo brimming.pending brimming.nextCounter 3 ⟨table,.ok ⟨1,2⟩⟩ ∧
        brimming.startRequest .echo = .ok
          ({ brimming with pending := table, mail := brimming.mail ++ [.waiting], nextCounter := 2 },⟨1,2⟩)) ∧
      (brimming.failPending "bye").pending.closed = some "bye" ∧
        (brimming.failPending "bye").startRequest .echo = .error (.lost "bye") := by
  obtain ⟨k,hk,id,table,rfl,hfree,-,hsearch,-,-,hstart⟩ :=
    (numbered_of_search brimming .echo).2 rfl (by decide)
  have hk : k ≤ 2 := hk
  have htwo : k = 2 := by
    interval_cases k
    · exact absurd hfree (by decide)
    · exact absurd hfree (by decide)
    · rfl
  subst htwo
  exact ⟨⟨rfl,by decide,table,(hsearch _ _).mpr ⟨rfl,rfl⟩,hstart⟩,rfl,
    ((numbered_of_search (brimming.failPending "bye") .echo).1 "bye" rfl).2.1⟩

end Connection
end Tether
