import Tether.Proofs.Link.Hearing
import Tether.Proofs.Link.Reusing

/-! By what a request is decided, over any number of starts: a reply decides the request that waits under
its counter, and nothing but such a reply or the loss of the link comes to a request. A reply that comes
after its request was left finds nobody, unless the counter has come round. -/
namespace Tether

namespace Session
open Docket (Op Lot)

variable {s : Session} {d : Docket} {i k : Nat} {id : UInt32} {lot : Lot} {t : Ticket} {outcome : Outcome}

/-- What may come to a request: what a reply under its own counter means, or the loss of the link. -/
inductive Told (replies : List Message) (id : UInt32) : Outcome → Prop
  | reply (m : Message) : m ∈ replies → m.counter = id → Told replies id (Connection.outcomeOf m)
  | lost (reason : String) : Told replies id (.error (.lost reason))

theorem Told.mono {replies replies' : List Message} (h : Told replies id outcome) (hsub : replies ⊆ replies') :
    Told replies' id outcome := by
  cases h with
  | reply m hm hid => exact .reply m (hsub hm) hid
  | lost reason => exact .lost reason

theorem replies_subset_step (s : Session) (a : Act) : s.replies ⊆ (s.step a).replies := by
  by_cases ha : ∃ m, a = .respond m
  · obtain ⟨m,rfl⟩ := ha
    exact List.subset_append_left _ _
  · rw [s.replies_step fun m hm => ha ⟨m,hm⟩]
    exact List.Subset.refl _

theorem replies_subset_run (s : Session) (acts : List Act) : s.replies ⊆ (s.run acts).replies := by
  induction acts generalizing s with
  | nil => exact List.Subset.refl _
  | cons a acts ih => exact List.Subset.trans (s.replies_subset_step a) (ih (s.step a))

/-- A request that waits is settled by a reply under its counter, or by the loss of the link. -/
theorem told_of_settled {a : Act} (h : (s.ops a).foldl (Lot.next id) .waiting = .settled outcome) :
    Told (s.step a).replies id outcome := by
  cases a with
  | respond reply =>
    simp only [ops,List.foldl_cons,List.foldl_nil,Lot.next] at h
    split at h
    · rename_i hid
      obtain rfl := Lot.settled.inj h
      exact .reply reply (List.mem_append_right _ (List.mem_singleton_self _)) hid
    · cases h
  | proceed k =>
    simp only [ops] at h
    split at h
    · obtain rfl := Lot.settled.inj h
      exact .lost _
    · cases h
  | start tag =>
    simp only [ops] at h
    split at h <;> cases h
  | release k =>
    simp only [ops] at h
    split at h
    · split at h
      · cases h
      · simp only [List.foldl_cons,List.foldl_nil,Lot.next] at h
        split at h <;> cases h
    · cases h
  | close _ | ready _ | handshake => cases h

def Truthful (s : Session) : Prop :=
  ∀ i t, s.tickets[i]? = some t → ∀ outcome ∈ s.deliveries i, Told s.replies t.counter outcome

theorem Truthful.step (h : s.Truthful) (hf : s.Filed d) (a : Act) : (s.step a).Truthful := by
  intro i t ht outcome ho
  have hbooks := hf.books.step a
  rcases lt_or_start (List.getElem?_eq_some_iff.mp ht).1 with hi | ⟨rfl,tag,link,ticket,rfl,hs⟩
  · obtain ⟨id,lot,hplace⟩ := hf.place i hi
    obtain ⟨u,hu,rfl⟩ := hplace.ticket hf.books
    have hafter := hplace.step hf.books a
    obtain ⟨u',hu',hcounter⟩ := hafter.ticket hbooks
    obtain rfl := Option.some.inj (hu'.symm.trans ht)
    rw [hcounter]
    rw [hafter.deliveries_eq hbooks] at ho
    cases lot with
    | waiting =>
      cases hlot : (s.ops a).foldl (Lot.next u.counter) .waiting with
      | settled o =>
        rw [hlot] at ho
        obtain rfl : outcome = o := by simpa [Lot.outcome?] using ho
        exact told_of_settled hlot
      | waiting | cancelled =>
        rw [hlot] at ho
        cases ho
    | settled _ | cancelled =>
      rw [foldl_next_of_ne_waiting u.counter (by simp),← hplace.deliveries_eq hf.books] at ho
      exact (h i u hu outcome ho).mono (s.replies_subset_step a)
  · rw [(place_start hf.books hs).deliveries_eq hbooks] at ho
    cases ho

inductive Reached : Session → Prop
  | run (name : String) (role : Role) (peerAddr : String) (counter : UInt32) (acts : List Act) :
    Reached ((establish name role peerAddr counter).run acts)

theorem Reached.later (h : s.Reached) (acts : List Act) : (s.run acts).Reached := by
  cases h with
  | run name role peerAddr counter before =>
    rw [← run_append]
    exact .run name role peerAddr counter (before ++ acts)

theorem Reached.filed (h : s.Reached) : ∃ d, s.Filed d := by
  cases h with
  | run name role peerAddr counter acts => exact (filed_establish name role peerAddr counter).run acts

theorem Reached.length_tickets (h : s.Reached) : s.tickets.length = s.link.pending.nextSlot := by
  obtain ⟨d,hd⟩ := h.filed
  rw [← hd.books.table,hd.books.balanced.slots,hd.books.issued,List.length_map]

theorem Reached.truthful (h : s.Reached) : s.Truthful := by
  cases h with
  | run name role peerAddr counter acts =>
    induction acts using List.reverseRecOn with
    | nil => exact fun i t ht => by simp [establish] at ht
    | append_singleton acts a ih =>
      obtain ⟨d,hd⟩ := (filed_establish name role peerAddr counter).run acts
      rw [run_append,run_cons,run_nil]
      exact ih.step hd a

theorem Reached.told (h : s.Reached) (ht : s.tickets[i]? = some t) (hkept : i ∉ s.released)
    (ho : s.link.outcome? t = some outcome) : Told s.replies t.counter outcome := by
  obtain ⟨d,hd⟩ := h.filed
  obtain ⟨id,lot,hplace⟩ := hd.place i (List.getElem?_eq_some_iff.mp ht).1
  have hmail := hplace.stands.mail
  rw [if_neg hkept,hd.books.mail] at hmail
  rw [Connection.outcome?,hd.books.slots i t ht,hmail] at ho
  cases lot with
  | waiting => cases ho
  | settled o =>
    obtain rfl := Option.some.inj ho
    exact h.truthful i t ht o (by simp [hplace.deliveries_eq hd.books,Lot.outcome?])
  | cancelled =>
    obtain rfl := Option.some.inj ho
    exact .lost _

theorem Reached.link_respond_of_left (h : s.Reached) (hfew : s.tickets.length < 2^32)
    (ht : s.tickets[k]? = some t) (hleft : k ∈ s.released) {late : Message} (hlate : late.counter = t.counter) :
    (s.step (.respond late)).link = s.link := by
  cases h with
  | run name role peerAddr counter acts =>
    have ho := (orderly_establish name role peerAddr counter).run acts hfew
    obtain ⟨-,rfl⟩ := ho.ticket ht
    refine link_respond_of_hearers ?_
    rw [hearers,List.map_eq_nil_iff,List.filter_eq_nil_iff]
    exact fun e he hid => ho.id_ne_of_released hfew hleft he ((beq_iff_eq.mp hid).trans hlate)

/-! ### Requests that are there -/

/-- A request that is there and has not been left. -/
structure Open (s : Session) (ticket : Ticket) : Prop where
  taken : s.tickets[ticket.slot]? = some ticket
  kept : ticket.slot ∉ s.released

theorem Open.run {ticket : Ticket} (h : s.Open ticket) {acts : List Act} (hacts : .release ticket.slot ∉ acts) :
    (s.run acts).Open ticket := by
  induction acts generalizing s with
  | nil => exact h
  | cons a acts ih =>
    rw [List.mem_cons,not_or] at hacts
    refine ih ⟨?_,fun hleft => ?_⟩ hacts.2
    · obtain ⟨more,hmore⟩ := s.tickets_step a
      rw [← hmore,List.getElem?_append_left (List.getElem?_eq_some_iff.mp h.taken).1]
      exact h.taken
    · by_cases ha : ∃ k, a = .release k
      · obtain ⟨k,rfl⟩ := ha
        rcases released_release hleft with hleft | rfl
        · exact h.kept hleft
        · exact hacts.1 rfl
      · rw [released_step fun k hk => ha ⟨k,hk⟩] at hleft
        exact h.kept hleft

theorem Open.link_release {ticket : Ticket} (h : s.Open ticket) :
    (s.step (.release ticket.slot)).link = s.link.release ticket := by
  simp [step,release,h.taken,h.kept]

theorem Reached.open_start (h : s.Reached) {tag : Tag} {link : Connection} {ticket : Ticket}
    (hs : s.link.startRequest tag = .ok (link,ticket)) :
    (s.step (.start tag)).link = link ∧ (s.step (.start tag)).Open ticket := by
  obtain ⟨d,hd⟩ := h.filed
  obtain ⟨-,-,hslot,-⟩ := hd.books.register hs
  refine ⟨by simp [step,start,hs],?_,?_⟩
  · simp [step,start,hs,hslot]
  · rw [released_step (by simp),hslot]
    exact fun hleft => Nat.lt_irrefl _ (hd.books.left _ hleft)

/-! ### Requests that are given up -/

/-- Requests that are given up at once, the first of them as number `n`. -/
def spend (n : Nat) : Nat → List Act
  | 0 => []
  | k+1 => .start .echo :: .release n :: spend (n+1) k

end Session

namespace Connection
open Session (ticketAt)

/-- So many requests have been started on a link that is ready, and none of them is in flight. -/
structure Spent (first : UInt32) (n : Nat) (c : Connection) : Prop where
  ready : c.phase = .ready
  running : c.halted = false
  entries : c.pending.entries = []
  closed : c.pending.closed = none
  slots : c.pending.nextSlot = n
  next : c.nextCounter = (ticketAt first n).counter
  mail : c.mail.length = n

variable {c : Connection} {first : UInt32} {n : Nat}

theorem Spent.startRequest_eq (h : c.Spent first n) (tag : Tag) :
    c.startRequest tag = .ok
      ({ c with
          pending := { c.pending with
            entries := [⟨(ticketAt first n).counter,tag,n⟩]
            nextSlot := n + 1 }
          mail := c.mail ++ [.waiting]
          nextCounter := (ticketAt first (n+1)).counter },
        ticketAt first n) := by
  have hfresh : ∀ e ∈ c.pending.entries, e.id ≠ (ticketAt first n).counter := by simp [h.entries]
  have hr := Pending.register_of_fresh tag h.closed hfresh
  rw [h.entries,h.slots] at hr
  simp only [startRequest,allocate,h.next,hr,Session.counter_succ]
  rfl

theorem Spent.exists_start (h : c.Spent first n) (tag : Tag) :
    ∃ c', c.startRequest tag = .ok (c',ticketAt first n) ∧ c'.halted = false ∧
      c'.outcome? (ticketAt first n) = none ∧ (c'.release (ticketAt first n)).Spent first (n+1) ∧
      ∀ reply : Message, reply.counter = (ticketAt first n).counter →
        (c'.processResponse reply).1.outcome? (ticketAt first n) = some (outcomeOf reply) := by
  have hslot : (ticketAt first n).slot = n := rfl
  have hwaiting : Mailbox.slot (c.mail ++ [.waiting]) n = .waiting := by
    simp [Mailbox.slot_append_waiting,h.mail]
  refine ⟨_,h.startRequest_eq tag,h.running,by simp [outcome?,hslot,hwaiting],?_,fun reply hreply => ?_⟩
  · refine ⟨h.ready,h.running,?_,h.closed,rfl,rfl,?_⟩
    · simp [release,Pending.cancel,Pending.erase]
    · simp only [release]
      split <;> simp [h.mail]
  · have hheld := Mailbox.slot_deliver_self (d := ⟨n,outcomeOf reply⟩) hwaiting
    simp [processResponse,Pending.resolve,Pending.find?,hreply,outcome?,hslot,hheld]

end Connection

theorem Session.Reached.spent {s : Session} (h : s.Reached) {first : UInt32} {n : Nat}
    (hs : s.link.Spent first n) (k : Nat) : (s.run (spend n k)).link.Spent first (n+k) := by
  induction k generalizing s n with
  | zero => exact hs
  | succ k ih =>
    obtain ⟨c,hstart,-,-,hgiven,-⟩ := hs.exists_start .echo
    obtain ⟨hlink,ho⟩ := h.open_start hstart
    have hone : (s.run [.start .echo,.release n]).link.Spent first (n+1) := by
      rw [← hlink,← ho.link_release] at hgiven
      exact hgiven
    have hrest := ih (h.later _) hone
    rwa [Nat.add_right_comm] at hrest

end Tether
