import Tether.Proofs.Link.Abandoning
import Tether.Proofs.Link.Settling

/-! A link as a table with its history: its tickets are the registrations, a reply resolves, an owner that
leaves gives up its slot and cancels its counter, and a close fails all. So each request has its place in
the books, over any number of starts. -/
namespace Tether

theorem Connection.register_of_allocate_ok {tag : Tag} {p p' : Pending} {counter : UInt32}
    {ticket : Ticket} {fuel : Nat} (h : allocate tag p counter fuel = .ok (p',ticket)) :
    p.register ticket.counter tag = .ok (p',ticket.slot) := by
  induction fuel generalizing counter with
  | zero => cases h
  | succ fuel ih =>
    rw [allocate] at h
    cases hr : p.register counter tag with
    | ok entered =>
      rw [hr] at h
      cases h
      exact hr
    | error e =>
      rw [hr] at h
      cases e with
      | protocol _ => exact ih h
      | _ => cases h

theorem Connection.startRequest_eq_ok {c c' : Connection} {tag : Tag} {ticket : Ticket}
    (h : c.startRequest tag = .ok (c',ticket)) :
    ∃ p, c.pending.register ticket.counter tag = .ok (p,ticket.slot) ∧
      c' = { c with pending := p, mail := c.mail ++ [.waiting], nextCounter := ticket.counter + 1 } := by
  unfold startRequest at h
  cases ha : allocate tag c.pending c.nextCounter (c.pending.length + 1) with
  | error e =>
    rw [ha] at h
    cases h
  | ok allocated =>
    rw [ha] at h
    cases h
    exact ⟨_,register_of_allocate_ok ha,rfl⟩

namespace Session
open Docket (Op Lot)

/-! ### The table of a link as a table with its history -/

/-- What an act does to the table and to the slots. -/
def ops (s : Session) : Act → List Op
  | .start tag => match s.link.startRequest tag with
    | .ok (_,ticket) => [.register ticket.counter tag]
    | .error _ => []
  | .respond reply => [.resolve reply.counter (Connection.outcomeOf reply)]
  | .release k => match s.tickets[k]? with
    | some ticket => if k ∈ s.released then [] else [.drop k,.cancel ticket.counter]
    | none => []
  | .proceed k => match s.closes[k]? with
    | some ⟨reason,.halted⟩ => [.failAll reason]
    | _ => []
  | .close _ | .ready _ | .handshake => []

/-- The books of a link: its tickets are the registrations. -/
structure Books (s : Session) (d : Docket) : Prop where
  balanced : d.Balanced
  table : d.table = s.link.pending
  mail : d.mail = s.link.mail
  issued : d.issued = s.tickets.map (·.counter)
  sent : d.sent = s.delivered
  slots : ∀ (i : Nat) (t : Ticket), s.tickets[i]? = some t → t.slot = i
  left : ∀ k ∈ s.released, k < s.tickets.length

theorem books_establish (name : String) (role : Role) (peerAddr : String) (counter : UInt32) :
    (establish name role peerAddr counter).Books {} where
  balanced := Docket.balanced_empty
  table := rfl
  mail := rfl
  issued := rfl
  sent := rfl
  slots i t ht := by simp [establish] at ht
  left k hk := by simp [establish] at hk

variable {s : Session} {d : Docket}

theorem Books.congr (h : s.Books d) {s' : Session} (htable : s'.link.pending = s.link.pending)
    (hmail : s'.link.mail = s.link.mail) (htickets : s'.tickets = s.tickets)
    (hsent : s'.delivered = s.delivered) (hleft : s'.released = s.released) : s'.Books d :=
  ⟨h.balanced,h.table.trans htable.symm,h.mail.trans hmail.symm,by rw [htickets]; exact h.issued,
    h.sent.trans hsent.symm,by rw [htickets]; exact h.slots,by rw [htickets,hleft]; exact h.left⟩

theorem Books.register (h : s.Books d) {tag : Tag} {link : Connection} {ticket : Ticket}
    (hs : s.link.startRequest tag = .ok (link,ticket)) :
    ∃ p, d.table.register ticket.counter tag = .ok (p,ticket.slot) ∧ ticket.slot = s.tickets.length ∧
      link = { s.link with
        pending := p, mail := s.link.mail ++ [.waiting], nextCounter := ticket.counter + 1 } := by
  obtain ⟨p,hr,hlink⟩ := Connection.startRequest_eq_ok hs
  rw [← h.table] at hr
  obtain ⟨-,-,hslot,-⟩ := Docket.register_eq_ok hr
  exact ⟨p,hr,by rw [hslot,h.balanced.slots,h.issued,List.length_map],hlink⟩

theorem Books.start (h : s.Books d) (tag : Tag) : (s.start tag).Books (d.run (s.ops (.start tag))) := by
  simp only [Session.start,ops]
  cases hs : s.link.startRequest tag with
  | error e => exact h
  | ok started =>
    obtain ⟨link,ticket⟩ := started
    obtain ⟨p,hr,hnext,rfl⟩ := h.register hs
    refine ⟨h.balanced.run _,?_,?_,?_,?_,?_,?_⟩
    · simp [Docket.step,hr]
    · simp [Docket.step,hr,h.mail]
    · simp [Docket.step,hr,h.issued]
    · simp [Docket.step,hr,h.sent]
    · intro i t ht
      rcases Nat.lt_or_ge i s.tickets.length with hi | hi
      · rw [List.getElem?_append_left hi] at ht
        exact h.slots i t ht
      · rw [List.getElem?_append_right hi] at ht
        obtain ⟨hlt,rfl⟩ := List.getElem?_eq_some_iff.mp ht
        simp only [List.length_singleton] at hlt
        simp only [List.getElem_singleton]
        omega
    · intro k hk
      have := h.left k hk
      simp only [List.length_append]
      omega

theorem Books.respond (h : s.Books d) (reply : Message) :
    (s.respond reply).Books (d.run (s.ops (.respond reply))) := by
  simp only [Session.respond,Connection.processResponse,Pending.resolve]
  cases hf : s.link.pending.find? reply.counter with
  | none =>
    refine ⟨h.balanced.run _,?_,?_,h.issued,?_,h.slots,h.left⟩ <;>
      simp [ops,Docket.step,Pending.resolve,h.table,h.mail,h.sent,hf]
  | some e =>
    refine ⟨h.balanced.run _,?_,?_,h.issued,?_,h.slots,h.left⟩ <;>
      simp [ops,Docket.step,Pending.resolve,h.table,h.mail,h.sent,hf]

theorem Books.release (h : s.Books d) (k : Nat) :
    (s.release k).Books (d.run (s.ops (.release k))) := by
  simp only [Session.release,ops]
  cases ht : s.tickets[k]? with
  | none => exact h
  | some ticket =>
    simp only
    split
    · exact h
    · obtain rfl := h.slots k ticket ht
      refine ⟨h.balanced.run _,?_,?_,h.issued,h.sent,h.slots,?_⟩
      · simp [Docket.step,Connection.release,h.table]
      · simp only [Connection.release,Pending.cancel,Docket.run_cons,Docket.run_nil,Docket.step,h.table,
          h.mail]
        cases s.link.pending.find? ticket.counter <;> rfl
      · intro j hj
        rcases List.mem_append.mp hj with hj | hj
        · exact h.left j hj
        · obtain rfl := List.mem_singleton.mp hj
          exact (List.getElem?_eq_some_iff.mp ht).1

theorem Books.proceed (h : s.Books d) {k : Nat} {call : CloseCall} (hk : s.closes[k]? = some call) :
    (s.proceed k call).Books (d.run (s.ops (.proceed k))) := by
  obtain ⟨reason,stage⟩ := call
  simp only [ops,hk]
  cases stage with
  | halted =>
    refine ⟨h.balanced.run _,?_,?_,h.issued,?_,h.slots,h.left⟩
    all_goals simp [Docket.step,Session.proceed,mark,Connection.failPending,h.table,h.mail,h.sent]
  | called =>
    simp only [Session.proceed,Connection.recordReason]
    cases s.link.closeReason <;> exact h.congr rfl rfl rfl rfl rfl
  | recorded | failed | finished | late => exact h.congr rfl rfl rfl rfl rfl

theorem Books.step (h : s.Books d) (a : Act) : (s.step a).Books (d.run (s.ops a)) := by
  cases a with
  | start tag => exact h.start tag
  | respond reply => exact h.respond reply
  | release k => exact h.release k
  | proceed k =>
    simp only [Session.step]
    cases hk : s.closes[k]? with
    | none => simpa [ops,hk] using h
    | some call => exact h.proceed hk
  | close reason => exact h.congr rfl rfl rfl rfl rfl
  | ready peer =>
    simp only [Session.step,Connection.markReady]
    rcases Connection.enter_cases { s.link with peerName := some peer } .ready with he | he <;>
      exact h.congr (by rw [he]) (by rw [he]) rfl rfl rfl
  | handshake =>
    simp only [Session.step]
    rcases Connection.enter_cases s.link .handshaking with he | he <;>
      exact h.congr (by rw [he]) (by rw [he]) rfl rfl rfl

/-! ### One request -/

/-- What lies in the slot of a request whose receiver is there. -/
def kept : Lot → ReplySlot
  | .waiting => .waiting
  | .settled outcome => .holding outcome
  | .cancelled => .closed

/-- Where a request stands; one that its owner has left waits for nothing. -/
structure Place (s : Session) (d : Docket) (i : Nat) (id : UInt32) (lot : Lot) : Prop where
  stands : d.Stands id i lot (if i ∈ s.released then .abandoned else kept lot)
  left : i ∈ s.released → lot ≠ .waiting

variable {i : Nat} {id : UInt32} {lot : Lot}

theorem seen_kept (id : UInt32) (n : Nat) (lot : Lot) (op : Op)
    (hop : ∀ k, op ≠ .drop k ∧ op ≠ .take k) :
    Docket.seen id n (kept lot) op = kept (lot.next id op) := by
  cases op with
  | drop k => exact absurd rfl (hop k).1
  | take k => exact absurd rfl (hop k).2
  | register _ _ => cases lot <;> rfl
  | failAll _ => cases lot <;> rfl
  | resolve id' outcome | cancel id' =>
    cases lot with
    | waiting =>
      by_cases hid : id' = id <;> simp [Docket.seen,Lot.next,kept,hid]
    | settled _ | cancelled => rfl

theorem seen_abandoned (id : UInt32) (n : Nat) (op : Op) :
    Docket.seen id n .abandoned op = .abandoned := by
  cases op with
  | drop k =>
    simp only [Docket.seen]
    split <;> rfl
  | _ => rfl

theorem Place.apply (h : s.Place d i id lot) (hb : d.Balanced) (op : Op)
    (hop : ∀ k, op ≠ .drop k ∧ op ≠ .take k) {s' : Session} (hleft : s'.released = s.released) :
    s'.Place (d.step op) i id (lot.next id op) := by
  have hstands := h.stands.step hb op
  rw [← hleft] at hstands
  refine ⟨?_,fun hi => ?_⟩
  · split at hstands
    · rename_i hi
      rw [if_pos hi]
      rwa [seen_abandoned] at hstands
    · rename_i hi
      rw [if_neg hi]
      rwa [seen_kept id i lot op hop] at hstands
  · rw [Lot.next_of_ne_waiting (h.left (hleft ▸ hi))]
    exact h.left (hleft ▸ hi)

theorem Place.congr (h : s.Place d i id lot) {s' : Session} (hleft : s'.released = s.released) :
    s'.Place d i id lot :=
  ⟨by rw [hleft]; exact h.stands,by rw [hleft]; exact h.left⟩

/-- The owner of request `k` leaves, and takes along what stands under its counter. -/
theorem Place.release (h : s.Place d i id lot) (hb : s.Books d) {k : Nat} {ticket : Ticket}
    (ht : s.tickets[k]? = some ticket) {s' : Session} (hleft : s'.released = s.released ++ [k]) :
    s'.Place (d.run [.drop k,.cancel ticket.counter]) i id (lot.next id (.cancel ticket.counter)) := by
  have hlot : lot.next id (.drop k) = lot := by cases lot <;> rfl
  have hstands := (h.stands.step hb.balanced (.drop k)).step (hb.balanced.step _) (.cancel ticket.counter)
  rw [hlot] at hstands
  by_cases hi : i = k
  · subst hi
    have hid : ticket.counter = id := by
      have hissued := h.stands.issued
      rw [hb.issued,List.getElem?_map,ht] at hissued
      exact Option.some.inj hissued
    have hseen : ∀ slot, Docket.seen id i slot (.drop i) = .abandoned := by
      intro slot
      cases slot <;> exact if_pos rfl
    refine ⟨?_,fun _ => ?_⟩
    · rw [hseen,seen_abandoned] at hstands
      rwa [hleft,if_pos (by simp)]
    · cases lot with
      | waiting => simp [Lot.next,hid]
      | settled _ | cancelled => simp [Lot.next]
  · have hseen : ∀ slot, Docket.seen id i slot (.drop k) = slot := by
      intro slot
      cases slot <;> exact if_neg (Ne.symm hi)
    have hiff : i ∈ s'.released ↔ i ∈ s.released := by simp [hleft,hi]
    rw [hseen] at hstands
    refine ⟨?_,fun hi' => ?_⟩
    · split at hstands
      · rename_i hmem
        rw [if_pos (hiff.mpr hmem)]
        rwa [seen_abandoned] at hstands
      · rename_i hmem
        rw [if_neg (fun hi' => hmem (hiff.mp hi'))]
        rwa [seen_kept id i lot (.cancel _) (by simp)] at hstands
    · rw [Lot.next_of_ne_waiting (h.left (hiff.mp hi'))]
      exact h.left (hiff.mp hi')

theorem Place.step (h : s.Place d i id lot) (hb : s.Books d) (a : Act) :
    (s.step a).Place (d.run (s.ops a)) i id ((s.ops a).foldl (Lot.next id) lot) := by
  cases a with
  | start tag =>
    simp only [Session.step,Session.start,ops]
    cases s.link.startRequest tag with
    | error e => exact h
    | ok started => exact h.apply hb.balanced (.register started.2.counter tag) (by simp) rfl
  | respond reply => exact h.apply hb.balanced (.resolve _ _) (by simp) rfl
  | release k =>
    simp only [Session.step,Session.release,ops]
    cases ht : s.tickets[k]? with
    | none => exact h
    | some ticket =>
      simp only
      split
      · exact h
      · have hlot : lot.next id (.drop k) = lot := by cases lot <;> rfl
        simp only [List.foldl_cons,List.foldl_nil,hlot]
        exact h.release hb ht rfl
  | proceed k =>
    have hleft : (s.step (.proceed k)).released = s.released := released_step (by simp)
    simp only [Session.step] at hleft ⊢
    cases hk : s.closes[k]? with
    | none => simpa [ops,hk] using h
    | some call =>
      simp only [hk] at hleft
      obtain ⟨reason,stage⟩ := call
      simp only [ops,hk]
      cases stage with
      | halted => exact h.apply hb.balanced (.failAll reason) (by simp) hleft
      | called | recorded | failed | finished | late => exact h.congr hleft
  | close reason => exact h.congr rfl
  | ready peer => exact h.congr rfl
  | handshake => exact h.congr rfl

theorem place_start (hb : s.Books d) {tag : Tag} {link : Connection} {ticket : Ticket}
    (hs : s.link.startRequest tag = .ok (link,ticket)) :
    (s.step (.start tag)).Place (d.run (s.ops (.start tag))) s.tickets.length ticket.counter
      .waiting := by
  obtain ⟨p,hr,hnext,rfl⟩ := hb.register hs
  have hnew : s.tickets.length ∉ (s.start tag).released := by
    simp only [Session.start,hs]
    intro hmem
    exact absurd (hb.left _ hmem) (Nat.lt_irrefl _)
  refine ⟨?_,fun hmem => absurd hmem hnew⟩
  rw [Session.step,if_neg hnew,← hnext]
  simp only [ops,hs]
  exact Docket.balanced_register hb.balanced hr

/-- Books in which every request has its place. -/
structure Filed (s : Session) (d : Docket) : Prop where
  books : s.Books d
  place : ∀ i < s.tickets.length, ∃ id lot, s.Place d i id lot

theorem filed_establish (name : String) (role : Role) (peerAddr : String) (counter : UInt32) :
    (establish name role peerAddr counter).Filed {} :=
  ⟨books_establish name role peerAddr counter,fun i hi => by simp [establish] at hi⟩

/-- The requests of a step are those before it, and the one that it starts. -/
theorem lt_or_start {a : Act} (h : i < (s.step a).tickets.length) :
    i < s.tickets.length ∨ i = s.tickets.length ∧ ∃ tag link ticket, a = .start tag ∧
      s.link.startRequest tag = .ok (link,ticket) := by
  cases a with
  | start tag =>
    simp only [Session.step,Session.start] at h
    cases hs : s.link.startRequest tag with
    | error e =>
      rw [hs] at h
      exact .inl h
    | ok started =>
      rw [hs] at h
      simp only [List.length_append,List.length_singleton] at h
      rcases Nat.lt_succ_iff_lt_or_eq.mp h with hi | hi
      · exact .inl hi
      · exact .inr ⟨hi,tag,started.1,started.2,rfl,hs⟩
  | proceed k =>
    simp only [Session.step] at h
    cases hk : s.closes[k]? with
    | none =>
      rw [hk] at h
      exact .inl h
    | some call =>
      rw [hk] at h
      exact .inl (tickets_proceed s k call ▸ h)
  | release k =>
    simp only [Session.step,Session.release] at h
    split at h
    · exact .inl h
    · split at h <;> exact .inl h
  | close _ | respond _ | ready _ | handshake => exact .inl h

theorem Filed.step (h : s.Filed d) (a : Act) : (s.step a).Filed (d.run (s.ops a)) := by
  refine ⟨h.books.step a,fun i hi => ?_⟩
  rcases lt_or_start hi with hi | ⟨rfl,tag,link,ticket,rfl,hs⟩
  · obtain ⟨id,lot,hplace⟩ := h.place i hi
    exact ⟨id,_,hplace.step h.books a⟩
  · exact ⟨ticket.counter,.waiting,place_start h.books hs⟩

theorem Filed.run (h : s.Filed d) (acts : List Act) : ∃ d', (s.run acts).Filed d' := by
  induction acts generalizing s d with
  | nil => exact ⟨d,h⟩
  | cons a acts ih => exact ih (h.step a)

end Session
end Tether
