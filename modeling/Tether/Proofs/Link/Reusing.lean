import Tether.Proofs.Link.Books

/-! Requests over any number of starts, so that counters come round again. A request whose reply has come
may still have its owner; if by then its counter belongs to another request, the owner that leaves takes
the other's entry along. As long as this does not happen, the table holds exactly the requests that are
neither answered nor left. -/
namespace Tether

namespace Session
open Docket (Op Lot)

variable {s : Session} {d : Docket} {i : Nat} {id : UInt32} {lot : Lot}

/-! ### Requests that lose their entry to another's owner -/

/-- Neither answered nor left. -/
structure Live (s : Session) (i : Nat) : Prop where
  started : i < s.tickets.length
  unanswered : s.deliveries i = []
  kept : i ∉ s.released

/-- The owner of request `k` is there and would take the entry of request `i` along, as that stands under
its counter. -/
structure Strikes (s : Session) (k i : Nat) : Prop where
  owner : k ∉ s.released
  other : i ≠ k
  inTable : s.InTable i
  same : ∃ t u, s.tickets[k]? = some t ∧ s.tickets[i]? = some u ∧ u.counter = t.counter

/-- Live, but no reply will find it. -/
def Stranded (s : Session) (i : Nat) : Prop := s.Live i ∧ ¬ s.InTable i

theorem Books.inTable_iff (h : s.Books d) (i : Nat) : d.table.Holds i ↔ s.InTable i := by
  rw [h.table]
  rfl

theorem Books.outcomes_eq (h : s.Books d) (i : Nat) : d.outcomes i = s.deliveries i := by
  rw [Docket.outcomes,h.sent]
  rfl

theorem Books.lt_of_inTable (h : s.Books d) (hi : s.InTable i) : i < s.tickets.length := by
  obtain ⟨e,he,rfl⟩ := (h.inTable_iff i).mpr hi
  simpa [h.issued] using h.balanced.lt_of_mem he

theorem Place.inTable_iff (h : s.Place d i id lot) (hb : s.Books d) : s.InTable i ↔ lot = .waiting :=
  (hb.inTable_iff i).symm.trans h.stands.table

theorem Place.deliveries_eq (h : s.Place d i id lot) (hb : s.Books d) :
    s.deliveries i = lot.outcome?.toList := (hb.outcomes_eq i).symm.trans h.stands.sent

theorem Place.lt (h : s.Place d i id lot) (hb : s.Books d) : i < s.tickets.length := by
  simpa [hb.issued] using (List.getElem?_eq_some_iff.mp h.stands.issued).1

theorem Place.ticket (h : s.Place d i id lot) (hb : s.Books d) :
    ∃ t, s.tickets[i]? = some t ∧ t.counter = id := by
  have hissued := h.stands.issued
  rw [hb.issued,List.getElem?_map] at hissued
  exact Option.map_eq_some_iff.mp hissued

theorem Place.stranded_iff (h : s.Place d i id lot) (hb : s.Books d) :
    s.Stranded i ↔ lot = .cancelled ∧ i ∉ s.released := by
  have hin := h.inTable_iff hb
  have hdel := h.deliveries_eq hb
  constructor
  · rintro ⟨⟨-,hnone,hkept⟩,hout⟩
    refine ⟨?_,hkept⟩
    rw [hnone] at hdel
    cases lot with
    | waiting => exact absurd (hin.mpr rfl) hout
    | settled outcome => simp [Lot.outcome?] at hdel
    | cancelled => rfl
  · rintro ⟨rfl,hkept⟩
    exact ⟨⟨h.lt hb,hdel,hkept⟩,fun hi => by cases hin.mp hi⟩

theorem Place.inTable_iff_live (h : s.Place d i id lot) (hb : s.Books d) :
    s.InTable i ↔ s.Live i ∧ ¬ s.Stranded i := by
  constructor
  · intro hi
    obtain rfl := (h.inTable_iff hb).mp hi
    exact ⟨⟨h.lt hb,h.deliveries_eq hb,fun hleft => h.left hleft rfl⟩,fun hs => hs.2 hi⟩
  · rintro ⟨hlive,hns⟩
    by_contra hout
    exact hns ⟨hlive,hout⟩

/-- What the owner that leaves takes out of the table. -/
theorem Filed.inTable_release (h : s.Filed d) (k i : Nat) :
    (s.step (.release k)).InTable i ↔ s.InTable i ∧ i ≠ k ∧ ¬ s.Strikes k i := by
  by_cases hi : i < s.tickets.length
  · obtain ⟨id,lot,hplace⟩ := h.place i hi
    have hafter := (hplace.step h.books (.release k)).inTable_iff (h.books.step _)
    have hin := hplace.inTable_iff h.books
    obtain ⟨u,hu,rfl⟩ := hplace.ticket h.books
    by_cases hk : ∃ t, s.tickets[k]? = some t ∧ k ∉ s.released
    · obtain ⟨t,ht,hkept⟩ := hk
      have hlot : lot.next u.counter (.drop k) = lot := by cases lot <;> rfl
      simp only [ops,ht,if_neg hkept,List.foldl_cons,List.foldl_nil,hlot] at hafter
      rw [hafter,hin]
      constructor
      · intro hnext
        obtain rfl : lot = .waiting := by
          by_contra hne
          rw [Lot.next_of_ne_waiting hne] at hnext
          exact hne hnext
        have hother : u.counter ≠ t.counter := by
          intro he
          simp [Lot.next,he] at hnext
        refine ⟨rfl,?_,?_⟩
        · rintro rfl
          exact hother (by rw [Option.some.inj (hu.symm.trans ht)])
        · rintro ⟨-,-,-,t',u',ht',hu',he⟩
          obtain rfl := Option.some.inj (ht.symm.trans ht')
          obtain rfl := Option.some.inj (hu.symm.trans hu')
          exact hother he
      · rintro ⟨rfl,hne,hno⟩
        refine if_neg fun he => hno ⟨hkept,hne,hin.mpr rfl,t,u,ht,hu,he.symm⟩
    · have hsame : s.ops (.release k) = [] := by
        simp only [ops]
        cases ht : s.tickets[k]? with
        | none => rfl
        | some t => exact if_pos (by_contra fun hkept => hk ⟨t,ht,hkept⟩)
      rw [hsame] at hafter
      rw [hafter,List.foldl_nil,← hin]
      refine ⟨fun hmem => ⟨hmem,?_,fun hs => hk ?_⟩,fun hmem => hmem.1⟩
      · rintro rfl
        refine hk ⟨u,hu,fun hleft => hplace.left hleft (hin.mp hmem)⟩
      · obtain ⟨t,_,ht,-⟩ := hs.same
        exact ⟨t,ht,hs.owner⟩
  · have hout : ∀ {s' : Session} {d' : Docket}, s'.Books d' → s'.tickets = s.tickets → ¬ s'.InTable i :=
      fun hb htickets hin => hi (htickets ▸ hb.lt_of_inTable hin)
    have htickets : (s.step (.release k)).tickets = s.tickets := by
      simp only [Session.step,Session.release]
      split
      · rfl
      · split <;> rfl
    exact iff_of_false (hout (h.books.step _) htickets) fun hin => hout h.books rfl hin.1

theorem Filed.stranded_of_strikes (h : s.Filed d) {k i : Nat} (hs : s.Strikes k i) :
    (s.step (.release k)).Stranded i := by
  obtain ⟨t,u,ht,hu,he⟩ := hs.same
  have hi := (List.getElem?_eq_some_iff.mp hu).1
  obtain ⟨id,lot,hplace⟩ := h.place i hi
  have hafter := hplace.step h.books (.release k)
  obtain ⟨u',hu',rfl⟩ := hplace.ticket h.books
  obtain rfl := Option.some.inj (hu.symm.trans hu')
  obtain rfl := (hplace.inTable_iff h.books).mp hs.inTable
  have hkept : i ∉ s.released := fun hleft => hplace.left hleft rfl
  rw [hafter.stranded_iff (h.books.step _)]
  constructor
  · simp [ops,ht,hs.owner,Lot.next,he]
  · simp [Session.step,Session.release,ht,hs.owner,hkept,hs.other]

theorem foldl_next_of_ne_waiting (id : UInt32) (h : lot ≠ .waiting) (ops : List Op) :
    ops.foldl (Lot.next id) lot = lot := by
  induction ops with
  | nil => rfl
  | cons op ops ih => rw [List.foldl_cons,Lot.next_of_ne_waiting h,ih]

theorem release_of_cancelled {a : Act} (h : (s.ops a).foldl (Lot.next id) .waiting = .cancelled) :
    ∃ k, a = .release k := by
  cases a with
  | release k => exact ⟨k,rfl⟩
  | start tag =>
    simp only [ops] at h
    split at h <;> cases h
  | respond reply =>
    simp only [ops,List.foldl_cons,List.foldl_nil,Lot.next] at h
    split at h <;> cases h
  | proceed k =>
    simp only [ops] at h
    split at h <;> cases h
  | close _ | ready _ | handshake => cases h

theorem Filed.stranded_step (h : s.Filed d) {a : Act} (hs : (s.step a).Stranded i) :
    s.Stranded i ∨ ∃ k, a = .release k ∧ s.Strikes k i := by
  rcases lt_or_start hs.1.started with hi | ⟨rfl,tag,link,ticket,rfl,hstart⟩
  · obtain ⟨id,lot,hplace⟩ := h.place i hi
    obtain ⟨hlot,hkept'⟩ := ((hplace.step h.books a).stranded_iff (h.books.step _)).mp hs
    have hkept : i ∉ s.released := fun hleft => hkept' (s.released_mono a hleft)
    cases lot with
    | settled outcome =>
      rw [foldl_next_of_ne_waiting id (show Lot.settled outcome ≠ .waiting by simp)] at hlot
      cases hlot
    | cancelled => exact .inl ((hplace.stranded_iff h.books).mpr ⟨rfl,hkept⟩)
    | waiting =>
      obtain ⟨k,rfl⟩ := release_of_cancelled hlot
      have hin := (hplace.inTable_iff h.books).mpr rfl
      have hout := mt (h.inTable_release k i).mpr hs.2
      refine .inr ⟨k,rfl,by_contra fun hno => hout ⟨hin,?_,hno⟩⟩
      rintro rfl
      obtain ⟨t,ht,-⟩ := hplace.ticket h.books
      exact hkept' (by simp [Session.step,Session.release,ht,hkept])
  · have hin := (place_start h.books hstart).inTable_iff (h.books.step _)
    exact absurd (hin.mpr rfl) hs.2

theorem Filed.stranded_run (h : s.Filed d) (hs : s.Stranded i) (later : List Act) :
    ¬ (s.run later).InTable i ∧ (s.run later).deliveries i = [] ∧
      (i ∉ (s.run later).released → ∀ ticket : Ticket, ticket.slot = i →
        (s.run later).link.outcome? ticket = some (.error (.lost "request slot dropped"))) := by
  obtain ⟨id,lot,hplace⟩ := h.place i hs.1.started
  obtain ⟨rfl,-⟩ := (hplace.stranded_iff h.books).mp hs
  clear hs
  induction later generalizing s d with
  | nil =>
    refine ⟨fun hin => ?_,hplace.deliveries_eq h.books,?_⟩
    · cases (hplace.inTable_iff h.books).mp hin
    · rintro hkept ticket rfl
      have hmail := hplace.stands.mail
      rw [run_nil] at hkept
      rw [if_neg hkept,h.books.mail] at hmail
      simp only [Connection.outcome?,run_nil,hmail,kept]
  | cons a later ih =>
    have hstep := hplace.step h.books a
    rw [foldl_next_of_ne_waiting id (show Lot.cancelled ≠ .waiting by simp)] at hstep
    exact ih (h.step a) hstep

theorem Filed.not_strikes_of_inTable (h : s.Filed d) {k i : Nat} (hk : s.InTable k) :
    ¬ s.Strikes k i := by
  rintro ⟨-,hne,hi,t,u,ht,hu,he⟩
  have hissued : ∀ {j : Nat} {t : Ticket}, s.tickets[j]? = some t → d.issued[j]? = some t.counter :=
    fun hj => by simp [h.books.issued,hj]
  obtain ⟨e,hmem,rfl,hid⟩ := h.books.balanced.find?_of_holds (hissued ht) ((h.books.inTable_iff k).mpr hk)
  obtain ⟨e',hmem',rfl,hid'⟩ := h.books.balanced.find?_of_holds (hissued hu) ((h.books.inTable_iff i).mpr hi)
  have hsame := List.inj_on_of_nodup_map h.books.balanced.ids hmem' hmem (hid'.trans (he.trans hid.symm))
  exact hne (congrArg PendingEntry.slot hsame)

theorem Orderly.not_strikes {first : UInt32} (h : s.Orderly first) (hfew : s.tickets.length < 2^32)
    (k i : Nat) : ¬ s.Strikes k i := by
  rintro ⟨-,hne,-,t,u,ht,hu,he⟩
  obtain ⟨hk,rfl⟩ := h.ticket ht
  obtain ⟨hi,rfl⟩ := h.ticket hu
  exact hne (counter_inj (by omega) (by omega) he)

theorem Filed.contains_iff (h : s.Filed d) (id : UInt32) :
    s.link.pending.contains id = true ↔ ∃ i t, s.tickets[i]? = some t ∧ t.counter = id ∧ s.InTable i := by
  rw [Pending.contains,Option.isSome_iff_exists]
  constructor
  · rintro ⟨e,he⟩
    obtain ⟨hmem,rfl⟩ := Pending.mem_of_find?_eq_some he
    have hissued := h.books.balanced.entries e (h.books.table ▸ hmem)
    rw [h.books.issued,List.getElem?_map,Option.map_eq_some_iff] at hissued
    obtain ⟨t,ht,hid⟩ := hissued
    exact ⟨e.slot,t,ht,hid,e,hmem,rfl⟩
  · rintro ⟨i,t,ht,rfl,hin⟩
    obtain ⟨e,hmem,-,hid⟩ := h.books.balanced.find?_of_holds
      (by rw [h.books.issued,List.getElem?_map,ht]; rfl) ((h.books.inTable_iff i).mpr hin)
    have hf := Pending.find?_of_mem h.books.balanced.ids hmem
    rw [hid,h.books.table] at hf
    exact ⟨e,hf⟩

/-- The table holds the live requests and no others. -/
def Exact (s : Session) : Prop := ∀ i, s.InTable i ↔ s.Live i

theorem Filed.exact_iff (h : s.Filed d) : s.Exact ↔ ∀ i, ¬ s.Stranded i := by
  constructor
  · exact fun he i hs => hs.2 ((he i).mpr hs.1)
  · intro hno i
    refine ⟨fun hin => ?_,fun hlive => by_contra fun hout => hno i ⟨hlive,hout⟩⟩
    obtain ⟨id,lot,hplace⟩ := h.place i (h.books.lt_of_inTable hin)
    exact ((hplace.inTable_iff_live h.books).mp hin).1

section Run

variable (name : String) (role : Role) (peerAddr : String) (counter : UInt32)

/-- The table is exact all the way, if and only if no owner that leaves strikes another's request. -/
theorem exact_iff_not_strikes (acts : List Act) :
    (∀ before after, acts = before ++ after →
        ((establish name role peerAddr counter).run before).Exact) ↔
      ∀ before k after, acts = before ++ .release k :: after →
        ∀ i, ¬ ((establish name role peerAddr counter).run before).Strikes k i := by
  have hfiled : ∀ before, ∃ d, ((establish name role peerAddr counter).run before).Filed d :=
    (filed_establish name role peerAddr counter).run
  constructor
  · rintro hexact before k after rfl i hs
    obtain ⟨d,hd⟩ := hfiled before
    have hafter := hexact (before ++ [.release k]) after (by simp)
    rw [run_append,run_cons,run_nil,(hd.step _).exact_iff] at hafter
    exact hafter i (hd.stranded_of_strikes hs)
  · rintro hno before after rfl
    obtain ⟨d,hd⟩ := hfiled before
    refine hd.exact_iff.mpr fun i => ?_
    clear hd
    induction before using List.reverseRecOn generalizing after with
    | nil => exact fun hs => absurd hs.1.started (Nat.not_lt_zero i)
    | append_singleton before a ih =>
      obtain ⟨d,hd⟩ := hfiled before
      rw [run_append,run_cons,run_nil]
      intro hs
      rcases hd.stranded_step hs with hbefore | ⟨k,rfl,hstruck⟩
      · exact ih (a :: after) (by simpa using hno) hbefore
      · exact hno before k after (by simp) i hstruck

/-- What the owners that leave take out of the table. -/
structure Freeing (s : Session) : Prop where
  /-- The counters in the table are those of the requests in it. -/
  counters : ∀ id, s.link.pending.contains id = true ↔
    ∃ i t, s.tickets[i]? = some t ∧ t.counter = id ∧ s.InTable i
  freed : ∀ k i, (s.step (.release k)).InTable i ↔ s.InTable i ∧ i ≠ k ∧ ¬ s.Strikes k i
  /-- The owner of a request that is still in the table takes that one alone. -/
  own : ∀ k i, s.InTable k → ¬ s.Strikes k i
  live : ∀ k i, s.Strikes k i → (s.step (.release k)).Live i
  /-- No reply reaches a request that was struck, whatever comes. -/
  lost : ∀ k i, s.Strikes k i → ∀ later,
    ¬ (s.run (.release k :: later)).InTable i ∧ (s.run (.release k :: later)).deliveries i = [] ∧
      (i ∉ (s.run (.release k :: later)).released → ∀ ticket : Ticket, ticket.slot = i →
        (s.run (.release k :: later)).link.outcome? ticket =
          some (.error (.lost "request slot dropped")))

theorem Filed.freeing (h : s.Filed d) : s.Freeing where
  counters := h.contains_iff
  freed := h.inTable_release
  own _ _ := h.not_strikes_of_inTable
  live _ _ hs := (h.stranded_of_strikes hs).1
  lost _ _ hs := (h.step _).stranded_run (h.stranded_of_strikes hs)

/-- An owner that leaves takes its own entry out of the table, and that of another request if and only if
that one goes under the same counter, which takes an answered request that is still owned and as many
later ones as there are counters. The table holds exactly the requests that are neither answered nor left,
all the way, if and only if this does not happen. -/
theorem released_of_run (acts : List Act) :
    ((establish name role peerAddr counter).run acts).Freeing ∧
      (((establish name role peerAddr counter).run acts).tickets.length < 2^32 →
        ∀ k i, ¬ ((establish name role peerAddr counter).run acts).Strikes k i) ∧
      ((∀ before after, acts = before ++ after →
          ((establish name role peerAddr counter).run before).Exact) ↔
        ∀ before k after, acts = before ++ .release k :: after →
          ∀ i, ¬ ((establish name role peerAddr counter).run before).Strikes k i) := by
  obtain ⟨d,h⟩ := (filed_establish name role peerAddr counter).run acts
  refine ⟨h.freeing,fun hfew => ?_,exact_iff_not_strikes name role peerAddr counter acts⟩
  exact ((orderly_establish name role peerAddr counter).run acts hfew).not_strikes hfew

end Run

/-! ### Once round -/

def turn (first : UInt32) (i : Nat) : List Act :=
  [.start .echo,.respond ⟨(ticketAt first i).counter,.ok,true,[]⟩,.release i]

/-- A request that is answered and not left, and `n` whole ones after it. -/
def turns (first : UInt32) : Nat → List Act
  | 0 => [.start .echo,.respond ⟨first,.ok,true,[]⟩]
  | n+1 => turns first n ++ turn first (n+1)

/-- After `n+1` requests these are in flight, and the first request still has its owner. -/
structure Turned (first : UInt32) (n : Nat) (flight : List PendingEntry) (s : Session) : Prop where
  entries : s.link.pending.entries = flight
  closed : s.link.pending.closed = none
  slots : s.link.pending.nextSlot = n+1
  next : s.link.nextCounter = (ticketAt first (n+1)).counter
  tickets : s.tickets.length = n+1
  first : s.tickets[0]? = some ⟨first,0⟩
  owner : 0 ∉ s.released

variable {first : UInt32} {n : Nat}

theorem Turned.start (h : s.Turned first n []) (tag : Tag) :
    (s.step (.start tag)).Turned first (n+1) [⟨(ticketAt first (n+1)).counter,tag,n+1⟩] ∧
      (s.step (.start tag)).tickets[n+1]? = some (ticketAt first (n+1)) := by
  have hfresh : ∀ e ∈ s.link.pending.entries, e.id ≠ (ticketAt first (n+1)).counter := by simp [h.entries]
  have hr := Pending.register_of_fresh tag h.closed hfresh
  rw [h.entries,h.slots] at hr
  have hstart : s.link.startRequest tag = .ok
      ({ s.link with
          pending := { s.link.pending with
            entries := [⟨(ticketAt first (n+1)).counter,tag,n+1⟩], nextSlot := n+2 }
          mail := s.link.mail ++ [.waiting]
          nextCounter := (ticketAt first (n+2)).counter },
        ticketAt first (n+1)) := by
    simp only [Connection.startRequest,Connection.allocate,h.next,hr,counter_succ]
    rfl
  simp only [step,Session.start,hstart]
  refine ⟨⟨rfl,h.closed,rfl,rfl,by simp [h.tickets],?_,h.owner⟩,?_⟩
  · rw [List.getElem?_append_left (by rw [h.tickets]; omega)]
    exact h.first
  · rw [← h.tickets,List.getElem?_append_right (Nat.le_refl _)]
    simp

theorem Turned.respond {id : UInt32} {tag : Tag} {k : Nat} (h : s.Turned first n [⟨id,tag,k⟩])
    (reply : Message) (hid : reply.counter = id) : (s.step (.respond reply)).Turned first n [] := by
  subst hid
  simp only [step,Session.respond,Connection.processResponse,Pending.resolve,Pending.find?,h.entries,
    List.find?_cons,beq_self_eq_true]
  exact ⟨by simp [Pending.erase,h.entries],h.closed,h.slots,h.next,h.tickets,h.first,h.owner⟩

theorem Turned.release (h : s.Turned first n []) {k : Nat} (hk : k ≠ 0) :
    (s.step (.release k)).Turned first n [] := by
  simp only [step,Session.release]
  split
  · exact h
  · split
    · exact h
    · refine ⟨?_,h.closed,h.slots,h.next,h.tickets,h.first,?_⟩
      · simp [Connection.release,Pending.cancel,Pending.erase,h.entries]
      · simpa [h.owner] using Ne.symm hk

theorem Turned.turn (h : s.Turned first n []) : (s.run (turn first (n+1))).Turned first (n+1) [] :=
  ((h.start .echo).1.respond _ rfl).release (Nat.succ_ne_zero n)

theorem turned_turns (name : String) (role : Role) (peerAddr : String) (first : UInt32) (n : Nat) :
    ((establish name role peerAddr first).run (turns first n)).Turned first n [] := by
  induction n with
  | zero =>
    have hstart : ((establish name role peerAddr first).step (.start .echo)).Turned first 0
        [⟨first,.echo,0⟩] := ⟨rfl,rfl,rfl,rfl,rfl,rfl,List.not_mem_nil⟩
    exact hstart.respond _ rfl
  | succ n ih =>
    rw [turns,run_append]
    exact ih.turn

theorem counter_round (first : UInt32) : (ticketAt first (2^32)).counter = first := by
  have hzero : UInt32.ofNat (2^32) = 0 := rfl
  simp only [ticketAt,hzero,UInt32.add_zero]

theorem Turned.strikes (h : s.Turned first n []) (hround : n+1 = 2^32) (tag : Tag) :
    (s.step (.start tag)).Strikes 0 (2^32) := by
  obtain ⟨hstart,hticket⟩ := h.start tag
  rw [hround] at hstart hticket
  refine ⟨hstart.owner,by decide,?_,_,_,hstart.first,hticket,counter_round first⟩
  exact ⟨_,hstart.entries ▸ List.mem_singleton_self _,rfl⟩

/-- A request is answered and not left. After 2^32 - 1 whole requests another one is started: it is in the
table, and the owner of the first one takes it out. -/
theorem stranded_of_turns :
    (((establish "worker" .initiator "peer" 5).run (turns 5 (2^32 - 1))).step (.start .echo)).InTable
        (2^32) ∧
      ((((establish "worker" .initiator "peer" 5).run (turns 5 (2^32 - 1))).step (.start .echo)).step
        (.release 0)).Stranded (2^32) := by
  have hs := (turned_turns "worker" .initiator "peer" 5 (2^32 - 1)).strikes (by omega) .echo
  obtain ⟨d,h⟩ := (filed_establish "worker" .initiator "peer" 5).run (turns 5 (2^32 - 1))
  exact ⟨hs.inTable,(h.step _).stranded_of_strikes hs⟩

end Session
end Tether
