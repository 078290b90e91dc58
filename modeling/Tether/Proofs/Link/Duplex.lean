import Tether.Proofs.Link.Carrying
import Tether.Proofs.Link.Serving

/-! Two endpoints and the bytes between them. Whatever both sides do at the same time, and in whatever
portions the bytes go over, a call that was begun on a ready link is served at most once and as what it
is; and what it is told, unless the link was lost, is what its service replied. -/
namespace Tether

inductive Side
  | left
  | right
deriving DecidableEq, Repr

namespace Side

def other : Side → Side
  | .left => .right
  | .right => .left

@[simp] theorem other_other (side : Side) : side.other.other = side := by
  cases side <;> rfl

theorem other_ne (side : Side) : side.other ≠ side := by
  cases side <;> simp [other]

theorem eq_other_of_ne {side side' : Side} (h : side' ≠ side) : side' = side.other := by
  cases side <;> cases side' <;> simp_all [other]

end Side

/-- Both ends of a link. What one of them has outgoing is on its way to the other. -/
abbrev Duplex := Side → Endpoint

namespace Duplex

inductive Act
  | own (side : Side) (move : Endpoint.Move)
  | carry (side : Side) (count : Nat)

/-- One end makes a move, or some bytes of it arrive at the other. -/
def step (codec : Codec) (d : Duplex) : Act → Duplex
  | .own side move => fun s => if s = side then (d s).step codec move else d s
  | .carry side count => fun s =>
    if s = side then { d s with outgoing := (d s).outgoing.drop count }
    else (d s).feed ((d side).outgoing.take count)

def run (codec : Codec) (d : Duplex) (acts : List Act) : Duplex := acts.foldl (step codec) d

/-- A link at its beginning. Both ends draw their first counter by chance. -/
def establish (name : Side → String) (role : Side → Role) (peerAddr : Side → String)
    (first : Side → UInt32) : Duplex :=
  fun s => { session := .establish (name s) (role s) (peerAddr s) (first s) }

variable {codec : Codec} {first : Side → UInt32} {counts : Side → UInt32 → Prop} {d : Duplex}

@[simp] theorem run_nil (codec : Codec) (d : Duplex) : d.run codec [] = d := rfl

@[simp] theorem run_cons (codec : Codec) (d : Duplex) (a : Act) (acts : List Act) :
    d.run codec (a :: acts) = (d.step codec a).run codec acts := rfl

theorem run_append (codec : Codec) (d : Duplex) (acts later : List Act) :
    d.run codec (acts ++ later) = (d.run codec acts).run codec later := List.foldl_append

theorem step_own (codec : Codec) (d : Duplex) (side : Side) (move : Endpoint.Move) :
    d.step codec (.own side move) side = (d side).step codec move := if_pos rfl

theorem step_own_other (codec : Codec) (d : Duplex) (side : Side) (move : Endpoint.Move) :
    d.step codec (.own side move) side.other = d side.other := if_neg side.other_ne

theorem step_carry (codec : Codec) (d : Duplex) (side : Side) (count : Nat) :
    d.step codec (.carry side count) side =
      { d side with outgoing := (d side).outgoing.drop count } := if_pos rfl

theorem step_carry_other (codec : Codec) (d : Duplex) (side : Side) (count : Nat) :
    d.step codec (.carry side count) side.other =
      (d side.other).feed ((d side).outgoing.take count) := if_neg side.other_ne

/-- What holds of both ends and of what is between them. -/
structure Honest (codec : Codec) (first : Side → UInt32) (counts : Side → UInt32 → Prop)
    (d : Duplex) : Prop where
  asking : ∀ side, (d side).Asking codec (first side)
  serving : ∀ side, (d side).Serving codec (counts side)
  carried : ∀ side, Endpoint.Carried codec (d side) (d side.other)

theorem Honest.of_side {d : Duplex} (side : Side) (ha : (d side).Asking codec (first side))
    (ha' : (d side.other).Asking codec (first side.other)) (hs : (d side).Serving codec (counts side))
    (hs' : (d side.other).Serving codec (counts side.other))
    (hc : Endpoint.Carried codec (d side) (d side.other))
    (hc' : Endpoint.Carried codec (d side.other) (d side)) : d.Honest codec first counts := by
  refine ⟨fun s => ?_,fun s => ?_,fun s => ?_⟩
  all_goals
    by_cases h : s = side
    · subst h
      assumption
    · obtain rfl := Side.eq_other_of_ne h
      simpa

theorem honest_establish (codec : Codec) (name : Side → String) (role : Side → Role)
    (peerAddr : Side → String) (first : Side → UInt32) :
    (establish name role peerAddr first).Honest codec first fun _ _ => False := by
  refine ⟨fun s => Endpoint.asking_establish ..,fun s => ?_,fun s => ?_⟩
  · refine ⟨fun _ hc => absurd hc id,rfl,rfl,?_,fun _ _ => rfl,?_⟩
    · intro t ht
      simp [establish] at ht
    · intro k t hk
      simp [establish] at hk
  · refine ⟨?_,0,{},Nat.le_refl _,rfl,fun _ => ⟨rfl,Decoder.valid_none codec [],[],rfl,fun _ => rfl⟩⟩
    intro c hc
    simp [establish] at hc

/-- The number of requests that a side has started. -/
def started (d : Duplex) (side : Side) : Nat := (d side).session.tickets.length

/-- Every upload has a length that can be expressed. -/
def Bounded (d : Duplex) : Prop := ∀ side, ∀ x ∈ (d side).errands, x.Bounded

theorem Bounded.step (h : d.Bounded) (a : Act) : (d.step codec a).Bounded ∧
    ∀ side, d.started side ≤ (d.step codec a).started side := by
  cases a with
  | own s move =>
    have hs := @Endpoint.step_cases codec (d s) (h s) move
    obtain ⟨acts,hacts,-⟩ := hs.session
    refine ⟨fun side => ?_,fun side => ?_⟩
    · by_cases hside : side = s
      · subst hside
        rw [step_own]
        exact hs.bounded (h side)
      · obtain rfl := Side.eq_other_of_ne hside
        rw [step_own_other]
        exact h s.other
    · by_cases hside : side = s
      · subst hside
        rw [started,started,step_own,hacts]
        exact (Session.tickets_run ..).length_le
      · obtain rfl := Side.eq_other_of_ne hside
        rw [started,started,step_own_other]
  | carry s count =>
    refine ⟨fun side => ?_,fun side => ?_⟩
    · by_cases hside : side = s
      · subst hside
        rw [step_carry]
        exact h side
      · obtain rfl := Side.eq_other_of_ne hside
        rw [step_carry_other]
        exact h s.other
    · by_cases hside : side = s
      · subst hside
        rw [started,started,step_carry]
      · obtain rfl := Side.eq_other_of_ne hside
        rw [started,started,step_carry_other]
        exact Nat.le_refl _

theorem Bounded.run (h : d.Bounded) (acts : List Act) :
    (d.run codec acts).Bounded ∧ ∀ side, d.started side ≤ (d.run codec acts).started side := by
  induction acts generalizing d with
  | nil => exact ⟨h,fun _ => Nat.le_refl _⟩
  | cons a acts ih =>
    obtain ⟨hb,hle⟩ := @Bounded.step codec d h a
    obtain ⟨hb',hle'⟩ := ih hb
    exact ⟨hb',fun side => (hle side).trans (hle' side)⟩

theorem Bounded.onward_step (h : d.Bounded) (a : Act) (side : Side) :
    (d side).session.link.Onward ((d.step codec a) side).session.link := by
  cases a with
  | own s move =>
    by_cases hside : side = s
    · subst hside
      obtain ⟨acts,hacts,-⟩ := (@Endpoint.step_cases codec (d side) (h side) move).session
      rw [step_own,hacts]
      exact (d side).session.onward_run acts
    · obtain rfl := Side.eq_other_of_ne hside
      rw [step_own_other]
      exact .refl _
  | carry s count =>
    by_cases hside : side = s
    · subst hside
      rw [step_carry]
      exact .refl _
    · obtain rfl := Side.eq_other_of_ne hside
      rw [step_carry_other]
      exact .refl _

theorem Bounded.onward_run (h : d.Bounded) (acts : List Act) (side : Side) :
    (d side).session.link.Onward ((d.run codec acts) side).session.link := by
  induction acts generalizing d with
  | nil => exact .refl _
  | cons a acts ih => exact (h.onward_step a side).trans (ih (@Bounded.step codec d h a).1)

/-- No end goes back into the handshake. -/
def Act.Late : Act → Prop
  | .own _ move => move ≠ .handshake
  | .carry .. => True

theorem Honest.step (hk : codec.Keyed) (h : d.Honest codec first counts) (a : Act)
    (hlate : ∀ side counter, counts side counter → a.Late)
    (hfew : ∀ side, (d.step codec a).started side < 2^32) : (d.step codec a).Honest codec first counts := by
  cases a with
  | own side move =>
    have hs := @Endpoint.step_cases codec (d side) (h.asking side).bounded move
    have hself := step_own codec d side move
    have hother := step_own_other codec d side move
    have hstep := (h.asking side).step hs (hself ▸ hfew side)
    refine .of_side side ?_ ?_ ?_ ?_ ?_ ?_
    · rw [hself]
      exact hstep
    · rw [hother]
      exact h.asking side.other
    · rw [hself]
      exact (h.serving side).step (h.asking side).session.staged hs fun counter => hlate side counter
    · rw [hother]
      exact h.serving side.other
    · rw [hself,hother]
      exact (h.carried side).write hs
    · rw [hself,hother]
      have hread := h.carried side.other
      rw [Side.other_other] at hread
      exact hread.read hk hs
  | carry side count =>
    have hself := step_carry codec d side count
    have hother := step_carry_other codec d side count
    have ha := h.asking side
    have ha' := h.asking side.other
    have hs := h.serving side
    have hs' := h.serving side.other
    refine .of_side side ?_ ?_ ?_ ?_ ?_ ?_
    · rw [hself]
      exact ⟨ha.bounded,ha.session,ha.tickets,ha.told,ha.came⟩
    · rw [hother]
      exact ⟨ha'.bounded,ha'.session,ha'.tickets,ha'.told,ha'.came⟩
    · rw [hself]
      exact ⟨hs.settled,hs.requests,hs.replies,hs.gated,hs.unasked,hs.answered⟩
    · rw [hother]
      exact ⟨hs'.settled,hs'.requests,hs'.replies,hs'.gated,hs'.unasked,hs'.answered⟩
    · rw [hself,hother]
      exact (h.carried side).carry count
    · rw [hself,hother]
      have hback := h.carried side.other
      rw [Side.other_other] at hback
      obtain ⟨n,reassembler,ht⟩ := hback.taken
      exact ⟨hback.sendable,n,reassembler,ht.le,ht.run,
        fun hr => ⟨(ht.going hr).1,(ht.going hr).2.valid,(ht.going hr).2.bytes⟩⟩

theorem Honest.run (hk : codec.Keyed) (h : d.Honest codec first counts) (acts : List Act)
    (hlate : ∀ side counter, counts side counter → ∀ a ∈ acts, a.Late)
    (hfew : ∀ side, (d.run codec acts).started side < 2^32) :
    (d.run codec acts).Honest codec first counts := by
  induction acts generalizing d with
  | nil => exact h
  | cons a acts ih =>
    have hbounded : d.Bounded := fun side => (h.asking side).bounded
    obtain ⟨hb,-⟩ := @Bounded.step codec d hbounded a
    have hstep := h.step hk a (fun side counter hc => hlate side counter hc a (by simp))
      fun side => Nat.lt_of_le_of_lt ((hb.run acts).2 side) (hfew side)
    exact ih hstep (fun side counter hc b hb => hlate side counter hc b (by simp [hb])) hfew

/-! ### Calls on a ready link -/

/-- The counters of the requests that the other side has not begun yet. -/
def Later (first : Side → UInt32) (d : Duplex) (side : Side) (counter : UInt32) : Prop :=
  ∃ i < 2^32, (d side.other).errands.length ≤ i ∧
    counter = (Session.ticketAt (first side.other) i).counter

theorem Honest.carried_back (h : d.Honest codec first counts) (side : Side) :
    Endpoint.Carried codec (d side.other) (d side) := by
  have hback := h.carried side.other
  rwa [Side.other_other] at hback

theorem Honest.not_later (h : d.Honest codec first counts) (side : Side) {t : Serve}
    (ht : t ∈ (d side).serves) : ¬ Later first d side t.request.counter := by
  rintro ⟨i,hi,hle,hcounter⟩
  have htold := (h.asking side.other).told i hi
  rw [List.getElem?_eq_none hle,← hcounter] at htold
  have hnone := (h.carried_back side).found_nil htold
  rw [← (h.serving side).asked,List.map_eq_nil_iff,List.filter_eq_nil_iff] at hnone
  exact hnone t ht (beq_self_eq_true _)

theorem Honest.ready (h : d.Honest codec first fun _ _ => False)
    (hready : ∀ side, (d side).session.link.phase = .ready) : d.Honest codec first (Later first d) := by
  refine ⟨h.asking,fun side => ?_,h.carried⟩
  have hs := h.serving side
  refine ⟨fun _ _ => .inl (hready side),hs.requests,hs.replies,
    fun t ht hl => absurd hl (h.not_later side ht),hs.unasked,fun k t hk hlone => ?_⟩
  have hnot := h.not_later side (List.mem_of_getElem? hk)
  have hsaid := hs.answered k t hk hlone
  rcases t with ⟨request,b,stage⟩
  cases stage with
  | answered reply => exact hsaid.imp id fun hh => ⟨fun hl => absurd hl hnot,hh.2⟩
  | failed reply error => exact hsaid.imp id fun hh => ⟨fun hl => absurd hl hnot,hh.2⟩
  | _ => exact hsaid

/-- What was dispatched under a counter. -/
def dispatches (d : Duplex) (side : Side) (counter : UInt32) : List Serve :=
  (d side).serves.filter fun t => t.dispatched && t.request.counter == counter

theorem dispatches_eq (d : Duplex) (side : Side) (counter : UInt32) : d.dispatches side counter =
    ((d side).serves.filter (·.request.counter == counter)).filter (·.dispatched) := by
  rw [dispatches,List.filter_filter]

/-- What a call may be told, in view of what was dispatched for it: the payload of the only reply or the
text of it, unless there is an error that no reply makes. -/
def Faithful (served : List Serve) : Outcome → Prop
  | .ok (tag,payload) => ∃ t, served = [t] ∧ t.reply? = some ⟨tag,payload⟩ ∧ tag.isError = false
  | .error (.application text) => ∃ t reply, served = [t] ∧ t.reply? = some reply ∧
    reply.tag.isError = true ∧ text = Utf8.lossy reply.payload
  | .error _ => True

theorem faithful_outcomeOf {t : Serve} {reply : Reply} (h : t.reply? = some reply) (counter : UInt32) :
    Faithful [t] (Connection.outcomeOf (reply.message counter)) := by
  have htag : (reply.message counter).tag = reply.tag := rfl
  unfold Connection.outcomeOf
  rw [htag]
  cases hb : reply.tag.isError with
  | true => exact ⟨t,reply,rfl,h,hb,rfl⟩
  | false => exact ⟨t,rfl,h,hb⟩

theorem faithful_of_replied {served : List Serve} {outcome : Outcome}
    (h : ((∃ result, outcome = .ok result) ∨ ∃ m, outcome = .error (.application m)) →
      Faithful served outcome) : Faithful served outcome := by
  rcases outcome with error | ⟨tag,payload⟩
  · cases error with
    | application text => exact h (.inr ⟨text,rfl⟩)
    | _ => trivial
  · exact h (.inl ⟨_,rfl⟩)

theorem Honest.exists_reply (h : d.Honest codec first counts) {side : Side} {i : Nat} {ticket : Ticket}
    {tag : Tag} {data : List UInt8} {stage : CallStage}
    (hcall : (d side).errands[i]? = some (.call ticket tag data stage)) {outcome : Outcome}
    (hresult : stage.result? = some outcome)
    (hreply : (∃ result, outcome = .ok result) ∨ ∃ m, outcome = .error (.application m)) :
    ∃ m ∈ (d side).routed.filter (·.key == (ticket.counter,true)), outcome = Connection.outcomeOf m := by
  obtain ⟨m,hm,hcounter,hout⟩ := (h.asking side).reply_of_result hcall hresult hreply
  rw [(h.serving side).replies,List.mem_filter] at hm
  refine ⟨m,List.mem_filter.mpr ⟨hm.1,?_⟩,hout⟩
  simp [Message.key,hcounter,hm.2]

theorem Honest.asked_call (h : d.Honest codec first counts) {side : Side}
    (hfew : d.started side < 2^32) {i : Nat} {ticket : Ticket} {tag : Tag} {data : List UInt8}
    {stage : CallStage} (hcall : (d side).errands[i]? = some (.call ticket tag data stage)) :
    (d side.other).serves.filter (·.request.counter == ticket.counter) = [] ∨
      ∃ t, (d side.other).serves.filter (·.request.counter == ticket.counter) = [t] ∧
        t.request = ⟨ticket.counter,tag,false,data⟩ := by
  have hasked := (h.serving side.other).asked ticket.counter
  have hnone : (d side.other).routed.filter (·.key == (ticket.counter,false)) = [] →
      (d side.other).serves.filter (·.request.counter == ticket.counter) = [] := by
    intro hnil
    rwa [hnil,List.map_eq_nil_iff] at hasked
  rcases (h.asking side).said_call hfew hcall with hsaid | ⟨nonces,hsaid⟩
  · exact .inl (hnone ((h.carried side).found_nil hsaid))
  · rcases (h.carried side).found_message hsaid with hnil | hone
    · exact .inl (hnone hnil)
    · rw [hone,List.map_eq_singleton_iff] at hasked
      exact .inr hasked

/-- A call that comes to more than the loss of the link is told what the peer replied when it was asked. -/
theorem Honest.exists_replied (h : d.Honest codec first counts) {side : Side} {i : Nat} {ticket : Ticket}
    {tag : Tag} {data : List UInt8} {stage : CallStage}
    (hcall : (d side).errands[i]? = some (.call ticket tag data stage)) {t : Serve}
    (hasked : (d side.other).serves.filter (·.request.counter == ticket.counter) = [t])
    {outcome : Outcome} (hresult : stage.result? = some outcome)
    (hreply : (∃ result, outcome = .ok result) ∨ ∃ m, outcome = .error (.application m)) :
    ∃ reply, t.reply? = some reply ∧ (counts side.other ticket.counter → t.dispatched = true) ∧
      outcome = Connection.outcomeOf (reply.message ticket.counter) := by
  obtain ⟨m,hm,rfl⟩ := h.exists_reply hcall hresult hreply
  obtain ⟨k,hk,hcounter,hlone⟩ := Endpoint.exists_lone hasked
  rw [← hcounter] at hlone hm ⊢
  -- a reply has come, so something was said
  have hsome : (d side.other).said (t.request.counter,true) ≠ [] := by
    intro hnil
    rw [(h.carried_back side).found_nil hnil] at hm
    simp at hm
  have hsaid := (h.serving side.other).answered k t hk hlone
  have hwritten : ∀ reply, t.reply? = some reply →
      (d side.other).said (t.request.counter,true) = [] ∨
        (counts side.other t.request.counter → t.dispatched = true) ∧
          (∃ nonces : NonceSupply, (d side.other).said (t.request.counter,true) =
            codec.chunksOf nonces.1 (reply.message t.request.counter)) →
      ∃ reply, t.reply? = some reply ∧ (counts side.other t.request.counter → t.dispatched = true) ∧
        Connection.outcomeOf m = Connection.outcomeOf (reply.message t.request.counter) := by
    intro reply hr hs
    obtain ⟨hdispatched,nonces,hs⟩ := hs.resolve_left hsome
    rcases (h.carried_back side).found_message hs with hnil | hone
    · simp [hnil] at hm
    · rw [hone,List.mem_singleton] at hm
      exact ⟨reply,hr,hdispatched,by rw [hm]⟩
  rcases t with ⟨request,b,stage'⟩
  cases stage' with
  | answered reply => exact hwritten reply rfl hsaid
  | failed reply error => exact hwritten reply rfl hsaid
  | _ => exact absurd hsaid hsome

theorem Honest.exists_served (h : d.Honest codec first counts) {side : Side}
    (hfew : d.started side < 2^32) {i : Nat} {ticket : Ticket} {tag : Tag} {data : List UInt8}
    {stage : CallStage} (hcall : (d side).errands[i]? = some (.call ticket tag data stage))
    {outcome : Outcome} (hresult : stage.result? = some outcome)
    (hreply : (∃ result, outcome = .ok result) ∨ ∃ m, outcome = .error (.application m)) :
    ∃ (k : Nat) (t : Serve) (reply : Reply), (d side.other).serves[k]? = some t ∧
      t.request = ⟨ticket.counter,tag,false,data⟩ ∧ t.reply? = some reply ∧
      outcome = Connection.outcomeOf (reply.message ticket.counter) := by
  rcases h.asked_call hfew hcall with hnone | ⟨t,hasked,hrequest⟩
  · obtain ⟨m,hm,-⟩ := h.exists_reply hcall hresult hreply
    have hunasked := (h.serving side.other).unasked ticket.counter fun t ht hcounter =>
      List.filter_eq_nil_iff.mp hnone t ht (beq_iff_eq.mpr hcounter)
    rw [(h.carried_back side).found_nil hunasked] at hm
    simp at hm
  · obtain ⟨reply,hr,-,hout⟩ := h.exists_replied hcall hasked hresult hreply
    obtain ⟨k,hk,-,-⟩ := Endpoint.exists_lone hasked
    exact ⟨k,t,reply,hk,hrequest,hr,hout⟩

theorem Honest.faithful_of_asked (h : d.Honest codec first counts) {side : Side} {i : Nat}
    {ticket : Ticket} {tag : Tag} {data : List UInt8} {stage : CallStage}
    (hcall : (d side).errands[i]? = some (.call ticket tag data stage))
    (hcounts : counts side.other ticket.counter) {t : Serve}
    (hasked : (d side.other).serves.filter (·.request.counter == ticket.counter) = [t])
    {outcome : Outcome} (hresult : stage.result? = some outcome) :
    Faithful (d.dispatches side.other ticket.counter) outcome := by
  refine faithful_of_replied fun hreply => ?_
  obtain ⟨reply,hr,hdispatched,rfl⟩ := h.exists_replied hcall hasked hresult hreply
  rw [dispatches_eq,hasked,List.filter_cons_of_pos (hdispatched hcounts),List.filter_nil]
  exact faithful_outcomeOf hr _

/-- Calls are transparent. Both ends begin as fresh links, and whatever they do until both of them are
ready, and do at the same time after that, a call that is begun on the ready link is dispatched at most
once at the peer, with its own command and data; and what it is told is what that dispatch replied. -/
theorem call_transparent (limits : Limits) (key : Option PayloadKey) (name : Side → String)
    (role : Side → Role) (peerAddr : Side → String) (first : Side → UInt32) (before after : List Act) :
    let codec : Codec := ⟨limits,key.map Cipher.ofKey⟩
    let d := (establish name role peerAddr first).run codec before
    let d' := d.run codec after
    (∀ side, (d side).session.link.phase = .ready) → (∀ a ∈ after, a.Late) →
    (∀ side, d'.started side < 2^32) →
    ∀ side i ticket tag data stage, (d side).errands.length ≤ i →
      (d' side).errands[i]? = some (.call ticket tag data stage) →
      let served := d'.dispatches side.other ticket.counter
      served.length ≤ 1 ∧ (∀ t ∈ served, t.request.tag = tag ∧ t.request.payload = data) ∧
        ∀ outcome, stage.result? = some outcome → Faithful served outcome := by
  intro codec d d' hready hlate hfew side i ticket tag data stage hnew hcall served
  have hk : codec.Keyed := by
    intro cipher hc
    obtain ⟨k,-,rfl⟩ := Option.map_eq_some_iff.mp hc
    exact ⟨k,rfl⟩
  have h₀ := honest_establish codec name role peerAddr first
  have hbounded : d.Bounded := (Bounded.run (fun side => (h₀.asking side).bounded) before).1
  have hd : d.Honest codec first fun _ _ => False := h₀.run hk before (fun _ _ hc => absurd hc id)
    fun side => Nat.lt_of_le_of_lt ((hbounded.run after).2 side) (hfew side)
  have hd' : d'.Honest codec first (Later first d) :=
    (hd.ready hready).run hk after (fun _ _ _ => hlate) hfew
  obtain ⟨hi,hticket⟩ := (hd'.asking side).ticket hcall
  have hcounts : Later first d side.other ticket.counter := by
    refine ⟨i,Nat.lt_trans hi (hfew side),?_,?_⟩
    · rwa [Side.other_other]
    · rw [Side.other_other]
      exact congrArg Ticket.counter hticket
  have hserved : served = ((d' side.other).serves.filter (·.request.counter == ticket.counter)).filter
      (·.dispatched) := dispatches_eq ..
  rcases hd'.asked_call (hfew side) hcall with hnone | ⟨t,hone,hrequest⟩
  · rw [hnone,List.filter_nil] at hserved
    refine ⟨by simp [hserved],by simp [hserved],fun outcome hresult => ?_⟩
    refine faithful_of_replied fun hreply => ?_
    obtain ⟨k,t,-,hk,hrequest,-⟩ := hd'.exists_served (hfew side) hcall hresult hreply
    exact absurd (by simp [hrequest]) (List.filter_eq_nil_iff.mp hnone t (List.mem_of_getElem? hk))
  · rw [hone] at hserved
    have hsub : ∀ t' ∈ served, t' = t := by
      intro t' ht'
      rw [hserved] at ht'
      exact List.mem_singleton.mp (List.mem_filter.mp ht').1
    refine ⟨?_,fun t' ht' => ?_,fun outcome hresult => ?_⟩
    · rw [hserved]
      exact (List.length_filter_le ..).trans (Nat.le_refl 1)
    · rw [hsub t' ht',hrequest]
      exact ⟨rfl,rfl⟩
    · exact hd'.faithful_of_asked hcall hcounts hone hresult

/-- Both sides call at the same time and under the same counter, and the bytes go over in portions that
cut headers and messages. -/
theorem call_transparent_colliding :
    let codec : Codec := ⟨{ chunkSize := 2, framePayload := 30 },none⟩
    let supply : NonceSupply := ⟨fun _ => List.replicate 12 0,fun _ => rfl⟩
    let hello : List Act :=
      [.own .left .handshake,.own .left (.greet [1]),.own .left (.write 0 supply none),.carry .left 31,
        .own .right .decode,.own .right (.ready "left"),.own .right (.gate 0),
        .own .right (.serve 0 (some (.ok ⟨.ok,[2]⟩))),.own .right (.respond 0 supply none),
        .carry .right 31,.own .left .decode,.own .left (.collect 0),.own .left (.ready "right")]
    let calls : List Act :=
      [.own .left (.call .echo [1,2,3]),.own .right (.call .string [4]),
        .own .left (.write 1 supply none),.carry .left 40,.own .right .decode,
        .own .right (.write 0 supply none),.carry .left 23,.own .right .decode,.own .right (.gate 1),
        .own .right (.serve 1 (some (.ok ⟨.okMaster,[3,2]⟩))),.own .right (.respond 1 supply none),
        .carry .right 63,.own .left .decode,.own .left .decode,.own .left (.collect 1)]
    let d := (establish (fun _ => "own") (fun | .left => .initiator | .right => .acceptor)
      (fun _ => "address") fun | .left => 7 | .right => 8).run codec hello
    let d' := d.run codec calls
    ∃ t, d'.dispatches .right 8 = [t] ∧ t.request.tag = .echo ∧ t.request.payload = [1,2,3] ∧
      t.reply? = some ⟨.okMaster,[3,2]⟩ := by
  intro codec supply hello calls d d'
  have hcall : (d' .left).errands[1]? =
      some (.call ⟨8,1⟩ .echo [1,2,3] (.ended (.ok (.okMaster,[3,2])))) := by decide +kernel
  have h := call_transparent codec.limits none (fun _ => "own")
    (fun | .left => .initiator | .right => .acceptor) (fun _ => "address")
    (fun | .left => 7 | .right => 8) hello calls (fun side => by cases side <;> decide +kernel)
    (by simp [calls,Act.Late]) (fun side => by cases side <;> decide +kernel) .left 1 ⟨8,1⟩ .echo
    [1,2,3] _ (by decide +kernel) hcall
  obtain ⟨-,hrequest,htold⟩ := h
  obtain ⟨t,hserved,hreply,-⟩ := htold _ rfl
  have ht := hrequest t (hserved ▸ List.mem_singleton.mpr rfl)
  exact ⟨t,hserved,ht.1,ht.2,hreply⟩

end Duplex
end Tether
