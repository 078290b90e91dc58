import Tether.Proofs.Cluster.Waiting
import Tether.Proofs.Link.Serving

/-! Calls that wait for a limited time, against a peer that sends what it likes. The time of a call may run
out at any moment at which its outcome is not there; it has then come to that, although its request stays in
the table until whoever made the call lets go of it. The replies that find a request waiting are kept as a
record. -/
namespace Tether

structure Timed where
  endpoint : Endpoint
  /-- The calls whose time has run out. -/
  expired : List Nat := []
  /-- The replies that found a request that was waiting, with the number of the request. -/
  heard : List (Nat × Message) := []

namespace Timed

inductive Tick
  | event (event : Endpoint.Event)
  | expire (call : Nat)

/-- The requests that are registered under the counter of a message, unless their time has run out. -/
def reached (t : Timed) (m : Message) : List Nat :=
  (t.endpoint.session.hearers m).filter fun i => !t.expired.contains i

/-- A call whose time has run out does not look for its outcome any more. -/
def barred (t : Timed) : Endpoint.Event → Bool
  | .move (.collect i) => t.expired.contains i
  | _ => false

def step (codec : Codec) (limits : Nat → Option UInt64) (t : Timed) : Tick → Timed
  | .event ev =>
    if t.barred ev then t
    else { t with
      endpoint := t.endpoint.after codec ev
      heard := t.heard ++
        (Endpoint.replies codec t.endpoint ev).flatMap fun m => (t.reached m).map fun i => (i,m) }
  | .expire i =>
    match t.endpoint.errands[i]?,limits i with
    | some (.call ticket _ _ .sent),some _ =>
      if t.expired.contains i || (t.endpoint.session.link.outcome? ticket).isSome then t
      else { t with expired := t.expired ++ [i] }
    | _,_ => t

def run (codec : Codec) (limits : Nat → Option UInt64) (t : Timed) (ticks : List Tick) : Timed :=
  ticks.foldl (step codec limits) t

def establish (name : String) (role : Role) (peerAddr : String) (counter : UInt32) : Timed :=
  { endpoint := .establish name role peerAddr counter }

/-- The replies that found the request waiting, in the order in which they came. -/
def heardBy (t : Timed) (i : Nat) : List Message := (t.heard.filter (·.1 == i)).map (·.2)

def result? (limits : Nat → Option UInt64) (t : Timed) (i : Nat) : Option Outcome :=
  match t.endpoint.errands[i]? with
  | some (.call ticket _ _ stage) =>
    if t.expired.contains i then
      (limits i).map fun ms => .error (.requestTimeout ticket.counter ms)
    else stage.result?
  | _ => none

variable {codec : Codec} {limits : Nat → Option UInt64} {t : Timed} {first : UInt32} {i : Nat}
  {ticket : Ticket} {tag : Tag} {data : List UInt8} {stage : CallStage}

@[simp] theorem run_nil (t : Timed) : t.run codec limits [] = t := rfl

@[simp] theorem run_cons (t : Timed) (tick : Tick) (ticks : List Tick) :
    t.run codec limits (tick :: ticks) = (t.step codec limits tick).run codec limits ticks := rfl

theorem run_append (t : Timed) (ticks more : List Tick) :
    t.run codec limits (ticks ++ more) = (t.run codec limits ticks).run codec limits more :=
  List.foldl_append

/-! ### One tick -/

/-- A tick is an event, or the time of one call running out, or nothing. -/
inductive Ticks (codec : Codec) (limits : Nat → Option UInt64) (t : Timed) : Timed → Prop
  | idle : Ticks codec limits t t
  | event (ev : Endpoint.Event) : t.barred ev = false →
    Ticks codec limits t { t with
      endpoint := t.endpoint.after codec ev
      heard := t.heard ++
        (Endpoint.replies codec t.endpoint ev).flatMap fun m => (t.reached m).map fun i => (i,m) }
  | expired (i : Nat) (ticket : Ticket) (tag : Tag) (data : List UInt8) :
    t.endpoint.errands[i]? = some (.call ticket tag data .sent) → (limits i).isSome = true →
    i ∉ t.expired → t.endpoint.session.link.outcome? ticket = none →
    Ticks codec limits t { t with expired := t.expired ++ [i] }

theorem step_cases (codec : Codec) (limits : Nat → Option UInt64) (t : Timed) (tick : Tick) :
    Ticks codec limits t (t.step codec limits tick) := by
  cases tick with
  | event ev =>
    simp only [step]
    split
    · exact .idle
    · rename_i hbarred
      exact .event ev (by simpa using hbarred)
  | expire i =>
    simp only [step]
    split
    · rename_i ticket tag data ms hcall hlimit
      split
      · exact .idle
      · rename_i hopen
        simp only [Bool.or_eq_true,not_or,List.contains_iff_mem,Bool.not_eq_true,
          Option.isSome_eq_false_iff,Option.isNone_iff_eq_none] at hopen
        exact .expired i ticket tag data hcall (by simp [hlimit]) hopen.1 hopen.2
    · exact .idle

/-! ### What is kept -/

/-- How a call stands: it has its ticket until it is over, it waited when its time ran out, and it was not
refused without a reason. -/
structure Stands (codec : Codec) (limits : Nat → Option UInt64) (t : Timed) (i : Nat) (ticket : Ticket)
    (tag : Tag) (data : List UInt8) (stage : CallStage) : Prop where
  held : i ∈ t.endpoint.session.released → stage.Over
  expired : i ∈ t.expired → (limits i).isSome = true ∧ (stage = .sent ∨ stage = .left)
  refused : ∀ error, stage = .refused error →
    Unwritten codec t.endpoint.session.link ⟨ticket.counter,tag,false,data⟩ error

structure Sound (codec : Codec) (limits : Nat → Option UInt64) (first : UInt32) (t : Timed) : Prop where
  living : t.endpoint.Living
  asking : t.endpoint.Asking codec first
  requests : t.endpoint.serves.map Serve.request = t.endpoint.routed.filter (!·.response)
  calls : ∀ i ticket tag data stage, t.endpoint.errands[i]? = some (.call ticket tag data stage) →
    t.Stands codec limits i ticket tag data stage
  expired : ∀ i ∈ t.expired, i < t.endpoint.errands.length
  decided : ∀ i, i ∉ t.expired → t.endpoint.session.Decided first (t.heardBy i) i
  silent : ∀ i ∈ t.expired, t.heardBy i = []
  replies : ∀ p ∈ t.heard, p.2.response = true

theorem sound_establish (codec : Codec) (limits : Nat → Option UInt64) (name : String) (role : Role)
    (peerAddr : String) (counter : UInt32) :
    (establish name role peerAddr counter).Sound codec limits counter where
  living := Endpoint.living_establish ..
  asking := Endpoint.asking_establish ..
  requests := rfl
  calls := by simp [establish,Endpoint.establish]
  expired := by simp [establish]
  decided := fun i _ => .waiting rfl rfl
  silent := by simp [establish]
  replies := by simp [establish]

/-! ### One tick keeps it -/

theorem requests_after (codec : Codec) {e : Endpoint} (hb : ∀ x ∈ e.errands, x.Bounded)
    (h : e.serves.map Serve.request = e.routed.filter (!·.response)) (ev : Endpoint.Event) :
    (e.after codec ev).serves.map Serve.request = (e.after codec ev).routed.filter (!·.response) := by
  cases ev with
  | feed bytes => exact h
  | move m =>
    rcases (@Endpoint.step_cases codec e hb m).routed with ⟨hr,hm,-⟩ | ⟨m,hb,hr,hm,-⟩ | ⟨m,hb,hr,hm,-⟩
    · rw [Endpoint.after,hr,hm]
      exact h
    · simp [Endpoint.after,hr,hm,hb,h]
    · simp [Endpoint.after,hr,hm,hb,h]

theorem tickets_after (codec : Codec) {e : Endpoint} (hb : ∀ x ∈ e.errands, x.Bounded) (ev : Endpoint.Event) :
    e.session.tickets <+: (e.after codec ev).session.tickets ∧
      e.session.link.Onward (e.after codec ev).session.link := by
  cases ev with
  | feed bytes => exact ⟨List.prefix_refl _,.refl _⟩
  | move m =>
    obtain ⟨acts,hacts,-⟩ := (@Endpoint.step_cases codec e hb m).session
    rw [Endpoint.after,hacts]
    exact ⟨e.session.tickets_run acts,e.session.onward_run acts⟩

theorem Sound.length_errands (h : t.Sound codec limits first) :
    t.endpoint.errands.length = t.endpoint.session.tickets.length := by
  rw [← h.asking.tickets,List.length_map]

theorem heardBy_append (t : Timed) (e : Endpoint) (m : Message) (i : Nat) :
    ({ t with endpoint := e, heard := t.heard ++ (t.reached m).map fun j => (j,m) } : Timed).heardBy i =
      t.heardBy i ++ ((t.reached m).filter (· == i)).map fun _ => m := by
  simp [heardBy,List.filter_map,Function.comp_def]

theorem filter_reached (t : Timed) (m : Message) (i : Nat) : (t.reached m).filter (· == i) =
    if i ∈ t.expired then [] else (t.endpoint.session.hearers m).filter (· == i) := by
  simp only [reached,List.filter_filter]
  by_cases hi : i ∈ t.expired
  · rw [if_pos hi,List.filter_eq_nil_iff]
    intro j _ hj
    simp only [Bool.and_eq_true,beq_iff_eq] at hj
    simp [hj.1,hi] at hj
  · rw [if_neg hi]
    refine List.filter_congr fun j _ => ?_
    by_cases hj : j = i
    · subst hj
      simpa using hi
    · simp [hj]

theorem Sound.calls_after (h : t.Sound codec limits first) {ev : Endpoint.Event}
    (hbarred : t.barred ev = false)
    (hcall : (t.endpoint.after codec ev).errands[i]? = some (.call ticket tag data stage))
    (heard : List (Nat × Message)) :
    ({ t with endpoint := t.endpoint.after codec ev, heard } : Timed).Stands codec limits i ticket tag data
      stage := by
  have honward := (tickets_after codec h.living.bounded ev).2
  cases ev with
  | feed bytes =>
    obtain ⟨hheld,hexpired,hrefused⟩ := h.calls i ticket tag data stage hcall
    exact ⟨hheld,hexpired,hrefused⟩
  | move m =>
    have hs := @Endpoint.step_cases codec t.endpoint h.living.bounded m
    rcases hs.exists_call hcall with ⟨hge,rfl,hreleased⟩ | ⟨before,hbefore⟩
    · refine ⟨fun hr => ?_,fun hi => absurd (h.expired i hi) (Nat.not_lt_of_le hge),by simp⟩
      have hlt := h.asking.session.orderly.released i (hreleased ▸ hr)
      rw [h.length_errands] at hge
      exact absurd hlt (Nat.not_lt_of_le hge)
    · obtain ⟨hheld,hexpired,hrefused⟩ := h.calls i ticket tag data before hbefore
      obtain ⟨after,hgoes⟩ := Endpoint.exists_goes codec hbefore m
      obtain rfl : stage = after := by
        have hsame := hcall.symm.trans hgoes.errand
        simpa using hsame
      refine ⟨fun hr => ?_,fun hi => ?_,fun error herror => ?_⟩
      · rcases hgoes.released hr with hr | hover
        · exact hgoes.becomes.eq_of_over (hheld hr) ▸ hheld hr
        · exact hover
      · obtain ⟨hlimit,hstage⟩ := hexpired hi
        refine ⟨hlimit,?_⟩
        cases hgoes.becomes with
        | same => exact hstage
        | sent => exact .inl rfl
        | left => exact .inr rfl
        | refused error => simp at hstage
        | ended outcome hm =>
          -- an expired call does not collect
          subst hm
          simp [barred,hi] at hbarred
      · subst herror
        cases hgoes.becomes with
        | same => exact (hrefused error rfl).onward honward
        | refused _ _ _ hu => exact hu.onward honward

theorem Sound.event (h : t.Sound codec limits first) {ev : Endpoint.Event} (hbarred : t.barred ev = false)
    (hfew : (t.endpoint.after codec ev).session.tickets.length < 2^32) :
    ({ t with
      endpoint := t.endpoint.after codec ev
      heard := t.heard ++ (Endpoint.replies codec t.endpoint ev).flatMap fun m =>
        (t.reached m).map fun i => (i,m) } : Timed).Sound codec limits first := by
  have hasking := h.asking.after ev hfew
  have hgrow := (tickets_after codec h.living.bounded ev).1.length_le
  have hexpired : ∀ i ∈ t.expired, i < (t.endpoint.after codec ev).errands.length := by
    intro i hi
    have hlt := h.expired i hi
    rw [h.length_errands] at hlt
    rw [← List.length_map Errand.ticket,hasking.tickets]
    exact Nat.lt_of_lt_of_le hlt hgrow
  have hliving := h.living.after codec ev
  have hrequests := requests_after codec h.living.bounded h.requests ev
  rcases h.living.session_after_of_replies codec ev with ⟨hnone,acts,hacts,hquiet⟩ | ⟨m,hone,hacts⟩
  · simp only [hnone,List.flatMap_nil,List.append_nil]
    refine ⟨hliving,hasking,hrequests,fun _ _ _ _ _ hcall => h.calls_after hbarred hcall _,hexpired,
      fun i hi => ?_,h.silent,h.replies⟩
    simp only [hacts] at hfew ⊢
    exact (h.decided i hi).run h.asking.session hquiet hfew
  · simp only [hone,List.flatMap_cons,List.flatMap_nil,List.append_nil]
    have hm : m.response = true := by
      have hmem : m ∈ Endpoint.replies codec t.endpoint ev := hone ▸ List.mem_singleton.mpr rfl
      exact (List.mem_filter.mp hmem).2
    refine ⟨hliving,hasking,hrequests,fun _ _ _ _ _ hcall => h.calls_after hbarred hcall _,hexpired,
      fun i hi => ?_,fun i hi => ?_,fun p hp => ?_⟩
    · have hfew' := Nat.lt_of_le_of_lt hgrow hfew
      have hdecided := (h.decided i hi).respond h.asking.session.orderly hfew' m
      have hi' : i ∉ t.expired := hi
      rw [heardBy_append,filter_reached,if_neg hi']
      simpa only [hacts] using hdecided
    · have hi' : i ∈ t.expired := hi
      rw [heardBy_append,filter_reached,if_pos hi',h.silent i hi']
      rfl
    · rcases List.mem_append.mp hp with hp | hp
      · exact h.replies p hp
      · obtain ⟨j,-,rfl⟩ := List.mem_map.mp hp
        exact hm

theorem Sound.outcome?_eq (h : t.Sound codec limits first)
    (hcall : t.endpoint.errands[i]? = some (.call ticket tag data .sent)) :
    ticket = Session.ticketAt first i ∧
      t.endpoint.session.link.outcome? ticket = (t.endpoint.session.deliveries i).head? ∧
      (t.endpoint.session.link.outcome? ticket = none → t.endpoint.session.InTable i) := by
  obtain ⟨hlt,hticket⟩ := h.asking.ticket hcall
  have hticket' : ticket = Session.ticketAt first i := hticket
  subst hticket'
  exact ⟨rfl,h.asking.session.orderly.outcome?_eq hlt fun hr => (h.calls i _ _ _ _ hcall).held hr⟩

theorem Sound.expire (h : t.Sound codec limits first)
    (hcall : t.endpoint.errands[i]? = some (.call ticket tag data .sent)) (hlimit : (limits i).isSome = true)
    (hi : i ∉ t.expired) (hnone : t.endpoint.session.link.outcome? ticket = none) :
    ({ t with expired := t.expired ++ [i] } : Timed).Sound codec limits first := by
  refine ⟨h.living,h.asking,h.requests,fun j ticket' tag' data' stage' hcall' => ?_,fun j hj => ?_,
    fun j hj => h.decided j fun hj' => hj (List.mem_append_left _ hj'),fun j hj => ?_,h.replies⟩
  · obtain ⟨hheld,hexpired,hrefused⟩ := h.calls j ticket' tag' data' stage' hcall'
    refine ⟨hheld,fun hj => ?_,hrefused⟩
    rcases List.mem_append.mp hj with hj | hj
    · exact hexpired hj
    · obtain rfl := List.mem_singleton.mp hj
      have hsame := hcall.symm.trans hcall'
      simp only [Option.some.injEq,Errand.call.injEq] at hsame
      exact ⟨hlimit,.inl hsame.2.2.2.symm⟩
  · rcases List.mem_append.mp hj with hj | hj
    · exact h.expired j hj
    · exact List.mem_singleton.mp hj ▸ (List.getElem?_eq_some_iff.mp hcall).1
  · rcases List.mem_append.mp hj with hj | hj
    · exact h.silent j hj
    · obtain rfl := List.mem_singleton.mp hj
      have houtcome := (h.outcome?_eq hcall).2.1
      rw [hnone] at houtcome
      cases h.decided j hi with
      | waiting hh => exact hh
      | lost reason hh => exact hh
      | answered m _ _ hd => simp [hd] at houtcome

theorem Sound.step (h : t.Sound codec limits first) (tick : Tick)
    (hfew : (t.step codec limits tick).endpoint.session.tickets.length < 2^32) :
    (t.step codec limits tick).Sound codec limits first := by
  have hticks := step_cases codec limits t tick
  generalize t.step codec limits tick = t' at hticks hfew ⊢
  cases hticks with
  | idle => exact h
  | event ev hbarred => exact h.event hbarred hfew
  | expired i ticket tag data hcall hlimit hi hnone => exact h.expire hcall hlimit hi hnone

theorem tickets_step (hb : ∀ x ∈ t.endpoint.errands, x.Bounded) (tick : Tick) :
    t.endpoint.session.tickets <+: (t.step codec limits tick).endpoint.session.tickets := by
  have hticks := step_cases codec limits t tick
  generalize t.step codec limits tick = t' at hticks ⊢
  cases hticks with
  | event ev => exact (tickets_after codec hb ev).1
  | _ => exact List.prefix_refl _

theorem living_step (h : t.endpoint.Living) (tick : Tick) : (t.step codec limits tick).endpoint.Living := by
  have hticks := step_cases codec limits t tick
  generalize t.step codec limits tick = t' at hticks ⊢
  cases hticks with
  | event ev => exact h.after codec ev
  | _ => exact h

theorem tickets_run (h : t.endpoint.Living) (ticks : List Tick) :
    t.endpoint.session.tickets <+: (t.run codec limits ticks).endpoint.session.tickets := by
  induction ticks generalizing t with
  | nil => exact List.prefix_refl _
  | cons tick ticks ih => exact (tickets_step h.bounded tick).trans (ih (living_step h tick))

theorem Sound.run (h : t.Sound codec limits first) (ticks : List Tick)
    (hfew : (t.run codec limits ticks).endpoint.session.tickets.length < 2^32) :
    (t.run codec limits ticks).Sound codec limits first := by
  induction ticks generalizing t with
  | nil => exact h
  | cons tick ticks ih =>
    rw [run_cons] at hfew ⊢
    have hgrow : (t.step codec limits tick).endpoint.session.tickets.length ≤
        ((t.step codec limits tick).run codec limits ticks).endpoint.session.tickets.length :=
      (tickets_run (living_step h.living tick) ticks).length_le
    exact ih (h.step tick (Nat.lt_of_le_of_lt hgrow hfew)) hfew

end Timed
end Tether
