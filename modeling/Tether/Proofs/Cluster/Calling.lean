import Tether.Cluster.Exchange
import Tether.Proofs.Cluster.Mirrors
import Tether.Proofs.Link.Asking

/-! The requests that the simulated world makes on a link, as moves of its endpoint: a request is the
call with the next number, and it waits for its outcome as that call does. -/
namespace Tether

/-- Only tickets that were taken are given back. -/
def Session.Kept (s : Session) : Prop := ∀ k ∈ s.released, k < s.tickets.length

theorem Session.Kept.step {s : Session} (h : s.Kept) (a : Session.Act) : (s.step a).Kept := by
  have hle := (s.tickets_step a).length_le
  have hsame : (s.step a).released = s.released → (s.step a).Kept :=
    fun hreleased k hk => Nat.lt_of_lt_of_le (h k (hreleased ▸ hk)) hle
  cases a with
  | release j =>
    simp only [Session.step,Session.release]
    cases hj : s.tickets[j]? with
    | none => exact h
    | some ticket =>
      by_cases hrel : j ∈ s.released
      · simpa [hrel] using h
      · simp only [hrel,if_false,Kept,List.mem_append,List.mem_singleton]
        rintro k (hk | rfl)
        · exact h k hk
        · exact (List.getElem?_eq_some_iff.mp hj).1
  | start tag =>
    refine hsame ?_
    simp only [Session.step,start]
    split <;> rfl
  | proceed k =>
    refine hsame ?_
    simp only [Session.step]
    cases s.closes[k]? with
    | none => rfl
    | some call =>
      obtain ⟨link,closes,delivered,hproceed⟩ := s.exists_proceed_eq k call
      simp only [hproceed]
  | _ => exact hsame rfl

theorem Session.Kept.run {s : Session} (h : s.Kept) (acts : List Session.Act) : (s.run acts).Kept := by
  induction acts generalizing s with
  | nil => exact h
  | cons a acts ih => exact ih (h.step a)

namespace Endpoint

variable {codec : Codec} {e : Endpoint}

/-- Requests and tickets go by the same numbers. -/
structure Matched (e : Endpoint) : Prop where
  bounded : ∀ x ∈ e.errands, x.Bounded
  tickets : e.errands.map Errand.ticket = e.session.tickets
  kept : e.session.Kept

theorem matched_establish (name : String) (role : Role) (peerAddr : String) (counter : UInt32) :
    (establish name role peerAddr counter).Matched :=
  ⟨fun _ hx => absurd hx List.not_mem_nil,rfl,fun _ hk => absurd hk List.not_mem_nil⟩

theorem Matched.after (h : e.Matched) (a : Event) : (e.after codec a).Matched := by
  cases a with
  | feed bytes => exact ⟨h.bounded,h.tickets,h.kept⟩
  | move m =>
    have hs := @step_cases codec e h.bounded m
    obtain ⟨acts,hacts,-⟩ := hs.session
    exact ⟨hs.bounded h.bounded,hs.tickets h.tickets,hacts ▸ h.kept.run acts⟩

theorem Matched.run (h : e.Matched) (events : List Event) : (e.run codec events).Matched := by
  induction events generalizing e with
  | nil => exact h
  | cons a events ih => exact ih (h.after a)

/-- A request has its ticket and has not given it back. -/
structure Holds (e : Endpoint) (k : Nat) (ticket : Ticket) : Prop where
  taken : e.session.tickets[k]? = some ticket
  kept : k ∉ e.session.released

theorem Holds.link_release {k : Nat} {ticket : Ticket} (h : e.Holds k ticket) :
    (e.release k).session.link = e.session.link.release ticket := by
  simp [Endpoint.release,Session.step,Session.release,h.taken,h.kept]

theorem Holds.stays {e' : Endpoint} {k : Nat} {ticket : Ticket} (h : e.Holds k ticket) (hs : e.Stays e') :
    e'.Holds k ticket :=
  ⟨hs.tickets ▸ h.taken,hs.released ▸ h.kept⟩

/-- Begins a request, which only hello does before the link is ready. -/
def ask (e : Endpoint) (gated : Bool) (tag : Tag) (f : Ticket → Errand) : Endpoint :=
  if gated then e.begin tag f else e.launch tag f

/-- The endpoint after a request has begun. -/
structure Asked (e e' : Endpoint) (tag : Tag) (ticket : Ticket) (x : Errand) : Prop where
  eq : e' = { e with session := e.session.step (.start tag), errands := e.errands ++ [x] }
  tickets : e'.session.tickets = e.session.tickets ++ [ticket]
  released : e'.session.released = e.session.released

theorem asked_launch {tag : Tag} {link : Connection} {ticket : Ticket}
    (hs : e.session.link.startRequest tag = .ok (link,ticket)) (f : Ticket → Errand) :
    e.Asked (e.launch tag f) tag ticket (f ticket) ∧ (e.launch tag f).session.link = link := by
  refine ⟨⟨?_,?_,?_⟩,?_⟩ <;> simp [launch,hs,Session.step,Session.start]

theorem Asked.holds {e' : Endpoint} {tag : Tag} {ticket : Ticket} {x : Errand}
    (h : e.Asked e' tag ticket x) (hm : e.Matched) :
    e'.Holds e.errands.length ticket ∧ e'.errands[e.errands.length]? = some x := by
  have hlen : e.errands.length = e.session.tickets.length := by rw [← hm.tickets,List.length_map]
  refine ⟨⟨?_,fun hk => ?_⟩,by simp [h.eq]⟩
  · simp [h.tickets,hlen]
  · exact Nat.lt_irrefl _ (hlen ▸ hm.kept _ (h.released ▸ hk))

end Endpoint

namespace Cluster

variable {w : World} {i k : Nat} {codec : Codec} {e : Endpoint} {ticket : Ticket}

/-! ### Requests -/

theorem World.Mirrors.releaseTicket (h : w.Mirrors i codec e) (hk : e.Holds k ticket) :
    (w.releaseTicket i ticket).Mirrors i codec (e.release k) :=
  h.unmoved hk.link_release (e.session.link.unmoved_release ticket)

theorem World.Mirrors.openRequest (h : w.Mirrors i codec e) (tag : Tag) (gated : Bool)
    (f : Ticket → Errand) :
    (∃ error, w.openRequest i tag gated = (w,.error error) ∧ e.ask gated tag f = e) ∨
      ∃ w' ticket, w.openRequest i tag gated = (w',.ok ticket) ∧
        w'.Mirrors i codec (e.ask gated tag f) ∧ e.Asked (e.ask gated tag f) tag ticket (f ticket) := by
  unfold World.openRequest
  rw [h.link]
  rcases hgate : (if gated then e.session.link.ensureReady else .ok ()) with error | ⟨⟩
  · refine .inl ⟨error,by simp [hgate],?_⟩
    cases gated with
    | false => simp at hgate
    | true => simp_all [Endpoint.ask,Endpoint.begin]
  · have hask : e.ask gated tag f = e.launch tag f := by
      cases gated with
      | false => rfl
      | true => simp_all [Endpoint.ask,Endpoint.begin]
    simp only [hgate,hask]
    rcases hs : e.session.link.startRequest tag with error | ⟨link,ticket⟩
    · exact .inl ⟨error,rfl,by simp [Endpoint.launch,hs]⟩
    · obtain ⟨hasked,hlink⟩ := Endpoint.asked_launch hs f
      refine .inr ⟨_,ticket,rfl,?_,hasked⟩
      exact (h.unmoved hlink (Connection.unmoved_startRequest hs)).retold rfl (by rw [hasked.eq])
        (by rw [hasked.eq]) (by rw [hasked.eq]) (by rw [hasked.eq])

/-- An exchange in flight is request number `k`, a call that has been sent. -/
def Exchange.Runs (i k : Nat) (e : Endpoint) : Exchange → Prop
  | .fresh _ => False
  | .inFlight link ticket _ _ => link = i ∧ e.Holds k ticket ∧
    ∃ tag data, e.errands[k]? = some (.call ticket tag data .sent)

/-- Where an exchange stands, the call stands: it waits, or it has come to the same outcome. A call that
takes too long is left. -/
def Exchange.Stands (i k : Nat) (e : Endpoint) : Turn Exchange Outcome → Prop
  | .waits x => x.Runs i k e
  | .ends outcome => ∃ ticket tag data stage, e.errands[k]? = some (.call ticket tag data stage) ∧
    (stage.result? = some outcome ∨
      stage = .left ∧ ∃ counter ms, outcome = .error (.requestTimeout counter ms))

/-- What may be left to do for a request that has been written. -/
def endings (k : Nat) : List (List Endpoint.Event) :=
  [[],[.move (.collect k)],[.move (.leave k)],[.move (.forget k)]]

theorem World.Mirrors.concludes (h : w.Mirrors i codec e) (hk : e.Holds k ticket) (x : Errand) :
    (w.releaseTicket i ticket).Mirrors i codec ((e.setErrand k x).release k) := by
  have hset : w.Mirrors i codec (e.setErrand k x) := h.retold rfl rfl rfl rfl rfl
  exact hset.releaseTicket ⟨hk.taken,hk.kept⟩

theorem World.Mirrors.leaves (h : w.Mirrors i codec e) {tag : Tag} {data : List UInt8}
    (herrand : e.errands[k]? = some (.call ticket tag data .sent)) (hk : e.Holds k ticket) :
    (w.releaseTicket i ticket).Mirrors i codec (e.step codec (.leave k)) ∧
      (e.step codec (.leave k)).errands[k]? = some (.call ticket tag data .left) := by
  have hleave : e.step codec (.leave k) = (e.setErrand k (.call ticket tag data .left)).release k := by
    simp [Endpoint.step,Endpoint.leave,herrand]
  rw [hleave]
  exact ⟨h.concludes hk _,by
    simp [Endpoint.release,Endpoint.setErrand,(List.getElem?_eq_some_iff.mp herrand).1]⟩

theorem World.Mirrors.dropExchange (h : w.Mirrors i codec e) {x : Exchange} (hx : x.Runs i k e) :
    (x.drop w).Mirrors i codec (e.step codec (.leave k)) := by
  cases x with
  | fresh request => exact hx.elim
  | inFlight link ticket limit deadline =>
    obtain ⟨rfl,hk,tag,data,herrand⟩ := hx
    exact (h.leaves herrand hk).1

/-- An exchange in flight waits for its outcome as the call does. -/
theorem World.Mirrors.await (h : w.Mirrors i codec e) {limit deadline : Option Nat}
    (hx : (Exchange.inFlight i ticket limit deadline).Runs i k e) : ∃ events ∈ endings k,
      (Exchange.await w i ticket limit deadline).1.Mirrors i codec (e.run codec events) ∧
        Exchange.Stands i k (e.run codec events) (Exchange.await w i ticket limit deadline).2 := by
  obtain ⟨-,hk,tag,data,herrand⟩ := hx
  have hlt := (List.getElem?_eq_some_iff.mp herrand).1
  have hwait : ∃ events ∈ endings k, w.Mirrors i codec (e.run codec events) ∧
      Exchange.Stands i k (e.run codec events) (.waits (.inFlight i ticket limit deadline)) :=
    ⟨[],by simp [endings],h,rfl,hk,tag,data,herrand⟩
  unfold Exchange.await
  simp only [h.link,Option.bind_some]
  cases ho : e.session.link.outcome? ticket with
  | some outcome =>
    refine ⟨[.move (.collect k)],by simp [endings],?_⟩
    have hcollect : e.run codec [.move (.collect k)] =
        (e.setErrand k (.call ticket tag data (.ended outcome))).release k := by
      simp [Endpoint.after,Endpoint.step,Endpoint.collect,herrand,ho]
    rw [hcollect]
    exact ⟨h.concludes hk _,ticket,tag,data,.ended outcome,
      by simp [Endpoint.release,Endpoint.setErrand,hlt],.inl rfl⟩
  | none =>
    rcases limit with _ | ms
    · exact hwait
    · rcases deadline with _ | due
      · exact hwait
      · by_cases hdue : due ≤ w.now
        · simp only [if_pos hdue]
          obtain ⟨hmirrors,hleft⟩ := (h.countOn i [.timeout]).leaves herrand hk
          exact ⟨[.move (.leave k)],by simp [endings],hmirrors,ticket,tag,data,.left,hleft,
            .inr ⟨rfl,_,_,rfl⟩⟩
        · simp only [if_neg hdue]
          exact hwait

def stageOf : Except LinkError Unit → CallStage
  | .ok () => .sent
  | .error error => .refused error

theorem World.Mirrors.written {e₁ : Endpoint} (h : w.Mirrors i codec (e₁.run codec e.closing))
    (hs : e.Stays e₁) (hk : e.Holds k ticket) (hlt : k < e.errands.length) (x : Errand) :
    let e' := (e₁.setErrand k x).run codec e.closing
    w.Mirrors i codec e' ∧ e'.Holds k ticket ∧ e'.errands[k]? = some x := by
  intro e'
  have hclosing := Endpoint.stays_closing codec e (e₁.setErrand k x)
  have hset : (e₁.setErrand k x).Holds k ticket := ⟨hs.tickets ▸ hk.taken,hs.released ▸ hk.kept⟩
  refine ⟨?_,hset.stays hclosing,?_⟩
  · simp only [e',Endpoint.run_closing] at h ⊢
    exact h.retold rfl rfl rfl rfl rfl
  · rw [hclosing.errands]
    simp [Endpoint.setErrand,hs.errands,hlt]

theorem World.Mirrors.writes (h : w.Mirrors i codec e) {tag : Tag} {data : List UInt8}
    (herrand : e.errands[k]? = some (.call ticket tag data .opened)) (hk : e.Holds k ticket) :
    ∃ tear, let e' := (e.step codec (.write k w.supply tear)).run codec e.closing
      (w.writeMessage i ⟨ticket.counter,tag,false,data⟩).1.Mirrors i codec e' ∧ e'.Holds k ticket ∧
        e'.errands[k]? = some
          (.call ticket tag data (stageOf (w.writeMessage i ⟨ticket.counter,tag,false,data⟩).2)) := by
  obtain ⟨tear,hresult,hmirrors⟩ := h.writeMessage ⟨ticket.counter,tag,false,data⟩
  have hstays := (e.puts_writeMessage codec w.supply ⟨ticket.counter,tag,false,data⟩ tear).stays
  have hwrite : e.step codec (.write k w.supply tear) =
      (e.writeMessage codec w.supply ⟨ticket.counter,tag,false,data⟩ tear).1.setErrand k (.call ticket tag
        data (stageOf (e.writeMessage codec w.supply ⟨ticket.counter,tag,false,data⟩ tear).2)) := by
    simp only [Endpoint.step,Endpoint.write,herrand]
    rcases e.writeMessage codec w.supply ⟨ticket.counter,tag,false,data⟩ tear with ⟨e₁,_ | ⟨⟩⟩ <;> rfl
  refine ⟨tear,?_⟩
  rw [hresult,hwrite]
  exact hmirrors.written hstays hk (List.getElem?_eq_some_iff.mp herrand).1 _

/-- An exchange begins as the next call of the endpoint: it is refused, or it is written and waits. -/
theorem World.Mirrors.exchange (h : w.Mirrors i codec e) (hm : e.Matched) (r : Request) (hlink : r.link = i)
    (hgated : r.gated = true ∨ r.tag = .hello) :
    let opening : Endpoint.Move := if r.gated then .call r.tag r.payload else .greet r.payload
    (∃ error, Exchange.begin w r = (w,.ends (.error error)) ∧ e.step codec opening = e) ∨
      ∃ nonces tear, ∃ events ∈ endings e.errands.length,
        let e' := e.run codec
          (.move opening :: .move (.write e.errands.length nonces tear) :: e.closing ++ events)
        (Exchange.begin w r).1.Mirrors i codec e' ∧
          Exchange.Stands i e.errands.length e' (Exchange.begin w r).2 := by
  intro opening
  have hopening : e.step codec opening =
      e.ask r.gated r.tag fun ticket => .call ticket r.tag r.payload .opened := by
    cases hg : r.gated with
    | true => simp [opening,hg,Endpoint.step,Endpoint.call,Endpoint.ask]
    | false =>
      have htag := hgated.resolve_left (by simp [hg])
      simp [opening,hg,htag,Endpoint.step,Endpoint.greet,Endpoint.ask]
  rcases h.openRequest r.tag r.gated fun ticket => .call ticket r.tag r.payload .opened with
    ⟨error,hopen,hsame⟩ | ⟨w₁,ticket,hopen,hmirrors,hasked⟩
  · exact .inl ⟨error,by simp [Exchange.begin,hlink,hopen],hopening.trans hsame⟩
  · right
    obtain ⟨hholds,herrand⟩ := hasked.holds hm
    have hclosing : e.closing =
        (e.ask r.gated r.tag fun ticket => .call ticket r.tag r.payload .opened).closing := by
      rw [hasked.eq]
      simp only [Endpoint.closing,Session.step,Session.start]
      split <;> rfl
    rw [← hopening] at hmirrors hasked hholds herrand hclosing
    obtain ⟨tear,hwritten,hkept,hstage⟩ := hmirrors.writes herrand hholds
    refine ⟨w₁.supply,tear,?_⟩
    simp only [Endpoint.run_cons,Endpoint.run_append,Endpoint.after,List.cons_append,hclosing]
    simp only [Exchange.begin,hlink,hopen]
    generalize ((e.step codec opening).step codec (.write e.errands.length w₁.supply tear)).run codec
      (e.step codec opening).closing = e₂ at *
    generalize w₁.writeMessage i ⟨ticket.counter,r.tag,false,r.payload⟩ = written at *
    rcases written with ⟨w₂,error | ⟨⟩⟩
    · refine ⟨[.move (.forget e.errands.length)],by simp [endings],?_⟩
      have hforget : e₂.run codec [.move (.forget e.errands.length)] = e₂.release e.errands.length := by
        simp [Endpoint.after,Endpoint.step,Endpoint.forget,hstage,stageOf]
      rw [hforget]
      exact ⟨hwritten.releaseTicket hkept,ticket,_,_,_,hstage,.inl rfl⟩
    · exact (hwritten.countOn i [.requestSent]).await ⟨rfl,hkept,_,_,hstage⟩

end Cluster
end Tether
