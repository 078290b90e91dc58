import Tether.Cluster.Exchange
import Tether.Proofs.Cluster.Finishing
import Tether.Proofs.Link.Telling

/-! A turn of an exchange, as what it does to the link. It takes a ticket and may have the link closed by a
write that breaks off; once it has come to an outcome it gives its ticket back. The outcome is what a reply
under its own counter means, the loss of the link, or an error of this side. -/
namespace Tether

/-- An error that no reply tells. -/
def LinkError.Own (e : LinkError) : Prop := ∀ text, e ≠ .application text

namespace Connection

variable {c : Connection} {tag : Tag} {e : LinkError}

theorem own_lostError (c : Connection) : c.lostError.Own := by simp [lostError,LinkError.Own]

theorem own_of_register {p : Pending} {counter : UInt32} (h : p.register counter tag = .error e) : e.Own := by
  unfold Pending.register at h
  split at h
  · obtain rfl := Except.error.inj h
    simp [LinkError.Own]
  · split at h
    · obtain rfl := Except.error.inj h
      simp [LinkError.Own]
    · cases h

theorem own_of_allocate {p : Pending} {counter : UInt32} {fuel : Nat}
    (h : allocate tag p counter fuel = .error e) : e.Own := by
  induction fuel generalizing counter with
  | zero =>
    obtain rfl := Except.error.inj h
    simp [LinkError.Own]
  | succ fuel ih =>
    rw [allocate] at h
    cases hr : p.register counter tag with
    | ok entered => simp [hr] at h
    | error e' =>
      have hown := own_of_register hr
      rw [hr] at h
      cases e' with
      | protocol fault => exact ih h
      | _ => exact Except.error.inj h ▸ hown

theorem own_of_startRequest (h : c.startRequest tag = .error e) : e.Own := by
  unfold startRequest at h
  split at h
  · rename_i e' ha
    obtain rfl := Except.error.inj h
    exact own_of_allocate ha
  · cases h

theorem own_of_ensureReady (h : c.ensureReady = .error e) : e.Own := by
  unfold ensureReady at h
  split at h
  · cases h
  · obtain rfl := Except.error.inj h
    exact c.own_lostError
  · obtain rfl := Except.error.inj h
    simp [LinkError.Own]

end Connection

/-! ### Steps of closing -/

namespace Session

variable {s : Session}

/-- A step of some call to close. -/
def Act.Closing : Act → Prop
  | .close _ | .proceed _ => True
  | _ => False

/-- Closing leaves the requests and the replies alone. -/
structure Spared (s s' : Session) : Prop where
  tickets : s'.tickets = s.tickets
  released : s'.released = s.released
  replies : s'.replies = s.replies

theorem spared_run {acts : List Act} (h : ∀ a ∈ acts, a.Closing) : s.Spared (s.run acts) := by
  induction acts generalizing s with
  | nil => exact ⟨rfl,rfl,rfl⟩
  | cons a acts ih =>
    obtain ⟨ha,hacts⟩ := List.forall_mem_cons.mp h
    obtain ⟨htickets,hreleased,hreplies⟩ := ih (s := s.step a) hacts
    have hstart : ∀ tag, a ≠ .start tag := by
      rintro tag rfl
      exact ha
    have hrelease : ∀ k, a ≠ .release k := by
      rintro k rfl
      exact ha
    have hrespond : ∀ m, a ≠ .respond m := by
      rintro m rfl
      exact ha
    exact ⟨htickets.trans (tickets_step_of_ne hstart),hreleased.trans (released_step hrelease),
      hreplies.trans (s.replies_step hrespond)⟩

def closing (s : Session) (reason : String) : List Act :=
  .close reason :: List.replicate 4 (.proceed s.closes.length)

theorem closing_closing (s : Session) (reason : String) : ∀ a ∈ s.closing reason, a.Closing := by
  simp [closing,Act.Closing]

theorem Open.spared {s' : Session} {ticket : Ticket} (h : s.Open ticket) (hs : s.Spared s') : s'.Open ticket :=
  ⟨hs.tickets ▸ h.taken,hs.released ▸ h.kept⟩

inductive Comes (s : Session) (ticket : Ticket) : Outcome → Prop
  | told (outcome : Outcome) : Told s.replies ticket.counter outcome → Comes s ticket outcome
  | expired (ms : UInt64) : Comes s ticket (.error (.requestTimeout ticket.counter ms))
  | unsent (e : LinkError) : e.Own → Comes s ticket (.error e)

theorem Comes.mono {s' : Session} {ticket : Ticket} {outcome : Outcome} (h : s.Comes ticket outcome)
    (hsub : s.replies ⊆ s'.replies) : s'.Comes ticket outcome := by
  cases h with
  | told _ ht => exact .told _ (ht.mono hsub)
  | expired ms => exact .expired ms
  | unsent e he => exact .unsent e he

end Session

namespace Cluster

/-! ### What the world does to one link -/

namespace World

variable {w w' w'' : World} {i : Nat} {c c' c'' : Connection}

/-- One link goes from one state to another, and no failed probe is counted for it. -/
structure Brings (w w' : World) (i : Nat) (c c' : Connection) : Prop where
  before : w.links[i]? = some c
  after : w'.links[i]? = some c'
  quiet : ∀ t, w.traffic? i = some t →
    ∃ t', w'.traffic? i = some t' ∧ t'.keepaliveFailures = t.keepaliveFailures

theorem Brings.trans (h : w.Brings w' i c c') (h' : w'.Brings w'' i c' c'') : w.Brings w'' i c c'' := by
  refine ⟨h.before,h'.after,fun t ht => ?_⟩
  obtain ⟨t',ht',hsame⟩ := h.quiet t ht
  obtain ⟨t'',ht'',hsame'⟩ := h'.quiet t' ht'
  exact ⟨t'',ht'',hsame'.trans hsame⟩

theorem brings_of_same (hc : w.links[i]? = some c) (hlinks : w'.links = w.links)
    (htraffic : w'.traffic? i = w.traffic? i) : w.Brings w' i c c :=
  ⟨hc,hlinks ▸ hc,fun t ht => ⟨t,htraffic.trans ht,rfl⟩⟩

theorem brings_refl (hc : w.links[i]? = some c) : w.Brings w i c c := brings_of_same hc rfl rfl

theorem brings_onLink (hc : w.links[i]? = some c) (f : Connection → Connection) :
    w.Brings (w.onLink i f) i c (f c) :=
  ⟨hc,by simp [onLink,Links.update,hc],fun t ht => ⟨t,ht,rfl⟩⟩

theorem brings_countOn (hc : w.links[i]? = some c) (event : TrafficEvent) (hevent : event ≠ .keepaliveFailure) :
    w.Brings (w.countOn i [event]) i c c := by
  refine ⟨hc,by rw [links_countOn,hc],fun t ht => ⟨t.count event,?_,?_⟩⟩
  · rw [traffic?_countOn,ht]
    rfl
  · cases event <;> first | rfl | exact absurd rfl hevent

theorem brings_count (hc : w.links[i]? = some c) {s : Stream} (hs : w.streams[i]? = some s)
    {event : TrafficEvent} (hevent : event ≠ .keepaliveFailure) : w.Brings (w.count s.traffic [event]) i c c := by
  have hcounted := brings_countOn hc event hevent
  rwa [countOn,hs] at hcounted

theorem brings_pour (hc : w.links[i]? = some c) (pipe : Nat) (bytes : List UInt8) :
    w.Brings (w.pour pipe bytes) i c c ∧ (w.pour pipe bytes).streams = w.streams := by
  unfold pour
  split <;> exact ⟨brings_of_same hc rfl rfl,rfl⟩

/-- What comes of writing: nothing changes for the link, or the write breaks off and closes it. -/
inductive Writes (c : Connection) : Except LinkError Unit → Connection → Prop
  | done : Writes c (.ok ()) c
  | refused (e : LinkError) : e.Own → Writes c (.error e) c
  | torn (reason : String) : Writes c (.error (.lost reason)) (c.close reason)

theorem writes_bytes (hc : w.links[i]? = some c) (bytes : List UInt8) (frames : Nat) :
    ∃ c', w.Brings (w.writeBytes i bytes frames).1 i c c' ∧ Writes c (w.writeBytes i bytes frames).2 c' := by
  unfold writeBytes
  rw [hc]
  cases hs : w.streams[i]? with
  | none => exact ⟨c,brings_refl hc,.refused _ (by simp [LinkError.Own])⟩
  | some s =>
    simp only
    split
    · exact ⟨c,brings_refl hc,.refused _ c.own_lostError⟩
    · cases s.allowance with
      | none =>
        obtain ⟨hpour,hsame⟩ := brings_pour hc s.sink bytes
        exact ⟨c,hpour.trans (brings_count hpour.after (by rw [hsame,hs]) (by simp)),.done⟩
      | some most =>
        obtain ⟨hpour,hsame⟩ := brings_pour hc s.sink (bytes.take most)
        let spend (s : Stream) : Stream := { s with allowance := some (most - bytes.length) }
        have hspent : w.Brings ((w.pour s.sink (bytes.take most)).onStream i spend) i c c :=
          hpour.trans (brings_of_same hpour.after rfl (traffic?_onStream _ i i fun _ => rfl))
        simp only
        split
        · have hs' : ((w.pour s.sink (bytes.take most)).onStream i spend).streams[i]? = some (spend s) := by
            simp [onStream,hsame,hs]
          exact ⟨c,hspent.trans (brings_count hspent.after hs' (by simp)),.done⟩
        · have htorn := hspent.trans (brings_countOn hspent.after .error (by simp))
          exact ⟨_,htorn.trans (brings_onLink htorn.after _),.torn _⟩

theorem writes_message (hc : w.links[i]? = some c) (m : Message) :
    ∃ c', w.Brings (w.writeMessage i m).1 i c c' ∧ Writes c (w.writeMessage i m).2 c' := by
  cases hs : w.streams[i]? with
  | none =>
    rw [writeMessage,hs]
    exact ⟨c,brings_refl hc,.refused _ (by simp [LinkError.Own])⟩
  | some s =>
    rw [writeMessage_eq hs]
    cases hf : (s.codec.emitMessage w.nonces m).fault with
    | some e =>
      obtain ⟨size,limit,rfl⟩ := Codec.fault_emitMessage hf
      exact ⟨c,brings_refl hc,.refused _ (by simp [LinkError.Own])⟩
    | none => exact writes_bytes hc ..

theorem now_countOn (w : World) (i : Nat) (events : List TrafficEvent) : (w.countOn i events).now = w.now := by
  unfold countOn
  split <;> rfl

theorem writeMessage_of_room (hc : w.links[i]? = some c) {s : Stream} (hs : w.streams[i]? = some s)
    (hrunning : c.halted = false) (hwritable : s.writable = true) (hroom : s.allowance = none) {m : Message}
    (hfault : (s.codec.emitMessage w.nonces m).fault = none) :
    ∃ w', w.writeMessage i m = (w',.ok ()) ∧ w'.links = w.links ∧ w'.now = w.now := by
  rw [writeMessage_eq hs,hfault]
  dsimp only
  rw [writeBytes,hc,hs]
  simp only [hrunning,hwritable,hroom]
  refine ⟨_,rfl,?_,?_⟩ <;> simp only [count,pour] <;> split <;> rfl

theorem openRequest_cases (hc : w.links[i]? = some c) (tag : Tag) (gated : Bool) :
    (∃ e, w.openRequest i tag gated = (w,.error e) ∧ e.Own) ∨
    ∃ c' ticket, c.startRequest tag = .ok (c',ticket) ∧
      w.openRequest i tag gated = (w.onLink i fun _ => c',.ok ticket) := by
  unfold openRequest
  rw [hc]
  rcases hgate : (if gated then c.ensureReady else .ok ()) with e | ⟨⟩
  · refine .inl ⟨e,by simp only [hgate],?_⟩
    cases gated with
    | false => cases hgate
    | true => exact Connection.own_of_ensureReady hgate
  · rcases hs : c.startRequest tag with e | ⟨c',ticket⟩
    · exact .inl ⟨e,by simp only [hgate,hs],Connection.own_of_startRequest hs⟩
    · exact .inr ⟨c',ticket,rfl,by simp only [hgate,hs]⟩

end World

namespace Exchange

variable {w : World} {i : Nat} {s : Session} {ticket : Ticket}

/-! ### One turn -/

def ticket? (w : World) : Exchange → Option Ticket
  | .fresh r => (w.openRequest r.link r.tag r.gated).2.toOption
  | .inFlight _ ticket _ _ => some ticket

def opening (w : World) : Exchange → List Session.Act
  | .fresh r => match (w.openRequest r.link r.tag r.gated).2 with
    | .ok _ => [.start r.tag]
    | .error _ => []
  | .inFlight .. => []

def leaving (w : World) (x : Exchange) : List Session.Act :=
  match (x.run w).2,x.ticket? w with
  | .ends _,some ticket => [.release ticket.slot]
  | _,_ => []

/-- What a turn does to the link, with the steps of closing that a write takes if it breaks off. -/
def acts (w : World) (torn : List Session.Act) (x : Exchange) : List Session.Act :=
  x.opening w ++ torn ++ x.leaving w

/-- An exchange on this link; one in flight has its request there. -/
def Fits (i : Nat) (s : Session) : Exchange → Prop
  | .fresh r => r.link = i
  | .inFlight link ticket _ _ => link = i ∧ s.Open ticket

/-- What a turn comes to. The session is the one that has taken the ticket. -/
inductive Turns (i : Nat) (w : World) (c : Connection) (s : Session) (x : Exchange) : Prop
  | refused (e : LinkError) : x.ticket? w = none → x.opening w = [] → x.run w = (w,.ends (.error e)) → e.Own →
    Turns i w c s x
  | torn (ticket : Ticket) (reason reason' : String) : x.ticket? w = some ticket → s.Open ticket →
    (x.run w).2 = .ends (.error (.lost reason)) →
    w.Brings (x.run w).1 i c ((s.link.close reason').release ticket) → Turns i w c s x
  | ended (ticket : Ticket) (outcome : Outcome) : x.ticket? w = some ticket → s.Open ticket →
    (x.run w).2 = .ends outcome → s.Comes ticket outcome →
    w.Brings (x.run w).1 i c (s.link.release ticket) → Turns i w c s x
  | waits (ticket : Ticket) (limit deadline : Option Nat) : x.ticket? w = some ticket → s.Open ticket →
    (x.run w).2 = .waits (.inFlight i ticket limit deadline) → w.Brings (x.run w).1 i c s.link → Turns i w c s x

theorem await_cases (hr : s.Reached) (hlink : w.links[i]? = some s.link) (ho : s.Open ticket)
    (limit deadline : Option Nat) :
    (await w i ticket limit deadline = (w,.waits (.inFlight i ticket limit deadline))) ∨
    ∃ outcome, (await w i ticket limit deadline).2 = .ends outcome ∧ s.Comes ticket outcome ∧
      w.Brings (await w i ticket limit deadline).1 i s.link (s.link.release ticket) := by
  unfold await
  rw [hlink,Option.bind_some]
  cases houtcome : s.link.outcome? ticket with
  | some outcome =>
    exact .inr ⟨outcome,rfl,.told _ (hr.told ho.taken ho.kept houtcome),World.brings_onLink hlink _⟩
  | none =>
    rcases limit with _ | ms
    · exact .inl rfl
    · rcases deadline with _ | due
      · exact .inl rfl
      · by_cases hdue : due ≤ w.now
        · simp only [if_pos hdue]
          have htimeout := World.brings_countOn hlink .timeout (by simp)
          exact .inr ⟨_,rfl,.expired _,htimeout.trans (World.brings_onLink htimeout.after _)⟩
        · exact .inl (if_neg hdue)

theorem turns_inFlight (hr : s.Reached) (hlink : w.links[i]? = some s.link) (ho : s.Open ticket)
    (limit deadline : Option Nat) :
    Turns i w s.link (s.run ((inFlight i ticket limit deadline).opening w)) (.inFlight i ticket limit deadline) := by
  rcases await_cases hr hlink ho limit deadline with hwaits | ⟨outcome,hends,hcomes,hbrings⟩
  · exact .waits ticket limit deadline rfl ho (by rw [run,hwaits]) (by rw [run,hwaits]; exact World.brings_refl hlink)
  · exact .ended ticket outcome rfl ho hends hcomes hbrings

theorem turns_fresh (hr : s.Reached) (hlink : w.links[i]? = some s.link) {r : Request} (hi : r.link = i) :
    Turns i w s.link (s.run ((fresh r).opening w)) (.fresh r) := by
  subst hi
  rcases w.openRequest_cases hlink r.tag r.gated with ⟨e,hopen,he⟩ | ⟨link,ticket,hstart,hopen⟩
  · exact .refused e (by simp [ticket?,hopen,Except.toOption]) (by simp [opening,hopen])
      (by simp [run,begin,hopen]) he
  · obtain ⟨hlink₁,ho⟩ := hr.open_start hstart
    have hticket : (fresh r).ticket? w = some ticket := by simp [ticket?,hopen,Except.toOption]
    have hopening : s.run ((fresh r).opening w) = s.step (.start r.tag) := by simp [opening,hopen]
    rw [hopening]
    have hr₁ : (s.step (.start r.tag)).Reached := hr.later [.start r.tag]
    have htaken := World.brings_onLink hlink fun _ => link
    rw [← hlink₁] at htaken
    have hrun : (fresh r).run w = begin w r := rfl
    simp only [begin,hopen,← hlink₁] at hrun
    generalize s.step (.start r.tag) = s₁ at hlink₁ ho hr₁ htaken hrun ⊢
    obtain ⟨c',hwritten,hwrites⟩ := World.writes_message htaken.after ⟨ticket.counter,r.tag,false,r.payload⟩
    generalize (w.onLink r.link fun _ => s₁.link).writeMessage r.link ⟨ticket.counter,r.tag,false,r.payload⟩ =
      written at hrun hwritten hwrites
    obtain ⟨w₂,result⟩ := written
    have hbrings := htaken.trans hwritten
    have hleft := hbrings.trans (World.brings_onLink hbrings.after (·.release ticket))
    cases hwrites with
    | refused e he =>
      exact .ended ticket _ hticket ho (by rw [hrun]) (.unsent e he) (by rw [hrun]; exact hleft)
    | torn reason => exact .torn ticket reason reason hticket ho (by rw [hrun]) (by rw [hrun]; exact hleft)
    | done =>
      have hsent := hbrings.trans (World.brings_countOn hbrings.after .requestSent (by simp))
      dsimp only at hrun
      rcases await_cases hr₁ hsent.after ho r.limit (r.limit.map (w₂.now + ·)) with
        hwaits | ⟨outcome,hends,hcomes,hawaited⟩
      · rw [hwaits] at hrun
        exact .waits ticket _ _ hticket ho (by rw [hrun]) (by rw [hrun]; exact hsent)
      · exact .ended ticket outcome hticket ho (by rw [hrun,hends]) hcomes (by rw [hrun]; exact hsent.trans hawaited)

theorem turns (hr : s.Reached) (hlink : w.links[i]? = some s.link) {x : Exchange} (hx : x.Fits i s) :
    x.Turns i w s.link (s.run (x.opening w)) := by
  cases x with
  | fresh r => exact turns_fresh hr hlink hx
  | inFlight link ticket limit deadline =>
    obtain ⟨rfl,ho⟩ := hx
    exact turns_inFlight hr hlink ho limit deadline

/-! ### What is left behind -/

/-- An outcome, and the request that came to it, if there was one. -/
structure Heard where
  ticket : Option Ticket
  outcome : Outcome

/-- What an exchange that has ended leaves behind. -/
inductive Heard.Sound (s : Session) : Heard → Prop
  | refused (e : LinkError) : e.Own → Sound s ⟨none,.error e⟩
  | came (ticket : Ticket) (outcome : Outcome) : s.tickets[ticket.slot]? = some ticket →
    ticket.slot ∈ s.released → s.Comes ticket outcome → Sound s ⟨some ticket,outcome⟩

theorem Heard.Sound.run {h : Heard} (hs : h.Sound s) (acts : List Session.Act) : h.Sound (s.run acts) := by
  cases hs with
  | refused e he => exact .refused e he
  | came ticket outcome htaken hleft hcomes =>
    refine .came ticket outcome ?_ (Session.released_run acts hleft) (hcomes.mono (s.replies_subset_run acts))
    obtain ⟨more,hmore⟩ := s.tickets_run acts
    rw [← hmore,List.getElem?_append_left (List.getElem?_eq_some_iff.mp htaken).1]
    exact htaken

def hear (w : World) (x : Exchange) : List Heard :=
  match (x.run w).2 with
  | .waits _ => []
  | .ends outcome => [⟨x.ticket? w,outcome⟩]

variable {c : Connection} {x : Exchange} {torn : List Session.Act}

theorem run_acts (w : World) (s : Session) (x : Exchange) (torn : List Session.Act) :
    s.run (x.acts w torn) = ((s.run (x.opening w)).run torn).run (x.leaving w) := by
  rw [acts,Session.run_append,Session.run_append]

def Held (i : Nat) (s : Session) (x : Exchange) : Prop :=
  ∃ ticket limit deadline, x = .inFlight i ticket limit deadline ∧ s.Open ticket

theorem Held.fits (h : x.Held i s) : x.Fits i s := by
  obtain ⟨ticket,limit,deadline,rfl,ho⟩ := h
  exact ⟨rfl,ho⟩

theorem Turns.held (h : x.Turns i w c (s.run (x.opening w))) (htorn : ∀ a ∈ torn, a.Closing) {x' : Exchange}
    (hx : (x.run w).2 = .waits x') : x'.Held i (s.run (x.acts w torn)) := by
  cases h with
  | refused e _ _ hrun => simp [hrun] at hx
  | torn ticket reason reason' _ _ hrun => simp [hrun] at hx
  | ended ticket outcome _ _ hrun => simp [hrun] at hx
  | waits ticket limit deadline hticket ho hrun =>
    obtain rfl := Turn.waits.inj (hrun.symm.trans hx)
    rw [run_acts,leaving,hrun,hticket]
    exact ⟨ticket,limit,deadline,rfl,ho.spared (Session.spared_run htorn)⟩

/-- An exchange that ends has left its request. -/
theorem Turns.sound (h : x.Turns i w c (s.run (x.opening w))) (htorn : ∀ a ∈ torn, a.Closing) {found : Heard}
    (hfound : found ∈ x.hear w) : found.Sound (s.run (x.acts w torn)) := by
  have hleft : ∀ ticket outcome, x.ticket? w = some ticket → (s.run (x.opening w)).Open ticket →
      (x.run w).2 = .ends outcome → (s.run (x.opening w)).Comes ticket outcome →
      found.Sound (s.run (x.acts w torn)) := by
    intro ticket outcome hticket ho hrun hcomes
    have hspared := Session.spared_run (s := s.run (x.opening w)) htorn
    have ho' := ho.spared hspared
    rw [hear,hrun] at hfound
    rw [List.mem_singleton.mp hfound,run_acts,leaving,hrun,hticket]
    refine .came ticket outcome ?_ ?_ (hcomes.mono ?_)
    · rw [Session.run_cons,Session.run_nil,Session.tickets_step_of_ne (by simp)]
      exact ho'.taken
    · exact Session.mem_released_release (List.getElem?_eq_some_iff.mp ho'.taken).1
    · rw [← hspared.replies]
      exact Session.replies_subset_run _ _
  cases h with
  | refused e hnone _ hrun he =>
    rw [hear,hrun,hnone] at hfound
    exact List.mem_singleton.mp hfound ▸ .refused e he
  | torn ticket reason reason' hticket ho hrun =>
    exact hleft ticket _ hticket ho hrun (.unsent _ (by simp [LinkError.Own]))
  | ended ticket outcome hticket ho hrun hcomes => exact hleft ticket outcome hticket ho hrun hcomes
  | waits ticket limit deadline _ _ hrun => simp [hear,hrun] at hfound

theorem Turns.exists_acts (h : x.Turns i w s.link (s.run (x.opening w))) (hlink : w.links[i]? = some s.link) :
    ∃ torn, (∀ a ∈ torn, a.Closing) ∧ w.Brings (x.run w).1 i s.link (s.run (x.acts w torn)).link ∧
      (torn = [] ∨ ∃ reason, (x.run w).2 = .ends (.error (.lost reason))) := by
  cases h with
  | refused e hnone hopening hrun =>
    refine ⟨[],by simp,?_,.inl rfl⟩
    rw [run_acts,leaving,hopening,hnone,hrun]
    exact World.brings_refl hlink
  | torn ticket reason reason' hticket ho hrun hbrings =>
    have htorn := (s.run (x.opening w)).closing_closing reason'
    refine ⟨_,htorn,?_,.inr ⟨reason,hrun⟩⟩
    have ho' := ho.spared (Session.spared_run htorn)
    rw [run_acts,leaving,hrun,hticket,Session.run_cons,Session.run_nil,ho'.link_release,Session.closing,
      Session.link_close]
    exact hbrings
  | ended ticket outcome hticket ho hrun _ hbrings =>
    refine ⟨[],by simp,?_,.inl rfl⟩
    rw [run_acts,leaving,hrun,hticket,Session.run_nil,Session.run_cons,Session.run_nil,ho.link_release]
    exact hbrings
  | waits ticket limit deadline hticket ho hrun hbrings =>
    refine ⟨[],by simp,?_,.inl rfl⟩
    rw [run_acts,leaving,hrun,hticket]
    exact hbrings

/-- Neither taking a ticket nor giving it back closes a link. -/
theorem closeReason_acts (w : World) (s : Session) (x : Exchange) :
    (s.run (x.acts w [])).link.closeReason = s.link.closeReason := by
  have hleaving : ∀ s : Session, (s.run (x.leaving w)).link.closeReason = s.link.closeReason := by
    intro s
    unfold leaving
    split
    · simp only [Session.run_cons,Session.run_nil,Session.step,Session.release]
      split
      · rfl
      · split
        · rfl
        · exact (s.link.unmoved_release _).reason
    · rfl
  rw [run_acts,hleaving,Session.run_nil]
  cases x with
  | inFlight => rfl
  | fresh r =>
    simp only [opening]
    split
    · simp only [Session.run_cons,Session.run_nil,Session.step,Session.start]
      split
      · rename_i hstart
        exact (Connection.unmoved_startRequest hstart).reason
      · rfl
    · rfl

end Exchange
end Cluster
end Tether
