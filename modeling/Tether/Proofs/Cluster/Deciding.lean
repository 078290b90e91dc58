import Tether.Proofs.Cluster.Calling
import Tether.Proofs.Cluster.Expiring

/-! What a call comes to, read off the replies that have found it waiting: the first of them decides it, and
no other message has a part in it. -/
namespace Tether
namespace Timed

variable {codec : Codec} {limits : Nat → Option UInt64} {t : Timed} {first : UInt32} {i : Nat}
  {ticket : Ticket} {tag : Tag} {data : List UInt8} {stage : CallStage}

/-! ### What a call comes to -/

/-- Why a call has come to an outcome. Unless it was not written, no reply but the first that found it waiting
has had a part in it. -/
inductive Verdict (codec : Codec) (limits : Nat → Option UInt64) (t : Timed) (i : Nat) (ticket : Ticket)
    (tag : Tag) (data : List UInt8) : Outcome → Prop
  | replied (m : Message) : t.heardBy i = [m] → m.response = true → m.counter = ticket.counter →
    m.tag.isError = false → Verdict codec limits t i ticket tag data (.ok (m.tag,m.payload))
  | failed (m : Message) : t.heardBy i = [m] → m.response = true → m.counter = ticket.counter →
    m.tag.isError = true →
    Verdict codec limits t i ticket tag data (.error (.application (Utf8.lossy m.payload)))
  | expired (ms : UInt64) : t.heardBy i = [] → i ∈ t.expired → limits i = some ms →
    Verdict codec limits t i ticket tag data (.error (.requestTimeout ticket.counter ms))
  | lost (reason : String) : t.heardBy i = [] → t.endpoint.session.link.closeReason = some reason →
    Verdict codec limits t i ticket tag data (.error (.lost reason))
  | unwritten (error : LinkError) :
    t.endpoint.errands[i]? = some (.call ticket tag data (.refused error)) →
    Unwritten codec t.endpoint.session.link ⟨ticket.counter,tag,false,data⟩ error →
    Verdict codec limits t i ticket tag data (.error error)

theorem Sound.verdict_of_deliveries (h : t.Sound codec limits first)
    (hcall : t.endpoint.errands[i]? = some (.call ticket tag data stage)) (hi : i ∉ t.expired)
    {outcome : Outcome} (hd : t.endpoint.session.deliveries i = [outcome]) :
    t.Verdict codec limits i ticket tag data outcome := by
  have hticket : ticket = Session.ticketAt first i := (h.asking.ticket hcall).2
  cases h.decided i hi with
  | waiting _ hd' => simp [hd'] at hd
  | lost reason hh hd' hr =>
    obtain rfl : .error (.lost reason) = outcome := by simpa [hd'] using hd
    exact .lost reason hh hr
  | answered m hh hcounter hd' =>
    obtain rfl : Connection.outcomeOf m = outcome := by simpa [hd'] using hd
    have hm : m.response = true := by
      have hmem : m ∈ t.heardBy i := hh ▸ List.mem_singleton.mpr rfl
      obtain ⟨p,hp,rfl⟩ := List.mem_map.mp hmem
      exact h.replies p (List.mem_filter.mp hp).1
    rw [← hticket] at hcounter
    unfold Connection.outcomeOf
    split
    · rename_i herror
      exact .failed m hh hm hcounter herror
    · rename_i herror
      exact .replied m hh hm hcounter (by simpa using herror)

theorem Sound.verdict (h : t.Sound codec limits first)
    (hcall : t.endpoint.errands[i]? = some (.call ticket tag data stage)) {outcome : Outcome}
    (hr : t.result? limits i = some outcome) : t.Verdict codec limits i ticket tag data outcome := by
  simp only [result?,hcall,List.contains_iff_mem] at hr
  split at hr
  · rename_i hi
    obtain ⟨ms,hms,rfl⟩ := Option.map_eq_some_iff.mp hr
    exact .expired ms (h.silent i hi) hi hms
  · rename_i hi
    cases stage with
    | refused error =>
      obtain rfl := Option.some.inj hr
      exact .unwritten error hcall ((h.calls i _ _ _ _ hcall).refused error rfl)
    | ended o =>
      obtain rfl := Option.some.inj hr
      exact h.verdict_of_deliveries hcall hi (h.asking.came i _ hcall)
    | _ => simp [CallStage.result?] at hr

/-- Whoever waits for a call is given its verdict as soon as it looks, or the call has heard nothing and is
still registered. -/
inductive Waits (codec : Codec) (limits : Nat → Option UInt64) (t : Timed) (i : Nat) (ticket : Ticket)
    (tag : Tag) (data : List UInt8) : Prop
  | open : t.heardBy i = [] → t.endpoint.session.InTable i →
    t.endpoint.session.link.outcome? ticket = none → Waits codec limits t i ticket tag data
  | settled (outcome : Outcome) : t.Verdict codec limits i ticket tag data outcome →
    (t.step codec limits (.event (.move (.collect i)))).result? limits i = some outcome →
    Waits codec limits t i ticket tag data

theorem result?_collect (hcall : t.endpoint.errands[i]? = some (.call ticket tag data .sent))
    (hi : i ∉ t.expired) {outcome : Outcome}
    (ho : t.endpoint.session.link.outcome? ticket = some outcome) :
    (t.step codec limits (.event (.move (.collect i)))).result? limits i = some outcome := by
  have hlt := (List.getElem?_eq_some_iff.mp hcall).1
  have hcollect : t.endpoint.after codec (.move (.collect i)) =
      (t.endpoint.setErrand i (.call ticket tag data (.ended outcome))).release i := by
    simp [Endpoint.after,Endpoint.step,Endpoint.collect,hcall,ho]
  simp [step,barred,hi,result?,hcollect,Endpoint.release,Endpoint.setErrand,hlt,CallStage.result?]

theorem Sound.waits (h : t.Sound codec limits first)
    (hcall : t.endpoint.errands[i]? = some (.call ticket tag data .sent)) (hi : i ∉ t.expired) :
    t.Waits codec limits i ticket tag data := by
  obtain ⟨-,houtcome,htable⟩ := h.outcome?_eq hcall
  cases hd : t.endpoint.session.deliveries i with
  | nil =>
    have hnone : t.endpoint.session.link.outcome? ticket = none := by rw [houtcome,hd]; rfl
    cases h.decided i hi with
    | waiting hh => exact .open hh (htable hnone) hnone
    | lost _ hh => exact .open hh (htable hnone) hnone
    | answered _ _ _ hd' => simp [hd'] at hd
  | cons outcome rest =>
    have hsome : t.endpoint.session.link.outcome? ticket = some outcome := by rw [houtcome,hd]; rfl
    have hone : t.endpoint.session.deliveries i = [outcome] := by
      have hle := (h.asking.session.orderly.fate i (h.asking.ticket hcall).1).length_deliveries_le
      rw [hd] at hle ⊢
      simpa using hle
    exact .settled outcome (h.verdict_of_deliveries hcall hi hone) (result?_collect hcall hi hsome)

/-- A result is final. -/
theorem result?_step {outcome : Outcome} (hr : t.result? limits i = some outcome) (tick : Tick) :
    (t.step codec limits tick).result? limits i = some outcome := by
  have hticks := step_cases codec limits t tick
  generalize t.step codec limits tick = t' at hticks ⊢
  cases hticks with
  | idle => exact hr
  | event ev =>
    cases ev with
    | feed bytes => exact hr
    | move m =>
      unfold result? at hr ⊢
      split at hr
      · rename_i ticket tag data stage hcall
        obtain ⟨stage',hgoes⟩ := Endpoint.exists_goes codec hcall m
        simp only [Endpoint.after,hgoes.errand]
        by_cases hi : t.expired.contains i = true
        · rw [if_pos hi] at hr ⊢
          exact hr
        · rw [if_neg hi] at hr ⊢
          have hover : stage.Over := by
            cases stage with
            | opened => simp [CallStage.result?] at hr
            | sent => simp [CallStage.result?] at hr
            | _ => trivial
          rwa [hgoes.becomes.eq_of_over hover]
      · simp at hr
  | expired j ticket tag data hcall _ hj =>
    have hij : i ≠ j := by
      rintro rfl
      simp [result?,hcall,hj,CallStage.result?] at hr
    simpa [result?,hij] using hr

theorem result?_run {outcome : Outcome} (hr : t.result? limits i = some outcome) (ticks : List Tick) :
    (t.run codec limits ticks).result? limits i = some outcome := by
  induction ticks generalizing t with
  | nil => exact hr
  | cons tick ticks ih => exact ih (result?_step hr tick)

/-! ### What a message does -/

/-- What an endpoint does with a message: a request is served and changes nothing about the own requests; a
reply is not served, and takes its own request out of the table and no other. -/
structure Heeds (e e' : Endpoint) (m : Message) : Prop where
  errands : e'.errands = e.errands
  request : m.response = false → e'.session = e.session ∧ e'.serves = e.serves ++ [{ request := m }]
  reply : m.response = true → e'.serves = e.serves ∧
    e'.session.link.pending.entries = e.session.link.pending.entries.filter (·.id != m.counter)
  unasked : m.response = true → (∀ entry ∈ e.session.link.pending.entries, entry.id ≠ m.counter) →
    e'.session.link = e.session.link
  others : ∀ x ∈ e.errands, x.ticket.counter ≠ m.counter →
    e'.session.link.outcome? x.ticket = e.session.link.outcome? x.ticket

theorem heeds_route {e : Endpoint} (ha : e.Asking codec first) (inbound : Inbound) (m : Message) :
    Heeds e ({ e with inbound }.route m) m := by
  unfold Endpoint.route
  cases hm : m.response with
  | false =>
    refine ⟨rfl,fun _ => ⟨rfl,rfl⟩,fun h => ?_,fun h => ?_,fun _ _ _ => rfl⟩
    · rw [hm] at h
      simp at h
    · rw [hm] at h
      simp at h
  | true =>
    refine ⟨rfl,fun h => ?_,fun _ => ⟨rfl,e.session.entries_respond m⟩,fun _ hnone => ?_,fun x hx hne => ?_⟩
    · rw [hm] at h
      simp at h
    · refine Session.link_respond_of_hearers ?_
      rw [Session.hearers,List.map_eq_nil_iff,List.filter_eq_nil_iff]
      exact fun entry he hid => hnone entry he (beq_iff_eq.mp hid)
    · obtain ⟨i,hi⟩ := List.mem_iff_getElem?.mp hx
      have hticket := (ha.ticket hi).2
      rw [hticket] at hne ⊢
      exact ha.session.orderly.outcome?_respond hne

theorem Sound.nodup_counters (h : t.Sound codec limits first)
    (hfew : t.endpoint.session.tickets.length < 2^32) :
    (t.endpoint.errands.map fun x => x.ticket.counter).Nodup := by
  have hmap : (t.endpoint.errands.map fun x => x.ticket.counter) =
      (List.range t.endpoint.session.tickets.length).map fun i => (Session.ticketAt first i).counter := by
    have htickets := congrArg (List.map Ticket.counter)
      (h.asking.tickets.trans h.asking.session.orderly.tickets)
    simpa [Function.comp_def] using htickets
  rw [hmap]
  refine List.Nodup.map_on (fun i hi j hj hij => ?_) List.nodup_range
  rw [List.mem_range] at hi hj
  exact Session.counter_inj (by omega) (by omega) hij

/-- Whatever the peer sends, and whenever the calls of an endpoint are made, written, waited for and left: a
call that has come to something was decided by the first reply under its counter that found it waiting, or
without one by its own time or the loss of the link; a call that was not written is told why. The result is
final. A call that waits is decided as soon as its reply has been read. No message does anything to the
requests but a reply to its own. -/
theorem correlated_of_run {name : String} {role : Role} {peerAddr : String} {counter : UInt32}
    {ticks : List Tick} (hrun : (establish name role peerAddr counter).run codec limits ticks = t)
    (hfew : t.endpoint.session.tickets.length < 2^32) :
    (t.endpoint.errands.map fun x => x.ticket.counter).Nodup ∧
    (∀ i ticket tag data stage, t.endpoint.errands[i]? = some (.call ticket tag data stage) →
      (∀ outcome, t.result? limits i = some outcome →
        t.Verdict codec limits i ticket tag data outcome ∧
        ∀ more, (t.run codec limits more).result? limits i = some outcome) ∧
      (stage = .sent → i ∉ t.expired → t.Waits codec limits i ticket tag data)) ∧
    (∀ ev m, .message m ∈ Endpoint.notes codec t.endpoint ev →
      Heeds t.endpoint (t.endpoint.after codec ev) m) ∧
    t.endpoint.serves.map Serve.request = t.endpoint.routed.filter (!·.response) := by
  have h : t.Sound codec limits counter := by
    subst hrun
    exact (sound_establish codec limits name role peerAddr counter).run ticks hfew
  refine ⟨h.nodup_counters hfew,fun i ticket tag data stage hcall => ⟨fun outcome hr => ?_,?_⟩,
    fun ev m hm => ?_,h.requests⟩
  · exact ⟨h.verdict hcall hr,result?_run hr⟩
  · rintro rfl hi
    exact h.waits hcall hi
  · obtain ⟨inbound,hroute⟩ := Endpoint.exists_route hm
    rw [hroute]
    exact heeds_route h.asking inbound m

/-- Two calls wait. The peer makes a request under the counter of the first, answers a call that was never
made, and the second call twice; then the time of the first call runs out, and its reply comes late. -/
theorem correlated_of_run_crossed :
    let codec : Codec := {}
    let supply : NonceSupply := ⟨fun _ => List.replicate 12 0,fun _ => rfl⟩
    let limits : Nat → Option UInt64 := fun i => if i = 0 then some 100 else none
    let wire (m : Message) := (codec.emitMessage supply.1 m).bytes
    let moves (ms : List Endpoint.Move) : List Tick := ms.map fun m => .event (.move m)
    let ticks := moves [.ready "peer",.call .echo [3],.call .echo [4],.write 0 supply none,
        .write 1 supply none] ++
      [.event (.feed (wire ⟨7,.echo,false,[9]⟩ ++ wire ⟨99,.ok,true,[]⟩ ++ wire ⟨8,.err,true,[110,111]⟩ ++
        wire ⟨8,.ok,true,[5]⟩))] ++ moves [.decode,.decode,.decode,.decode,.collect 1] ++
      [.expire 0,.event (.feed (wire ⟨7,.ok,true,[1]⟩))] ++ moves [.decode,.leave 0]
    let t := (establish "own" .initiator "address" 7).run codec limits ticks
    t.endpoint.session.tickets.length < 2^32 ∧
      t.endpoint.serves.map Serve.request = [⟨7,.echo,false,[9]⟩] ∧
      t.result? limits 0 = some (.error (.requestTimeout 7 100)) ∧ t.heardBy 0 = [] ∧
      t.result? limits 1 = some (.error (.application "no")) ∧
      ∃ m, t.heardBy 1 = [m] ∧ m.counter = 8 ∧ Utf8.lossy m.payload = "no" := by
  intro codec supply limits wire moves ticks t
  have hfew : t.endpoint.session.tickets.length < 2^32 := by decide +kernel
  have hfirst : t.endpoint.errands[0]? = some (.call ⟨7,0⟩ .echo [3] .left) := by decide +kernel
  have hsecond : t.endpoint.errands[1]? =
      some (.call ⟨8,1⟩ .echo [4] (.ended (.error (.application "no")))) := by decide +kernel
  have htimeout : t.result? limits 0 = some (.error (.requestTimeout 7 100)) := by decide +kernel
  have hfailed : t.result? limits 1 = some (.error (.application "no")) := by decide +kernel
  have hrouted : t.endpoint.routed.filter (!·.response) = [⟨7,.echo,false,[9]⟩] := by decide +kernel
  have hrun : (establish "own" .initiator "address" 7).run codec limits ticks = t := rfl
  clear_value t
  obtain ⟨-,hcalls,-,hrequests⟩ := correlated_of_run hrun hfew
  obtain ⟨hverdict,-⟩ := (hcalls 0 _ _ _ _ hfirst).1 _ htimeout
  obtain ⟨hverdict',-⟩ := (hcalls 1 _ _ _ _ hsecond).1 _ hfailed
  refine ⟨hfew,hrequests.trans hrouted,htimeout,?_,hfailed,?_⟩
  · generalize ho : (.error (.requestTimeout 7 100) : Outcome) = outcome at hverdict
    cases hverdict with
    | expired ms hnone => exact hnone
    | _ => simp_all
  · generalize ho : (.error (.application "no") : Outcome) = outcome at hverdict'
    cases hverdict' with
    | failed m hh _ hcounter => exact ⟨m,hh,hcounter,by simpa using ho.symm⟩
    | _ => simp_all

/-- A call that is one byte too long for its chunks to be counted is told so at once: no reply came, no time
ran out, and the link is open. A call whose time has run out has come to that, although a reply still finds
its request in the table. -/
theorem undecided_of_large_call_of_late_reply :
    let codec : Codec := ⟨{ chunkSize := 1 },none⟩
    let supply : NonceSupply := ⟨fun _ => List.replicate 12 0,fun _ => rfl⟩
    let limits : Nat → Option UInt64 := fun _ => some 100
    let called (data : List UInt8) : List Tick := [.event (.move (.ready "peer")),
      .event (.move (.call .echo data)),.event (.move (.write 0 supply none))]
    let start := establish "own" .initiator "address" 7
    let reply : Message := ⟨7,.ok,true,[1]⟩
    let large := start.run codec limits (called (List.replicate 65536 0))
    let late := start.run codec limits
      (called [3] ++ [.expire 0,.event (.feed (codec.emitMessage supply.1 reply).bytes)])
    (large.heard = [] ∧ large.expired = [] ∧ large.endpoint.session.link.closeReason = none ∧
      ∃ size limit, large.result? limits 0 = some (.error (.payloadTooLarge size limit))) ∧
    Endpoint.replies codec late.endpoint (.move .decode) = [reply] ∧
      late.endpoint.session.hearers reply = [0] ∧
      (late.run codec limits [.event (.move .decode),.event (.move (.leave 0))]).result? limits 0 =
        some (.error (.requestTimeout 7 100)) := by
  intro codec supply limits called start reply large late
  refine ⟨?_,by decide +kernel,by decide +kernel,by decide +kernel⟩
  have hlarge : ¬ codec.Carries (List.replicate 65536 (0 : UInt8)).length := by
    rw [List.length_replicate]
    decide
  simp only [large,called]
  generalize List.replicate 65536 (0 : UInt8) = data at hlarge ⊢
  let e : Endpoint := (establish "own" .initiator "address" 7).endpoint.run codec
    [.move (.ready "peer"),.move (.call .echo data)]
  have hcall : e.errands = [.call ⟨7,0⟩ .echo data .opened] := rfl
  obtain ⟨error,hf⟩ : ∃ error, (codec.emitMessage supply.1 ⟨7,.echo,false,data⟩).fault = some error := by
    refine Option.ne_none_iff_exists'.mp fun hnone => hlarge ?_
    exact (Codec.fault_eq_none_iff (by simp [Codec.Sound,codec]) (by decide) supply _).mp hnone
  obtain ⟨size,limit,rfl⟩ := Codec.fault_emitMessage hf
  have hwrite : e.write codec 0 supply none =
      e.setErrand 0 (.call ⟨7,0⟩ .echo data (.refused (.payloadTooLarge size limit))) := by
    simp [Endpoint.write,hcall,Endpoint.writeMessage_of_fault e hf]
  have hrun : start.run codec limits [.event (.move (.ready "peer")),.event (.move (.call .echo data)),
      .event (.move (.write 0 supply none))] = { endpoint := e.write codec 0 supply none } := rfl
  rw [hrun,hwrite]
  exact ⟨rfl,rfl,rfl,size,limit,by simp [result?,Endpoint.setErrand,hcall,CallStage.result?]⟩

end Timed

/-! ### The world waits in one go -/

/-- The world looks for an outcome, and gives a call up when its deadline has passed, all at once; its
endpoint takes the ticks one by one and comes to the same result. -/
theorem Cluster.World.Mirrors.await_timed {w : Cluster.World} {codec : Codec} {t : Timed}
    {limits : Nat → Option UInt64} {i k : Nat} {ticket : Ticket} {limit deadline : Option Nat}
    (h : w.Mirrors i codec t.endpoint)
    (hx : (Cluster.Exchange.inFlight i ticket limit deadline).Runs i k t.endpoint)
    (hk : k ∉ t.expired) (hlimit : limits k = limit.map UInt64.ofNat) :
    ∃ ticks, (Cluster.Exchange.await w i ticket limit deadline).1.Mirrors i codec
        (t.run codec limits ticks).endpoint ∧
      ∀ outcome, (Cluster.Exchange.await w i ticket limit deadline).2 = .ends outcome →
        (t.run codec limits ticks).result? limits k = some outcome := by
  obtain ⟨-,hholds,tag,data,hcall⟩ := hx
  unfold Cluster.Exchange.await
  simp only [h.link,Option.bind_some]
  cases ho : t.endpoint.session.link.outcome? ticket with
  | some outcome =>
    refine ⟨[.event (.move (.collect k))],?_,fun outcome' he => ?_⟩
    · have hcollect : (t.run codec limits [.event (.move (.collect k))]).endpoint =
          (t.endpoint.setErrand k (.call ticket tag data (.ended outcome))).release k := by
        simp [Timed.step,Timed.barred,hk,Endpoint.after,Endpoint.step,Endpoint.collect,hcall,ho]
      rw [hcollect]
      exact h.concludes hholds _
    · obtain rfl : outcome = outcome' := by simpa using he
      exact Timed.result?_collect hcall hk ho
  | none =>
    have hwait : ∃ ticks, w.Mirrors i codec (t.run codec limits ticks).endpoint ∧
        ∀ outcome, (Turn.waits (Cluster.Exchange.inFlight i ticket limit deadline) :
          Turn Cluster.Exchange Outcome) = .ends outcome →
            (t.run codec limits ticks).result? limits k = some outcome :=
      ⟨[],h,fun outcome he => by simp at he⟩
    rcases limit with _ | ms
    · exact hwait
    · rcases deadline with _ | due
      · exact hwait
      · by_cases hdue : due ≤ w.now
        · simp only [if_pos hdue]
          have hexpire : t.step codec limits (.expire k) = { t with expired := t.expired ++ [k] } := by
            simp [Timed.step,hcall,hlimit,hk,ho]
          have hrun : t.run codec limits [.expire k,.event (.move (.leave k))] =
              { t with endpoint := t.endpoint.step codec (.leave k), expired := t.expired ++ [k] } := by
            rw [Timed.run_cons,hexpire]
            exact congrArg (Timed.mk _ _) (List.append_nil _)
          obtain ⟨hmirrors,hleft⟩ := (h.countOn i [.timeout]).leaves hcall hholds
          refine ⟨[.expire k,.event (.move (.leave k))],hrun ▸ hmirrors,fun outcome he => ?_⟩
          obtain rfl : .error (.requestTimeout ticket.counter (UInt64.ofNat ms)) = outcome := by
            simpa using he
          simp [hrun,Timed.result?,hleft,hlimit]
        · simp only [if_neg hdue]
          exact hwait

end Tether
