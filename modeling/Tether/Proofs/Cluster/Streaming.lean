import Tether.Proofs.Cluster.Spelling

/-! The reading loop against the stream that it reads: it routes what the stream says, in that order and up
to the first fault, counts the frames of that, and what is wrong with the stream is why the link closes and
what its requests fail with. -/
namespace Tether

namespace Connection

/-- A request that is let in displaces nobody. -/
theorem entries_subset_startRequest {c c' : Connection} {tag : Tag} {ticket : Ticket}
    (h : c.startRequest tag = .ok (c',ticket)) : c.pending.entries ⊆ c'.pending.entries := by
  have hallocate : ∀ (p p' : Pending) (counter : UInt32) (fuel : Nat),
      allocate tag p counter fuel = .ok (p',ticket) → p.entries ⊆ p'.entries := by
    intro p p' counter fuel
    induction fuel generalizing counter with
    | zero => simp [allocate]
    | succ fuel ih =>
      intro hok
      rw [allocate] at hok
      unfold Pending.register at hok
      cases hc : p.closed with
      | some reason => simp [hc] at hok
      | none =>
        rw [hc] at hok
        by_cases hcontains : p.contains counter = true
        · simp only [hcontains,if_true] at hok
          exact ih (counter + 1) hok
        · simp only [hcontains,Bool.false_eq_true,if_false,Except.ok.injEq,Prod.mk.injEq] at hok
          rw [← hok.1]
          exact List.subset_append_left ..
  unfold startRequest at h
  split at h
  · simp at h
  · rename_i p ticket' hok
    simp only [Except.ok.injEq,Prod.mk.injEq] at h
    obtain ⟨rfl,rfl⟩ := h
    exact hallocate _ _ _ _ hok

end Connection

namespace Session

variable {s s' : Session} {text : String}

theorem Owned.closes_finished (h : s.Owned) {stage : CloseStage} (hc : s.closes = [⟨text,stage⟩]) :
    (s.run (List.replicate (4 - stage.rank) (.proceed 0))).closes[0]? = some ⟨text,.finished⟩ := by
  have hfirst : s.closes[0]? = some ⟨text,stage⟩ := by simp [hc]
  cases h with
  | free hr hp hcalled =>
    obtain rfl : stage = .called := hcalled ⟨text,stage⟩ (by simp [hc])
    have hrecorded : (s.step (.proceed 0)).closes[0]? = some ⟨text,.recorded⟩ := by
      simp [Session.step,hc,Session.proceed,Connection.recordReason,hr,mark]
    exact closes_run_proceed (n := 3) hrecorded (by decide) rfl
  | taken k owner hr hk hrank hp hothers =>
    obtain ⟨hlt,-⟩ := List.getElem?_eq_some_iff.mp hk
    obtain rfl : k = 0 := by
      rw [hc] at hlt
      simpa using hlt
    obtain rfl := Option.some.inj (hk.symm.trans hfirst)
    have hle : stage.rank ≤ 4 := by cases stage <;> decide
    exact closes_run_proceed hfirst hrank (Nat.add_sub_cancel' hle)

/-- Whoever waited in the table is there still, was told the reason, or has been given up since; and
nothing but the reason was told to anybody. -/
structure Fails (text : String) (s s' : Session) : Prop where
  waiting : ∀ x ∈ s.link.pending.entries, x ∈ s'.link.pending.entries ∨
    ⟨x.slot,.error (.lost text)⟩ ∈ s'.delivered ∨
    ∃ k ticket, k ∈ s'.released ∧ k ∉ s.released ∧ s'.tickets[k]? = some ticket ∧ ticket.counter = x.id
  delivered : ∃ ds, s'.delivered = s.delivered ++ ds ∧ ∀ d ∈ ds, d.outcome = .error (.lost text)
  released : s.released ⊆ s'.released

theorem Fails.refl (text : String) (s : Session) : Fails text s s :=
  ⟨fun _ hx => .inl hx,⟨[],by simp⟩,List.Subset.refl _⟩

theorem Fails.congr {s'' : Session} (h : Fails text s s')
    (hentries : s'.link.pending.entries ⊆ s''.link.pending.entries)
    (htickets : s'.tickets <+: s''.tickets) (hdelivered : s''.delivered = s'.delivered)
    (hreleased : s''.released = s'.released) : Fails text s s'' := by
  refine ⟨fun x hx => ?_,by rw [hdelivered]; exact h.delivered,by rw [hreleased]; exact h.released⟩
  rcases h.waiting x hx with hin | htold | ⟨k,ticket,hk,hnew,ht,hcounter⟩
  · exact .inl (hentries hin)
  · exact .inr (.inl (hdelivered ▸ htold))
  · refine .inr (.inr ⟨k,ticket,hreleased ▸ hk,hnew,?_,hcounter⟩)
    obtain ⟨hlt,-⟩ := List.getElem?_eq_some_iff.mp ht
    obtain ⟨rest,hrest⟩ := htickets
    rw [← hrest,List.getElem?_append_left hlt,ht]

theorem Fails.proceed (h : Fails text s s') {k : Nat} {call : CloseCall} (hcall : call.reason = text) :
    Fails text s (s'.proceed k call) := by
  have hsame : ∀ link closes, link.pending.entries = s'.link.pending.entries →
      Fails text s { s' with link,closes } := fun link closes hentries =>
    h.congr (by rw [hentries]; exact List.Subset.refl _) (List.prefix_refl _) rfl rfl
  rcases call with ⟨reason,stage⟩
  obtain rfl : reason = text := hcall
  cases stage with
  | called =>
    have hentries : (s'.link.recordReason reason).1.pending.entries = s'.link.pending.entries := by
      unfold Connection.recordReason
      split <;> rfl
    simp only [Session.proceed]
    rcases hr : s'.link.recordReason reason with ⟨link,first⟩
    rw [hr] at hentries
    cases first <;> exact hsame link _ hentries
  | recorded => exact hsame s'.link.halt _ rfl
  | halted =>
    -- the step that fails the requests: whoever is in the table is told the reason
    let ds := s'.link.pending.entries.map fun e => (⟨e.slot,.error (.lost reason)⟩ : Delivery)
    have hdel : (s'.proceed k ⟨reason,.halted⟩).delivered = s'.delivered ++ ds := rfl
    refine ⟨fun x hx => ?_,?_,h.released⟩
    · right
      rw [hdel]
      rcases h.waiting x hx with hin | htold | hgiven
      · exact .inl (List.mem_append_right _ (List.mem_map_of_mem hin))
      · exact .inl (List.mem_append_left _ htold)
      · exact .inr hgiven
    · obtain ⟨ds',hds',hall⟩ := h.delivered
      refine ⟨ds' ++ ds,by rw [hdel,hds',List.append_assoc],fun d hd => ?_⟩
      rcases List.mem_append.mp hd with hd | hd
      · exact hall d hd
      · obtain ⟨e,-,rfl⟩ := List.mem_map.mp hd
        rfl
  | failed => exact hsame s'.link.disconnect _ rfl
  | finished => exact h
  | late => exact h

theorem Fails.release (h : Fails text s s') (k : Nat) : Fails text s (s'.release k) := by
  unfold Session.release
  cases ht : s'.tickets[k]? with
  | none => exact h
  | some ticket =>
    by_cases hk : k ∈ s'.released
    · simpa [hk] using h
    · simp only [hk,if_false]
      refine ⟨fun x hx => ?_,h.delivered,List.Subset.trans h.released (List.subset_append_left ..)⟩
      rcases h.waiting x hx with hin | htold | ⟨j,ticket',hj,hnew,ht',hcounter⟩
      · by_cases hx' : x.id = ticket.counter
        · exact .inr (.inr ⟨k,ticket,by simp,fun hold => hk (h.released hold),ht,hx'.symm⟩)
        · exact .inl (Pending.mem_erase.mpr ⟨hin,hx'⟩)
      · exact .inr (.inl htold)
      · exact .inr (.inr ⟨j,ticket',List.mem_append_left _ hj,hnew,ht',hcounter⟩)

theorem Fails.step (h : Fails text s s') {a : Act} (ha : ∀ m, a ≠ .respond m)
    (hreasons : ∀ call ∈ s'.closes, call.reason = text) : Fails text s (s'.step a) := by
  cases a with
  | close reason => exact h.congr (List.Subset.refl _) (List.prefix_refl _) rfl rfl
  | proceed k =>
    simp only [Session.step]
    cases hk : s'.closes[k]? with
    | none => exact h
    | some call => exact h.proceed (hreasons call (List.mem_of_getElem? hk))
  | start tag =>
    simp only [Session.step,start]
    cases hs : s'.link.startRequest tag with
    | error e => exact h
    | ok result =>
      exact h.congr (Connection.entries_subset_startRequest hs) (List.prefix_append ..) rfl rfl
  | respond m => exact absurd rfl (ha m)
  | release k => exact h.release k
  | ready peer =>
    refine h.congr ?_ (List.prefix_refl _) rfl rfl
    rcases ({ s'.link with peerName := some peer } : Connection).enter_cases .ready with he | he <;>
      simp [Session.step,Connection.markReady,he]
  | handshake =>
    refine h.congr ?_ (List.prefix_refl _) rfl rfl
    rcases s'.link.enter_cases .handshaking with he | he <;> simp [Session.step,he]

theorem Fails.run (h : Fails text s s') {acts : List Act} (hacts : ∀ a ∈ acts, ∀ m, a ≠ .respond m)
    (hreasons : ∀ call ∈ (s'.run acts).closes, call.reason = text) : Fails text s (s'.run acts) := by
  induction acts generalizing s' with
  | nil => exact h
  | cons a acts ih =>
    simp only [List.mem_cons,forall_eq_or_imp] at hacts
    refine ih (h.step hacts.1 fun call hcall => ?_) hacts.2 hreasons
    -- the reasons of now are among those of later
    have hgrow := s'.reasons_run (a :: acts)
    obtain ⟨later,hlater,heq⟩ := List.mem_map.mp (hgrow.subset (List.mem_map_of_mem hcall))
    exact heq.symm.trans (hreasons later hlater)

end Session

namespace Endpoint

variable {codec : Codec} {e : Endpoint}

/-- The link is closed for what is wrong with the stream, by a call that has ended or needs only its own steps
to end, and then nobody waits any more. -/
theorem Living.failed_of_over {found : Endpoint} (hl : found.Living) (hover : found.reading = false)
    {after : List Event} {text : String}
    (hreasons : (found.run codec after).session.reasons = [text]) :
    ∃ stage, (found.run codec after).session.closes = [⟨text,stage⟩] ∧
      let s := (found.run codec after).session.run (List.replicate (4 - stage.rank) (.proceed 0))
      s.link.phase = .disconnected ∧ s.link.closeReason = some text ∧ s.link.pending.entries = [] ∧
        found.session.Fails text s := by
  obtain ⟨⟨reason,stage⟩,hcloses,hreason⟩ := List.map_eq_singleton_iff.mp hreasons
  obtain rfl : reason = text := hreason
  refine ⟨stage,hcloses,?_⟩
  intro s
  have hl' : (found.run codec after).Living := hl.run codec after
  have hstaged : s.Staged := hl'.staged.run _
  have hfinished : s.closes[0]? = some ⟨reason,.finished⟩ := hl'.owned.closes_finished hcloses
  have hshows := hstaged.calls _ (List.mem_of_getElem? hfinished)
  have hclosed := hstaged.table reason (hshows.closed (by simp [CloseStage.rank]))
  refine ⟨hshows.gone (by simp [CloseStage.rank]),hclosed.1,hclosed.2.2,?_⟩
  obtain ⟨acts,hacts,hnone⟩ := hl.session_run_of_over codec hover after
  have hs : s = found.session.run (acts ++ List.replicate (4 - stage.rank) (.proceed 0)) := by
    rw [Session.run_append,← hacts]
  have hlast : s.reasons = [reason] := (Session.reasons_run_proceed ..).trans hreasons
  rw [hs] at hlast ⊢
  refine (Session.Fails.refl reason found.session).run (fun a ha => ?_) fun call hcall => ?_
  · rcases List.mem_append.mp ha with ha | ha
    · exact hnone a ha
    · intro m
      rw [List.eq_of_mem_replicate ha]
      simp
  · have hmem : call.reason ∈ (found.session.run
        (acts ++ List.replicate (4 - stage.rank) (.proceed 0))).reasons := List.mem_map_of_mem hcall
    rwa [hlast,List.mem_singleton] at hmem

theorem Follows.exists_rest {bytes : List UInt8} {arrivals : List Arrival}
    (h : Follows codec bytes arrivals e ∨ Ended codec bytes arrivals e) :
    ∃ rest, (({} : Inbound).read codec bytes).2 = arrivals ++ rest ∧
      (e.reading = false ∨ (e.inbound.decoder.next codec).2 = .more → rest = []) := by
  rcases h with h | h
  · cases h with
    | failed fault found _ _ _ _ hwhole => exact ⟨[],by simpa using hwhole [],fun _ => rfl⟩
    | reads hr hv _ _ hwhole =>
      refine ⟨_,by simpa using hwhole [],fun hdone => ?_⟩
      exact read_nil_of_more hv (hdone.resolve_left (by simp [hr]))
  · exact ⟨[],by simpa using h.whole,fun _ => rfl⟩

theorem Follows.exists_sound {bytes : List UInt8} {arrivals : List Arrival}
    (h : Follows codec bytes arrivals e ∨ Ended codec bytes arrivals e) :
    ∃ found fault, arrivals = found ++ ((fault : Option ProtocolFault).map fun fault =>
        Arrival.fault (.protocol fault)).toList ∧ Arrival.faults found = [] ∧
      (∀ error, fault = some error → e.reading = false ∧
        e.session.reasons = [(LinkError.protocol error).message]) := by
  rcases h with h | h
  · cases h with
    | failed fault found hover hreasons harrivals hsound _ =>
      refine ⟨found,some fault,harrivals,hsound,fun error he => ?_⟩
      obtain rfl := Option.some.inj he
      exact ⟨hover,hreasons⟩
    | reads hr hv _ hsound hwhole => exact ⟨arrivals,none,by simp,hsound,fun _ he => nomatch he⟩
  · exact ⟨arrivals,none,by simp,h.sound,fun _ he => nomatch he⟩

theorem Follows.exists_fault {bytes : List UInt8} {arrivals : List Arrival}
    (h : Follows codec bytes arrivals e) (hover : (e.decode codec).reading = false) (later : List UInt8) :
    ∃ error, Arrival.faults (({} : Inbound).read codec (bytes ++ later)).2 = [LinkError.protocol error] := by
  have hdecoded := h.decode
  cases hdecoded with
  | reads hr => simp [hover] at hr
  | failed error found _ _ harrivals hsound hwhole =>
    exact ⟨error,by rw [hwhole,harrivals,Arrival.faults_append,hsound]; rfl⟩

theorem eq_of_faults {found : List Arrival} {fault fault' : Option ProtocolFault}
    (hsound : Arrival.faults found = [])
    (h : Arrival.faults (found ++ (fault.map fun fault => Arrival.fault (.protocol fault)).toList) =
      (fault'.map LinkError.protocol).toList) : fault = fault' := by
  rw [Arrival.faults_append,hsound,List.nil_append] at h
  cases fault <;> cases fault' <;> simp_all [Arrival.faults,Arrival.fault?]

open Cluster in
/-- Nothing but its reading closes the link: then, whatever the other tasks do and in whatever pieces the
stream comes, the messages that are routed are those that the stream says, in their order, and all of them
once the bytes are used up; the frames are counted that the stream says, with the one that was refused, and
what is wrong is counted once. Nothing is routed after that; it is the reason of the only call to close, and
when this call has taken its steps, the link is disconnected and whoever was waiting has been told. -/
theorem streaming_of_undisturbed (codec : Codec) (name : String) (role : Role) (peerAddr : String)
    (counter : UInt32) (events : List Event)
    (h : Undisturbed codec (establish name role peerAddr counter) events) :
    let start := establish name role peerAddr counter
    let e := start.run codec events
    ∃ frames ms fault, codec.Says (stream events) frames ms fault ∧ e.routed <+: ms ∧
      (e.reading = false ∨ (e.inbound.decoder.next codec).2 = .more →
        e.routed = ms ∧ (fault.isSome = true → e.reading = false) ∧
        ∀ (w : World) (r : Reading) (t : Traffic), w.traffic? r.link = some t →
          ∃ t', (Reading.arriveAll w r (noted codec start events)).1.traffic? r.link = some t' ∧
            t'.framesReceived = t.framesReceived + .ofNat frames.length ∧
            t'.bytesReceived =
              t.bytesReceived + .ofNat (frames.map fun f => 30 + f.header.payloadLength.toNat).sum ∧
            t'.errors = t.errors + if fault.isSome then 1 else 0) ∧
      (e.reading = false → ∀ later, (e.run codec later).routed = e.routed) ∧
      ∀ before after, events = before ++ .move .decode :: after →
        (start.run codec before).reading = true →
        let found := start.run codec (before ++ [.move .decode])
        found.reading = false →
        ∃ error stage, fault = some error ∧ e.reading = false ∧
          e.session.closes = [⟨(LinkError.protocol error).message,stage⟩] ∧
          let text := (LinkError.protocol error).message
          let s := e.session.run (List.replicate (4 - stage.rank) (.proceed 0))
          s.link.phase = .disconnected ∧ s.link.closeReason = some text ∧ s.link.pending.entries = [] ∧
          (∃ ds, s.delivered = found.session.delivered ++ ds ∧ ∀ d ∈ ds, d.outcome = .error (.lost text)) ∧
          ∀ x ∈ found.session.link.pending.entries, ⟨x.slot,.error (.lost text)⟩ ∈ s.delivered ∨
            ∃ k ticket, k ∈ s.released ∧ k ∉ found.session.released ∧ s.tickets[k]? = some ticket ∧
              ticket.counter = x.id := by
  intro start e
  have hl : start.Living := living_establish name role peerAddr counter
  have hfollows := (follows_establish codec name role peerAddr counter).run hl h
  simp only [List.nil_append] at hfollows
  obtain ⟨frames,ms,fault,hsaying,hms,hfaults,hsizes⟩ := codec.exists_says (stream events)
  obtain ⟨rest,hrest,hdone⟩ := Follows.exists_rest hfollows
  obtain ⟨found,fault',harrivals,hsound,hfailed⟩ := Follows.exists_sound hfollows
  have hrouted : e.routed = Arrival.messages (noted codec start events) := routed_run start events
  refine ⟨frames,ms,fault,hsaying,?_,fun hcaught => ?_,fun hover later => ?_,?_⟩
  · rw [← hms,hrest,Arrival.messages_append,hrouted]
    exact List.prefix_append ..
  · obtain rfl := hdone hcaught
    rw [List.append_nil] at hrest
    rw [hrest] at hms hfaults hsizes
    obtain rfl : fault' = fault := eq_of_faults hsound (harrivals ▸ hfaults)
    refine ⟨hrouted.trans hms,fun hsome => ?_,fun w r t ht => ?_⟩
    · obtain ⟨error,herror⟩ := Option.isSome_iff_exists.mp hsome
      exact (hfailed error herror).1
    · obtain ⟨t',ht',hreads⟩ := Reading.exists_traffic ht hsound harrivals
      rw [hsizes] at hreads
      refine ⟨t',ht',?_,hreads.bytes,?_⟩
      · rw [hreads.frames,List.length_map]
      · rw [hreads.errors]
        cases fault' <;> rfl
  · rw [routed_run,(noted_of_over codec hover later).1]
    exact List.append_nil _
  · rintro before after rfl hreading atFault hover
    have hlater : e = atFault.run codec after := by
      rw [← run_append,List.append_assoc]
      rfl
    have hlast : e.reading = false := hlater ▸ (noted_of_over codec hover after).2
    obtain ⟨error,hstream⟩ : ∃ error, Arrival.faults (({} : Inbound).read codec
        (stream (before ++ .move .decode :: after))).2 = [LinkError.protocol error] := by
      have hat : atFault = (start.run codec before).decode codec := run_append ..
      rcases (follows_establish codec name role peerAddr counter).run hl h.split.1 with hbefore | hended
      · rw [stream_append]
        exact hbefore.exists_fault (hat ▸ hover) _
      · exact absurd (hended.stopped.symm.trans hreading) (by simp)
    obtain rfl : fault = some error := by
      rw [hstream] at hfaults
      cases fault <;> simp_all
    obtain rfl := hdone (.inl hlast)
    rw [hrest,List.append_nil,harrivals] at hfaults
    obtain rfl : fault' = some error := eq_of_faults hsound hfaults
    have hreasons := (hfailed error rfl).2
    have hlfound : atFault.Living := hl.run codec _
    have hreasons' : (atFault.run codec after).session.reasons = [(LinkError.protocol error).message] :=
      hlater ▸ hreasons
    obtain ⟨stage,hcloses,hphase,hreason,hentries,hfails⟩ := hlfound.failed_of_over hover hreasons'
    rw [← hlater] at hcloses hphase hreason hentries hfails
    refine ⟨error,stage,rfl,hlast,hcloses,hphase,hreason,hentries,hfails.delivered,fun x hx => ?_⟩
    refine (hfails.waiting x hx).resolve_left fun hin => ?_
    rw [hentries] at hin
    exact List.not_mem_nil hin

/-- A call waits, a request of the peer comes in two pieces, and then thirty bytes that are no header. -/
theorem streaming_of_undisturbed_garbled :
    let codec : Codec := {}
    let nonces : Nonces := fun _ => List.replicate 12 1
    let request := (codec.emitMessage nonces ⟨9,.echo,false,[1,2]⟩).bytes
    let events : List Event :=
      [.move (.ready "peer"),.move (.call .echo [3]),.feed (request.take 31),.move .decode,
        .feed (request.drop 31 ++ List.replicate 30 255),.move .decode,.move .decode,.move (.proceed 0)]
    let e := (establish "own" .initiator "address" 7).run codec events
    e.routed = [⟨9,.echo,false,[1,2]⟩] ∧ ∃ stage, e.session.closes.map (·.stage) = [stage] ∧
      let s := e.session.run (List.replicate (4 - stage.rank) (.proceed 0))
      s.link.phase = .disconnected ∧ ∃ text, s.link.closeReason = some text ∧
        ⟨0,.error (.lost text)⟩ ∈ s.delivered := by
  intro codec nonces request events e
  have hu : Undisturbed codec (establish "own" .initiator "address" 7) events :=
    undisturbed_of_keepsOpen (by decide +kernel)
  obtain ⟨frames,ms,fault,-,-,-,-,hfault⟩ :=
    streaming_of_undisturbed codec "own" .initiator "address" 7 events hu
  obtain ⟨error,stage,-,-,hcloses,hphase,hreason,-,-,htold⟩ :=
    hfault (events.take 6) [.move (.proceed 0)] rfl (by decide +kernel) (by decide +kernel)
  have hrouted : e.routed = [⟨9,.echo,false,[1,2]⟩] := by decide +kernel
  have hreleased : e.session.released = [] := by decide +kernel
  refine ⟨hrouted,stage,by rw [hcloses]; rfl,hphase,_,hreason,?_⟩
  refine (htold ⟨7,.echo,0⟩ (by decide +kernel)).resolve_right ?_
  rintro ⟨k,ticket,hk,-⟩
  obtain ⟨link,closes,delivered,hrun⟩ := e.session.exists_run_proceed_eq 0 (4 - stage.rank)
  rw [hrun] at hk
  simp [hreleased] at hk

end Endpoint
end Tether
