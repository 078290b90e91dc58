import Tether.Proofs.Cluster.Spelling
import Tether.Proofs.Link.Answering
import Tether.Proofs.Wire.Tails

/-! The end of a stream, seen by the reading side of a link. Frames have been read as they came, other tasks
ran in between, and now the peer has gone. What is still at hand is read, and the bytes that are left over
decide whether the link closes as after a good end or with an error. -/
namespace Tether

namespace Endpoint

variable {codec : Codec} {e : Endpoint}

theorem undisturbed_of_closes (hl : e.Living) {events : List Event}
    (h : (e.run codec events).session.closes = []) :
    Undisturbed codec e events ∧ e.session.closes = [] ∧
      (e.run codec events).session.link.halted = e.session.link.halted := by
  have hopen : ∀ {e : Endpoint} (events : List Event), e.Living →
      (e.run codec events).session.closes = [] → e.session.closes = [] ∧
        (e.run codec events).session.link.halted = e.session.link.halted := by
    intro e events hl h
    obtain ⟨acts,hacts⟩ := hl.exists_acts codec events
    rw [hacts] at h ⊢
    exact Session.unhalted_run h
  refine ⟨?_,hopen events hl h⟩
  induction events generalizing e with
  | nil => exact .done e
  | cons ev events ih =>
    have hl' := hl.after codec ev
    refine .event (.inr ?_) (ih hl' h)
    rw [(hopen (ev :: events) hl h).1,(hopen events hl' h).1]

/-- The bytes that have come are whole frames and what the decoder has not used up. -/
structure Uses (codec : Codec) (bytes : List UInt8) (e : Endpoint) : Prop where
  valid : e.inbound.decoder.Valid codec
  drains : ∀ {later last : List UInt8} {fs : List Frame} {fault : Option ProtocolFault},
    Decoder.Drains codec (e.inbound.decoder.pending ++ later) fs fault last →
    ∃ before, Decoder.Drains codec (bytes ++ later) (before ++ fs) fault last

theorem uses_establish (codec : Codec) (name : String) (role : Role) (peerAddr : String)
    (counter : UInt32) : (establish name role peerAddr counter).Uses codec [] :=
  ⟨Decoder.valid_none codec [],fun hd => ⟨[],hd⟩⟩

variable {bytes : List UInt8}

theorem Uses.congr (h : e.Uses codec bytes) {e' : Endpoint}
    (hin : e'.inbound.decoder = e.inbound.decoder) : e'.Uses codec bytes :=
  ⟨hin ▸ h.valid,fun hd => h.drains (hin ▸ hd)⟩

theorem Uses.feed (h : e.Uses codec bytes) (more : List UInt8) :
    (e.feed more).Uses codec (bytes ++ more) := by
  refine ⟨h.valid.feed more,fun hd => ?_⟩
  simp only [Endpoint.feed,Decoder.pending_feed,List.append_assoc] at hd ⊢
  exact h.drains hd

theorem Uses.frame (h : e.Uses codec bytes) {d : Decoder} {f : Frame}
    (hn : e.inbound.decoder.next codec = (d,.frame f)) {e' : Endpoint} (hin : e'.inbound.decoder = d) :
    e'.Uses codec bytes := by
  have hvalid := (Decoder.next_parse h.valid).2.2
  rw [hn] at hvalid
  refine ⟨hin ▸ hvalid,fun {later last fs fault} hd => ?_⟩
  rw [hin] at hd
  obtain ⟨before,hall⟩ := h.drains (.frame (Inbound.parse_of_next h.valid later hn (by simp)) hd)
  exact ⟨before ++ [f],by simpa using hall⟩

theorem Uses.decode (h : e.Uses codec bytes) (hr : (e.decode codec).reading = true) :
    (e.decode codec).Uses codec bytes := by
  have hd := decodes codec e
  generalize e.decode codec = e',notes codec e (.move .decode) = found at hd hr
  cases hd with
  | idle _ => exact h
  | more d _ hn =>
    obtain ⟨hparse,hrest,hvalid⟩ := Decoder.next_parse h.valid
    rw [hn] at hparse hrest hvalid
    have hpending := Decoder.parse_more (Prod.ext hparse.symm hrest.symm)
    exact ⟨hvalid,fun hd => h.drains (hpending ▸ hd)⟩
  | took d ra f _ hn hp => exact h.frame hn rfl
  | found d ra f m _ hn hp => exact h.frame hn (congrArg Inbound.decoder (route_reading _ m).1)
  | refused d ra f fault _ hn hp => cases hr
  | malformed d fault _ hn => cases hr

theorem reading_of_run (events : List Event) (h : (e.run codec events).reading = true) :
    e.reading = true := by
  by_contra hr
  rw [(noted_of_over codec (Bool.not_eq_true _ ▸ hr) events).2] at h
  cases h

theorem Uses.run (h : e.Uses codec bytes) {events : List Event}
    (hr : (e.run codec events).reading = true) :
    (e.run codec events).Uses codec (bytes ++ stream events) := by
  induction events generalizing e bytes with
  | nil => simpa using h
  | cons ev events ih =>
    have hafter := reading_of_run events hr
    rw [stream_cons,← List.append_assoc]
    refine ih ?_ hr
    cases ev with
    | feed more => exact h.feed more
    | move m =>
      rw [Event.bytes,List.append_nil]
      by_cases hdecode : m = .decode
      · subst hdecode
        exact h.decode hafter
      · refine h.congr (congrArg Inbound.decoder (sameReader_step hdecode ?_ e).inbound)
        rintro reason rfl
        cases hafter

/-- What is found in a stream without a fault has none, and when all that is at hand has been read the
decoder shows how the stream ends. -/
theorem Uses.ends_iff (h : e.Uses codec bytes) {last : List UInt8} {d : Decoder} {fs : List Frame}
    {whole : List Frame} {left : List UInt8} (hsound : Decoder.Drains codec (bytes ++ last) whole none left)
    {fault : Option ProtocolFault}
    (hd : Decoder.Drains codec (e.inbound.decoder.pending ++ last) fs fault d.pending)
    (hv : d.Valid codec) (hs : fault = none → d.Settled) (ending : Decoder.Ending) :
    Decoder.Ends codec (bytes ++ last) ending ↔ ending = d.ending := by
  obtain ⟨before,hall⟩ := h.drains hd
  obtain rfl := (hall.unique hsound).2.1
  exact hall.ends_iff hv (hs rfl) ending

end Endpoint

namespace Cluster

variable {w w' w'' : World} {r : Reading}

/-! ### What the end does to the world -/

/-- Nothing that closing is about has changed at any link. -/
def World.Leaves (w w' : World) : Prop :=
  ∀ (i : Nat) (c : Connection), w.links[i]? = some c → ∃ c', w'.links[i]? = some c' ∧ c.Unmoved c'

theorem World.Leaves.of_links (h : w'.links = w.links) : w.Leaves w' :=
  fun _ c hc => ⟨c,h ▸ hc,rfl,rfl,rfl,rfl⟩

theorem World.Leaves.trans (h : w.Leaves w') (h' : w'.Leaves w'') : w.Leaves w'' := by
  intro i c hc
  obtain ⟨c₁,hc₁,hu⟩ := h i c hc
  obtain ⟨c₂,hc₂,hu'⟩ := h' i c₁ hc₁
  exact ⟨c₂,hc₂,hu'.reason.trans hu.reason,hu'.halted.trans hu.halted,hu'.closed.trans hu.closed,
    hu'.phase.trans hu.phase⟩

theorem World.leaves_onLink (w : World) (j : Nat) {f : Connection → Connection}
    (hf : ∀ c, w.links[j]? = some c → c.Unmoved (f c)) : w.Leaves (w.onLink j f) := by
  intro i c hc
  by_cases hij : j = i
  · subst hij
    exact ⟨f c,by simp [World.onLink,Links.update,hc],hf c hc⟩
  · refine ⟨c,?_,rfl,rfl,rfl,rfl⟩
    simpa [World.onLink,Links.update,hij] using hc

theorem World.links_countOn (w : World) (i : Nat) (events : List TrafficEvent) :
    (w.countOn i events).links = w.links := by
  unfold World.countOn
  split <;> rfl

theorem Reading.leaves_arrive (w : World) (r : Reading) (a : Arrival) :
    w.Leaves (Reading.arrive w r a).1 := by
  cases a with
  | frame size => exact .of_links (w.links_countOn ..)
  | fault error => exact .of_links (w.links_countOn ..)
  | message m =>
    simp only [Reading.arrive]
    split
    · cases hc : w.links[r.link]? with
      | none => exact .of_links rfl
      | some c =>
        refine (w.leaves_onLink r.link (f := fun _ => (c.processResponse m).1) fun c' hc' => ?_).trans
          (.of_links (World.links_countOn ..))
        obtain rfl := Option.some.inj (hc.symm.trans hc')
        exact c.unmoved_processResponse m
    · exact .of_links (w.links_countOn ..)

theorem Reading.leaves_arriveAll (w : World) (r : Reading) (arrivals : List Arrival) :
    w.Leaves (Reading.arriveAll w r arrivals).1 := by
  induction arrivals generalizing w r with
  | nil => exact .of_links rfl
  | cons a arrivals ih =>
    have harrive := Reading.leaves_arrive w r a
    rw [Reading.arriveAll]
    generalize Reading.arrive w r a = result at harrive ⊢
    rcases result with ⟨w₁,r₁,_ | reason⟩
    · exact harrive.trans (ih w₁ r₁)
    · exact harrive

theorem Dispatch.drop_cases (w : World) (d : Dispatch) :
    d.drop w = w ∨ ∃ j ticket, d.drop w = w.onLink j (·.release ticket) := by
  have hexchange : ∀ x : Exchange,
      x.drop w = w ∨ ∃ j ticket, x.drop w = w.onLink j (·.release ticket) := by
    intro x
    cases x with
    | fresh request => exact .inl rfl
    | inFlight link ticket limit deadline => exact .inr ⟨link,ticket,rfl⟩
  unfold Dispatch.drop
  split
  · exact hexchange _
  · rename_i run _
    cases run with
    | asking x => exact hexchange x
    | delayed due rule k batch => exact .inl rfl
  · exact .inl rfl

theorem Reading.leaves_drops (served : List Dispatch) (w : World) :
    w.Leaves (served.foldl (fun w d => d.drop w) w) ∧
      ∀ i, (served.foldl (fun w d => d.drop w) w).traffic? i = w.traffic? i := by
  induction served generalizing w with
  | nil => exact ⟨.of_links rfl,fun _ => rfl⟩
  | cons d served ih =>
    rw [List.foldl_cons]
    obtain ⟨hleaves,htraffic⟩ := ih (d.drop w)
    rcases d.drop_cases w with hdrop | ⟨j,ticket,hdrop⟩
    · rw [hdrop] at hleaves htraffic ⊢
      exact ⟨hleaves,htraffic⟩
    · rw [hdrop] at hleaves htraffic ⊢
      exact ⟨(w.leaves_onLink j fun c _ => c.unmoved_release ticket).trans hleaves,htraffic⟩

theorem World.traffic?_onStream (w : World) (k i : Nat) {f : Stream → Stream}
    (hf : ∀ s, (f s).traffic = s.traffic) : (w.onStream k f).traffic? i = w.traffic? i := by
  simp only [World.traffic?,World.onStream,List.getElem?_modify]
  cases w.streams[i]? with
  | none => rfl
  | some s =>
    by_cases hk : k = i
    · simp [hk,hf]
    · simp [hk]

theorem World.exists_count_closed {i : Nat} {t : Traffic} (ht : w.traffic? i = some t) (k : Nat) :
    ∃ t', (w.count k [.closed]).traffic? i = some t' ∧ t'.errors = t.errors := by
  obtain ⟨s,hs,ht⟩ := Option.bind_eq_some_iff.mp ht
  simp only [World.traffic?,World.count,hs,Option.bind_some,List.getElem?_modify,ht]
  split <;> exact ⟨_,rfl,rfl⟩

theorem Reading.exists_finish {c : Connection} {t : Traffic} (hc : w.links[r.link]? = some c)
    (hopen : c.closeReason = none) (ht : w.traffic? r.link = some t) (s : Stream) (reason : String) :
    ∃ c' t', (Reading.finish w r s reason).links[r.link]? = some c' ∧ c'.closeReason = some reason ∧
      c'.phase = .disconnected ∧ (Reading.finish w r s reason).traffic? r.link = some t' ∧
      t'.errors = t.errors := by
  obtain ⟨hleaves,htraffic⟩ := Reading.leaves_drops r.served w
  obtain ⟨c₁,hc₁,hu⟩ := hleaves r.link c hc
  have ht₁ := (htraffic r.link).trans ht
  unfold Reading.finish
  generalize r.served.foldl (fun w d => d.drop w) w = w₁ at hc₁ ht₁ ⊢
  have hclosed : (c₁.close reason).closeReason = some reason ∧
      (c₁.close reason).phase = .disconnected := by
    simp [Connection.close,Connection.recordReason,hu.reason,hopen,Connection.halt,Connection.failPending,
      Connection.disconnect]
  have hcounted : (((w₁.closeLink r.link reason).onStream r.link
      fun s => { s with writable := false }).endPipe s.sink).traffic? r.link = some t :=
    (World.traffic?_onStream (w₁.closeLink r.link reason) r.link r.link
      (f := fun s => { s with writable := false }) fun _ => rfl).trans ht₁
  obtain ⟨t',ht',herrors⟩ := World.exists_count_closed hcounted s.traffic
  refine ⟨c₁.close reason,t',?_,hclosed.1,hclosed.2,ht',herrors⟩
  simp [World.count,World.endPipe,World.onPipe,World.onStream,World.closeLink,World.onLink,Links.update,hc₁]

theorem World.links_drain (w : World) (pipe : Nat) : (w.drain pipe).1.links = w.links := by
  unfold World.drain
  split
  · rfl
  · split <;> rfl

theorem World.traffic?_drain (w : World) (pipe i : Nat) : (w.drain pipe).1.traffic? i = w.traffic? i := by
  unfold World.drain
  split
  · rfl
  · split <;> rfl

/-- A last read takes in what is at hand; if nothing of it is a reason to stop, the ending is one. -/
theorem Reading.exists_read {t : Traffic} {s : Stream} {p : Pipe} (hp : w.pipes[s.source]? = some p)
    (hended : p.ended = true) (ht : w.traffic? r.link = some t) :
    let last := p.parts.reverse.flatten
    let found : Inbound × List Arrival := if last.isEmpty then (s.inbound,[]) else s.inbound.read s.codec last
    ∃ w₁ : World, w₁.links = w.links ∧ w₁.traffic? r.link = some t ∧
      ∀ w₂ r₂, Reading.arriveAll w₁ r found.2 = (w₂,r₂,none) →
        (∀ reason, found.1.ending = .ok reason → Reading.read w r s = (w₂,r₂,some reason)) ∧
        ∀ error, found.1.ending = .error error →
          Reading.read w r s = (w₂.countOn r₂.link [.error],r₂,some error.message) := by
  intro last found
  have hdrain : w.drain s.source = ((w.drain s.source).1,last,true) := by
    unfold World.drain
    rw [hp]
    by_cases hempty : p.parts.isEmpty = true
    · simp [hended,last,List.isEmpty_iff.mp hempty]
    · simp [hempty,hended,last]
  have hdrained := (w.traffic?_drain s.source r.link).trans ht
  unfold Reading.read
  rw [hdrain]
  by_cases hempty : last.isEmpty = true
  · refine ⟨(w.drain s.source).1,w.links_drain s.source,hdrained,fun w₂ r₂ hall => ?_⟩
    simp only [hempty,if_true,found] at hall ⊢
    exact ⟨fun reason he => by simp [hall,he],fun error he => by simp [hall,he]⟩
  · refine ⟨(w.drain s.source).1.onStream r.link fun s => { s with inbound := found.1 },
      w.links_drain s.source,?_,fun w₂ r₂ hall => ?_⟩
    · exact (World.traffic?_onStream _ r.link r.link (f := fun s => { s with inbound := found.1 })
        fun _ => rfl).trans hdrained
    · simp only [hempty,if_false,found,Bool.false_eq_true] at hall ⊢
      exact ⟨fun reason he => by simp [hall,he],fun error he => by simp [hall,he]⟩

/-- At the end of a stream in which nothing is wrong, the bytes that are left over are the reason. -/
theorem Reading.exists_ended {c : Connection} {t : Traffic} {s : Stream} {p : Pipe}
    (hc : w.links[r.link]? = some c) (hhalted : c.halted = false) (hopen : c.closeReason = none)
    (hs : w.streams[r.link]? = some s) (hp : w.pipes[s.source]? = some p) (hended : p.ended = true)
    (ht : w.traffic? r.link = some t) :
    let last := p.parts.reverse.flatten
    let found : Inbound × List Arrival := if last.isEmpty then (s.inbound,[]) else s.inbound.read s.codec last
    Arrival.faults found.2 = [] →
    ∃ c' t', (Reading.run w r).2.isNone ∧ (Reading.run w r).1.links[r.link]? = some c' ∧
      c'.phase = .disconnected ∧ (Reading.run w r).1.traffic? r.link = some t' ∧
      (∀ reason, found.1.ending = .ok reason → c'.closeReason = some reason ∧ t'.errors = t.errors) ∧
      ∀ error, found.1.ending = .error error →
        c'.closeReason = some error.message ∧ t'.errors = t.errors + 1 := by
  intro last found hsound
  obtain ⟨w₁,hlinks₁,htraffic₁,hread⟩ := Reading.exists_read (r := r) hp hended ht
  obtain ⟨w₂,r₂,t₂,hall,hlink,ht₂,hreads⟩ := Reading.exists_arriveAll htraffic₁ hsound
  have hgoes := hall []
  rw [List.append_nil,Reading.arriveAll] at hgoes
  obtain ⟨c₂,hc₂,hu⟩ := Reading.leaves_arriveAll w₁ r found.2 r.link c (hlinks₁ ▸ hc)
  rw [hgoes] at hc₂
  obtain ⟨hgood,hbad⟩ := hread w₂ r₂ hgoes
  have herrors : t₂.errors = t.errors := by
    rw [hreads.errors]
    exact UInt64.add_zero _
  rw [← hlink] at hc₂ ht₂
  cases hending : found.1.ending with
  | ok reason =>
    simp only [Reading.run,hc,hs,hhalted,hgood reason hending,Bool.false_eq_true,if_false]
    obtain ⟨c',t',hc',hreason,hphase,ht',herrors'⟩ :=
      Reading.exists_finish hc₂ (hu.reason.trans hopen) ht₂ s reason
    rw [hlink] at hc' ht'
    refine ⟨c',t',rfl,hc',hphase,ht',?_,by simp⟩
    rintro _ ⟨⟩
    exact ⟨hreason,herrors'.trans herrors⟩
  | error error =>
    simp only [Reading.run,hc,hs,hhalted,hbad error hending,Bool.false_eq_true,if_false]
    have hcounted := World.traffic?_countOn w₂ r₂.link [.error]
    rw [ht₂] at hcounted
    obtain ⟨c',t',hc',hreason,hphase,ht',herrors'⟩ := Reading.exists_finish
      ((World.links_countOn w₂ r₂.link [.error]) ▸ hc₂) (hu.reason.trans hopen) hcounted s error.message
    rw [hlink] at hc' ht' ⊢
    refine ⟨c',t',rfl,hc',hphase,ht',by simp,?_⟩
    rintro _ ⟨⟩
    exact ⟨hreason,herrors'.trans (congrArg (· + 1) herrors)⟩

/-! ### How the stream ended -/

end Cluster

theorem Codec.Says.drains {codec : Codec} {bytes : List UInt8} {frames : List Frame} {ms : List Message}
    (h : codec.Says bytes frames ms none) :
    (∃ last, Decoder.Drains codec bytes frames none last) ∧
      Arrival.faults (({} : Inbound).read codec bytes).2 = [] := by
  cases h with
  | @whole d ra _ _ hdrain hrun =>
    have hdrains := (Decoder.drain_drains ⟨none,bytes⟩ (Decoder.valid_none codec bytes)).1
    rw [hdrain] at hdrains
    refine ⟨⟨_,hdrains⟩,?_⟩
    exact (Inbound.read_of_run (i := {}) (congrArg (·.2.1) hdrain) (congrArg (·.2.2) hdrain) hrun).2.2

namespace Endpoint

variable {codec : Codec} {e : Endpoint}

theorem Follows.sound_of_says {bytes last : List UInt8} {arrivals : List Arrival}
    {frames : List Frame} {ms : List Message} (h : Follows codec bytes arrivals e)
    (hr : e.reading = true) (htold : codec.Says (bytes ++ last) frames ms none) :
    Arrival.faults (e.inbound.read codec last).2 = [] := by
  have hsound := htold.drains.2
  cases h with
  | failed fault found hover => simp [hr] at hover
  | reads _ _ _ _ hwhole =>
    rw [hwhole,Arrival.faults_append,List.append_eq_nil_iff] at hsound
    exact hsound.2

open Cluster in
/-- The peer of a link has gone, nobody has called to close the link, and there is nothing wrong with the
frames of its stream. However the stream was cut and whatever other tasks did in between, what is still at
hand is read and the link closes; the stream ends in one way, and the bytes of it that a header did not use
up are what makes the end an error: not those that a header announces and of which none has come. -/
theorem finished_of_ended (codec : Codec) (name : String) (role : Role) (peerAddr : String)
    (counter : UInt32) (events : List Event) {w : World} {r : Reading} {s : Stream} {p : Pipe}
    {t : Traffic} {frames : List Frame} {ms : List Message}
    (hm : w.Mirrors r.link codec ((establish name role peerAddr counter).run codec events))
    (hr : ((establish name role peerAddr counter).run codec events).reading = true)
    (hcloses : ((establish name role peerAddr counter).run codec events).session.closes = [])
    (hidle : ((establish name role peerAddr counter).run codec events).inbound.decoder.next codec =
      (((establish name role peerAddr counter).run codec events).inbound.decoder,.more))
    (hs : w.streams[r.link]? = some s) (hp : w.pipes[s.source]? = some p) (hended : p.ended = true)
    (ht : w.traffic? r.link = some t)
    (htold : codec.Says (stream events ++ p.parts.reverse.flatten) frames ms none) :
    ∃ ending c t',
      (∀ other, Decoder.Ends codec (stream events ++ p.parts.reverse.flatten) other ↔ other = ending) ∧
      (Reading.run w r).2.isNone ∧ (Reading.run w r).1.links[r.link]? = some c ∧
      c.phase = .disconnected ∧ (Reading.run w r).1.traffic? r.link = some t' ∧
      c.closeReason = some (if ending = .torn then "bytes remaining on stream"
        else "connection closed by peer") ∧
      t'.errors = t.errors + if ending = .torn then 1 else 0 := by
  have hl := living_establish name role peerAddr counter
  obtain ⟨hu,-,hhalted⟩ := undisturbed_of_closes hl hcloses
  have huses := (uses_establish codec name role peerAddr counter).run hr
  have hfollows := (follows_establish codec name role peerAddr counter).run hl hu
  have hlater := hl.run codec events
  rw [List.nil_append] at huses
  simp only [List.nil_append] at hfollows
  generalize (establish name role peerAddr counter).run codec events = e at *
  have hopen : e.session.link.closeReason = none := by
    cases hlater.owned with
    | free hnone => exact hnone
    | taken k owner _ hk => simp [hcloses] at hk
  obtain ⟨s',hs',hmirrors⟩ := hm.stream
  obtain rfl := Option.some.inj (hs'.symm.trans hs)
  obtain ⟨⟨left,hsound⟩,-⟩ := htold.drains
  have hfaults : Arrival.faults (e.inbound.read codec p.parts.reverse.flatten).2 = [] := by
    rcases hfollows with hfollows | hover
    · exact hfollows.sound_of_says hr htold
    · exact absurd hover.stopped (by simp [hr])
  have hfinal := Reading.exists_ended hm.link hhalted hopen hs hp hended ht
  simp only [hmirrors.inbound hr,hmirrors.codec] at hfinal
  generalize p.parts.reverse.flatten = last at hsound hfaults hfinal ⊢
  obtain ⟨found,hfound,hnone,hends⟩ : ∃ found : Inbound × List Arrival,
      found = (if last.isEmpty then (e.inbound,[]) else e.inbound.read codec last) ∧
      Arrival.faults found.2 = [] ∧
      ∀ ending, Decoder.Ends codec (stream events ++ last) ending ↔ ending = found.1.decoder.ending := by
    refine ⟨_,rfl,?_⟩
    by_cases hempty : last.isEmpty = true
    · obtain rfl := List.isEmpty_iff.mp hempty
      have hdrains : Decoder.Drains codec (e.inbound.decoder.pending ++ []) [] none
          e.inbound.decoder.pending := by
        obtain ⟨hparse,hrest,-⟩ := Decoder.next_parse huses.valid
        rw [hidle] at hparse hrest
        rw [List.append_nil]
        exact .more (Prod.ext hparse.symm hrest.symm)
      exact ⟨rfl,huses.ends_iff hsound hdrains huses.valid fun _ => Decoder.next_more hidle⟩
    · simp only [hempty,if_false,Bool.false_eq_true]
      have hvalid := huses.valid.feed last
      obtain ⟨hdrains,hvalid'⟩ := Decoder.drain_drains (e.inbound.decoder.feed last) hvalid
      rw [Decoder.pending_feed] at hdrains
      refine ⟨hfaults,?_⟩
      rw [Inbound.read_eq]
      exact huses.ends_iff hsound hdrains hvalid' (Decoder.drain_settled _ hvalid)
  rw [← hfound] at hfinal
  obtain ⟨c,t',hgone,hc,hphase,ht',hgood,hbad⟩ := hfinal hnone
  refine ⟨found.1.decoder.ending,c,t',hends,hgone,hc,hphase,ht',?_⟩
  have htorn := found.1.decoder.ending_eq_torn_iff
  by_cases hleft : found.1.decoder.unread.isEmpty = true
  · obtain ⟨hreason,herrors⟩ := hgood _ (if_pos hleft)
    have hnot : found.1.decoder.ending ≠ .torn := fun h => htorn.mp h (List.isEmpty_iff.mp hleft)
    rw [if_neg hnot,if_neg hnot]
    exact ⟨hreason,herrors.trans (UInt64.add_zero _).symm⟩
  · have hyes := htorn.mpr (mt List.isEmpty_iff.mpr hleft)
    rw [if_pos hyes,if_pos hyes]
    exact hbad _ (if_neg hleft)

end Endpoint

namespace Cluster

def hungUp (bytes : List UInt8) : World :=
  (World.addLink { pipes := [{ parts := [bytes],ended := true },{}],traffics := [{}] } "worker" .initiator
    "peer" { codec := {},source := 0,sink := 1,traffic := 0,registry := 0 }).1

def twoBytes : Header := ⟨1,.string,1,{},0,1,2,2⟩

theorem admitted_twoBytes : twoBytes.Admitted {} := ⟨by decide,by decide⟩

end Cluster

namespace Endpoint
open Cluster

/-- The stream is cut off behind the first byte of a payload. -/
theorem finished_of_ended_torn :
    ∃ c t, (Reading.run (hungUp (twoBytes.encode ++ [104])) { link := 0 }).1.links[0]? = some c ∧
      c.closeReason = some "bytes remaining on stream" ∧
      (Reading.run (hungUp (twoBytes.encode ++ [104])) { link := 0 }).1.traffic? 0 = some t ∧
      t.errors = 1 := by
  have hm : (hungUp (twoBytes.encode ++ [104])).Mirrors 0 {}
      ((establish "worker" .initiator "peer" (World.firstCounter 0)).run {} []) :=
    World.mirrors_addLink rfl rfl rfl (by decide) ⟨{},rfl,rfl⟩ "worker" .initiator "peer"
  have htold : Codec.Says {} (stream [] ++ [twoBytes.encode ++ [104]].reverse.flatten) [] [] none :=
    .whole (d := ⟨some twoBytes,[104]⟩) (by decide +kernel) rfl
  obtain ⟨ending,c,t',hends,-,hc,-,ht',hreason,herrors⟩ :=
    finished_of_ended {} "worker" .initiator "peer" (World.firstCounter 0) [] (r := { link := 0 }) hm rfl
      rfl (by decide) rfl rfl rfl rfl htold
  obtain rfl : .torn = ending := (hends .torn).mp
    (.payload .nil admitted_twoBytes (List.cons_ne_nil _ _) (by decide))
  exact ⟨c,t',hc,hreason,ht',herrors⟩

/-- A header announces two bytes, and none of them comes: the stream is no row of whole frames, and the link
closes as after a good end. -/
theorem unnoticed_of_announced :
    Codec.Says {} twoBytes.encode [] [] none ∧ ¬ Decoder.Ends {} twoBytes.encode .whole ∧
      (Reading.run (hungUp twoBytes.encode) { link := 0 }).1.links[0]?.bind (·.closeReason) =
        some "connection closed by peer" ∧
      ((Reading.run (hungUp twoBytes.encode) { link := 0 }).1.traffic? 0).map (·.errors) = some 0 := by
  refine ⟨.whole (d := ⟨some twoBytes,[]⟩) (by decide +kernel) rfl,fun hwhole => ?_,by decide +kernel,
    by decide +kernel⟩
  have hannounced := Decoder.Ends.announced Decoder.Spells.nil admitted_twoBytes (by decide)
  rw [List.nil_append] at hannounced
  obtain ⟨fs,d,hd,hv,hs,hending⟩ := hwhole.exists_decoder
  have hsame := ((hd.ends_iff hv hs .announced).mp hannounced).trans hending
  cases hsame

end Endpoint
end Tether
