import Tether.Proofs.Cluster.Reading
import Tether.Proofs.Link.Finding

/-! Reading one frame at a time, while other tasks run, against reading a stream as a whole. At every moment
what has been found so far, and what reading goes on to find from where it is, make up what the whole
stream gives; that holds whatever is still to come, and so it does not matter in which pieces it comes. -/
namespace Tether

namespace Inbound

variable {codec : Codec} {i : Inbound} {d : Decoder} {ra : Reassembler} {f : Frame}

theorem read_of_drains {bytes last : List UInt8} {fs : List Frame} {fault : Option ProtocolFault}
    (hv : i.decoder.Valid codec) (hd : Decoder.Drains codec (i.decoder.pending ++ bytes) fs fault last) :
    let taken := absorb codec.limits i.reassembler fs
    (i.read codec bytes).2 = taken.2.1 ++ faultOf taken.2.2 fault := by
  have hread := read_eq codec i bytes
  obtain ⟨hdrain,-⟩ := Decoder.drain_drains (i.decoder.feed bytes) (hv.feed bytes)
  rw [Decoder.pending_feed] at hdrain
  obtain ⟨hfs,hfault,-⟩ := hdrain.unique hd
  simp only [hfs,hfault] at hread
  exact congrArg Prod.snd hread

theorem read_feed (codec : Codec) (i : Inbound) (bytes later : List UInt8) :
    ({ i with decoder := i.decoder.feed bytes } : Inbound).read codec later =
      i.read codec (bytes ++ later) := by
  simp [read,Decoder.feed]

section Next

variable (hv : i.decoder.Valid codec) (later : List UInt8)

include hv

theorem read_of_more (hn : i.decoder.next codec = (d,.more)) :
    (({ i with decoder := d } : Inbound).read codec later).2 = (i.read codec later).2 := by
  obtain ⟨hfound,hrest,hvalid⟩ := Decoder.next_parse hv
  rw [hn] at hfound hrest hvalid
  have hpending : d.pending = i.decoder.pending :=
    Decoder.parse_more (Prod.ext hfound.symm hrest.symm)
  obtain ⟨fs,fault,last,hd⟩ := Decoder.exists_drains codec (i.decoder.pending ++ later)
  have hd' := hd
  rw [← hpending] at hd'
  rw [read_of_drains hv hd,read_of_drains (i := { i with decoder := d }) hvalid hd']

theorem parse_of_next {decoded : Decoded} (hn : i.decoder.next codec = (d,decoded))
    (hfound : decoded ≠ .more) :
    Decoder.parse codec (i.decoder.pending ++ later) = (decoded,d.pending ++ later) := by
  obtain ⟨hparse,hrest,-⟩ := Decoder.next_parse hv
  rw [hn] at hparse hrest
  exact Decoder.parse_append (Prod.ext hparse.symm hrest.symm) hfound later

theorem read_of_fault {fault : ProtocolFault} (hn : i.decoder.next codec = (d,.fault fault)) :
    (i.read codec later).2 = [.fault (.protocol fault)] :=
  read_of_drains hv (.fault (parse_of_next hv later hn (by simp)))

theorem exists_drains_of_frame (hn : i.decoder.next codec = (d,.frame f)) :
    ∃ fs fault last, Decoder.Drains codec (d.pending ++ later) fs fault last ∧
      Decoder.Drains codec (i.decoder.pending ++ later) (f :: fs) fault last := by
  obtain ⟨fs,fault,last,hd⟩ := Decoder.exists_drains codec (d.pending ++ later)
  exact ⟨fs,fault,last,hd,.frame (parse_of_next hv later hn (by simp)) hd⟩

theorem read_of_took (hn : i.decoder.next codec = (d,.frame f))
    (hp : i.reassembler.push codec.limits f = (ra,.ok none)) :
    (i.read codec later).2 = .frame (frameSize f) :: ((⟨d,ra⟩ : Inbound).read codec later).2 := by
  obtain ⟨fs,fault,last,hd,hd'⟩ := exists_drains_of_frame hv later hn
  have hvalid := hn ▸ (Decoder.next_parse hv).2.2
  rw [read_of_drains hv hd',read_of_drains (i := ⟨d,ra⟩) hvalid hd]
  simp [absorb,hp]

theorem read_of_found {m : Message} (hn : i.decoder.next codec = (d,.frame f))
    (hp : i.reassembler.push codec.limits f = (ra,.ok (some m))) :
    (i.read codec later).2 =
      .frame (frameSize f) :: .message m :: ((⟨d,ra⟩ : Inbound).read codec later).2 := by
  obtain ⟨fs,fault,last,hd,hd'⟩ := exists_drains_of_frame hv later hn
  have hvalid := hn ▸ (Decoder.next_parse hv).2.2
  rw [read_of_drains hv hd',read_of_drains (i := ⟨d,ra⟩) hvalid hd]
  simp [absorb,hp]

theorem read_of_refused {fault : ProtocolFault} (hn : i.decoder.next codec = (d,.frame f))
    (hp : i.reassembler.push codec.limits f = (ra,.error fault)) :
    (i.read codec later).2 = [.frame (frameSize f),.fault (.protocol fault)] := by
  obtain ⟨fs,fault',last,-,hd'⟩ := exists_drains_of_frame hv later hn
  rw [read_of_drains hv hd']
  simp [absorb,hp,faultOf]

end Next

end Inbound

namespace Endpoint

variable {codec : Codec} {e : Endpoint}

/-! ### Nothing else closes the link -/

/-- Nothing closes the link but its reading: it stops at what is wrong with the bytes, or at the end of the
stream when it has read all of it. -/
inductive Undisturbed (codec : Codec) : Endpoint → List Event → Prop
  | done (e : Endpoint) : Undisturbed codec e []
  | event {e : Endpoint} {ev : Event} {rest : List Event} :
    ev = .move .decode ∨ (e.after codec ev).session.closes.length = e.session.closes.length →
    Undisturbed codec (e.after codec ev) rest → Undisturbed codec e (ev :: rest)
  | ended {e : Endpoint} {reason : String} {rest : List Event} : e.reading = true →
    (e.inbound.decoder.next codec).2 = .more → stream rest = [] →
    Undisturbed codec (e.stop reason) rest → Undisturbed codec e (.move (.stop reason) :: rest)

/-- Whether events call nobody to close the link, as far as they go before its reading ends. -/
def keepsOpen (codec : Codec) : Endpoint → List Event → Bool
  | _,[] => true
  | e,.move .decode :: rest => keepsOpen codec (e.decode codec) rest
  | e,ev :: rest =>
    (e.after codec ev).session.closes.length == e.session.closes.length &&
      keepsOpen codec (e.after codec ev) rest

theorem undisturbed_of_keepsOpen {events : List Event} (h : keepsOpen codec e events = true) :
    Undisturbed codec e events := by
  fun_induction keepsOpen codec e events with
  | case1 e => exact .done e
  | case2 e rest ih => exact .event (.inl rfl) (ih h)
  | case3 e ev rest _ ih =>
    rw [Bool.and_eq_true,beq_iff_eq] at h
    exact .event (.inr h.1) (ih h.2)

theorem Undisturbed.split {before after : List Event} (h : Undisturbed codec e (before ++ after)) :
    Undisturbed codec e before ∧ Undisturbed codec (e.run codec before) after := by
  induction before generalizing e with
  | nil => exact ⟨.done e,h⟩
  | cons ev before ih =>
    cases h with
    | event hev hrest =>
      obtain ⟨hbefore,hafter⟩ := ih hrest
      exact ⟨.event hev hbefore,hafter⟩
    | ended hr hn hstream hrest =>
      obtain ⟨hbefore,hafter⟩ := ih hrest
      rw [List.append_eq,stream_append,List.append_eq_nil_iff] at hstream
      exact ⟨.ended hr hn hstream.1 hbefore,hafter⟩

theorem Living.reasons_after (h : e.Living) {ev : Event}
    (hlength : (e.after codec ev).session.closes.length = e.session.closes.length) :
    (e.after codec ev).session.reasons = e.session.reasons := by
  have hgrow : e.session.reasons <+: (e.after codec ev).session.reasons := by
    cases ev with
    | feed bytes => exact List.prefix_refl _
    | move m =>
      obtain ⟨acts,hacts,-⟩ := (@step_cases codec e h.bounded m).session
      rw [Endpoint.after,hacts]
      exact e.session.reasons_run acts
  exact (hgrow.eq_of_length (by simp [Session.reasons,hlength])).symm

theorem sameReader_after {ev : Event} (hdecode : ev ≠ .move .decode) (hfeed : ev.bytes = [])
    (hlength : (e.after codec ev).session.closes.length = e.session.closes.length) :
    e.SameReader (e.after codec ev) := by
  cases ev with
  | feed bytes =>
    obtain rfl : bytes = [] := hfeed
    exact ⟨by simp [after,feed,Decoder.feed],rfl,rfl⟩
  | move m =>
    refine sameReader_step (fun h => hdecode (h ▸ rfl)) (fun reason h => ?_) e
    simp [h,after,step,stop,Session.step] at hlength

/-- What has been found in a stream, as long as its end has not been seen: reading goes on to find the rest,
or it has ended with the fault of the stream, and that is why the link closes. -/
inductive Follows (codec : Codec) (bytes : List UInt8) (arrivals : List Arrival) (e : Endpoint) : Prop
  | reads : e.reading = true → e.inbound.decoder.Valid codec → e.session.reasons = [] →
    Arrival.faults arrivals = [] →
    (∀ later, (({} : Inbound).read codec (bytes ++ later)).2 = arrivals ++ (e.inbound.read codec later).2) →
    Follows codec bytes arrivals e
  | failed (fault : ProtocolFault) (found : List Arrival) : e.reading = false →
    e.session.reasons = [(LinkError.protocol fault).message] →
    arrivals = found ++ [.fault (.protocol fault)] → Arrival.faults found = [] →
    (∀ later, (({} : Inbound).read codec (bytes ++ later)).2 = arrivals) →
    Follows codec bytes arrivals e

theorem follows_establish (codec : Codec) (name : String) (role : Role) (peerAddr : String)
    (counter : UInt32) : Follows codec [] [] (establish name role peerAddr counter) :=
  .reads rfl (Decoder.valid_none codec []) rfl rfl fun _ => rfl

variable {bytes : List UInt8} {arrivals : List Arrival}

/-- Reading finds one thing more. -/
theorem Follows.decode (h : Follows codec bytes arrivals e) :
    Follows codec bytes (arrivals ++ notes codec e (.move .decode)) (e.decode codec) := by
  have hd := decodes codec e
  generalize e.decode codec = e',notes codec e (.move .decode) = found at hd ⊢
  cases h with
  | failed fault before hover hreasons harrivals hsound hwhole =>
    cases hd with
    | idle _ =>
      rw [List.append_nil]
      exact .failed fault before hover hreasons harrivals hsound hwhole
    | more _ hr | took _ _ _ hr | found _ _ _ _ hr | refused _ _ _ _ hr | malformed _ _ hr =>
      simp [hover] at hr
  | reads hr hv hreasons hsound hwhole =>
    have hvalid : ∀ {d decoded}, e.inbound.decoder.next codec = (d,decoded) → d.Valid codec := by
      intro d decoded hn
      have hv' := (Decoder.next_parse hv).2.2
      rwa [hn] at hv'
    have hsound' : ∀ frame : Nat, Arrival.faults (arrivals ++ [.frame frame]) = [] := by
      intro frame
      rw [Arrival.faults_append,hsound]
      rfl
    cases hd with
    | idle hover => simp [hr] at hover
    | more d _ hn =>
      rw [List.append_nil]
      refine .reads hr (hvalid hn) hreasons hsound fun later => ?_
      rw [hwhole,Inbound.read_of_more hv later hn]
    | took d ra f _ hn hp =>
      refine .reads hr (hvalid hn) hreasons (hsound' _) fun later => ?_
      rw [hwhole,Inbound.read_of_took hv later hn hp,List.append_assoc]
      rfl
    | found d ra f m _ hn hp =>
      have hsame := route_reading { e with inbound := ⟨d,ra⟩ } m
      have hcloses : ({ e with inbound := ⟨d,ra⟩ }.route m).session.reasons = e.session.reasons := by
        unfold route
        split <;> rfl
      refine .reads (hsame.2.trans hr) ?_ (hcloses.trans hreasons) ?_ fun later => ?_
      · rw [hsame.1]
        exact hvalid hn
      · rw [Arrival.faults_append,hsound]
        rfl
      · rw [hwhole,Inbound.read_of_found hv later hn hp,hsame.1,List.append_assoc]
        rfl
    | refused d ra f fault _ hn hp =>
      refine .failed fault (arrivals ++ [.frame (Inbound.frameSize f)]) rfl ?_ (by simp) (hsound' _)
        fun later => ?_
      · simpa [stop,Session.step,Session.reasons] using hreasons
      · rw [hwhole,Inbound.read_of_refused hv later hn hp]
    | malformed d fault _ hn =>
      refine .failed fault arrivals rfl ?_ rfl hsound fun later => ?_
      · simpa [stop,Session.step,Session.reasons] using hreasons
      · rw [hwhole,Inbound.read_of_fault hv later hn]

theorem Follows.after (h : Follows codec bytes arrivals e) (hl : e.Living) {ev : Event}
    (hev : ev = .move .decode ∨ (e.after codec ev).session.closes.length = e.session.closes.length) :
    Follows codec (bytes ++ ev.bytes) (arrivals ++ notes codec e ev) (e.after codec ev) := by
  by_cases hdecode : ev = .move .decode
  · subst hdecode
    rw [Event.bytes,List.append_nil]
    exact h.decode
  · have hlength := hev.resolve_left hdecode
    have hreasons' := hl.reasons_after hlength
    rw [notes_of_ne hdecode,List.append_nil]
    cases h with
    | failed fault found hover hreasons harrivals hsound hwhole =>
      refine .failed fault found ?_ (hreasons'.trans hreasons) harrivals hsound fun later => ?_
      · cases ev with
        | feed bytes => exact hover
        | move m => exact (sameReader_after hdecode rfl hlength).reading.trans hover
      · rw [List.append_assoc,hwhole]
    | reads hr hv hreasons hsound hwhole =>
      cases ev with
      | feed more =>
        refine .reads hr (hv.feed more) hreasons hsound fun later => ?_
        rw [List.append_assoc,hwhole]
        exact congrArg (arrivals ++ ·) (congrArg Prod.snd (Inbound.read_feed codec e.inbound more later).symm)
      | move m =>
        have hsame := sameReader_after hdecode rfl hlength
        refine .reads (hsame.reading.trans hr) (hsame.inbound ▸ hv) (hreasons'.trans hreasons) hsound
          fun later => ?_
        rw [Event.bytes,List.append_nil,hsame.inbound,hwhole]

/-- The end of the stream was seen, and there was nothing wrong with it. -/
structure Ended (codec : Codec) (bytes : List UInt8) (arrivals : List Arrival) (e : Endpoint) : Prop where
  stopped : e.reading = false
  sound : Arrival.faults arrivals = []
  whole : (({} : Inbound).read codec bytes).2 = arrivals

theorem read_nil_of_more {i : Inbound} (hv : i.decoder.Valid codec)
    (hn : (i.decoder.next codec).2 = .more) : (i.read codec []).2 = [] := by
  obtain ⟨hparse,-,-⟩ := Decoder.next_parse hv
  have hd : Decoder.Drains codec (i.decoder.pending ++ []) [] none
      (Decoder.parse codec i.decoder.pending).2 := by
    rw [List.append_nil]
    exact .more (Prod.ext (hparse.symm.trans hn) rfl)
  exact Inbound.read_of_drains hv hd

theorem Follows.run (h : Follows codec bytes arrivals e) (hl : e.Living) {events : List Event}
    (hu : Undisturbed codec e events) :
    Follows codec (bytes ++ stream events) (arrivals ++ noted codec e events) (e.run codec events) ∨
      Ended codec (bytes ++ stream events) (arrivals ++ noted codec e events) (e.run codec events) := by
  induction hu generalizing bytes arrivals with
  | done e => exact .inl (by simpa [noted] using h)
  | @event e ev rest hev _ ih =>
    have hrest := ih (h.after hl hev) (hl.after codec ev)
    simpa [noted] using hrest
  | @ended e reason rest hr hn hstream _ _ =>
    right
    have hover := noted_of_over codec (e := e.stop reason) rfl rest
    have hstream' : stream (.move (.stop reason) :: rest) = [] := hstream
    have hnoted : noted codec e (.move (.stop reason) :: rest) = [] := hover.1
    rw [hstream',hnoted,List.append_nil,List.append_nil]
    cases h with
    | failed fault found hfailed => simp [hr] at hfailed
    | reads _ hv _ hsound hwhole =>
      refine ⟨hover.2,hsound,?_⟩
      have hall := hwhole []
      rwa [read_nil_of_more hv hn,List.append_nil,List.append_nil] at hall

theorem exists_noted_decodes (hr : e.reading = true) (hv : e.inbound.decoder.Valid codec) :
    ∃ n, noted codec e (List.replicate n (.move .decode)) = (e.inbound.read codec []).2 := by
  induction hlen : e.inbound.decoder.pending.length using Nat.strongRecOn generalizing e with
  | ind len ih =>
    subst hlen
    have hd := decodes codec e
    have hmore : ∀ n, noted codec e (List.replicate (n + 1) (.move .decode)) =
        notes codec e (.move .decode) ++ noted codec (e.decode codec) (List.replicate n (.move .decode)) :=
      fun _ => rfl
    -- a frame uses bytes up, and what is found behind it is found by the steps that follow
    have hnext : ∀ {d ra f found}, e.inbound.decoder.next codec = (d,.frame f) →
        (e.decode codec).reading = true → (e.decode codec).inbound = ⟨d,ra⟩ →
        (e.inbound.read codec []).2 = found ++ ((⟨d,ra⟩ : Inbound).read codec []).2 →
        notes codec e (.move .decode) = found →
        ∃ n, noted codec e (List.replicate n (.move .decode)) = (e.inbound.read codec []).2 := by
      intro d ra f found hn hr' hin hread hnotes
      have hparse := Inbound.parse_of_next hv [] hn (by simp)
      simp only [List.append_nil] at hparse
      have hless : d.pending.length < e.inbound.decoder.pending.length :=
        Nat.lt_of_lt_of_le (Nat.lt_add_of_pos_right (by decide)) (Decoder.length_parse_frame hparse)
      have hv' := (Decoder.next_parse hv).2.2
      rw [hn] at hv'
      obtain ⟨n,hrest⟩ := ih (e.decode codec).inbound.decoder.pending.length (by rwa [hin]) hr' (hin ▸ hv') rfl
      exact ⟨n + 1,by rw [hmore,hrest,hnotes,hread,hin]⟩
    generalize hd' : e.decode codec = e',hn' : notes codec e (.move .decode) = found at hd
    rw [hd',hn'] at hnext
    cases hd with
    | idle hover => simp [hr] at hover
    | more d _ hn => exact ⟨0,(read_nil_of_more hv (by rw [hn])).symm⟩
    | took d ra f _ hn hp => exact hnext hn hr rfl (Inbound.read_of_took hv [] hn hp) rfl
    | found d ra f m _ hn hp =>
      have hsame := route_reading { e with inbound := ⟨d,ra⟩ } m
      exact hnext hn (hsame.2.trans hr) hsame.1 (Inbound.read_of_found hv [] hn hp) rfl
    | refused d ra f fault _ hn hp =>
      exact ⟨1,by rw [hmore 0,hn',Inbound.read_of_refused hv [] hn hp]; rfl⟩
    | malformed d fault _ hn =>
      exact ⟨1,by rw [hmore 0,hn',Inbound.read_of_fault hv [] hn]; rfl⟩

theorem exists_noted_read (hr : e.reading = true) (hv : e.inbound.decoder.Valid codec)
    (bytes : List UInt8) : ∃ n,
      noted codec e (.feed bytes :: List.replicate n (.move .decode)) = (e.inbound.read codec bytes).2 := by
  obtain ⟨n,hn⟩ := exists_noted_decodes (e := e.feed bytes) hr (hv.feed bytes)
  refine ⟨n,hn.trans ?_⟩
  rw [feed,Inbound.read_feed,List.append_nil]

end Endpoint
end Tether
