import Tether.Cluster.Reading
import Tether.Proofs.Cluster.Calling

/-! The reading side of a link in the simulated world, as moves of its endpoint: everything at hand is
read in one run, which is one frame after the other for the endpoint. What is found is then served as
the endpoint serves it. -/
namespace Tether

/-! ### Frame by frame -/

/-- One frame after the other, up to where draining stops or is stopped. -/
inductive Decoder.Goes (codec : Codec) : Decoder → List Frame → Option ProtocolFault → Decoder → Prop
  | rests (d : Decoder) : Goes codec d [] none d
  | more {d d' : Decoder} : d.next codec = (d',.more) → Goes codec d [] none d'
  | fault {d d' : Decoder} {fault : ProtocolFault} : d.next codec = (d',.fault fault) →
    Goes codec d [] (some fault) d'
  | frame {d d₁ d' : Decoder} {f : Frame} {fs : List Frame} {fault : Option ProtocolFault} :
    d.next codec = (d₁,.frame f) → Goes codec d₁ fs fault d' → Goes codec d (f :: fs) fault d'

theorem Decoder.goes_drainOnto (codec : Codec) (found : List Frame) (d : Decoder) (fuel : Nat) :
    ∃ fs, (drainOnto codec found d fuel).2.1 = found.reverse ++ fs ∧
      Goes codec d fs (drainOnto codec found d fuel).2.2 (drainOnto codec found d fuel).1 := by
  induction fuel generalizing found d with
  | zero => exact ⟨[],(List.append_nil _).symm,.rests d⟩
  | succ fuel ih =>
    rw [drainOnto]
    rcases hn : d.next codec with ⟨d₁,_ | f | fault⟩
    · exact ⟨[],(List.append_nil _).symm,.more hn⟩
    · obtain ⟨fs,hfs,hgoes⟩ := ih (f :: found) d₁
      exact ⟨f :: fs,by simp [hfs],.frame hn hgoes⟩
    · exact ⟨[],(List.append_nil _).symm,.fault hn⟩

namespace Inbound

/-- Messages out of frames, in their order; a refused frame ends it. -/
def absorb (limits : Limits) (r : Reassembler) : List Frame → Reassembler × List Arrival × Bool
  | [] => (r,[],true)
  | frame :: rest =>
    match r.push limits frame with
    | (r,.ok none) =>
      let (r,found,sound) := absorb limits r rest
      (r,.frame (frameSize frame) :: found,sound)
    | (r,.ok (some m)) =>
      let (r,found,sound) := absorb limits r rest
      (r,.frame (frameSize frame) :: .message m :: found,sound)
    | (r,.error fault) => (r,[.frame (frameSize frame),.fault (.protocol fault)],false)

theorem absorbOnto_eq (limits : Limits) (r : Reassembler) (found : List Arrival) (fs : List Frame) :
    absorbOnto limits r found fs = ((absorb limits r fs).1,(absorb limits r fs).2.1.reverse ++ found,
      (absorb limits r fs).2.2) := by
  induction fs generalizing r found with
  | nil => rfl
  | cons f fs ih =>
    rw [absorbOnto,absorb]
    rcases r.push limits f with ⟨r',fault | (_ | m)⟩
    · rfl
    · simp [ih]
    · simp [ih]

/-- A faulty frame is come upon after all that was in front of it. -/
def faultOf (sound : Bool) (fault : Option ProtocolFault) : List Arrival :=
  if sound then (fault.map fun fault => .fault (.protocol fault)).toList else []

theorem read_eq (codec : Codec) (i : Inbound) (bytes : List UInt8) :
    let drained := Decoder.drain codec (i.decoder.feed bytes)
    let taken := absorb codec.limits i.reassembler drained.2.1
    i.read codec bytes = (⟨drained.1,taken.1⟩,taken.2.1 ++ faultOf taken.2.2 drained.2.2) := by
  intro drained taken
  simp only [read,absorbOnto_eq,List.append_nil]
  rcases hd : drained.2.2 with _ | fault <;> rcases hs : taken.2.2 with _ | _ <;>
    simp_all [drained,taken,faultOf]

end Inbound
namespace Endpoint

def stopIf (e : Endpoint) : Option String → Endpoint
  | none => e
  | some reason => e.stop reason

variable {codec : Codec} {e : Endpoint} {d : Decoder}

theorem step_decode {ra : Reassembler} (hr : e.reading = true) (hin : e.inbound = ⟨d,ra⟩) :
    e.step codec .decode =
      match d.next codec with
      | (d,.more) => { e with inbound := ⟨d,ra⟩ }
      | (d,.fault fault) => { e with inbound := ⟨d,ra⟩ }.stop (LinkError.protocol fault).message
      | (d,.frame frame) =>
        match ra.push codec.limits frame with
        | (ra,.ok none) => { e with inbound := ⟨d,ra⟩ }
        | (ra,.ok (some m)) => { e with inbound := ⟨d,ra⟩ }.route m
        | (ra,.error fault) => { e with inbound := ⟨d,ra⟩ }.stop (LinkError.protocol fault).message := by
  simp only [step]
  unfold decode
  rewrite [if_neg (by simp [hr]),hin]
  rfl

theorem route_reading (e : Endpoint) (m : Message) :
    (e.route m).inbound = e.inbound ∧ (e.route m).reading = e.reading := by
  unfold route
  split <;> exact ⟨rfl,rfl⟩

end Endpoint

namespace Cluster

variable {w : World} {i k : Nat} {codec : Codec} {e e' : Endpoint} {r r' : Reading}

def dispatchOf (link : Nat) (m : Message) : Dispatch :=
  { link,counter := m.counter,tag := m.tag,payload := m.payload }

/-- The requests that reading has found, in the world and at the endpoint. -/
def Found (r r' : Reading) (e e' : Endpoint) : Prop :=
  ∃ ms : List Message, r' = { r with served := r.served ++ ms.map (dispatchOf r.link) } ∧
    e'.serves = e.serves ++ ms.map fun m => { request := m }

theorem Found.refl (r : Reading) (h : e'.serves = e.serves) : Found r r e e' :=
  ⟨[],by simp,by simp [h]⟩

theorem Found.trans {r'' : Reading} {e'' : Endpoint} (h : Found r r' e e') (h' : Found r' r'' e' e'') :
    Found r r'' e e'' := by
  obtain ⟨ms,rfl,hserves⟩ := h
  obtain ⟨ms',rfl,hserves'⟩ := h'
  exact ⟨ms ++ ms',by simp,by simp [hserves,hserves']⟩

theorem World.Mirrors.resolves (h : w.Mirrors i codec e) (m : Message) :
    (w.onLink i fun _ => (e.session.link.processResponse m).1).Mirrors i codec
      { e with session := e.session.step (.respond m) } :=
  h.unmoved rfl (e.session.link.unmoved_processResponse m)

theorem arrive_frame (w : World) (r : Reading) (size : Nat) :
    Reading.arrive w r (.frame size) = (w.countOn r.link [.framesReceived 1 size],r,none) := rfl

theorem World.Mirrors.arrivesMessage {last : Inbound} (h : w.Mirrors i codec { e with inbound := last })
    (hlink : r.link = i) (m : Message) (inbound : Inbound) :
    ∃ w' r', Reading.arrive w r (.message m) = (w',r',none) ∧
      w'.Mirrors i codec { ({ e with inbound } : Endpoint).route m with inbound := last } ∧
      Found r r' e (({ e with inbound } : Endpoint).route m) := by
  subst hlink
  cases hm : m.response with
  | true =>
    have hroute : ({ e with inbound } : Endpoint).route m =
        { e with inbound,session := e.session.step (.respond m),routed := e.routed ++ [m] } := by
      simp [Endpoint.route,hm]
    rw [hroute]
    refine ⟨(w.onLink r.link fun _ => (e.session.link.processResponse m).1).countOn r.link
      (Connection.responseEvents m (e.session.link.processResponse m).2),r,?_,?_,.refl r rfl⟩
    · simp [Reading.arrive,hm,h.link]
    · exact ((h.resolves m).countOn ..).retold rfl rfl rfl rfl rfl
  | false =>
    have hroute : ({ e with inbound } : Endpoint).route m =
        { e with inbound,serves := e.serves ++ [{ request := m }],routed := e.routed ++ [m] } := by
      simp [Endpoint.route,hm]
    rw [hroute]
    exact ⟨w.countOn r.link [.requestReceived],{ r with served := r.served ++ [dispatchOf r.link m] },
      by simp [Reading.arrive,hm,dispatchOf],(h.countOn ..).retold rfl rfl rfl rfl rfl,[m],by simp,by simp⟩

/-- What has been found in the frames at hand is dealt with, and reading stops at the first fault. The
bytes themselves are left out of account: the world has already gone over all of them. -/
theorem World.Mirrors.arrives {d d' : Decoder} {fs : List Frame} {fault : Option ProtocolFault}
    (hg : Decoder.Goes codec d fs fault d') (last : Inbound) {ra : Reassembler}
    (hin : e.inbound = ⟨d,ra⟩) (hr : e.reading = true) (hlink : r.link = i)
    (h : w.Mirrors i codec { e with inbound := last }) :
    let taken := Inbound.absorb codec.limits ra fs
    let result := Reading.arriveAll w r (taken.2.1 ++ Inbound.faultOf taken.2.2 fault)
    ∃ n e', e.run codec (List.replicate n (.move .decode)) = e'.stopIf result.2.2 ∧
      e'.reading = true ∧ result.1.Mirrors i codec { e' with inbound := last } ∧
      Found r result.2.1 e e' ∧ (result.2.2 = none → e'.inbound = ⟨d',taken.1⟩) := by
  induction hg generalizing w e r ra with
  | rests d => exact ⟨0,e,rfl,hr,h,.refl r rfl,fun _ => hin⟩
  | @more d d' hn =>
    have hdecode := @Endpoint.step_decode codec e d ra hr hin
    rw [hn] at hdecode
    exact ⟨1,_,hdecode,hr,h,.refl r rfl,fun _ => rfl⟩
  | @fault d d' fault hn =>
    have hdecode := @Endpoint.step_decode codec e d ra hr hin
    rw [hn] at hdecode
    exact ⟨1,{ e with inbound := ⟨d',ra⟩ },hdecode,hr,h.countOn ..,.refl r rfl,fun hnone => nomatch hnone⟩
  | @frame d d₁ d' f fs fault hn hgoes ih =>
    have hdecode := @Endpoint.step_decode codec e d ra hr hin
    simp only [hn] at hdecode
    simp only [Inbound.absorb]
    rcases hp : ra.push codec.limits f with ⟨ra',error | (_ | m)⟩
    · simp only [hp] at hdecode
      exact ⟨1,{ e with inbound := ⟨d₁,ra'⟩ },hdecode,hr,(h.countOn ..).countOn ..,.refl r rfl,
        fun hnone => nomatch hnone⟩
    · simp only [hp] at hdecode
      obtain ⟨n,e',hrun,hr',hmirrors,hfound,hend⟩ := @ih (w.countOn r.link [.framesReceived 1 _])
        { e with inbound := ⟨d₁,ra'⟩ } r ra' rfl hr hlink (h.countOn ..)
      refine ⟨n + 1,e',?_,hr',hmirrors,hfound,hend⟩
      rw [List.replicate_succ,Endpoint.run_cons,Endpoint.after,hdecode]
      exact hrun
    · simp only [hp] at hdecode
      obtain ⟨w₁,r₁,harrive,hmirrors₁,hfound₁⟩ :=
        World.Mirrors.arrivesMessage (h.countOn r.link [.framesReceived 1 (Inbound.frameSize f)]) hlink m
          ⟨d₁,ra'⟩
      obtain ⟨hin₁,hr₁⟩ := Endpoint.route_reading { e with inbound := ⟨d₁,ra'⟩ } m
      have hlink₁ : r₁.link = i := by
        obtain ⟨ms,rfl,-⟩ := hfound₁
        exact hlink
      obtain ⟨n,e',hrun,hr',hmirrors,hfound,hend⟩ := ih hin₁ (hr₁.trans hr) hlink₁ hmirrors₁
      simp only [List.cons_append,Reading.arriveAll,arrive_frame,harrive]
      refine ⟨n + 1,e',?_,hr',hmirrors,hfound₁.trans hfound,hend⟩
      rw [List.replicate_succ,Endpoint.run_cons,Endpoint.after,hdecode]
      exact hrun

def OfReading : Endpoint.Event → Prop
  | .feed _ | .move .decode | .move (.stop _) => True
  | _ => False

theorem World.Mirrors.drain (h : w.Mirrors i codec e) {s : Stream} (hs : w.streams[i]? = some s) :
    (w.drain s.source).1.Mirrors i codec e ∧ (w.drain s.source).1.streams = w.streams := by
  obtain ⟨hi,hwhole,s',hs',hcodec,hapart,hinbound,hwritable,p,hp,hparts⟩ := h
  obtain rfl : s' = s := Option.some.inj (hs'.symm.trans hs)
  unfold World.drain
  cases hsource : w.pipes[s'.source]? with
  | none => exact ⟨⟨hi,hwhole,s',hs,hcodec,hapart,hinbound,hwritable,p,hp,hparts⟩,rfl⟩
  | some q =>
    simp only
    split
    · exact ⟨⟨hi,hwhole,s',hs,hcodec,hapart,hinbound,hwritable,p,hp,hparts⟩,rfl⟩
    · refine ⟨⟨hi,hwhole,s',hs,hcodec,hapart,hinbound,hwritable,p,?_,hparts⟩,rfl⟩
      simp [World.onPipe,hapart,hp]

theorem World.Mirrors.ends (h : w.Mirrors i codec e) (r : Reading) (inbound : Inbound) (ended : Bool) :
    let result : World × Reading × Option String :=
      if !ended then (w,r,none)
      else match inbound.ending with
        | .ok reason => (w,r,some reason)
        | .error error => (w.countOn r.link [.error],r,some error.message)
    ∃ events, (∀ a ∈ events, OfReading a) ∧ (∀ e₁ : Endpoint, e₁.run codec events = e₁.stopIf result.2.2) ∧
      result.1.Mirrors i codec e ∧ Found r result.2.1 e e := by
  have hfound : Found r r e e := .refl r rfl
  cases ended with
  | false => exact ⟨[],by simp,fun _ => rfl,h,hfound⟩
  | true =>
    cases inbound.ending with
    | ok reason => exact ⟨[.move (.stop reason)],by simp [OfReading],fun _ => rfl,h,hfound⟩
    | error error =>
      exact ⟨[.move (.stop error.message)],by simp [OfReading],fun _ => rfl,h.countOn ..,hfound⟩

theorem World.Mirrors.hasRead (h : w.Mirrors i codec e) (inbound : Inbound) :
    (w.onStream i fun s => { s with inbound }).Mirrors i codec { e with inbound } := by
  obtain ⟨hi,hwhole,s,hs,hcodec,hapart,-,hwritable,hout⟩ := h
  exact ⟨hi,hwhole,{ s with inbound },by simp [World.onStream,hs],hcodec,hapart,fun _ => rfl,hwritable,hout⟩

theorem World.Mirrors.takesIn (h : w.Mirrors i codec e) (hr : e.reading = true) (hlink : r.link = i)
    (bytes : List UInt8) :
    let taken := e.inbound.read codec bytes
    let result := Reading.arriveAll (w.onStream i fun s => { s with inbound := taken.1 }) r taken.2
    ∃ n e', e.run codec (.feed bytes :: List.replicate n (.move .decode)) = e'.stopIf result.2.2 ∧
      e'.reading = true ∧ result.1.Mirrors i codec { e' with inbound := taken.1 } ∧
      Found r result.2.1 e e' ∧ (result.2.2 = none → e'.inbound = taken.1) := by
  obtain ⟨fs,hfs,hgoes⟩ := Decoder.goes_drainOnto codec [] (e.inbound.decoder.feed bytes)
    (e.inbound.decoder.feed bytes).steps
  have hread := Inbound.read_eq codec e.inbound bytes
  simp only [Decoder.drain,hfs,List.reverse_nil,List.nil_append] at hread
  rw [hread]
  exact World.Mirrors.arrives hgoes _ rfl hr hlink (h.hasRead _)

/-- One run of reading: the bytes at hand are fed to the endpoint, which takes out frame after frame and
stops for the reason for which the world stops, if there is one. Both find the same requests. -/
theorem World.Mirrors.reads (h : w.Mirrors i codec e) (hr : e.reading = true) (hlink : r.link = i)
    {s : Stream} (hs : w.streams[i]? = some s) :
    let result := Reading.read w r s
    ∃ events e' last, (∀ a ∈ events, OfReading a) ∧ e.run codec events = e'.stopIf result.2.2 ∧
      e'.reading = true ∧ result.1.Mirrors i codec { e' with inbound := last } ∧
      Found r result.2.1 e e' ∧ (result.2.2 = none → e'.inbound = last) := by
  obtain ⟨hdrained,-⟩ := h.drain hs
  obtain ⟨s',hs',hmirrors⟩ := h.stream
  obtain rfl : s' = s := Option.some.inj (hs'.symm.trans hs)
  have hinbound := hmirrors.inbound hr
  have hcodec := hmirrors.codec
  unfold Reading.read
  generalize w.drain s'.source = drained at hdrained ⊢
  rcases drained with ⟨w₁,bytes,ended⟩
  simp only at hdrained ⊢
  by_cases hempty : bytes.isEmpty = true
  · simp only [hempty,if_true,Reading.arriveAll]
    obtain ⟨events,hevents,hrun,hlast,hfound⟩ := hdrained.ends r s'.inbound ended
    exact ⟨events,e,e.inbound,hevents,hrun e,hr,hlast,hfound,fun _ => rfl⟩
  · obtain ⟨n,e',hrun,hr',htaken,hfound,hend⟩ := hdrained.takesIn hr hlink bytes
    have hdecodes : ∀ a ∈ .feed bytes :: List.replicate n (.move .decode), OfReading a := by
      intro a ha
      rcases List.mem_cons.mp ha with rfl | ha
      · trivial
      · exact List.eq_of_mem_replicate ha ▸ trivial
    subst hlink
    simp only [hempty,hinbound,hcodec,if_false,Bool.false_eq_true]
    generalize e.inbound.read codec bytes = taken at hrun htaken hfound hend ⊢
    generalize Reading.arriveAll (w₁.onStream r.link fun s => { s with inbound := taken.1 }) r taken.2 =
      result at hrun htaken hfound hend ⊢
    rcases result with ⟨w₂,r₂,_ | reason⟩
    · simp only at hrun htaken hfound hend ⊢
      obtain ⟨events,hevents,hstops,hlast,hfound'⟩ := htaken.ends r₂ taken.1 ended
      refine ⟨_ ++ events,e',taken.1,fun a ha => (List.mem_append.mp ha).elim (hdecodes a) (hevents a),?_,hr',
        hlast,hfound.trans hfound',fun _ => hend trivial⟩
      rw [Endpoint.run_append,hrun]
      exact hstops e'
    · exact ⟨_,e',taken.1,hdecodes,hrun,hr',htaken,hfound,fun hnone => nomatch hnone⟩

theorem World.Mirrors.shuts (h : w.Mirrors i codec e) (hr : e.reading = false) :
    (w.onStream i fun s => { s with writable := false }).Mirrors i codec (e.step codec .shut) := by
  obtain ⟨hi,hwhole,s,hs,hcodec,hapart,hinbound,-,hout⟩ := h
  simp only [Endpoint.step,hr,Bool.false_eq_true,if_false]
  exact ⟨hi,hwhole,{ s with writable := false },by simp [World.onStream,hs],hcodec,hapart,
    fun hread => absurd hread (by simp),fun _ => rfl,hout⟩

theorem World.Mirrors.endPipe (h : w.Mirrors i codec e) (pipe : Nat) :
    (w.endPipe pipe).Mirrors i codec e := by
  obtain ⟨hi,hwhole,s,hs,hcodec,hapart,hinbound,hwritable,p,hp,hparts⟩ := h
  refine ⟨hi,hwhole,s,hs,hcodec,hapart,hinbound,hwritable,?_⟩
  by_cases hpipe : pipe = s.sink
  · exact ⟨{ p with ended := true },by simp [World.endPipe,World.onPipe,hpipe,hp],hparts⟩
  · exact ⟨p,by simp [World.endPipe,World.onPipe,hpipe,hp],hparts⟩

theorem World.Mirrors.finish {last : Inbound} {s : Stream} {reason : String} (hlink : r.link = i)
    (h : (r.served.foldl (fun w d => d.drop w) w).Mirrors i codec { e with inbound := last }) :
    (Reading.finish w r s reason).Mirrors i codec
      (((e.stop reason).run codec e.closing).step codec .shut) := by
  subst hlink
  have hclosed := @World.Mirrors.closeLink _ _ codec _ (e.stop reason) h reason rfl (fun hr => nomatch hr) rfl
  have hstopped : ((e.stop reason).run codec e.closing).reading = false := by
    rw [Endpoint.run_closing]
    rfl
  exact ((hclosed.shuts hstopped).endPipe s.sink).congr rfl rfl rfl

/-! ### Serving -/

/-- A request of the world and the request of the endpoint with number `k`. -/
def Dispatch.Asks (d : Dispatch) (i : Nat) (request : Message) : Prop :=
  d.link = i ∧ d.counter = request.counter ∧ d.tag = request.tag ∧ d.payload = request.payload

/-- The gate and the table of commands: a request is answered for at once, as the endpoint answers for
it, or it comes to the service of its command. -/
theorem World.Mirrors.begins (h : w.Mirrors i codec e) {d : Dispatch} {request : Message} {b : Bool}
    (ht : e.serves[k]? = some ⟨request,b,.routed⟩) (hd : d.Asks i request) :
    (∃ reply, Dispatch.begin w d = (w,.ends (.reply reply)) ∧
      ((e.step codec (.gate k)).step codec (.serve k none)).serves[k]? =
        some ⟨request,e.session.link.admits request.tag,.replying reply⟩) ∨
    ∃ s, w.streams[i]? = some s ∧ ∃ entry ∈ w.registries.getD s.registry [], entry.tag = request.tag ∧
      Dispatch.begin w d = Dispatch.serve w d e.session.link entry.service ∧
      e.step codec (.gate k) = e.setServe k ⟨request,true,.running⟩ := by
  obtain ⟨s,hs,-⟩ := h.stream
  obtain ⟨rfl,-,htag,-⟩ := hd
  have hlt := (List.getElem?_eq_some_iff.mp ht).1
  simp only [Dispatch.begin,h.link,hs,htag]
  cases hadmits : e.session.link.admits request.tag with
  | false =>
    have hgate : e.step codec (.gate k) = e.setServe k ⟨request,false,.replying (.early request.tag)⟩ := by
      simp [Endpoint.step,Endpoint.gate,ht,hadmits]
    refine .inl ⟨.early request.tag,rfl,?_⟩
    rw [hgate]
    simp [Endpoint.step,Endpoint.serve,Endpoint.setServe,hlt]
  | true =>
    have hgate : e.step codec (.gate k) = e.setServe k ⟨request,true,.running⟩ := by
      simp [Endpoint.step,Endpoint.gate,ht,hadmits]
    simp only [Bool.not_true,Bool.false_eq_true,if_false]
    cases hentry : (w.registries.getD s.registry []).find? (·.tag == request.tag) with
    | none =>
      refine .inl ⟨.unknown request.tag,rfl,?_⟩
      rw [hgate]
      simp [Endpoint.step,Endpoint.serve,Endpoint.setServe,hlt]
    | some entry =>
      exact .inr ⟨s,rfl,entry,List.mem_of_find?_eq_some hentry,
        by simpa using List.find?_some hentry,rfl,hgate⟩

theorem World.Mirrors.answers (h : w.Mirrors i codec e) {d : Dispatch} {request : Message} {b : Bool}
    {reply : Reply} (ht : e.serves[k]? = some ⟨request,b,.replying reply⟩) (hd : d.Asks i request) :
    ∃ tear, (Reading.answer w d reply).Mirrors i codec
      ((e.step codec (.respond k w.supply tear)).run codec e.closing) := by
  obtain ⟨rfl,hcounter,-⟩ := hd
  obtain ⟨tear,hresult,hmirrors⟩ := h.writeMessage (reply.message request.counter)
  refine ⟨tear,?_⟩
  simp only [Reading.answer,hcounter,Endpoint.step,Endpoint.respond,ht]
  generalize w.writeMessage d.link (reply.message request.counter) = written at hresult hmirrors ⊢
  generalize e.writeMessage codec w.supply (reply.message request.counter) tear = written' at hresult hmirrors ⊢
  rcases written with ⟨w₁,result⟩
  rcases written' with ⟨e₁,result'⟩
  obtain rfl : result = result' := hresult
  rw [Endpoint.run_closing] at hmirrors
  cases result with
  | error error =>
    simp only [Endpoint.run_closing]
    exact hmirrors.retold rfl rfl rfl rfl rfl
  | ok _ =>
    simp only [Endpoint.run_closing]
    exact (hmirrors.countOn d.link [.responseSent]).retold rfl rfl rfl rfl rfl

/-- A reply that is too large leaves the world as it was: nothing is written, nothing is counted, and the
link stays open. -/
theorem answer_of_not_carries {d : Dispatch} {s : Stream} (hs : w.streams[d.link]? = some s)
    (hsound : s.codec.Sound) (hchunk : 1 ≤ s.codec.limits.chunkSize.toNat) {reply : Reply}
    (hlarge : ¬ s.codec.Carries reply.payload.length) : Reading.answer w d reply = w := by
  rcases hf : (s.codec.emitMessage w.nonces (reply.message d.counter)).fault with _ | error
  · exact absurd ((Codec.fault_eq_none_iff hsound hchunk w.supply _).mp hf) hlarge
  · simp [Reading.answer,World.writeMessage_eq hs,hf]

end Cluster
end Tether
