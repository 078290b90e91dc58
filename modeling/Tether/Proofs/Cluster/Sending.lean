import Tether.Cluster.Sending
import Tether.Proofs.Cluster.Calling

/-! The uploads of the simulated world, as moves of the endpoint: reading the file and writing a chunk
are its moves, and one run of the world makes all of them. -/
namespace Tether.Cluster

variable {w : World} {i k : Nat} {codec : Codec} {e : Endpoint}

/-- A move for the upload with this number, or a step of a call to close. -/
def OfUpload (k : Nat) : Endpoint.Event → Prop
  | .move (.write j _ _) | .move (.fill j _) | .move (.forget j) => j = k
  | .move (.proceed _) => True
  | _ => False

theorem ofUpload_closing (e : Endpoint) (k : Nat) : ∀ a ∈ e.closing, OfUpload k a := by
  intro a ha
  rw [List.eq_of_mem_replicate ha]
  trivial

/-- What the result of writing a chunk makes of an upload. -/
def uploadOf (codec : Codec) (u : Upload) : Except LinkError Unit → Errand
  | .ok () => .upload (u.advance codec.limits.chunkSize.toNat) .streaming
  | .error error => .upload u (.refused error)

theorem World.Mirrors.writesChunk (h : w.Mirrors i codec e) {u : Upload}
    (herrand : e.errands[k]? = some (.upload u .streaming)) (hk : e.Holds k u.ticket)
    {place : ChunkPlace} {piece bytes : List UInt8}
    (hneed : u.need codec.limits.chunkSize.toNat = .write place piece)
    (hbytes : codec.encodeChunk (w.nonces u.index) place piece = .ok bytes) :
    ∃ tear, let e' := (e.step codec (.write k w.supply tear)).run codec e.closing
      (w.writeBytes i bytes 1).1.Mirrors i codec e' ∧ e'.Holds k u.ticket ∧
        e'.errands[k]? = some (uploadOf codec u (w.writeBytes i bytes 1).2) := by
  obtain ⟨tear,hresult,hmirrors⟩ := h.writeBytes bytes 1 [⟨place,w.nonces u.index,piece⟩]
  have hstays := (e.puts_put bytes [⟨place,w.nonces u.index,piece⟩] tear).stays
  have hwrite : e.step codec (.write k w.supply tear) =
      (e.put bytes [⟨place,w.nonces u.index,piece⟩] tear).1.setErrand k
        (uploadOf codec u (e.put bytes [⟨place,w.nonces u.index,piece⟩] tear).2) := by
    simp only [Endpoint.step,Endpoint.write,herrand,hneed,World.supply,hbytes]
    rcases e.put bytes [⟨place,w.nonces u.index,piece⟩] tear with ⟨e₁,_ | ⟨⟩⟩ <;> rfl
  refine ⟨tear,?_⟩
  rw [hresult,hwrite]
  exact hmirrors.written hstays hk (List.getElem?_eq_some_iff.mp herrand).1 _

theorem forget_upload {u : Upload} {error : LinkError}
    (h : e.errands[k]? = some (.upload u (.refused error))) : e.step codec (.forget k) = e.release k := by
  simp [Endpoint.step,Endpoint.forget,h]

theorem forget_stopped {u : Upload} (h : e.errands[k]? = some (.upload u .stopped)) :
    e.step codec (.forget k) = e.release k := by
  simp [Endpoint.step,Endpoint.forget,h]

theorem World.Mirrors.abort (h : w.Mirrors i codec e) {u : Upload}
    (herrand : e.errands[k]? = some (.upload u .streaming)) (hk : e.Holds k u.ticket) (reason : String) :
    let e' := ((e.abort k u reason).run codec e.closing).step codec (.forget k)
    (Sending.abort w i u reason).1.Mirrors i codec e' ∧
      e'.errands[k]? = some (.upload u (.refused (.protocol (.described reason)))) := by
  have hclosed : (w.closeLink i reason).Mirrors i codec
      (({ e with session := e.session.step (.close reason) } : Endpoint).run codec e.closing) :=
    h.closeLink rfl (fun hr => ⟨hr,rfl⟩) rfl
  obtain ⟨hmirrors,hkept,hstage⟩ := hclosed.written (e := e) ⟨rfl,rfl,rfl,rfl⟩ hk
    (List.getElem?_eq_some_iff.mp herrand).1 (.upload u (.refused (.protocol (.described reason))))
  intro e'
  have hforget : e' = ((e.abort k u reason).run codec e.closing).release k := forget_upload hstage
  rw [hforget]
  exact ⟨hmirrors.releaseTicket hkept,hstage⟩

/-- An upload under way is request number `k`. -/
def Streams (k : Nat) (e : Endpoint) (u : Upload) : Prop :=
  e.errands[k]? = some (.upload u .streaming) ∧ e.Holds k u.ticket

/-- Where an upload stands after the world has worked on it. -/
def SendingStands (k : Nat) (e : Endpoint) : Except LinkError Upload → Prop
  | .ok u => Streams k e u
  | .error error => ∃ u, e.errands[k]? = some (.upload u (.refused error))

def Works (codec : Codec) (k : Nat) (e e' : Endpoint) : Prop :=
  ∃ events, (∀ a ∈ events, OfUpload k a) ∧ e' = e.run codec events

theorem Works.refl (codec : Codec) (k : Nat) (e : Endpoint) : Works codec k e e :=
  ⟨[],fun _ ha => absurd ha List.not_mem_nil,rfl⟩

theorem Works.trans {e e' e'' : Endpoint} (h : Works codec k e e') (h' : Works codec k e' e'') :
    Works codec k e e'' := by
  obtain ⟨events,hevents,rfl⟩ := h
  obtain ⟨events',hevents',rfl⟩ := h'
  refine ⟨events ++ events',fun a ha => ?_,(Endpoint.run_append codec e events events').symm⟩
  exact (List.mem_append.mp ha).elim (hevents a) (hevents' a)

theorem works_move {m : Endpoint.Move} (hm : OfUpload k (.move m)) :
    Works codec k e (e.step codec m) :=
  ⟨[.move m],by simpa using hm,rfl⟩

theorem works_closing (e e' : Endpoint) : Works codec k e' (e'.run codec e.closing) :=
  ⟨e.closing,ofUpload_closing e k,rfl⟩

/-- What cannot be read takes the link with it. -/
theorem World.Mirrors.breaksOff (h : w.Mirrors i codec e) {u : Upload} (hu : Streams k e u)
    (got : Except IoFault (List UInt8)) {reason : String}
    (hfill : e.step codec (.fill k got) = e.abort k u reason) : ∃ e', Works codec k e e' ∧
      (Sending.abort w i u reason).1.Mirrors i codec e' ∧
        SendingStands k e' (Sending.abort w i u reason).2 := by
  obtain ⟨hmirrors,hstage⟩ := h.abort hu.1 hu.2 reason
  refine ⟨_,?_,hmirrors,u,hstage⟩
  rw [← hfill]
  exact ((works_move (m := .fill k got) rfl).trans (works_closing e _)).trans
    (works_move (m := .forget k) rfl)

theorem World.Mirrors.fills (h : w.Mirrors i codec e) {u : Upload} (hu : Streams k e u) {most : Nat}
    (hneed : u.need codec.limits.chunkSize.toNat = .read most) (byte : UInt8) (rest : List UInt8) :
    ∃ e', Works codec k e e' ∧ w.Mirrors i codec e' ∧ Streams k e' (u.gain ((byte :: rest).take most)) := by
  have hfill : e.step codec (.fill k (.ok (byte :: rest))) =
      e.setErrand k (.upload (u.gain ((byte :: rest).take most)) .streaming) := by
    simp [Endpoint.step,Endpoint.fill,hu.1,hneed]
  refine ⟨_,works_move (m := .fill k (.ok (byte :: rest))) rfl,?_⟩
  rw [hfill]
  exact ⟨h.retold rfl rfl rfl rfl rfl,
    by simp [Endpoint.setErrand,(List.getElem?_eq_some_iff.mp hu.1).1],hu.2.taken,hu.2.kept⟩

/-- A chunk that cannot be encoded ends the upload and leaves the link alone. -/
theorem World.Mirrors.turnsAway (h : w.Mirrors i codec e) {u : Upload} (hu : Streams k e u)
    {place : ChunkPlace} {piece : List UInt8} {error : LinkError}
    (hneed : u.need codec.limits.chunkSize.toNat = .write place piece)
    (hbytes : codec.encodeChunk (w.nonces u.index) place piece = .error error) :
    ∃ e', Works codec k e e' ∧ (w.releaseTicket i u.ticket).Mirrors i codec e' ∧
      SendingStands k e' (.error error) := by
  have hwrite : e.step codec (.write k w.supply none) = e.setErrand k (.upload u (.refused error)) := by
    simp only [Endpoint.step,Endpoint.write,hu.1,hneed,World.supply,hbytes]
  have hstage : (e.setErrand k (.upload u (.refused error))).errands[k]? =
      some (.upload u (.refused error)) := by
    simp [Endpoint.setErrand,(List.getElem?_eq_some_iff.mp hu.1).1]
  refine ⟨_,?_,h.concludes hu.2 (.upload u (.refused error)),u,hstage⟩
  rw [← @forget_upload k codec _ _ _ hstage,← hwrite]
  exact (works_move (m := .write k w.supply none) rfl).trans (works_move (m := .forget k) rfl)

/-- Reading and writing until every chunk is out, as far as it comes. -/
theorem World.Mirrors.streams (h : w.Mirrors i codec e) {u : Upload} (hu : Streams k e u)
    (content : Option (List UInt8)) (fuel : Nat) : ∃ e', Works codec k e e' ∧
      (Sending.stream w i codec u content fuel).1.Mirrors i codec e' ∧
        SendingStands k e' (Sending.stream w i codec u content fuel).2 := by
  induction fuel generalizing w e u content with
  | zero => exact ⟨e,.refl ..,h,hu⟩
  | succ fuel ih =>
    cases hneed : u.need codec.limits.chunkSize.toNat with
    | reply =>
      simp only [Sending.stream,hneed]
      exact ⟨e,.refl ..,h.countOn ..,hu⟩
    | read most =>
      simp only [Sending.stream,hneed]
      rcases content with _ | (_ | ⟨byte,rest⟩)
      · exact h.breaksOff hu (.error .isDirectory) (by simp [Endpoint.step,Endpoint.fill,hu.1,hneed])
      · exact h.breaksOff hu (.ok []) (by simp [Endpoint.step,Endpoint.fill,hu.1,hneed])
      · obtain ⟨e₁,hfill,hfilled,hgain⟩ := h.fills hu hneed byte rest
        obtain ⟨e',hworks,hmirrors,hstands⟩ := ih hfilled hgain (some ((byte :: rest).drop most))
        simp only [List.splitAt_eq]
        exact ⟨e',hfill.trans hworks,hmirrors,hstands⟩
    | write place piece =>
      simp only [Sending.stream,hneed,h.writeChunk_eq]
      cases hbytes : codec.encodeChunk (w.nonces u.index) place piece with
      | error error => exact h.turnsAway hu hneed hbytes
      | ok bytes =>
        obtain ⟨tear,hmirrors,hkept,hstage⟩ := h.writesChunk hu.1 hu.2 hneed hbytes
        have hworks : Works codec k e ((e.step codec (.write k w.supply tear)).run codec e.closing) :=
          (works_move (m := .write k w.supply tear) rfl).trans (works_closing e _)
        simp only
        generalize (e.step codec (.write k w.supply tear)).run codec e.closing = e₁ at *
        generalize w.writeBytes i bytes 1 = written at *
        rcases written with ⟨w₁,error | ⟨⟩⟩
        · refine ⟨e₁.release k,?_,hmirrors.releaseTicket hkept,u,hstage⟩
          rw [← @forget_upload k codec _ _ _ hstage]
          exact hworks.trans (works_move (m := .forget k) rfl)
        · obtain ⟨e',hlater,hmirrors',hstands⟩ := ih hmirrors ⟨hstage,hkept⟩ content
          exact ⟨e',hworks.trans hlater,hmirrors',hstands⟩

/-! ### How long it takes -/

/-- A bound on the readings and writings that are left of an upload. Two for each chunk, but a chunk may
be more than one reading gives. -/
def stepsLeft (chunkSize : Nat) (u : Upload) : Nat :=
  2 * (u.total.toNat - u.index) + u.remaining / Upload.readMax +
    if u.staged.length < chunkSize ∧ 0 < u.remaining then 1 else 0

theorem stepsLeft_gain {chunkSize most : Nat} {u : Upload} {bytes : List UInt8}
    (hneed : u.need chunkSize = .read most) (hlen : bytes.length = most) :
    stepsLeft chunkSize (u.gain bytes) < stepsLeft chunkSize u := by
  obtain ⟨-,hread,hmost⟩ := Upload.need_eq_read_iff.mp hneed
  rw [show Upload.readMax = 1048576 from rfl] at hmost
  rw [stepsLeft,stepsLeft,if_pos hread,Upload.gain]
  simp only [List.length_append,hlen,show Upload.readMax = 1048576 from rfl]
  split <;> omega

theorem stepsLeft_advance {chunkSize : Nat} {u : Upload} {place : ChunkPlace} {piece : List UInt8}
    (hneed : u.need chunkSize = .write place piece) :
    stepsLeft chunkSize (u.advance chunkSize) < stepsLeft chunkSize u := by
  obtain ⟨hmore,hfull,-,-⟩ := Upload.need_eq_write_iff.mp hneed
  rw [stepsLeft,stepsLeft,if_neg hfull,Upload.advance]
  simp only [List.length_drop]
  split <;> omega

/-- With more runs than `stepsLeft` says all chunks are out, if nothing is in the way. -/
theorem need_of_stream_ok {u u' : Upload} {content : Option (List UInt8)} {fuel : Nat}
    (hfuel : stepsLeft codec.limits.chunkSize.toNat u < fuel)
    (hcontent : ∀ bytes, content = some bytes → bytes.length = u.remaining)
    (h : (Sending.stream w i codec u content fuel).2 = .ok u') :
    u'.need codec.limits.chunkSize.toNat = .reply := by
  induction fuel generalizing w u content with
  | zero => exact absurd hfuel (Nat.not_lt_zero _)
  | succ fuel ih =>
    cases hneed : u.need codec.limits.chunkSize.toNat with
    | reply =>
      simp only [Sending.stream,hneed,Except.ok.injEq] at h
      exact h ▸ hneed
    | read most =>
      simp only [Sending.stream,hneed] at h
      rcases content with _ | (_ | ⟨byte,rest⟩)
      · simp [Sending.abort] at h
      · simp [Sending.abort] at h
      · have hlen := hcontent _ rfl
        have hmost : most ≤ u.remaining :=
          (Upload.need_eq_read_iff.mp hneed).2.2 ▸ Nat.min_le_right ..
        have hgot : ((byte :: rest).take most).length = most := by
          rw [List.length_take,hlen,Nat.min_eq_left hmost]
        simp only [List.splitAt_eq] at h
        refine ih ?_ ?_ h
        · have := stepsLeft_gain hneed hgot
          omega
        · intro bytes hbytes
          rw [← Option.some.inj hbytes,List.length_drop,hlen]
          simp [Upload.gain,hgot]
    | write place piece =>
      simp only [Sending.stream,hneed] at h
      split at h
      · simp at h
      · refine ih ?_ ?_ h
        · have := stepsLeft_advance hneed
          omega
        · exact fun bytes hbytes => hcontent bytes hbytes

/-! ### From the file to the digest -/

theorem stepsLeft_start (chunkSize : Nat) (path name : String) (ticket : Ticket) (length : Nat)
    (total : UInt16) (size : Nat) : stepsLeft chunkSize (.start path name ticket length total size) <
      3 * total.toNat + size / Upload.readMax + 3 := by
  show 2 * (total.toNat - 0) + size / Upload.readMax +
    (if (FileBody.head name).length < chunkSize ∧ 0 < size then 1 else 0) < _
  split <;> omega

/-- An upload that has its ticket is request number `k`. -/
def Starts (codec : Codec) (k : Nat) (e : Endpoint) (u : Upload) : Prop :=
  e.errands[k]? = some (.upload u (.first codec.limits u.name)) ∧ e.Holds k u.ticket

theorem World.Mirrors.opensUpload (h : w.Mirrors i codec e) (hm : e.Matched)
    (hready : e.session.link.ensureReady = .ok ()) (shown : String) {name : String} {size length : Nat}
    {total : UInt16} (hmeasure : Upload.measure codec.limits name size = .ok (length,total)) :
    (∃ error, w.openRequest i .file false = (w,.error error)) ∨
      ∃ w' ticket, w.openRequest i .file false = (w',.ok ticket) ∧
        w'.Mirrors i codec (e.step codec (.upload shown name size)) ∧
        Starts codec e.errands.length (e.step codec (.upload shown name size))
          (.start shown name ticket length total size) := by
  have hask : e.step codec (.upload shown name size) = e.ask false .file fun ticket =>
      .upload (.start shown name ticket length total size) (.first codec.limits name) := by
    simp [Endpoint.step,Endpoint.upload,hmeasure,Endpoint.begin,hready,Endpoint.ask]
  rw [hask]
  rcases h.openRequest .file false fun ticket =>
      .upload (.start shown name ticket length total size) (.first codec.limits name) with
    ⟨error,hopen,-⟩ | ⟨w',ticket,hopen,hmirrors,hasked⟩
  · exact .inl ⟨error,hopen⟩
  · obtain ⟨hholds,herrand⟩ := hasked.holds hm
    exact .inr ⟨w',ticket,hopen,hmirrors,herrand,hholds⟩

/-- An upload begins as an upload of the endpoint, if it begins at all. -/
theorem World.Mirrors.prepares (h : w.Mirrors i codec e) (hm : e.Matched) (path : String) :
    (∃ error, Sending.prepare w i codec path = (w,.error error)) ∨
      ∃ shown name size w' u content, Sending.prepare w i codec path = (w',.ok (u,content)) ∧
        w'.Mirrors i codec (e.step codec (.upload shown name size)) ∧
        Starts codec e.errands.length (e.step codec (.upload shown name size)) u ∧
        (∀ bytes, content = some bytes → bytes.length = u.remaining) ∧
        stepsLeft codec.limits.chunkSize.toNat u <
          3 * u.total.toNat + u.size / Upload.readMax + 3 := by
  simp only [Sending.prepare,h.link]
  rcases hready : e.session.link.ensureReady with error | ⟨⟩
  · exact .inl ⟨error,rfl⟩
  rcases hname : Upload.nameOf (Path.join Sending.root path) with error | name
  · exact .inl ⟨error,rfl⟩
  rcases w.disk.read path.toList with fault | node
  · exact .inl ⟨.io fault,rfl⟩
  cases node with
  | file content =>
    rcases hmeasure : Upload.measure codec.limits name content.length with error | ⟨length,total⟩
    · exact .inl ⟨error,by simp [Bind.bind,Except.bind,Except.mapError,hmeasure]⟩
    · rcases h.opensUpload hm hready (Path.join Sending.root path) hmeasure with
        ⟨error,hopen⟩ | ⟨w',ticket,hopen,hmirrors,hstarts⟩
      · exact .inl ⟨error,by simp [Bind.bind,Except.bind,Except.mapError,hmeasure,hopen]⟩
      · refine .inr ⟨_,name,_,w',_,some content,?_,hmirrors,hstarts,?_,stepsLeft_start ..⟩
        · simp [Bind.bind,Except.bind,Except.mapError,hmeasure,hopen]
        · exact fun bytes hbytes => congrArg List.length (Option.some.inj hbytes).symm
  | directory =>
    rcases hmeasure : Upload.measure codec.limits name Sending.directorySize with error | ⟨length,total⟩
    · exact .inl ⟨error,by simp [Bind.bind,Except.bind,Except.mapError,hmeasure]⟩
    · rcases h.opensUpload hm hready (Path.join Sending.root path) hmeasure with
        ⟨error,hopen⟩ | ⟨w',ticket,hopen,hmirrors,hstarts⟩
      · exact .inl ⟨error,by simp [Bind.bind,Except.bind,Except.mapError,hmeasure,hopen]⟩
      · refine .inr ⟨_,name,_,w',_,none,?_,hmirrors,hstarts,?_,stepsLeft_start ..⟩
        · simp [Bind.bind,Except.bind,Except.mapError,hmeasure,hopen]
        · simp

/-- Where an upload stands, the endpoint's stands: all chunks are out and it waits for the digest, or it
has come to the same result or crashed. -/
def Sending.Stands (i k : Nat) (codec : Codec) (e : Endpoint) : Turn Sending Sent → Prop
  | .waits (.fresh ..) => False
  | .waits (.inFlight link u) => link = i ∧ Streams k e u ∧ u.need codec.limits.chunkSize.toNat = .reply
  | .ends (.result result) => ∃ u stage, e.errands[k]? = some (.upload u stage) ∧
    (stage = .ended result ∨ ∃ error, result = .error error ∧ stage = .refused error)
  | .ends .crashed => ∃ u, e.errands[k]? = some (.upload u .stopped)

/-- An upload of the world is refused at once, or it is the next request of the endpoint, all of whose
chunks go out in this run if nothing is in the way. -/
theorem World.Mirrors.sends (h : w.Mirrors i codec e) (hm : e.Matched) (path : String) :
    (∃ error, Sending.begin w i path = (w,.ends (.result (.error error)))) ∨
      ∃ shown name size e', Works codec e.errands.length (e.step codec (.upload shown name size)) e' ∧
        (Sending.begin w i path).1.Mirrors i codec e' ∧
        Sending.Stands i e.errands.length codec e' (Sending.begin w i path).2 := by
  obtain ⟨s,hs,hmirrors⟩ := h.stream
  simp only [Sending.begin,hs,Option.map_some,hmirrors.codec]
  rcases h.prepares hm path with
    ⟨error,hprepare⟩ | ⟨shown,name,size,w',u,content,hprepare,hopened,⟨herrand,hk⟩,hcontent,hfuel⟩
  · exact .inl ⟨error,by rw [hprepare]⟩
  rw [hprepare]
  refine .inr ⟨shown,name,size,?_⟩
  dsimp only
  rcases hroom : Upload.reserve codec.limits u.name with panic | room
  · rw [UploadStage.first,hroom] at herrand
    refine ⟨_,works_move (m := .forget e.errands.length) rfl,?_⟩
    rw [forget_stopped herrand]
    exact ⟨hopened.releaseTicket hk,u,herrand⟩
  · rw [UploadStage.first,hroom] at herrand
    obtain ⟨e',hworks,hdone,hstands⟩ := hopened.streams ⟨herrand,hk⟩ content
      (3 * u.total.toNat + u.size / Upload.readMax + 3)
    have hreply := @need_of_stream_ok w' i codec u
    refine ⟨e',hworks,?_⟩
    dsimp only
    rcases hstream : Sending.stream w' i codec u content (3 * u.total.toNat + u.size / Upload.readMax + 3)
      with ⟨w'',error | u'⟩
    · rw [hstream] at hdone hstands
      obtain ⟨u',hu'⟩ := hstands
      exact ⟨hdone,u',_,hu',.inr ⟨error,rfl,rfl⟩⟩
    · rw [hstream] at hdone hstands
      exact ⟨hdone,rfl,hstands,hreply hfuel hcontent (by rw [hstream])⟩

theorem World.Mirrors.awaitsDigest (h : w.Mirrors i codec e) {u : Upload}
    (hu : Sending.Stands i k codec e (.waits (.inFlight i u))) : ∃ events ∈ endings k,
      ((Sending.inFlight i u).run w).1.Mirrors i codec (e.run codec events) ∧
        Sending.Stands i k codec (e.run codec events) ((Sending.inFlight i u).run w).2 := by
  obtain ⟨-,⟨herrand,hk⟩,hneed⟩ := hu
  simp only [Sending.run,h.link,Option.bind_some]
  cases ho : e.session.link.outcome? u.ticket with
  | none => exact ⟨[],by simp [endings],h,rfl,⟨herrand,hk⟩,hneed⟩
  | some outcome =>
    refine ⟨[.move (.collect k)],by simp [endings],?_⟩
    have hcollect : e.run codec [.move (.collect k)] =
        (e.setErrand k (.upload u (.ended (u.finish outcome)))).release k := by
      simp [Endpoint.after,Endpoint.step,Endpoint.collect,herrand,hneed,ho]
    rw [hcollect]
    exact ⟨h.concludes hk _,u,.ended (u.finish outcome),
      by simp [Endpoint.release,Endpoint.setErrand,(List.getElem?_eq_some_iff.mp herrand).1],.inl rfl⟩

end Tether.Cluster
