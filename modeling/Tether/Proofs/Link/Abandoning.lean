import Tether.Proofs.Link.Going
import Tether.Proofs.Link.Lifecycle
import Tether.Proofs.Link.Upholding
import Tether.Proofs.Wire.Appending

/-! What comes of an upload that breaks off before all of its chunks are written. It is refused for the size of
its first chunk, and then nothing of it is on the stream and nothing else has changed; or the link is about to be
closed, by the upload itself or by whatever kept it from writing. A later chunk is never refused for its size,
since no chunk is longer than the first. However an upload ends, its ticket is given back. -/
namespace Tether

namespace Session

variable {first : UInt32} {s : Session} {i : Nat}

/-- Closing has begun, and it comes to its end. A call that has taken a step has found a reason or left its own;
the steps of one call are enough to disconnect the link; and when all calls are over, one of them has closed it. -/
structure Closing (s : Session) : Prop where
  called : s.closes ≠ []
  reason : ∀ call ∈ s.closes, call.stage ≠ .called → s.link.closeReason.isSome = true
  ends : ∃ k n, (s.run (List.replicate n (.proceed k))).link.phase = .disconnected
  settled : (∀ call ∈ s.closes, call.Over) → ∃ call ∈ s.closes, call.stage = .finished
  closed : (∃ call ∈ s.closes, call.stage = .finished) →
    s.link.phase = .disconnected ∧ s.link.halted = true ∧ s.link.pending.entries = []

theorem Owned.exists_run_disconnected (ho : s.Owned) (hcalled : s.closes ≠ []) :
    ∃ k n, (s.run (List.replicate n (.proceed k))).link.phase = .disconnected := by
  cases hr : s.link.closeReason with
  | some reason =>
    obtain ⟨k,owner,-,-,-,hends⟩ := ho.exists_owner (by simp [hr])
    exact ⟨k,_,hends⟩
  | none =>
    obtain ⟨⟨reason,stage⟩,rest,hcloses⟩ := List.exists_cons_of_ne_nil hcalled
    have hk : s.closes[0]? = some ⟨reason,stage⟩ := by simp [hcloses]
    obtain rfl : stage = .called := by
      by_contra hmoved
      have hsome := ho.closeReason_of_moved (List.mem_of_getElem? hk) hmoved
      simp [hr] at hsome
    have hfirst : (s.step (.proceed 0)).closes[0]? = some ⟨reason,.recorded⟩ := by
      have hlen := (List.getElem?_eq_some_iff.mp hk).1
      simp only [Session.step,hk,Session.proceed,Connection.recordReason,hr,mark]
      exact List.getElem?_set_self hlen
    exact ⟨0,4,(ho.run _).disconnected_of_finished
      (closes_run_proceed (n := 3) hfirst (by decide) (by decide))⟩

theorem closing_of_called (hs : s.Staged) (ho : s.Owned) (hcalled : s.closes ≠ []) : s.Closing where
  called := hcalled
  reason := fun _ hc hmoved => ho.closeReason_of_moved hc hmoved
  ends := ho.exists_run_disconnected hcalled
  settled := by
    intro hall
    obtain ⟨call,hc⟩ := List.exists_mem_of_ne_nil _ hcalled
    have hmoved : call.stage ≠ .called := by
      rcases hall call hc with h | h <;> simp [h]
    obtain ⟨k,owner,hk,-,-,hrank,-⟩ := ho.exists_closer (ho.closeReason_of_moved hc hmoved)
    have hmem := List.mem_of_getElem? hk
    refine ⟨owner,hmem,(hall owner hmem).resolve_right fun hlate => ?_⟩
    simp [hlate,CloseStage.rank] at hrank
  closed := by
    rintro ⟨⟨reason,stage⟩,hc,rfl⟩
    obtain ⟨k,hk⟩ := List.getElem?_of_mem hc
    have hgone := ho.disconnected_of_finished hk
    obtain ⟨r,hr⟩ := Option.isSome_iff_exists.mp (hs.phase hgone)
    exact ⟨hgone,(hs.table r hr).2⟩

theorem released_mono (s : Session) (a : Act) (h : i ∈ s.released) : i ∈ (s.step a).released := by
  cases a with
  | release k =>
    simp only [step,release]
    split
    · exact h
    · split
      · exact h
      · exact List.mem_append_left _ h
  | _ => rwa [released_step (by simp)]

theorem released_run (acts : List Act) (h : i ∈ s.released) : i ∈ (s.run acts).released := by
  induction acts generalizing s with
  | nil => exact h
  | cons a acts ih => exact ih (s.released_mono a h)

theorem mem_released_release (h : i < s.tickets.length) : i ∈ (s.step (.release i)).released := by
  simp only [step,release,List.getElem?_eq_getElem h]
  split
  · assumption
  · exact List.mem_append_right _ (List.mem_singleton.mpr rfl)

theorem Orderly.id_ne_of_released (h : s.Orderly first) (hfew : s.tickets.length < 2^32)
    (hr : i ∈ s.released) {entry : PendingEntry} (he : entry ∈ s.link.pending.entries) :
    entry.id ≠ (ticketAt first i).counter := by
  have hi := h.released i hr
  intro hid
  have hslot := (h.id_eq_iff hfew he (Nat.lt_trans hi hfew)).mp hid
  cases h.fate i hi with
  | waiting _ _ hkept => exact hkept hr
  | answered _ _ _ hkept => exact hkept hr
  | left _ hnone => exact hnone ⟨entry,he,hslot⟩

end Session

namespace Upload

variable {codec : Codec} {u : Upload} {said : List Chunk}

/-- How far an upload is, in view of what stands on the stream under its counter: what is left of it is what the
chunks so far have not held, and a frame takes a whole chunk once one of several has been written. -/
structure Paced (codec : Codec) (u : Upload) (said : List Chunk) : Prop where
  fresh : u.index = 0 → said = []
  needed : u.total.toNat = codec.limits.needed u.messageLength.toNat
  left : u.staged.length + u.remaining = u.messageLength.toNat - codec.limits.chunkSize.toNat*u.index
  fits : 0 < u.index → u.index < u.total.toNat →
    codec.limits.chunkSize.toNat + codec.overhead ≤ codec.limits.framePayload.toNat

theorem paced_start {path name : String} {size length : Nat} {total : UInt16} (ticket : Ticket)
    (h : measure codec.limits name size = .ok (length,total)) :
    (start path name ticket length total size).Paced codec [] := by
  obtain ⟨rfl,hc⟩ := measure_eq_ok_iff.mp h
  have hword : (UInt32.ofNat (2 + name.utf8ByteSize + size)).toNat = 2 + name.utf8ByteSize + size :=
    UInt32.toNat_ofNat_of_lt (Nat.lt_of_le_of_lt (Limits.length_le_wordMax hc) (by decide))
  refine ⟨fun _ => rfl,?_,?_,fun hpos => absurd hpos (Nat.lt_irrefl 0)⟩
  · simp only [start,hword]
    exact Limits.toNat_chunkCount hc
  · simp only [start,hword,FileBody.length_head,Nat.mul_zero,Nat.sub_zero]

theorem Paced.gain (h : u.Paced codec said) {chunkSize most : Nat} {bytes : List UInt8}
    (hneed : u.need chunkSize = .read most) (hle : bytes.length ≤ most) : (u.gain bytes).Paced codec said := by
  obtain ⟨-,-,hmost⟩ := need_eq_read_iff.mp hneed
  refine ⟨h.fresh,h.needed,?_,h.fits⟩
  have hleft := h.left
  simp only [Upload.gain,List.length_append]
  omega

/-- A chunk that is not the last one is a whole one. -/
theorem Paced.chunk (h : u.Paced codec said) (hs : codec.Sound) {place : ChunkPlace}
    {piece nonce : List UInt8} (hneed : u.need codec.limits.chunkSize.toNat = .write place piece)
    (hsend : (⟨place,nonce,piece⟩ : Chunk).Sendable codec) :
    (u.advance codec.limits.chunkSize.toNat).Paced codec (said ++ [⟨place,nonce,piece⟩]) := by
  obtain ⟨hlt,hfull,rfl,rfl⟩ := need_eq_write_iff.mp hneed
  have hleft := h.left
  refine ⟨fun hzero => absurd hzero (Nat.succ_ne_zero u.index),h.needed,?_,fun _ hmore => ?_⟩
  · simp only [Upload.advance,List.length_drop,Nat.mul_succ]
    omega
  · have hmore' : u.index + 1 < codec.limits.needed u.messageLength.toNat := h.needed ▸ hmore
    have hchunk : 1 ≤ codec.limits.chunkSize.toNat := by
      by_contra hzero
      have hnone : codec.limits.needed u.messageLength.toNat ≤ 1 := by
        unfold Limits.needed
        split
        · exact Nat.le_refl 1
        · simp [show codec.limits.chunkSize.toNat = 0 by omega]
      omega
    have hlength : u.messageLength.toNat ≠ 0 := by
      intro hzero
      simp [Limits.needed,hzero] at hmore'
    have hbegins := Limits.mul_lt_of_lt_needed hchunk hlength hmore'
    rw [Nat.mul_succ] at hbegins
    have hfits := hsend.fits
    rw [Chunk.Fits,Chunk.bodyLength,Codec.length_body hs _ _ hsend.nonce,List.length_take,
      Nat.min_eq_left (by omega)] at hfits
    exact hfits

theorem Paced.index_eq_zero (h : u.Paced codec said) (hs : codec.Sound) {place : ChunkPlace}
    {piece nonce : List UInt8} {error : LinkError}
    (hneed : u.need codec.limits.chunkSize.toNat = .write place piece)
    (hnonce : nonce.length = Gcm.nonceSize) (herror : codec.encodeChunk nonce place piece = .error error) :
    u.index = 0 := by
  obtain ⟨hlt,-,-,rfl⟩ := need_eq_write_iff.mp hneed
  by_contra hbegun
  have hroom := h.fits (Nat.pos_of_ne_zero hbegun) hlt
  have hfits : (⟨place,nonce,u.staged.take codec.limits.chunkSize.toNat⟩ : Chunk).Fits codec := by
    rw [Chunk.Fits,Chunk.bodyLength,Codec.length_body hs _ _ hnonce]
    exact (Nat.add_le_add_right (List.length_take_le ..) _).trans hroom
  have hok := codec.encodeChunk_eq_ok _ hfits
  rw [herror] at hok
  simp at hok

end Upload

def Errand.Paced (codec : Codec) (said : List Chunk) : Errand → Prop
  | .upload u .streaming => u.Paced codec said
  | _ => True

/-- The upload has come to its end or was left, and was not refused. -/
def UploadStage.Done : UploadStage → Prop
  | .ended _ | .left => True
  | _ => False

theorem UploadStage.not_done_first (limits : Limits) (name : String) : ¬ (first limits name).Done := by
  rcases first_cases limits name with hfirst | hfirst <;> rw [hfirst] <;> exact id

namespace Endpoint

variable {codec : Codec} {first : UInt32} {move : Move} {e e' : Endpoint} {i : Nat} {u : Upload}

theorem Advance.paced {x y : Errand} {chunks said : List Chunk} (h : Advance codec e x y chunks)
    (hs : codec.Sound) (hsend : ∀ c ∈ chunks, c.Sendable codec) (hx : x.Paced codec said) :
    y.Paced codec (said ++ chunks) := by
  cases h with
  | chunk u u' stage place nonce piece hneed hu =>
    rcases hu with ⟨error,rfl,rfl⟩ | ⟨rfl,rfl⟩
    · trivial
    · exact Upload.Paced.chunk hx hs hneed (hsend _ List.mem_cons_self)
  | gain u most bytes hneed hle =>
    rw [List.append_nil]
    exact Upload.Paced.gain hx hneed hle
  | conclude u stage =>
    rw [List.append_nil]
    cases stage with
    | streaming => exact hx
    | _ => trivial
  | _ => trivial

/-! ### What a move makes of an upload -/

/-- Why an upload breaks off with a chunk still to write: the chunk is too long for a frame, the link takes no
write, the write is torn, the file has become shorter or cannot be read. In the last three cases the upload
closes the link. -/
inductive Breaks (codec : Codec) (e : Endpoint) (i : Nat) (u : Upload) (e' : Endpoint) : LinkError → Prop
  | unfit (nonces : NonceSupply) (place : ChunkPlace) (piece : List UInt8) (error : LinkError) :
    u.need codec.limits.chunkSize.toNat = .write place piece →
    codec.encodeChunk (nonces.1 u.index) place piece = .error error →
    e' = e.setErrand i (.upload u (.refused error)) → Breaks codec e i u e' error
  | shutOut (place : ChunkPlace) (piece : List UInt8) :
    u.need codec.limits.chunkSize.toNat = .write place piece → ¬ e.Open →
    e' = e.setErrand i (.upload u (.refused e.session.link.lostError)) →
    Breaks codec e i u e' e.session.link.lostError
  | torn (place : ChunkPlace) (piece : List UInt8) (fault : IoFault) :
    u.need codec.limits.chunkSize.toNat = .write place piece →
    e'.session = e.session.step (.close (tornReason fault)) →
    Breaks codec e i u e' (.lost (tornReason fault))
  | shrank (most : Nat) : u.need codec.limits.chunkSize.toNat = .read most →
    e'.session = e.session.step (.close u.shrank) →
    Breaks codec e i u e' (.protocol (.described u.shrank))
  | unreadable (most : Nat) (fault : IoFault) : u.need codec.limits.chunkSize.toNat = .read most →
    e'.session = e.session.step (.close (u.unreadable fault)) →
    Breaks codec e i u e' (.protocol (.described (u.unreadable fault)))

/-- What a move makes of an upload that is under way. -/
inductive Alters (codec : Codec) (e : Endpoint) (i : Nat) (u : Upload) (e' : Endpoint) :
    Upload → UploadStage → Prop
  | goes (u' : Upload) : Alters codec e i u e' u' .streaming
  | breaks (error : LinkError) : Breaks codec e i u e' error → Alters codec e i u e' u (.refused error)
  | done (stage : UploadStage) : stage.Done → e' = (e.setErrand i (.upload u stage)).release i →
    Alters codec e i u e' u stage

theorem alters_write (hx : e.errands[i]? = some (.upload u .streaming)) (nonces : NonceSupply)
    (tear : Option Tear) :
    ∃ u' stage, (e.write codec i nonces tear).errands[i]? = some (.upload u' stage) ∧
      Alters codec e i u (e.write codec i nonces tear) u' stage := by
  have hi := (List.getElem?_eq_some_iff.mp hx).1
  cases hneed : u.need codec.limits.chunkSize.toNat with
  | write place piece =>
    simp only [write,hx,hneed]
    cases hencode : codec.encodeChunk (nonces.1 u.index) place piece with
    | error error =>
      exact ⟨u,_,e.getElem?_setErrand hi _,.breaks error (.unfit nonces place piece error hneed hencode rfl)⟩
    | ok bytes =>
      simp only [put]
      by_cases hshut : (e.session.link.halted || !e.writable) = true
      · simp only [if_pos hshut]
        exact ⟨u,_,e.getElem?_setErrand hi _,.breaks _ (.shutOut place piece hneed
          (fun ho => by simp [ho.1,ho.2] at hshut) rfl)⟩
      · simp only [if_neg hshut]
        have hset := (e.extend bytes [⟨place,nonces.1 u.index,piece⟩] tear).getElem?_setErrand
          (by rwa [errands_extend])
        rcases tear with _ | ⟨kept,fault⟩
        · exact ⟨_,_,hset _,.goes _⟩
        · exact ⟨u,_,hset _,.breaks _ (.torn place piece fault hneed rfl)⟩
  | _ =>
    simp only [write,hx,hneed]
    exact ⟨u,_,rfl,.goes u⟩

theorem alters_fill (hx : e.errands[i]? = some (.upload u .streaming)) (got : Except IoFault (List UInt8)) :
    ∃ u' stage, (e.fill codec i got).errands[i]? = some (.upload u' stage) ∧
      Alters codec e i u (e.fill codec i got) u' stage := by
  have hi := (List.getElem?_eq_some_iff.mp hx).1
  have hset := e.getElem?_setErrand hi
  cases hneed : u.need codec.limits.chunkSize.toNat with
  | read most =>
    simp only [fill,hx,hneed]
    rcases got with fault | (_ | ⟨byte,rest⟩)
    · exact ⟨u,_,hset _,.breaks _ (.unreadable most fault hneed rfl)⟩
    · exact ⟨u,_,hset _,.breaks _ (.shrank most hneed rfl)⟩
    · exact ⟨_,_,hset _,.goes _⟩
  | _ =>
    simp only [fill,hx,hneed]
    exact ⟨u,_,rfl,.goes u⟩

/-- An upload after any move. -/
theorem exists_alters (codec : Codec) (hx : e.errands[i]? = some (.upload u .streaming)) (move : Move) :
    ∃ u' stage, (e.step codec move).errands[i]? = some (.upload u' stage) ∧
      Alters codec e i u (e.step codec move) u' stage := by
  have hi := (List.getElem?_eq_some_iff.mp hx).1
  have hset := e.getElem?_setErrand hi
  by_cases hmove : move.errand? = some i
  · cases move with
    | write j nonces tear =>
      obtain rfl := Option.some.inj hmove
      exact alters_write hx nonces tear
    | fill j got =>
      obtain rfl := Option.some.inj hmove
      exact alters_fill hx got
    | forget j =>
      obtain rfl := Option.some.inj hmove
      simp only [step,forget,hx]
      exact ⟨u,_,rfl,.goes u⟩
    | collect j =>
      obtain rfl := Option.some.inj hmove
      simp only [step,collect,hx]
      split
      · exact ⟨u,_,hset _,.done _ trivial rfl⟩
      · exact ⟨u,_,hx,.goes u⟩
    | leave j =>
      obtain rfl := Option.some.inj hmove
      simp only [step,leave,hx]
      exact ⟨u,_,hset _,.done _ trivial rfl⟩
    | _ => simp [Move.errand?] at hmove
  · exact ⟨u,_,(passes_step hi hmove).errand.trans hx,.goes u⟩

/-! ### What holds throughout -/

theorem Living.closing (h : e.Living) (hcalled : e.session.closes ≠ []) (codec : Codec)
    (later : List Event) : (e.run codec later).session.Closing := by
  obtain ⟨acts,hacts⟩ := h.exists_acts codec later
  rw [hacts]
  exact Session.closing_of_called (h.staged.run acts) (h.owned.run acts)
    fun hnone => hcalled (Session.unhalted_run hnone).1

/-- What is kept of an endpoint and of its uploads, however far they are. -/
structure Poised (codec : Codec) (first : UInt32) (e : Endpoint) : Prop where
  living : e.Living
  asking : e.Asking codec first
  lets : e.session.closes = [] → e.Open ∧ e.reading = true
  paced : ∀ (i : Nat) (x : Errand), e.errands[i]? = some x → x.Paced codec (e.said (x.ticket.counter,false))
  done : ∀ (i : Nat) (u : Upload) (stage : UploadStage), e.errands[i]? = some (.upload u stage) → stage.Done →
    i ∈ e.session.released

/-- An upload that is done has given its ticket back. -/
theorem Poised.done_step (h : e.Poised codec first) {stage : UploadStage}
    (hx : (e.step codec move).errands[i]? = some (.upload u stage)) (hdone : stage.Done) :
    i ∈ (e.step codec move).session.released := by
  have hs := @step_cases codec e h.living.bounded move
  obtain ⟨acts,hacts,-⟩ := hs.session
  have hkept : e.errands[i]? = some (.upload u stage) → i ∈ (e.step codec move).session.released :=
    fun hx => hacts ▸ Session.released_run acts (h.done i u stage hx hdone)
  obtain ⟨chunks,-,hasks⟩ := hs.asks
  have hx' := hx
  generalize (e.step codec move).errands = errands at hasks hx'
  cases hasks with
  | same => exact hkept hx'
  | began ticket x hfresh =>
    rcases Nat.lt_or_ge i e.errands.length with hlt | hge
    · exact hkept (by rwa [List.getElem?_append_left hlt] at hx')
    · rw [List.getElem?_append_right hge] at hx'
      obtain rfl := List.mem_singleton.mp (List.mem_of_getElem? hx')
      cases hfresh
      exact (UploadStage.not_done_first _ _ hdone).elim
  | advanced j x y _ hj hgoes =>
    by_cases hji : j = i
    · subst hji
      rw [List.getElem?_set_self (List.getElem?_eq_some_iff.mp hj).1,Option.some.injEq] at hx'
      subst hx'
      cases hgoes with
      | chunk u₀ _ _ place nonce piece _ hu =>
        rcases hu with ⟨error,rfl,rfl⟩ | ⟨rfl,rfl⟩ <;> exact hdone.elim
      | gain => exact hdone.elim
      | conclude =>
        -- the request alone does not tell whether the ticket was given back, but the move does
        obtain ⟨u',stage',hbecomes,halters⟩ := exists_alters codec hj move
        obtain ⟨rfl,rfl⟩ := Errand.upload.inj (Option.some.inj (hx.symm.trans hbecomes))
        cases halters with
        | goes => exact hdone.elim
        | breaks => exact hdone.elim
        | done _ _ hleft =>
          rw [hleft]
          exact Session.mem_released_release (h.asking.ticket hj).1
    · exact hkept (by rwa [List.getElem?_set_ne hji] at hx')

theorem Poised.after (h : e.Poised codec first) (hs : codec.Sound) (ev : Event)
    (hfew : (e.after codec ev).session.tickets.length < 2^32) : (e.after codec ev).Poised codec first := by
  have hliving := h.living.after codec ev
  have hasking := h.asking.after ev hfew
  cases ev with
  | feed bytes => exact ⟨hliving,hasking,h.lets,h.paced,h.done⟩
  | move m =>
    have hstep := @step_cases codec e h.living.bounded m
    obtain ⟨acts,hacts,-⟩ := hstep.session
    have hgrow : e.session.tickets.length ≤ (e.step codec m).session.tickets.length :=
      hacts ▸ (e.session.tickets_run acts).length_le
    refine ⟨hliving,hasking,fun hnone => hstep.stays_open (h.lets (hstep.closes_eq_nil hnone)) hnone,?_,
      fun i u stage hx hdone => h.done_step hx hdone⟩
    refine h.asking.spoken_step (fun said x => x.Paced codec said) hstep hasking
      (Nat.lt_of_le_of_lt hgrow hfew) hfew (fun ticket x hfresh => ?_)
      (fun x y chunks said hgoes hsend hx => hgoes.paced hs hsend hx) h.paced
    cases hfresh with
    | call tag data => trivial
    | upload path name length total size hm =>
      rcases UploadStage.first_cases codec.limits name with hfirst | hfirst <;> rw [hfirst]
      · exact Upload.paced_start ticket hm
      · trivial

theorem Poised.run (h : e.Poised codec first) (hs : codec.Sound) (events : List Event)
    (hfew : (e.run codec events).session.tickets.length < 2^32) : (e.run codec events).Poised codec first := by
  induction events generalizing e with
  | nil => exact h
  | cons ev events ih =>
    obtain ⟨acts,hacts⟩ := (h.living.after codec ev).exists_acts codec events
    have hgrow : (e.after codec ev).session.tickets.length ≤ (e.run codec (ev :: events)).session.tickets.length := by
      rw [run_cons,hacts]
      exact ((e.after codec ev).session.tickets_run acts).length_le
    exact ih (h.after hs ev (Nat.lt_of_le_of_lt hgrow hfew)) hfew

/-- Nothing of the upload is on the stream, and that it was refused is all that has changed: when it is let go of,
nothing of the link or of the other requests is touched. -/
structure Untouched (codec : Codec) (e : Endpoint) (i : Nat) (u : Upload) (error : LinkError)
    (e' : Endpoint) : Prop where
  silent : e.said (u.ticket.counter,false) = []
  refused : e' = e.setErrand i (.upload u (.refused error))
  spares : Spares u.ticket e (e'.step codec (.forget i))

theorem Poised.breaks (h : e.Poised codec first) (hs : codec.Sound)
    (hfew : e.session.tickets.length < 2^32) (hx : e.errands[i]? = some (.upload u .streaming))
    {error : LinkError} (hbreaks : Breaks codec e i u e' error) :
    u.index < u.total.toNat ∧ (Untouched codec e i u error e' ∨ e'.session.closes ≠ []) := by
  have hclosed : ∀ reason, e'.session = e.session.step (.close reason) → e'.session.closes ≠ [] :=
    fun reason hsession => hsession ▸ closes_close_ne_nil e.session reason []
  cases hbreaks with
  | unfit nonces place piece error hneed herror hrefused =>
    have hpaced : u.Paced codec (e.said (u.ticket.counter,false)) := h.paced i _ hx
    have hfirst := hpaced.index_eq_zero hs hneed (nonces.2 u.index) herror
    refine ⟨(Upload.need_eq_write_iff.mp hneed).1,.inl ⟨hpaced.fresh hfirst,hrefused,?_⟩⟩
    rw [hrefused]
    change Spares u.ticket e ((e.setErrand i _).forget i)
    rw [forget_setErrand_refused hx (.inr ⟨u,error,rfl⟩)]
    exact h.asking.spares hfew hx _
  | shutOut place piece hneed hshut hrefused =>
    refine ⟨(Upload.need_eq_write_iff.mp hneed).1,.inr fun hnone => hshut ?_⟩
    rw [hrefused] at hnone
    exact (h.lets hnone).1
  | torn place piece fault hneed hsession =>
    exact ⟨(Upload.need_eq_write_iff.mp hneed).1,.inr (hclosed _ hsession)⟩
  | shrank most hneed hsession => exact ⟨(Upload.need_eq_read_iff.mp hneed).1,.inr (hclosed _ hsession)⟩
  | unreadable most fault hneed hsession =>
    exact ⟨(Upload.need_eq_read_iff.mp hneed).1,.inr (hclosed _ hsession)⟩

end Endpoint
end Tether
