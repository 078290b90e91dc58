import Tether.Proofs.Link.Endpoint
import Tether.Proofs.Transfer.Body

/-! What one step of an endpoint can do, said once. A step leaves the endpoint as it is, or does one
thing to the link, to one request of its own, to the stream that comes in, or to one request of the
peer; what it puts on the outgoing stream are chunks that their receiver can read. -/
namespace Tether

/-- A chunk that the length field of a piece can express, though not always that of its sealed form. -/
structure Chunk.Sendable (codec : Codec) (c : Chunk) : Prop where
  fits : c.Fits codec
  nonce : c.nonce.length = Gcm.nonceSize
  place : c.place.index < c.place.total
  piece : c.piece.length < 2^32

def Chunk.key (c : Chunk) : ChunkKey := (c.place.counter,c.place.response)

/-- What an upload holds and what is left of its file have a length that can be expressed. -/
def Upload.Bounded (u : Upload) : Prop := u.staged.length + u.remaining ≤ Limits.wordMax

def Errand.Bounded : Errand → Prop
  | .call .. => True
  | .upload u _ => u.Bounded

namespace Codec

/-- Chunks in a row, as they travel. -/
def wires (codec : Codec) (cs : List Chunk) : List UInt8 := (cs.map (Chunk.wire codec)).flatten

@[simp] theorem wires_nil (codec : Codec) : codec.wires [] = [] := rfl

@[simp] theorem wires_cons (codec : Codec) (c : Chunk) (cs : List Chunk) :
    codec.wires (c :: cs) = c.wire codec ++ codec.wires cs := rfl

@[simp] theorem wires_append (codec : Codec) (cs cs' : List Chunk) :
    codec.wires (cs ++ cs') = codec.wires cs ++ codec.wires cs' := by
  simp [wires]

variable {codec : Codec}

theorem sendable_of_mem_chunksOf {nonces : NonceSupply} {m : Message}
    (h : (codec.emitMessage nonces.1 m).fault = none) :
    ∀ c ∈ codec.chunksOf nonces.1 m, c.Sendable codec := by
  obtain ⟨total,ht,hfits⟩ := (emitMessage_fault_iff codec nonces.1 m).mp h
  intro c hc
  simp only [chunksOf,ht] at hc
  have hplace := place_of_mem_chunks hc
  have hf := hfits c hc
  obtain ⟨i,piece,-,hmem,rfl⟩ := mem_chunks hc
  have hlen := (length_le_of_mem_cut _ _ _ _ hmem).2
  have hword := Limits.length_le_wordMax ht
  exact ⟨hf,nonces.2 i,hplace,Nat.lt_of_le_of_lt (hlen.trans hword) (by decide)⟩

theorem bytes_emitMessage {nonces : Nonces} {m : Message}
    (h : (codec.emitMessage nonces m).fault = none) :
    (codec.emitMessage nonces m).bytes = codec.wires (codec.chunksOf nonces m) := by
  obtain ⟨total,ht,hfits⟩ := (emitMessage_fault_iff codec nonces m).mp h
  rw [emitMessage_bytes codec nonces m total ht hfits]
  simp [wires,chunksOf,ht]

theorem fault_emit {codec : Codec} {nonces : Nonces} {place : ChunkPlace} {done : Emission}
    {index : Nat} {ps : List (List UInt8)} {error : LinkError} (hdone : done.fault = none)
    (h : (codec.emit nonces place done index ps).fault = some error) :
    ∃ size limit, error = .payloadTooLarge size limit := by
  induction ps generalizing done index with
  | nil => simp [emit,hdone] at h
  | cons piece ps ih =>
    rw [emit] at h
    unfold encodeChunk at h
    by_cases hover : codec.limits.framePayload.toNat < (codec.body (nonces index) piece).length
    · simp only [hover,if_true,Option.some.injEq] at h
      exact ⟨_,_,h.symm⟩
    · simp only [hover,if_false] at h
      exact ih rfl h

theorem fault_emitMessage {codec : Codec} {nonces : Nonces} {m : Message} {error : LinkError}
    (h : (codec.emitMessage nonces m).fault = some error) :
    ∃ size limit, error = .payloadTooLarge size limit := by
  cases hc : codec.limits.chunkCount m.payload.length with
  | error e =>
    have he : error = e := by
      simpa [emitMessage,hc,eq_comm] using h
    rw [Limits.chunkCount_eq] at hc
    by_cases hover : Limits.chunksMax < codec.limits.needed m.payload.length ∨
        Limits.wordMax < m.payload.length
    · rw [if_pos hover] at hc
      exact ⟨_,_,he.trans (Except.error.inj hc).symm⟩
    · rw [if_neg hover] at hc
      simp at hc
  | ok total =>
    rw [emitMessage_eq codec nonces m total hc] at h
    exact fault_emit rfl h

end Codec

namespace Upload

variable {codec : Codec} {u : Upload}

theorem bounded_start {limits : Limits} {path name : String} {size length : Nat} {total : UInt16}
    (ticket : Ticket) (h : measure limits name size = .ok (length,total)) :
    (start path name ticket length total size).Bounded := by
  unfold measure at h
  simp only at h
  split at h
  · simp at h
  · simp only [Bounded,start,FileBody.length_head]
    omega

theorem need_eq_read_iff {chunkSize most : Nat} : u.need chunkSize = .read most ↔
    u.index < u.total.toNat ∧ (u.staged.length < chunkSize ∧ 0 < u.remaining) ∧
      most = min (min (chunkSize - u.staged.length) (min chunkSize readMax)) u.remaining := by
  unfold need
  simp only
  split
  · rename_i hdone
    exact ⟨fun h => by simp at h,fun h => absurd h.1 (Nat.not_lt.mpr hdone)⟩
  · rename_i hmore
    split
    · rename_i hread
      exact ⟨fun h => ⟨Nat.lt_of_not_le hmore,hread,(UploadNeed.read.inj h).symm⟩,fun h => by rw [h.2.2]⟩
    · rename_i hfull
      exact ⟨fun h => by simp at h,fun h => absurd h.2.1 hfull⟩

theorem need_eq_write_iff {chunkSize : Nat} {place : ChunkPlace} {piece : List UInt8} :
    u.need chunkSize = .write place piece ↔
      u.index < u.total.toNat ∧ ¬ (u.staged.length < chunkSize ∧ 0 < u.remaining) ∧
        place = u.place ∧ piece = u.staged.take chunkSize := by
  unfold need
  simp only
  split
  · rename_i hdone
    exact ⟨fun h => by simp at h,fun h => absurd h.1 (Nat.not_lt.mpr hdone)⟩
  · rename_i hmore
    split
    · rename_i hread
      exact ⟨fun h => by simp at h,fun h => absurd hread h.2.1⟩
    · rename_i hfull
      refine ⟨fun h => ?_,fun h => by rw [h.2.2.1,h.2.2.2]⟩
      obtain ⟨rfl,rfl⟩ := UploadNeed.write.inj h
      exact ⟨Nat.lt_of_not_le hmore,hfull,rfl,rfl⟩

theorem Bounded.advance (h : u.Bounded) (chunkSize : Nat) : (u.advance chunkSize).Bounded := by
  simp only [Bounded,Upload.advance,List.length_drop] at h ⊢
  omega

theorem Bounded.gain (h : u.Bounded) {chunkSize most : Nat} {bytes : List UInt8}
    (hneed : u.need chunkSize = .read most) (hle : bytes.length ≤ most) : (u.gain bytes).Bounded := by
  obtain ⟨-,-,hmost⟩ := need_eq_read_iff.mp hneed
  simp only [Bounded,Upload.gain,List.length_append] at h ⊢
  omega

theorem sendable_of_need (u : Upload) (h : u.Bounded) {place : ChunkPlace} {piece nonce : List UInt8}
    (hneed : u.need codec.limits.chunkSize.toNat = .write place piece)
    (hnonce : nonce.length = Gcm.nonceSize) (hfits : (⟨place,nonce,piece⟩ : Chunk).Fits codec) :
    (⟨place,nonce,piece⟩ : Chunk).Sendable codec := by
  obtain ⟨hlt,-,rfl,rfl⟩ := need_eq_write_iff.mp hneed
  have ht := u.total.toNat_lt
  refine ⟨hfits,hnonce,?_,?_⟩
  · have hindex : (UInt16.ofNat u.index).toNat = u.index :=
      UInt16.toNat_ofNat_of_lt (by simp only [UInt16.size]; omega)
    rw [UInt16.lt_iff_toNat_lt]
    exact hindex.symm ▸ hlt
  · have hword : Limits.wordMax < 2^32 := by decide
    simp only [Bounded,List.length_take] at h ⊢
    omega

end Upload

namespace Endpoint

variable {codec : Codec} {e : Endpoint}

section Extend

variable (e : Endpoint) (bytes : List UInt8) (chunks : List Chunk) (tear : Option Tear)

@[simp] theorem errands_extend : (e.extend bytes chunks tear).errands = e.errands := by
  cases tear <;> rfl

@[simp] theorem serves_extend : (e.extend bytes chunks tear).serves = e.serves := by
  cases tear <;> rfl

@[simp] theorem sent_extend : (e.extend bytes chunks tear).sent = e.sent ++ chunks := by
  cases tear <;> rfl

@[simp] theorem routed_extend : (e.extend bytes chunks tear).routed = e.routed := by
  cases tear <;> rfl

@[simp] theorem reading_extend : (e.extend bytes chunks tear).reading = e.reading := by
  cases tear <;> rfl

@[simp] theorem inbound_extend : (e.extend bytes chunks tear).inbound = e.inbound := by
  cases tear <;> rfl

end Extend

theorem getElem?_setErrand {i : Nat} (hi : i < e.errands.length) (x : Errand) :
    (e.setErrand i x).errands[i]? = some x := List.getElem?_set_self hi

/-- A write is let in. -/
def Open (e : Endpoint) : Prop := e.session.link.halted = false ∧ e.writable = true

/-- What becomes of a write: it is refused before anything of it is on the stream, or it is let in. -/
inductive Wrote (codec : Codec) (e : Endpoint) (encodable : Prop) (chunks : List Chunk) :
    Endpoint → Except LinkError Unit → Prop
  | unfit (error : LinkError) : ¬ encodable → (∃ size limit, error = .payloadTooLarge size limit) →
    Wrote codec e encodable chunks e (.error error)
  | shutOut (reason : String) : ¬ e.Open → Wrote codec e encodable chunks e (.error (.lost reason))
  | whole : encodable → e.Open → (∀ c ∈ chunks, c.Sendable codec) →
    Wrote codec e encodable chunks (e.extend (codec.wires chunks) chunks none) (.ok ())
  | torn (tear : Tear) : encodable → e.Open → (∀ c ∈ chunks, c.Sendable codec) →
    Wrote codec e encodable chunks (e.extend (codec.wires chunks) chunks (some tear))
      (.error (.lost (tornReason tear.2)))

theorem put_wrote (e : Endpoint) {encodable : Prop} (he : encodable) (chunks : List Chunk)
    (tear : Option Tear) (hs : ∀ c ∈ chunks, c.Sendable codec) :
    Wrote codec e encodable chunks (e.put (codec.wires chunks) chunks tear).1
      (e.put (codec.wires chunks) chunks tear).2 := by
  unfold put
  by_cases hshut : (e.session.link.halted || !e.writable) = true
  · rw [if_pos hshut]
    exact .shutOut _ fun ho => by simp [ho.1,ho.2] at hshut
  · rw [if_neg hshut]
    have ho : e.Open := by simpa [Open] using hshut
    cases tear with
    | none => exact .whole he ho hs
    | some tear => exact .torn tear he ho hs

theorem writeMessage_of_fault (e : Endpoint) {nonces : NonceSupply} {m : Message} {error : LinkError}
    (hf : (codec.emitMessage nonces.1 m).fault = some error) (tear : Option Tear) :
    e.writeMessage codec nonces m tear = (e,.error error) := by
  simp [writeMessage,hf]

theorem writeMessage_of_encodable (e : Endpoint) {nonces : NonceSupply} {m : Message}
    (hf : (codec.emitMessage nonces.1 m).fault = none) (tear : Option Tear) :
    e.writeMessage codec nonces m tear =
      e.put (codec.wires (codec.chunksOf nonces.1 m)) (codec.chunksOf nonces.1 m) tear := by
  simp [writeMessage,hf,Codec.bytes_emitMessage hf]

theorem writeMessage_wrote (e : Endpoint) (nonces : NonceSupply) (m : Message) (tear : Option Tear) :
    Wrote codec e ((codec.emitMessage nonces.1 m).fault = none) (codec.chunksOf nonces.1 m)
      (e.writeMessage codec nonces m tear).1 (e.writeMessage codec nonces m tear).2 := by
  rcases Option.eq_none_or_eq_some (codec.emitMessage nonces.1 m).fault with hf | ⟨error,hf⟩
  · rw [writeMessage_of_encodable e hf]
    exact put_wrote e hf _ tear (Codec.sendable_of_mem_chunksOf hf)
  · rw [writeMessage_of_fault e hf]
    exact .unfit error (by simp [hf]) (Codec.fault_emitMessage hf)

/-! ### One step -/

/-- A request of the own side goes on, with the chunks that this puts on the stream. -/
inductive Advance (codec : Codec) (e : Endpoint) : Errand → Errand → List Chunk → Prop
  | write (ticket : Ticket) (tag : Tag) (data : List UInt8) (stage : CallStage) (nonces : NonceSupply) :
    (stage = .sent ∨ ∃ reason, stage = .refused (.lost reason)) →
    Advance codec e (.call ticket tag data .opened) (.call ticket tag data stage)
      (codec.chunksOf nonces.1 ⟨ticket.counter,tag,false,data⟩)
  | refuse (ticket : Ticket) (tag : Tag) (data : List UInt8) (error : LinkError) :
    (∀ m, error ≠ .application m) →
    Advance codec e (.call ticket tag data .opened) (.call ticket tag data (.refused error)) []
  | collect (ticket : Ticket) (tag : Tag) (data : List UInt8) (outcome : Outcome) :
    e.session.link.outcome? ticket = some outcome →
    Advance codec e (.call ticket tag data .sent) (.call ticket tag data (.ended outcome)) []
  | leave (ticket : Ticket) (tag : Tag) (data : List UInt8) (stage : CallStage) :
    stage = .opened ∨ stage = .sent →
    Advance codec e (.call ticket tag data stage) (.call ticket tag data .left) []
  | chunk (u u' : Upload) (stage : UploadStage) (place : ChunkPlace) (nonce piece : List UInt8) :
    u.need codec.limits.chunkSize.toNat = .write place piece →
    ((∃ error, stage = .refused error ∧ u' = u) ∨
      stage = .streaming ∧ u' = u.advance codec.limits.chunkSize.toNat) →
    Advance codec e (.upload u .streaming) (.upload u' stage) [⟨place,nonce,piece⟩]
  | gain (u : Upload) (most : Nat) (bytes : List UInt8) :
    u.need codec.limits.chunkSize.toNat = .read most → bytes.length ≤ most →
    Advance codec e (.upload u .streaming) (.upload (u.gain bytes) .streaming) []
  | conclude (u : Upload) (stage : UploadStage) :
    Advance codec e (.upload u .streaming) (.upload u stage) []

/-- A request that has just been started. -/
inductive Fresh (limits : Limits) (ticket : Ticket) : Errand → Prop
  | call (tag : Tag) (data : List UInt8) : Fresh limits ticket (.call ticket tag data .opened)
  | upload (path name : String) (length : Nat) (total : UInt16) (size : Nat) :
    Upload.measure limits name size = .ok (length,total) →
    Fresh limits ticket (.upload (.start path name ticket length total size) (.first limits name))

theorem Advance.bounded {x y : Errand} {chunks : List Chunk} (h : Advance codec e x y chunks)
    (hb : x.Bounded) : y.Bounded := by
  cases h with
  | chunk u u' stage place nonce piece _ hu =>
    rcases hu with ⟨error,rfl,rfl⟩ | ⟨rfl,rfl⟩
    · exact hb
    · exact Upload.Bounded.advance hb _
  | gain u most bytes hneed hle => exact Upload.Bounded.gain hb hneed hle
  | conclude u stage => exact hb
  | _ => trivial

theorem Fresh.bounded {limits : Limits} {ticket : Ticket} {x : Errand} (h : Fresh limits ticket x) :
    x.Bounded := by
  cases h with
  | call tag data => trivial
  | upload path name length total size hm => exact Upload.bounded_start ticket hm

/-- Nothing that starts a request or answers one. -/
def Quiet (a : Session.Act) : Prop := (∀ tag, a ≠ .start tag) ∧ ∀ m, a ≠ .respond m

/-- The act of a move that enters a phase of an open link; no other move has such an act. -/
def Move.entry? : Move → Option Session.Act
  | .ready peer => some (.ready peer)
  | .handshake => some .handshake
  | _ => none

/-- A request of the peer goes on without writing. -/
inductive Handles (codec : Codec) (move : Move) (e : Endpoint) (k : Nat) : Serve → Serve → Prop
  | dispatch (request : Message) (b : Bool) : e.session.link.admits request.tag = true →
    Handles codec move e k ⟨request,b,.routed⟩ ⟨request,true,.running⟩
  | early (request : Message) (b : Bool) : e.session.link.admits request.tag = false →
    Handles codec move e k ⟨request,b,.routed⟩ ⟨request,false,.replying (.early request.tag)⟩
  | serve (request : Message) (b : Bool) (reply : Reply) (result : Option (Except LinkError Reply)) :
    move = .serve k result → (∀ made, result = some made → reply = .ofResult made) →
    Handles codec move e k ⟨request,b,.running⟩ ⟨request,b,.replying reply⟩
  | crash (request : Message) (b : Bool) : move = .crash k →
    Handles codec move e k ⟨request,b,.running⟩ ⟨request,b,.dropped⟩
  | fail (request : Message) (b : Bool) (reply : Reply) (nonces : NonceSupply) (error : LinkError) :
    (¬ e.Open ∨ (codec.emitMessage nonces.1 (reply.message request.counter)).fault = some error) →
    Handles codec move e k ⟨request,b,.replying reply⟩ ⟨request,b,.failed reply error⟩

/-- The new state of a request, and what it does to the link. -/
def conclude (e : Endpoint) (i : Nat) (x : Errand) (acts : List Session.Act) : Endpoint :=
  { e with errands := e.errands.set i x, session := e.session.run acts }

inductive Step (codec : Codec) (move : Move) (e : Endpoint) : Endpoint → Prop
  | idle : Step codec move e e
  | link (a : Session.Act) : Quiet a → (a.Plain ∨ move.entry? = some a) →
    Step codec move e { e with session := e.session.step a }
  | shut : e.reading = false → Step codec move e { e with writable := false }
  | began (tag : Tag) (link : Connection) (ticket : Ticket) (x : Errand) :
    e.session.link.startRequest tag = .ok (link,ticket) → Fresh codec.limits ticket x →
    Step codec move e
      { e with session := e.session.step (.start tag), errands := e.errands ++ [x] }
  | errand (i : Nat) (x y : Errand) (acts : List Session.Act) : e.errands[i]? = some x →
    Advance codec e x y [] → (∀ a ∈ acts, Quiet a ∧ a.Plain) →
    Step codec move e (e.conclude i y acts)
  | wrote (i : Nat) (x y : Errand) (acts : List Session.Act) (chunks : List Chunk)
      (tear : Option Tear) : e.errands[i]? = some x → Advance codec e x y chunks →
    (∀ a ∈ acts, Quiet a ∧ a.Plain) → e.Open → (∀ c ∈ chunks, c.Sendable codec) →
    Step codec move e ((e.extend (codec.wires chunks) chunks tear).conclude i y acts)
  | waited (decoder : Decoder) : e.reading = true →
    e.inbound.decoder.next codec = (decoder,.more) →
    Step codec move e { e with inbound := { e.inbound with decoder } }
  | took (decoder : Decoder) (reassembler : Reassembler) (frame : Frame) : e.reading = true →
    e.inbound.decoder.next codec = (decoder,.frame frame) →
    e.inbound.reassembler.push codec.limits frame = (reassembler,.ok none) →
    Step codec move e { e with inbound := { decoder, reassembler } }
  | found (decoder : Decoder) (reassembler : Reassembler) (frame : Frame) (m : Message) :
    e.reading = true → e.inbound.decoder.next codec = (decoder,.frame frame) →
    e.inbound.reassembler.push codec.limits frame = (reassembler,.ok (some m)) →
    Step codec move e ({ e with inbound := { decoder, reassembler } }.route m)
  | stopped (inbound : Inbound) (reason : String) :
    Step codec move e ({ e with inbound }.stop reason)
  | handled (k : Nat) (t t' : Serve) : e.serves[k]? = some t → Handles codec move e k t t' →
    Step codec move e (e.setServe k t')
  | replied (k : Nat) (request : Message) (b : Bool) (reply : Reply) (nonces : NonceSupply)
      (tear : Option Tear) : e.serves[k]? = some ⟨request,b,.replying reply⟩ → e.Open →
    (codec.emitMessage nonces.1 (reply.message request.counter)).fault = none →
    Step codec move e ((e.extend
      (codec.wires (codec.chunksOf nonces.1 (reply.message request.counter)))
      (codec.chunksOf nonces.1 (reply.message request.counter)) tear).setServe k
        ⟨request,b,.written reply tear⟩)

theorem launch_step (move : Move) (tag : Tag) (f : Ticket → Errand)
    (hf : ∀ ticket, Fresh codec.limits ticket (f ticket)) : Step codec move e (e.launch tag f) := by
  unfold launch
  cases hs : e.session.link.startRequest tag with
  | error error => exact .idle
  | ok result => exact .began tag result.1 result.2 _ hs (hf _)

theorem begin_step (move : Move) (tag : Tag) (f : Ticket → Errand)
    (hf : ∀ ticket, Fresh codec.limits ticket (f ticket)) : Step codec move e (e.begin tag f) := by
  unfold begin
  cases e.session.link.ensureReady with
  | error error => exact .idle
  | ok _ => exact launch_step move tag f hf

theorem quiet_release (i : Nat) : Quiet (.release i) := ⟨fun _ => by simp,fun _ => by simp⟩

theorem quiet_close (reason : String) : Quiet (.close reason) := ⟨fun _ => by simp,fun _ => by simp⟩

theorem outer_release (i : Nat) : ∀ a ∈ [Session.Act.release i], Quiet a ∧ a.Plain := by
  intro a ha
  obtain rfl := List.mem_singleton.mp ha
  exact ⟨quiet_release i,trivial⟩

theorem setErrand_step {move : Move} {i : Nat} {x y : Errand} (hx : e.errands[i]? = some x)
    (ha : Advance codec e x y []) : Step codec move e (e.setErrand i y) := .errand i x y [] hx ha (by simp)

theorem release_step {move : Move} {i : Nat} {x y : Errand} (hx : e.errands[i]? = some x)
    (ha : Advance codec e x y []) : Step codec move e ((e.setErrand i y).release i) :=
  .errand i x y [.release i] hx ha (outer_release i)

theorem wrote_step (move : Move) {i : Nat} {x y : Errand} (y' : LinkError → Errand)
    {encodable : Prop} {chunks : List Chunk} {e₁ : Endpoint} {result : Except LinkError Unit}
    (hx : e.errands[i]? = some x) (hw : Wrote codec e encodable chunks e₁ result)
    (hdone : Advance codec e x y chunks)
    (hlost : ∀ reason, Advance codec e x (y' (.lost reason)) chunks)
    (hnot : ∀ error, (∀ m, error ≠ .application m) → Advance codec e x (y' error) []) :
    Step codec move e (match result with
      | .ok () => e₁.setErrand i y
      | .error error => e₁.setErrand i (y' error)) := by
  cases hw with
  | unfit error _ hlarge =>
    obtain ⟨size,limit,rfl⟩ := hlarge
    exact setErrand_step hx (hnot _ fun m => by simp)
  | shutOut reason _ => exact setErrand_step hx (hnot _ fun m => by simp)
  | whole _ ho hs => exact .wrote i x y [] chunks none hx hdone (by simp) ho hs
  | torn tear _ ho hs =>
    exact .wrote i x (y' (.lost _)) [] chunks (some tear) hx (hlost _) (by simp) ho hs

theorem write_step (move : Move) (hb : ∀ x ∈ e.errands, x.Bounded) (i : Nat) (nonces : NonceSupply)
    (tear : Option Tear) : Step codec move e (e.write codec i nonces tear) := by
  unfold write
  split
  · rename_i ticket tag data hx
    have hw := @writeMessage_wrote codec e nonces ⟨ticket.counter,tag,false,data⟩ tear
    have h := wrote_step move (fun error => .call ticket tag data (.refused error)) hx hw
      (.write ticket tag data .sent nonces (.inl rfl))
      (fun reason => .write ticket tag data _ nonces (.inr ⟨reason,rfl⟩))
      (fun error herror => .refuse ticket tag data error herror)
    rcases hr : e.writeMessage codec nonces ⟨ticket.counter,tag,false,data⟩ tear with ⟨e₁,result⟩
    rw [hr] at h
    cases result <;> exact h
  · rename_i u hx
    split
    · rename_i place piece hneed
      split
      · exact setErrand_step hx (.conclude u _)
      · rename_i bytes hbytes
        obtain ⟨hfits,rfl⟩ := (Codec.encodeChunk_ok_iff codec ⟨place,nonces.1 u.index,piece⟩ bytes).mp hbytes
        have hs := u.sendable_of_need (hb _ (List.mem_of_getElem? hx)) hneed (nonces.2 u.index) hfits
        have hw := @put_wrote codec e True trivial [⟨place,nonces.1 u.index,piece⟩] tear
          (by simpa using hs)
        have h := wrote_step move (fun error => .upload u (.refused error)) hx hw
          (.chunk u _ .streaming place _ piece hneed (.inr ⟨rfl,rfl⟩))
          (fun reason => .chunk u u _ place _ piece hneed (.inl ⟨_,rfl,rfl⟩)) (fun error _ => .conclude u _)
        rw [Codec.wires_cons,Codec.wires_nil,List.append_nil] at h
        rcases hr : e.put (Chunk.wire codec ⟨place,nonces.1 u.index,piece⟩)
          [⟨place,nonces.1 u.index,piece⟩] tear with ⟨e₁,result⟩
        rw [hr] at h
        cases result <;> exact h
    · exact .idle
  · exact .idle

theorem abort_step (move : Move) {i : Nat} {u : Upload} (hx : e.errands[i]? = some (.upload u .streaming))
    (reason : String) : Step codec move e (e.abort i u reason) := by
  refine .errand i _ _ [.close reason] hx (.conclude u _) fun a ha => ?_
  obtain rfl := List.mem_singleton.mp ha
  exact ⟨quiet_close _,trivial⟩

theorem fill_step (move : Move) (i : Nat) (got : Except IoFault (List UInt8)) :
    Step codec move e (e.fill codec i got) := by
  unfold fill
  split
  · rename_i u hx
    split
    · rename_i most hneed
      split
      · exact abort_step move hx _
      · exact abort_step move hx _
      · exact setErrand_step hx (.gain u most _ hneed (List.length_take_le ..))
    · exact .idle
  · exact .idle

theorem forget_step (move : Move) (i : Nat) : Step codec move e (e.forget i) := by
  unfold forget
  split
  · exact .link (.release i) (quiet_release i) (.inl trivial)
  · exact .link (.release i) (quiet_release i) (.inl trivial)
  · exact .link (.release i) (quiet_release i) (.inl trivial)
  · exact .idle

theorem collect_step (move : Move) (i : Nat) : Step codec move e (e.collect codec i) := by
  unfold collect
  split
  · rename_i ticket tag data hx
    split
    · rename_i outcome houtcome
      exact release_step hx (.collect ticket tag data outcome houtcome)
    · exact .idle
  · rename_i u hx
    split
    · exact release_step hx (.conclude u _)
    · exact .idle
  · exact .idle

theorem leave_step (move : Move) (i : Nat) : Step codec move e (e.leave i) := by
  unfold leave
  split
  · rename_i ticket tag data hx
    exact release_step hx (.leave ticket tag data _ (.inl rfl))
  · rename_i ticket tag data hx
    exact release_step hx (.leave ticket tag data _ (.inr rfl))
  · rename_i u hx
    exact release_step hx (.conclude u _)
  · exact .idle

theorem decode_step (move : Move) : Step codec move e (e.decode codec) := by
  unfold decode
  by_cases hreading : e.reading = true
  · rw [if_neg (by simp [hreading])]
    rcases hn : e.inbound.decoder.next codec with ⟨decoder,decoded⟩
    cases decoded with
    | more => exact .waited decoder hreading hn
    | fault fault => exact .stopped _ _
    | frame frame =>
      rcases hp : e.inbound.reassembler.push codec.limits frame with ⟨reassembler,pushed⟩
      rcases pushed with fault | (_ | m)
      · simp only [hp]
        exact .stopped _ _
      · simp only [hp]
        exact .took decoder reassembler frame hreading hn hp
      · simp only [hp]
        exact .found decoder reassembler frame m hreading hn hp
  · rw [if_pos (by simp [hreading])]
    exact .idle

theorem gate_step (move : Move) (k : Nat) : Step codec move e (e.gate k) := by
  unfold gate
  split
  · rename_i request b hk
    split
    · rename_i hadmits
      exact .handled k _ _ hk (.dispatch request b hadmits)
    · rename_i hadmits
      exact .handled k _ _ hk (.early request b (Bool.eq_false_iff.mpr hadmits))
  · exact .idle

theorem serve_step (k : Nat) (result : Option (Except LinkError Reply)) :
    Step codec (.serve k result) e (e.serve k result) := by
  unfold serve
  split
  · rename_i request b hk
    exact .handled k _ _ hk (.serve request b _ result rfl fun made hmade => by rw [hmade])
  · exact .idle

theorem crash_step (k : Nat) : Step codec (.crash k) e (e.crash k) := by
  unfold crash
  split
  · rename_i request b hk
    exact .handled k _ _ hk (.crash request b rfl)
  · exact .idle

theorem respond_step (move : Move) (k : Nat) (nonces : NonceSupply) (tear : Option Tear) :
    Step codec move e (e.respond codec k nonces tear) := by
  unfold respond
  split
  · rename_i request b reply hk
    let m := reply.message request.counter
    rcases Option.eq_none_or_eq_some (codec.emitMessage nonces.1 m).fault with hf | ⟨error,hf⟩
    · rw [writeMessage_of_encodable e hf]
      have hw := @put_wrote codec e _ hf (codec.chunksOf nonces.1 m) tear
        (Codec.sendable_of_mem_chunksOf hf)
      rcases hr : e.put (codec.wires (codec.chunksOf nonces.1 m)) (codec.chunksOf nonces.1 m) tear
        with ⟨e₁,result⟩
      rw [hr] at hw
      cases hw with
      | unfit error hnot => exact absurd hf hnot
      | shutOut reason hshut => exact .handled k _ _ hk (.fail request b reply nonces _ (.inl hshut))
      | whole _ ho _ => exact .replied k request b reply nonces none hk ho hf
      | torn tear _ ho _ => exact .replied k request b reply nonces (some tear) hk ho hf
    · rw [writeMessage_of_fault e hf]
      exact .handled k _ _ hk (.fail request b reply nonces error (.inr hf))
  · exact .idle

/-- Every move is one of the steps, if the uploads are of a length that can be expressed. -/
theorem step_cases (hb : ∀ x ∈ e.errands, x.Bounded) (move : Move) :
    Step codec move e (e.step codec move) := by
  cases move with
  | close reason => exact .link _ (quiet_close reason) (.inl trivial)
  | proceed k => exact .link (.proceed k) ⟨fun _ => by simp,fun _ => by simp⟩ (.inl trivial)
  | ready peer => exact .link (.ready peer) ⟨fun _ => by simp,fun _ => by simp⟩ (.inr rfl)
  | handshake => exact .link .handshake ⟨fun _ => by simp,fun _ => by simp⟩ (.inr rfl)
  | greet data => exact launch_step _ .hello _ fun ticket => .call .hello data
  | call tag data => exact begin_step _ tag _ fun ticket => .call tag data
  | upload path name size =>
    simp only [step,upload]
    split
    · exact .idle
    · rename_i length total hm
      exact begin_step _ .file _ fun ticket => .upload path name length total size hm
  | write i nonces tear => exact write_step _ hb i nonces tear
  | fill i got => exact fill_step _ i got
  | forget i => exact forget_step _ i
  | collect i => exact collect_step _ i
  | leave i => exact leave_step _ i
  | decode => exact decode_step _
  | stop reason => exact .stopped e.inbound reason
  | shut =>
    simp only [step]
    split
    · exact .idle
    · rename_i hreading
      exact .shut (Bool.eq_false_iff.mpr hreading)
  | gate k => exact gate_step _ k
  | serve k result => exact serve_step k result
  | crash k => exact crash_step k
  | respond k nonces tear => exact respond_step _ k nonces tear

/-- The steps keep the uploads to such a length. -/
theorem Step.bounded {move : Move} {e' : Endpoint} (h : Step codec move e e')
    (hb : ∀ x ∈ e.errands, x.Bounded) : ∀ x ∈ e'.errands, x.Bounded := by
  have hset : ∀ {i : Nat} {x y : Errand} {chunks : List Chunk}, e.errands[i]? = some x →
      Advance codec e x y chunks → ∀ z ∈ e.errands.set i y, z.Bounded := by
    intro i x y chunks hx ha z hz
    rcases List.mem_or_eq_of_mem_set hz with hz | rfl
    · exact hb z hz
    · exact ha.bounded (hb x (List.mem_of_getElem? hx))
  cases h with
  | began tag link ticket x _ hfresh =>
    intro z hz
    rcases List.mem_append.mp hz with hz | hz
    · exact hb z hz
    · exact List.mem_singleton.mp hz ▸ hfresh.bounded
  | errand i x y acts hx ha _ => exact hset hx ha
  | wrote i x y acts chunks tear hx ha _ _ _ =>
    rw [conclude,errands_extend]
    exact hset hx ha
  | found decoder reassembler frame m _ _ _ =>
    unfold route
    split <;> exact hb
  | replied k request b reply nonces tear =>
    rw [setServe,errands_extend]
    exact hb
  | _ => exact hb

end Endpoint
end Tether
