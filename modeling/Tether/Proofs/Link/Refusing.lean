import Tether.Proofs.Link.Answering
import Tether.Proofs.Link.Speaking
import Tether.Proofs.Wire.Validation

/-! What the sending paths let through, and what they turn away for its size. Whether a call, a reply or an
upload is let through depends on its length alone; what is not is refused before a byte of it is written,
and leaves everything as it is but the request itself. -/
namespace Tether

namespace Upload

variable {codec : Codec} {u : Upload} {said : List Chunk}

/-- Whether the next chunk of an upload fits into a frame is settled by the length of the whole. -/
theorem Streamed.fits_iff (h : u.Streamed codec said) (hs : codec.Sound) (hp : codec.limits.Passed)
    {place : ChunkPlace} {piece nonce : List UInt8}
    (hneed : u.need codec.limits.chunkSize.toNat = .write place piece)
    (hnonce : nonce.length = Gcm.nonceSize) :
    (⟨place,nonce,piece⟩ : Chunk).Fits codec ↔ codec.Carries u.messageLength.toNat := by
  obtain ⟨done,-,hfirst,hlen⟩ := h.held
  have hcuts := h.cuts hneed hfirst hlen
  have htotal : u.total.toNat ≤ Limits.chunksMax := Nat.le_of_lt_succ u.total.toNat_lt
  have hword : u.messageLength.toNat ≤ Limits.wordMax := Nat.le_of_lt_succ u.messageLength.toNat_lt
  have hpiece : piece.length ≤ codec.limits.chunkSize.toNat := by
    obtain ⟨-,-,-,rfl⟩ := need_eq_write_iff.mp hneed
    exact List.length_take_le ..
  have hsize : done.flatten.length + piece.length ≤ u.messageLength.toNat := hcuts.size
  rw [Chunk.Fits,Chunk.bodyLength,Codec.length_body hs _ _ hnonce]
  change piece.length + codec.overhead ≤ _ ↔ _
  constructor
  · intro hfits
    by_cases hmany : codec.limits.needed u.messageLength.toNat = 1
    · -- the only chunk is the whole message
      have hone : u.total.toNat = 1 := h.needed.trans hmany
      have hlt : u.index < u.total.toNat := hcuts.lt
      have hwhole := hcuts.last (show u.index + 1 = u.total.toNat by omega)
      rw [hfirst (by omega),List.flatten_nil,List.length_nil,Nat.zero_add] at hwhole
      refine ⟨h.needed ▸ htotal,hword,?_⟩
      change piece.length = u.messageLength.toNat at hwhole
      omega
    · exact Codec.carries_of_many hp (h.needed ▸ htotal) hword hmany
  · rintro ⟨-,-,hfits⟩
    omega

theorem Streamed.index_of_not_carries (h : u.Streamed codec said) (hp : codec.limits.Passed)
    (hlt : u.index < u.total.toNat) (hlarge : ¬ codec.Carries u.messageLength.toNat) : u.index = 0 := by
  have htotal : u.total.toNat ≤ Limits.chunksMax := Nat.le_of_lt_succ u.total.toNat_lt
  have hword : u.messageLength.toNat ≤ Limits.wordMax := Nat.le_of_lt_succ u.messageLength.toNat_lt
  have hone : codec.limits.needed u.messageLength.toNat = 1 := by
    by_contra hmany
    exact hlarge (Codec.carries_of_many hp (h.needed ▸ htotal) hword hmany)
  have hneeded := h.needed
  omega

theorem measure_of_unexpressible {limits : Limits} {name : String} {size : Nat}
    (h : Limits.chunksMax < limits.needed (2 + name.utf8ByteSize + size) ∨
      Limits.wordMax < 2 + name.utf8ByteSize + size) :
    ∃ length limit, measure limits name size = .error (.payloadTooLarge length limit) := by
  unfold measure
  simp only
  split
  · exact ⟨_,_,rfl⟩
  · rw [Limits.chunkCount_eq,if_pos h]
    exact ⟨_,_,rfl⟩

end Upload

namespace Endpoint

variable {codec : Codec} {first : UInt32} {e : Endpoint} {i : Nat}

/-- Nothing was written, and nothing has changed but that one request was given up. -/
structure Spares (ticket : Ticket) (e e' : Endpoint) : Prop where
  sent : e'.sent = e.sent
  outgoing : e'.outgoing = e.outgoing
  writable : e'.writable = e.writable
  reading : e'.reading = e.reading
  serves : e'.serves = e.serves
  closes : e'.session.closes = e.session.closes
  phase : e'.session.link.phase = e.session.link.phase
  halted : e'.session.link.halted = e.session.link.halted
  entries : ∀ entry ∈ e.session.link.pending.entries, entry.id ≠ ticket.counter →
    entry ∈ e'.session.link.pending.entries
  mail : ∀ j, j ≠ ticket.slot → e'.session.link.mail.slot j = e.session.link.mail.slot j

/-- Giving up a request spares all others. -/
theorem Asking.spares (h : e.Asking codec first) (hfew : e.session.tickets.length < 2^32) {x : Errand}
    (hx : e.errands[i]? = some x) (y : Errand) : Spares x.ticket e ((e.setErrand i y).release i) := by
  obtain ⟨hi,hticket⟩ := h.ticket hx
  have ht : e.session.tickets[i]? = some (Session.ticketAt first i) := by
    rw [← h.tickets,List.getElem?_map,hx,← hticket]
    rfl
  have hsession : ((e.setErrand i y).release i).session = e.session ∨
      ((e.setErrand i y).release i).session = { e.session with
        link := e.session.link.release (Session.ticketAt first i)
        released := e.session.released ++ [i] } := by
    simp only [release,setErrand,Session.step,Session.release,ht]
    by_cases hreleased : i ∈ e.session.released
    · exact .inl (if_pos hreleased)
    · exact .inr (if_neg hreleased)
  rcases hsession with hs | hs
  · exact ⟨rfl,rfl,rfl,rfl,rfl,by rw [hs],by rw [hs],by rw [hs],fun entry he _ => by rwa [hs],
      fun j _ => by rw [hs]⟩
  · refine ⟨rfl,rfl,rfl,rfl,rfl,by rw [hs],by rw [hs]; rfl,by rw [hs]; rfl,fun entry he hne => ?_,
      fun j hj => ?_⟩
    · rw [hs]
      rw [hticket] at hne
      exact Pending.mem_erase.mpr ⟨he,hne⟩
    · rw [hticket] at hj
      have hlen : i < e.session.link.mail.length := h.session.orderly.mail.symm ▸ hi
      rw [hs]
      simp only
      rw [h.session.orderly.mail_release hfew hi,Mailbox.slot_abandon _ _ _ hlen]
      exact if_neg hj

section Call

variable {ticket : Ticket} {tag : Tag} {data : List UInt8}

theorem write_call_of_carries (hs : codec.Sound) (hchunk : 1 ≤ codec.limits.chunkSize.toNat)
    (hx : e.errands[i]? = some (.call ticket tag data .opened)) (hcarries : codec.Carries data.length)
    (ho : e.Open) (nonces : NonceSupply) :
    let chunks := codec.chunksOf nonces.1 ⟨ticket.counter,tag,false,data⟩
    e.write codec i nonces none =
      (e.extend (codec.wires chunks) chunks none).setErrand i (.call ticket tag data .sent) := by
  intro chunks
  have hf := (Codec.fault_eq_none_iff hs hchunk nonces ⟨ticket.counter,tag,false,data⟩).mpr hcarries
  simp [write,hx,writeMessage_of_encodable e hf,put,ho.1,ho.2,chunks]

theorem write_call_of_not_carries (hs : codec.Sound) (hchunk : 1 ≤ codec.limits.chunkSize.toNat)
    (hx : e.errands[i]? = some (.call ticket tag data .opened)) (hlarge : ¬ codec.Carries data.length)
    (nonces : NonceSupply) (tear : Option Tear) : ∃ size limit, e.write codec i nonces tear =
      e.setErrand i (.call ticket tag data (.refused (.payloadTooLarge size limit))) := by
  rcases hf : (codec.emitMessage nonces.1 ⟨ticket.counter,tag,false,data⟩).fault with _ | error
  · exact absurd ((Codec.fault_eq_none_iff hs hchunk nonces _).mp hf) hlarge
  · obtain ⟨size,limit,rfl⟩ := Codec.fault_emitMessage hf
    exact ⟨size,limit,by simp [write,hx,writeMessage_of_fault e hf]⟩

end Call

section Chunk

variable {u : Upload} {place : ChunkPlace} {piece : List UInt8}

theorem write_chunk_of_carries (h : e.Speaking codec) (hs : codec.Sound) (hp : codec.limits.Passed)
    (hx : e.errands[i]? = some (.upload u .streaming))
    (hneed : u.need codec.limits.chunkSize.toNat = .write place piece)
    (hcarries : codec.Carries u.messageLength.toNat) (ho : e.Open) (nonces : NonceSupply) :
    let chunks : List Chunk := [⟨place,nonces.1 u.index,piece⟩]
    e.write codec i nonces none = (e.extend (codec.wires chunks) chunks none).setErrand i
      (.upload (u.advance codec.limits.chunkSize.toNat) .streaming) := by
  intro chunks
  have hstreamed : u.Streamed codec _ := h.uploads i _ hx
  have hfits := (hstreamed.fits_iff hs hp hneed (nonces.2 u.index)).mpr hcarries
  have hencode := Codec.encodeChunk_eq_ok codec ⟨place,nonces.1 u.index,piece⟩ hfits
  simp only at hencode
  simp [write,hx,hneed,hencode,put,ho.1,ho.2,chunks]

theorem write_chunk_of_not_carries (h : e.Speaking codec) (hs : codec.Sound) (hp : codec.limits.Passed)
    (hx : e.errands[i]? = some (.upload u .streaming))
    (hneed : u.need codec.limits.chunkSize.toNat = .write place piece)
    (hlarge : ¬ codec.Carries u.messageLength.toNat) (nonces : NonceSupply) (tear : Option Tear) :
    e.said (u.ticket.counter,false) = [] ∧ ∃ size limit, e.write codec i nonces tear =
      e.setErrand i (.upload u (.refused (.payloadTooLarge size limit))) := by
  have hstreamed : u.Streamed codec (e.said (u.ticket.counter,false)) := h.uploads i _ hx
  have hfits := (hstreamed.fits_iff hs hp hneed (nonces.2 u.index)).not.mpr hlarge
  have hlt := (Upload.need_eq_write_iff.mp hneed).1
  have hover : codec.limits.framePayload.toNat < (codec.body (nonces.1 u.index) piece).length :=
    Nat.lt_of_not_le hfits
  refine ⟨hstreamed.fresh (hstreamed.index_of_not_carries hp hlt hlarge),
    (codec.body (nonces.1 u.index) piece).length,codec.limits.framePayload.toNat,?_⟩
  simp [write,hx,hneed,Codec.encodeChunk,hover]

end Chunk

/-- Of the requests and replies of one end, those and only those that can be carried are written; all
others are refused for their size before anything of them is, and spare everything else. -/
structure Vets (codec : Codec) (e : Endpoint) : Prop where
  call : ∀ (i : Nat) (ticket : Ticket) (tag : Tag) (data : List UInt8),
    e.errands[i]? = some (.call ticket tag data .opened) → ∀ nonces : NonceSupply,
    (codec.Carries data.length → e.Open →
      let chunks := codec.chunksOf nonces.1 ⟨ticket.counter,tag,false,data⟩
      e.write codec i nonces none =
        (e.extend (codec.wires chunks) chunks none).setErrand i (.call ticket tag data .sent)) ∧
    (¬ codec.Carries data.length → ∀ tear, (∃ size limit, e.write codec i nonces tear =
      e.setErrand i (.call ticket tag data (.refused (.payloadTooLarge size limit)))) ∧
        Spares ticket e ((e.write codec i nonces tear).forget i))
  reply : ∀ (k : Nat) (request : Message) (b : Bool) (reply : Reply),
    e.serves[k]? = some ⟨request,b,.replying reply⟩ → ∀ nonces : NonceSupply,
    (codec.Carries reply.payload.length → e.Open →
      let chunks := codec.chunksOf nonces.1 (reply.message request.counter)
      e.respond codec k nonces none =
        (e.extend (codec.wires chunks) chunks none).setServe k ⟨request,b,.answered reply⟩) ∧
    (¬ codec.Carries reply.payload.length → ∀ tear, ∃ size limit, e.respond codec k nonces tear =
      e.setServe k ⟨request,b,.failed reply (.payloadTooLarge size limit)⟩)
  upload : ∀ (path name : String) (size : Nat),
    let length := 2 + name.utf8ByteSize + size
    (codec.Carries length → ∃ total, Upload.measure codec.limits name size = .ok (length,total)) ∧
    ∀ error, Upload.measure codec.limits name size = .error error →
      ¬ codec.Carries length ∧ (∃ size limit, error = .payloadTooLarge size limit) ∧
        e.upload codec path name size = e
  chunk : ∀ (i : Nat) (u : Upload) (place : ChunkPlace) (piece : List UInt8),
    e.errands[i]? = some (.upload u .streaming) →
    u.need codec.limits.chunkSize.toNat = .write place piece → ∀ nonces : NonceSupply,
    (codec.Carries u.messageLength.toNat → e.Open →
      let chunks : List Chunk := [⟨place,nonces.1 u.index,piece⟩]
      e.write codec i nonces none = (e.extend (codec.wires chunks) chunks none).setErrand i
        (.upload (u.advance codec.limits.chunkSize.toNat) .streaming)) ∧
    (¬ codec.Carries u.messageLength.toNat → e.said (u.ticket.counter,false) = [] ∧
      ∀ tear, (∃ size limit, e.write codec i nonces tear =
        e.setErrand i (.upload u (.refused (.payloadTooLarge size limit)))) ∧
          Spares u.ticket e ((e.write codec i nonces tear).forget i))

theorem forget_setErrand_refused {x y : Errand} (hx : e.errands[i]? = some x)
    (hy : (∃ ticket tag data error, y = .call ticket tag data (.refused error)) ∨
      ∃ u error, y = .upload u (.refused error)) :
    (e.setErrand i y).forget i = (e.setErrand i y).release i := by
  have hset : (e.setErrand i y).errands[i]? = some y :=
    List.getElem?_set_self (List.getElem?_eq_some_iff.mp hx).1
  rcases hy with ⟨ticket,tag,data,error,rfl⟩ | ⟨u,error,rfl⟩ <;> simp [forget,hset]

theorem Speaking.vets (h : e.Speaking codec) (ha : e.Asking codec first)
    (hfew : e.session.tickets.length < 2^32) (hs : codec.Sound) (hp : codec.limits.Passed) :
    e.Vets codec := by
  refine ⟨fun i ticket tag data hx nonces => ⟨fun hcarries ho => ?_,fun hlarge tear => ?_⟩,
    fun k request b reply ht nonces => ⟨fun hcarries ho => ?_,fun hlarge tear => ?_⟩,
    fun path name size => ⟨fun hcarries => ?_,fun error herror => ?_⟩,
    fun i u place piece hx hneed nonces => ⟨fun hcarries ho => ?_,fun hlarge => ?_⟩⟩
  · exact write_call_of_carries hs hp.chunk hx hcarries ho nonces
  · obtain ⟨size,limit,hwrite⟩ := write_call_of_not_carries hs hp.chunk hx hlarge nonces tear
    refine ⟨⟨size,limit,hwrite⟩,?_⟩
    rw [hwrite,forget_setErrand_refused hx (.inl ⟨_,_,_,_,rfl⟩)]
    exact ha.spares hfew hx _
  · exact respond_of_carries hs hp.chunk ho ht hcarries nonces
  · exact respond_of_not_carries hs hp.chunk ht hlarge nonces tear
  · exact ⟨_,Upload.measure_eq_ok_iff.mpr
      ⟨rfl,(Limits.chunkCount_eq_ok_iff ..).mpr ⟨hcarries.1,hcarries.2.1,rfl⟩⟩⟩
  · have hlarge : Limits.chunksMax < codec.limits.needed (2 + name.utf8ByteSize + size) ∨
        Limits.wordMax < 2 + name.utf8ByteSize + size := by
      by_contra hsmall
      obtain ⟨hcount,hword⟩ := not_or.mp hsmall
      have hok := Upload.measure_eq_ok_iff.mpr ⟨rfl,(Limits.chunkCount_eq_ok_iff codec.limits _ _).mpr
        ⟨Nat.not_lt.mp hcount,Nat.not_lt.mp hword,rfl⟩⟩
      rw [hok] at herror
      simp at herror
    obtain ⟨length,limit,hmeasure⟩ := Upload.measure_of_unexpressible hlarge
    refine ⟨fun hcarries => ?_,⟨length,limit,?_⟩,by simp [upload,hmeasure]⟩
    · exact hlarge.elim (Nat.not_lt.mpr hcarries.1) (Nat.not_lt.mpr hcarries.2.1)
    · exact Except.error.inj (herror.symm.trans hmeasure)
  · exact write_chunk_of_carries h hs hp hx hneed hcarries ho nonces
  · refine ⟨(write_chunk_of_not_carries h hs hp hx hneed hlarge nonces none).1,fun tear => ?_⟩
    obtain ⟨-,size,limit,hwrite⟩ := write_chunk_of_not_carries h hs hp hx hneed hlarge nonces tear
    refine ⟨⟨size,limit,hwrite⟩,?_⟩
    rw [hwrite,forget_setErrand_refused hx (.inr ⟨_,_,rfl⟩)]
    exact ha.spares hfew hx _

end Endpoint
end Tether
