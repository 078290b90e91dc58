import Tether.Proofs.Link.Moves
import Tether.Proofs.Wire.Interleaving
import Tether.Proofs.Wire.Validation

/-! A file goes out as the message that holds it whole. What is staged is always the part of that message
that begins where the next chunk does and ends where the file has been read to, however little each
reading gives; so the chunk that is written is the one that cutting the message would have made. Whether
there is room for a chunk in memory is asked beforehand, by `Upload.reserve`. -/
namespace Tether

namespace Upload

variable {limits : Limits} {ticket : Ticket} {name : String} {content file got : List UInt8} {u : Upload}

/-- The request that carries a file whole. -/
def request (ticket : Ticket) (name : String) (content : List UInt8) : Message :=
  ⟨ticket.counter,.file,false,FileBody.head name ++ content⟩

theorem length_request (ticket : Ticket) (name : String) (content : List UInt8) :
    (request ticket name content).payload.length = 2 + name.utf8ByteSize + content.length := by
  rw [request,List.length_append,FileBody.length_head]

/-- How far an upload has come with its file, of which `file` is left: what is staged is the message from
the next chunk on, as far as it has been read. -/
structure Copies (limits : Limits) (ticket : Ticket) (name : String) (content : List UInt8) (u : Upload)
    (file : List UInt8) : Prop where
  staged : u.staged ++ file =
    (request ticket name content).payload.drop (limits.chunkSize.toNat*u.index)
  left : u.remaining = file.length
  read : u.parts.reverse.flatten ++ file = content
  place : u.place =
    { Codec.firstPlace (request ticket name content) u.total with index := UInt16.ofNat u.index }
  count : limits.chunkCount (request ticket name content).payload.length = .ok u.total
  begun : u.index ≤ u.total.toNat

theorem copies_start (path : String) {total : UInt16}
    (h : limits.chunkCount (2 + name.utf8ByteSize + content.length) = .ok total) :
    (start path name ticket (2 + name.utf8ByteSize + content.length) total content.length).Copies limits
      ticket name content content where
  staged := by simp [start,request]
  left := rfl
  read := by simp [start]
  place := by
    simp only [Upload.place,start,Codec.firstPlace,length_request]
    rfl
  count := by rwa [length_request]
  begun := Nat.zero_le _

theorem Copies.gain (h : u.Copies limits ticket name content (got ++ file)) :
    (u.gain got).Copies limits ticket name content file where
  staged := by simpa [Upload.gain,List.append_assoc] using h.staged
  left := by simp [Upload.gain,h.left]
  read := by simpa [Upload.gain,List.append_assoc] using h.read
  place := h.place
  count := h.count
  begun := h.begun

variable {place : ChunkPlace} {piece : List UInt8}

theorem need_eq_reply_iff {chunkSize : Nat} : u.need chunkSize = .reply ↔ u.total.toNat ≤ u.index := by
  unfold need
  simp only
  split
  · rename_i hdone
    exact iff_of_true rfl hdone
  · rename_i hmore
    refine iff_of_false ?_ hmore
    split <;> simp

theorem Copies.take_staged (h : u.Copies limits ticket name content file)
    (hneed : u.need limits.chunkSize.toNat = .write place piece) :
    limits.chunkSize.toNat ≤ u.staged.length ∨ file = [] := by
  obtain ⟨-,hfull,-,-⟩ := need_eq_write_iff.mp hneed
  rcases Nat.lt_or_ge u.staged.length limits.chunkSize.toNat with hlt | hle
  · refine .inr (List.length_eq_zero_iff.mp ?_)
    rw [← h.left]
    exact Nat.eq_zero_of_not_pos fun hpos => hfull ⟨hlt,hpos⟩
  · exact .inl hle

theorem Copies.chunk (h : u.Copies limits ticket name content file)
    (hneed : u.need limits.chunkSize.toNat = .write place piece) (cipher : Option Cipher)
    (nonces : Nonces) :
    (Codec.chunks ⟨limits,cipher⟩ nonces (request ticket name content) u.total)[u.index]? =
      some ⟨place,nonces u.index,piece⟩ := by
  obtain ⟨hlt,-,rfl,rfl⟩ := need_eq_write_iff.mp hneed
  refine Codec.getElem?_chunks_eq_some_iff.mpr ⟨hlt,?_⟩
  rw [h.place,← h.staged]
  rcases h.take_staged hneed with hle | rfl
  · rw [List.take_append_of_le_length hle]
  · rw [List.append_nil]

theorem Copies.advance (h : u.Copies limits ticket name content file)
    (hneed : u.need limits.chunkSize.toNat = .write place piece) :
    (u.advance limits.chunkSize.toNat).Copies limits ticket name content file where
  staged := by
    change u.staged.drop _ ++ file = _
    rw [Upload.advance,Nat.mul_succ,← List.drop_drop,← h.staged]
    rcases h.take_staged hneed with hle | rfl
    · rw [List.drop_append_of_le_length hle]
    · rw [List.append_nil,List.append_nil]
  left := h.left
  read := h.read
  place := by
    change { u.place with index := UInt16.ofNat (u.index + 1) } = _
    rw [h.place]
    rfl
  count := h.count
  begun := by
    obtain ⟨hlt,-,-,-⟩ := need_eq_write_iff.mp hneed
    exact hlt

theorem Copies.done (h : u.Copies limits ticket name content file)
    (hchunk : 1 ≤ limits.chunkSize.toNat) (hneed : u.need limits.chunkSize.toNat = .reply) :
    u.index = u.total.toNat ∧ file = [] ∧ u.digest = Sha256.hex content := by
  have hall : u.index = u.total.toNat := Nat.le_antisymm h.begun (need_eq_reply_iff.mp hneed)
  have hnone : u.staged ++ file = [] := by
    rw [h.staged,hall]
    exact List.drop_eq_nil_of_le (Limits.length_le_chunkCount hchunk h.count)
  obtain ⟨-,rfl⟩ := List.append_eq_nil_iff.mp hnone
  have hread := h.read
  rw [List.append_nil] at hread
  exact ⟨hall,rfl,congrArg Sha256.hex hread⟩

theorem one_le_of_need_read {chunkSize most : Nat} (h : u.need chunkSize = .read most) :
    1 ≤ most ∧ 1 ≤ u.remaining ∧ most ≤ u.remaining := by
  obtain ⟨-,⟨hshort,hmore⟩,rfl⟩ := need_eq_read_iff.mp h
  simp only [readMax]
  omega

end Upload

namespace Endpoint

variable {codec : Codec} {nonces : NonceSupply} {e : Endpoint} {i given : Nat} {u : Upload}
  {file : List UInt8}

/-! ### One turn of an upload -/

/-- An upload takes its next turn, with what is left of its file. A reading gives some of what it is asked
for, at least a byte; how much is up to the system. A chunk is written whole. -/
def turn (codec : Codec) (nonces : NonceSupply) (i : Nat) (s : Endpoint × List UInt8) (given : Nat) :
    Endpoint × List UInt8 :=
  match s.1.errands[i]? with
  | some (.upload u .streaming) =>
    match u.need codec.limits.chunkSize.toNat with
    | .read most =>
      let (got,rest) := s.2.splitAt (min most (max 1 given))
      (s.1.step codec (.fill i (.ok got)),rest)
    | .write .. => (s.1.step codec (.write i nonces none),s.2)
    | .reply => s
  | _ => s

/-- One turn after the other; the pattern tells how much each reading would give. -/
def turns (codec : Codec) (nonces : NonceSupply) (i : Nat) (s : Endpoint × List UInt8)
    (pattern : List Nat) : Endpoint × List UInt8 := pattern.foldl (turn codec nonces i) s

theorem turn_of_read {most : Nat} (herrand : e.errands[i]? = some (.upload u .streaming))
    (hneed : u.need codec.limits.chunkSize.toNat = .read most) (hleft : u.remaining = file.length) :
    ∃ got rest, file = got ++ rest ∧ 1 ≤ got.length ∧
      turn codec nonces i (e,file) given = (e.setErrand i (.upload (u.gain got) .streaming),rest) := by
  obtain ⟨hmost,hmore,-⟩ := Upload.one_le_of_need_read hneed
  have hlen : 1 ≤ (file.take (min most (max 1 given))).length := by
    rw [List.length_take]
    omega
  refine ⟨file.take (min most (max 1 given)),file.drop (min most (max 1 given)),
    (List.take_append_drop ..).symm,hlen,?_⟩
  obtain ⟨byte,rest,hgot⟩ := List.exists_cons_of_length_pos hlen
  have htake : (file.take (min most (max 1 given))).take most = file.take (min most (max 1 given)) := by
    rw [List.take_take,← Nat.min_assoc,Nat.min_self]
  simp only [turn,herrand,hneed,List.splitAt_eq,step,fill]
  rw [hgot] at htake ⊢
  simp only [htake]

theorem turn_of_write {place : ChunkPlace} {piece : List UInt8}
    (herrand : e.errands[i]? = some (.upload u .streaming))
    (hneed : u.need codec.limits.chunkSize.toNat = .write place piece)
    (hopen : e.session.link.halted = false) (hwritable : e.writable = true)
    (hfits : (⟨place,nonces.1 u.index,piece⟩ : Chunk).Fits codec) :
    let c : Chunk := ⟨place,nonces.1 u.index,piece⟩
    turn codec nonces i (e,file) given =
      ((e.extend (c.wire codec) [c] none).setErrand i
        (.upload (u.advance codec.limits.chunkSize.toNat) .streaming),file) := by
  have hencode := codec.encodeChunk_eq_ok ⟨place,nonces.1 u.index,piece⟩ hfits
  simp only at hencode
  simp only [turn,herrand,hneed,step,write,hencode,put,hopen,hwritable,Bool.not_true,Bool.or_self,
    Bool.false_eq_true,if_false]

theorem turn_of_refused {place : ChunkPlace} {piece : List UInt8} {error : LinkError}
    (herrand : e.errands[i]? = some (.upload u .streaming))
    (hneed : u.need codec.limits.chunkSize.toNat = .write place piece)
    (hencode : codec.encodeChunk (nonces.1 u.index) place piece = .error error) :
    turn codec nonces i (e,file) given = (e.setErrand i (.upload u (.refused error)),file) := by
  simp only [turn,herrand,hneed,step,write,hencode]

theorem turn_of_reply (herrand : e.errands[i]? = some (.upload u .streaming))
    (hneed : u.need codec.limits.chunkSize.toNat = .reply) :
    turn codec nonces i (e,file) given = (e,file) := by
  simp only [turn,herrand,hneed]

theorem turns_of_refused {error : LinkError} (herrand : e.errands[i]? = some (.upload u (.refused error)))
    (pattern : List Nat) : turns codec nonces i (e,file) pattern = (e,file) := by
  induction pattern with
  | nil => rfl
  | cons given pattern ih =>
    rw [turns,List.foldl_cons,show turn codec nonces i (e,file) given = (e,file) by
      simp only [turn,herrand]]
    exact ih

@[simp] theorem setErrand_setErrand (e : Endpoint) (i : Nat) (x y : Errand) :
    (e.setErrand i x).setErrand i y = e.setErrand i y := by
  simp [setErrand]

/-! ### All turns of an upload -/

variable {ticket : Ticket} {name : String} {content : List UInt8}

/-- The endpoint once an upload has come so far: the chunks before the next one are on the stream. -/
def copied (codec : Codec) (nonces : NonceSupply) (m : Message) (e : Endpoint) (i : Nat) (u : Upload) :
    Endpoint :=
  let chunks := (codec.chunksOf nonces.1 m).take u.index
  (e.extend (codec.wires chunks) chunks none).setErrand i (.upload u .streaming)

theorem copied_advance {m : Message} {c : Chunk} (hc : (codec.chunksOf nonces.1 m)[u.index]? = some c)
    (chunkSize : Nat) :
    ((copied codec nonces m e i u).extend (c.wire codec) [c] none).setErrand i
        (.upload (u.advance chunkSize) .streaming) =
      copied codec nonces m e i (u.advance chunkSize) := by
  have htake : (codec.chunksOf nonces.1 m).take (u.index + 1) =
      (codec.chunksOf nonces.1 m).take u.index ++ [c] := by
    rw [List.take_add_one,hc]
    rfl
  simp only [copied,extend,setErrand,Upload.advance,htake,Codec.wires_append,Codec.wires_cons,
    Codec.wires_nil,List.append_nil,List.append_assoc,List.set_set]

/-- Enough turns bring all of a file on the stream, if a frame takes its chunks. -/
theorem turns_copied (codec : Codec) (hi : i < e.errands.length) (hopen : e.session.link.halted = false)
    (hwritable : e.writable = true) (hchunk : 1 ≤ codec.limits.chunkSize.toNat)
    (hfits : ∀ c ∈ codec.chunksOf nonces.1 (Upload.request ticket name content), c.Fits codec)
    (h : u.Copies codec.limits ticket name content file) (pattern : List Nat)
    (hlong : u.total.toNat - u.index + file.length ≤ pattern.length) :
    ∃ u', turns codec nonces i (copied codec nonces (Upload.request ticket name content) e i u,file) pattern =
        (copied codec nonces (Upload.request ticket name content) e i u',[]) ∧
      u'.Copies codec.limits ticket name content [] ∧
      u'.need codec.limits.chunkSize.toNat = .reply := by
  have herrand (u : Upload) : (copied codec nonces (Upload.request ticket name content) e i u).errands[i]? =
      some (.upload u .streaming) := getElem?_setErrand hi _
  induction pattern generalizing u file with
  | nil =>
    have hnone : u.total.toNat - u.index + file.length = 0 := Nat.le_zero.mp hlong
    obtain rfl := List.length_eq_zero_iff.mp (show file.length = 0 by omega)
    exact ⟨u,rfl,h,Upload.need_eq_reply_iff.mpr (by omega)⟩
  | cons given pattern ih =>
    rw [List.length_cons] at hlong
    simp only [turns,List.foldl_cons] at ih ⊢
    cases hneed : u.need codec.limits.chunkSize.toNat with
    | reply =>
      obtain ⟨hall,rfl,-⟩ := h.done hchunk hneed
      rw [turn_of_reply (herrand u) hneed]
      exact ih h (by rw [hall]; simp)
    | read most =>
      obtain ⟨got,rest,rfl,hgot,hturn⟩ := @turn_of_read codec nonces _ i given u file most (herrand u)
        hneed h.left
      rw [hturn,copied,setErrand_setErrand]
      rw [List.length_append] at hlong
      exact ih h.gain (by change u.total.toNat - u.index + _ ≤ _; omega)
    | write place piece =>
      obtain ⟨hlt,-,-,-⟩ := Upload.need_eq_write_iff.mp hneed
      have hc := h.chunk hneed codec.cipher nonces.1
      have hof : codec.chunksOf nonces.1 (Upload.request ticket name content) =
          codec.chunks nonces.1 (Upload.request ticket name content) u.total := by
        rw [Codec.chunksOf,h.count]
      rw [← hof] at hc
      rw [turn_of_write (herrand u) hneed hopen hwritable (hfits _ (List.mem_of_getElem? hc)),
        copied_advance hc]
      exact ih (h.advance hneed) (by change u.total.toNat - (u.index + 1) + _ ≤ _; omega)

/-- A message that cannot be sent is refused at its first chunk, for the reason that it is refused for when
it is encoded whole. -/
theorem encodeChunk_of_fault (hs : codec.Sound) (hchunk : 1 ≤ codec.limits.chunkSize.toNat) {m : Message}
    {total : UInt16} (ht : codec.limits.chunkCount m.payload.length = .ok total) {error : LinkError}
    (h : (codec.emitMessage nonces.1 m).fault = some error) :
    codec.encodeChunk (nonces.1 0) { Codec.firstPlace m total with index := UInt16.ofNat 0 }
      (m.payload.take codec.limits.chunkSize.toNat) = .error error := by
  obtain ⟨hneeded,hword,-⟩ := (Limits.chunkCount_eq_ok_iff ..).mp ht
  obtain ⟨n,hn⟩ := Nat.exists_eq_add_of_le' (Limits.one_le_chunkCount hchunk ht)
  rw [Codec.emitMessage_eq codec nonces.1 m total ht,hn,Codec.cut,Codec.emit] at h
  split at h
  · -- if a frame took the first chunk, it would take them all
    rename_i bytes hbytes
    obtain ⟨hfits,-⟩ := (Codec.encodeChunk_ok_iff codec ⟨_,nonces.1 0,_⟩ bytes).mp hbytes
    rw [Chunk.Fits,Chunk.bodyLength,Codec.length_body hs _ _ (nonces.2 0),List.length_take] at hfits
    have hnone := (Codec.fault_eq_none_iff hs hchunk nonces m).mpr ⟨hneeded,hword,hfits⟩
    rw [Codec.emitMessage_eq codec nonces.1 m total ht,hn,Codec.cut,Codec.emit,hbytes] at hnone
    rw [h] at hnone
    simp at hnone
  · rename_i fault hfault
    rw [← Option.some.inj h]
    exact hfault

/-- An upload whose first chunk is refused writes nothing, whatever it has read by then. -/
theorem turns_refused (codec : Codec) (hi : i < e.errands.length) (hchunk : 1 ≤ codec.limits.chunkSize.toNat)
    {error : LinkError} (h : u.Copies codec.limits ticket name content file) (hfirst : u.index = 0)
    (herror : codec.encodeChunk (nonces.1 0)
      { Codec.firstPlace (Upload.request ticket name content) u.total with index := UInt16.ofNat 0 }
      ((Upload.request ticket name content).payload.take codec.limits.chunkSize.toNat) = .error error)
    (pattern : List Nat) (hlong : 1 + file.length ≤ pattern.length) :
    ∃ u' file', turns codec nonces i (e.setErrand i (.upload u .streaming),file) pattern =
      (e.setErrand i (.upload u' (.refused error)),file') := by
  have herrand (u : Upload) := getElem?_setErrand hi (.upload u .streaming)
  induction pattern generalizing u file with
  | nil => simp at hlong
  | cons given pattern ih =>
    rw [List.length_cons] at hlong
    simp only [turns,List.foldl_cons] at ih ⊢
    cases hneed : u.need codec.limits.chunkSize.toNat with
    | reply =>
      have hnone := Upload.need_eq_reply_iff.mp hneed
      have hone := Limits.one_le_chunkCount hchunk h.count
      omega
    | read most =>
      obtain ⟨got,rest,rfl,hgot,hturn⟩ := @turn_of_read codec nonces _ i given u file most (herrand u)
        hneed h.left
      rw [hturn,setErrand_setErrand]
      rw [List.length_append] at hlong
      exact ih h.gain hfirst herror (by omega)
    | write place piece =>
      obtain ⟨-,hc⟩ := Codec.getElem?_chunks_eq_some_iff.mp (h.chunk hneed codec.cipher nonces.1)
      rw [hfirst,Nat.mul_zero,List.drop_zero] at hc
      obtain ⟨hplace,-,hpiece⟩ := Chunk.mk.inj hc
      have hrefused : codec.encodeChunk (nonces.1 u.index) place piece = .error error := by
        rw [hfirst,hplace,hpiece]
        exact herror
      rw [turn_of_refused (herrand u) hneed hrefused,setErrand_setErrand]
      exact ⟨u,file,turns_of_refused (getElem?_setErrand hi _) pattern⟩

theorem setErrand_self {x : Errand} (h : e.errands[i]? = some x) : e.setErrand i x = e := by
  obtain ⟨hi,rfl⟩ := List.getElem?_eq_some_iff.mp h
  simp [setErrand]

theorem copied_start {m : Message} (herrand : e.errands[i]? = some (.upload u .streaming))
    (hfirst : u.index = 0) : copied codec nonces m e i u = e := by
  simp only [copied,hfirst,List.take_zero,Codec.wires_nil,extend,List.append_nil]
  exact setErrand_self herrand

/-! ### What the peer makes of it -/

theorem filter_of_run (codec : Codec) (hchunk : 1 ≤ codec.limits.chunkSize.toNat) {m : Message} {total : UInt16}
    (ht : codec.limits.chunkCount m.payload.length = .ok total) {receiver : Limits} {fs : List Frame}
    (hfs : fs.filter (·.key == m.key) = codec.framesOf nonces.1 m) {r : Reassembler} {ms : List Message}
    (h : Reassembler.run receiver {} fs = some (r,ms)) : ms.filter (·.key == m.key) = [m] := by
  have htrack : Reassembler.track none _ = _ := Reassembler.track_of_run receiver h m.key
  rw [hfs,Reassembler.framesOf_eq ht,Reassembler.track_frames codec nonces.1 m total
    (Limits.one_le_chunkCount hchunk ht) (Limits.length_le_chunkCount hchunk ht)] at htrack
  exact (congrArg Prod.snd htrack).symm

theorem run_framesOf (codec : Codec) (hchunk : 1 ≤ codec.limits.chunkSize.toNat) {m : Message} {total : UInt16}
    (ht : codec.limits.chunkCount m.payload.length = .ok total)
    (hframe : codec.limits.chunkSize.toNat ≤ codec.limits.framePayload.toNat)
    (hsize : m.payload.length ≤ codec.limits.messageSize.toNat)
    (hpartial : 1 ≤ codec.limits.partialMessages.toNat)
    (hover : ¬ codec.limits.Overflows m.payload.length) :
    Reassembler.run codec.limits {} (codec.framesOf nonces.1 m) = some ({},[m]) := by
  have hpermitted : Reassembler.Permitted codec.limits none (codec.framesOf nonces.1 m) :=
    (Reassembler.permitted_framesOf_iff hchunk hframe ht hsize).mpr hover
  rw [Reassembler.framesOf_eq ht] at hpermitted ⊢
  exact Reassembler.run_frames {} m total rfl hpartial (Limits.one_le_chunkCount hchunk ht)
    (Limits.length_le_chunkCount hchunk ht) hpermitted

/-- Sending a file chunk by chunk is encoding it whole. However little each reading gives, the bytes and
the chunks that an upload puts on the stream are those of the one message that holds name and content, the
digest that it goes by is that of the content, and an upload that is refused is refused as this message is.
The peer that takes the frames in finds the message, and in it the name and the content. -/
theorem turns_eq_encode (limits : Limits) (key : Option PayloadKey) (nonces : NonceSupply) (e : Endpoint)
    (i : Nat) (path name : String) (ticket : Ticket) (content : List UInt8) (total : UInt16)
    (pattern : List Nat) (hname : 1 ≤ name.utf8ByteSize ∧ name.utf8ByteSize ≤ FileBody.nameMax)
    (hchunk : 1 ≤ limits.chunkSize.toNat)
    (hcount : limits.chunkCount (2 + name.utf8ByteSize + content.length) = .ok total)
    (hopen : e.session.link.halted = false) (hwritable : e.writable = true)
    (herrand : e.errands[i]? = some (.upload (.start path name ticket
      (2 + name.utf8ByteSize + content.length) total content.length) .streaming))
    (hlong : total.toNat + content.length ≤ pattern.length) :
    let codec : Codec := ⟨limits,key.map Cipher.ofKey⟩
    let m := Upload.request ticket name content
    FileBody.encode name content = .ok m.payload ∧
      (∀ bytes, codec.encode nonces.1 m = .ok bytes →
        bytes = codec.wires (codec.chunksOf nonces.1 m) ∧
        ∃ u, turns codec nonces i (e,content) pattern =
            ((e.extend bytes (codec.chunksOf nonces.1 m) none).setErrand i (.upload u .streaming),[]) ∧
          u.need limits.chunkSize.toNat = .reply ∧ u.digest = Sha256.hex content) ∧
      (∀ error, codec.encode nonces.1 m = .error error →
        ∃ u file, turns codec nonces i (e,content) pattern =
          (e.setErrand i (.upload u (.refused error)),file)) ∧
      (∀ receiver fs r ms, fs.filter (·.key == m.key) = codec.framesOf nonces.1 m →
        Reassembler.run receiver {} fs = some (r,ms) → ms.filter (·.key == m.key) = [m]) ∧
      (limits.chunkSize.toNat ≤ limits.framePayload.toNat →
        m.payload.length ≤ limits.messageSize.toNat → 1 ≤ limits.partialMessages.toNat →
        ¬ limits.Overflows m.payload.length →
        Reassembler.run limits {} (codec.framesOf nonces.1 m) = some ({},[m])) ∧
      FileBody.decode m.payload = .ok (name,content) := by
  intro codec m
  have hs : codec.Sound := Codec.sound_of_key limits key
  have hi : i < e.errands.length := (List.getElem?_eq_some_iff.mp herrand).1
  have hstart := @Upload.copies_start limits ticket name content path total hcount
  have ht := hstart.count
  refine ⟨FileBody.encode_eq_ok_iff.mpr ⟨hname,rfl⟩,fun bytes hbytes => ?_,fun error herror => ?_,
    fun receiver fs r ms hfs h => ?_,fun hframe hsize hpartial hover => ?_,
    FileBody.decode_head_append hname.2 content⟩
  · obtain ⟨hnone,rfl⟩ := Codec.encode_eq_ok_iff.mp hbytes
    rw [Codec.bytes_emitMessage hnone]
    refine ⟨rfl,?_⟩
    obtain ⟨total',ht',hfits⟩ := (Codec.emitMessage_fault_iff codec nonces.1 m).mp hnone
    have hof : codec.chunksOf nonces.1 m = codec.chunks nonces.1 m total' := by
      rw [Codec.chunksOf,ht']
    obtain ⟨u,hturns,hcopies,hneed⟩ := turns_copied codec hi hopen hwritable hchunk
      (hof ▸ hfits) hstart pattern hlong
    rw [copied_start herrand rfl] at hturns
    obtain ⟨hall,-,hdigest⟩ := hcopies.done hchunk hneed
    refine ⟨u,hturns.trans ?_,hneed,hdigest⟩
    have hlast : (codec.chunksOf nonces.1 m).take u.index = codec.chunksOf nonces.1 m := by
      have htotal := Except.ok.inj (ht'.symm.trans hcopies.count)
      refine List.take_of_length_le ?_
      rw [hof,Codec.length_chunks,hall,htotal]
    rw [copied,hlast]
  · have hfault : (codec.emitMessage nonces.1 m).fault = some error := by
      cases hfault : (codec.emitMessage nonces.1 m).fault with
      | none => simp [Codec.encode,hfault] at herror
      | some fault =>
        simp only [Codec.encode,hfault] at herror
        rw [Except.error.inj herror]
    obtain ⟨u,file,hturns⟩ := turns_refused codec hi hchunk hstart rfl
      (encodeChunk_of_fault hs hchunk ht hfault) pattern
      (by have hone := Limits.one_le_chunkCount hchunk hcount; omega)
    rw [setErrand_self herrand] at hturns
    exact ⟨u,file,hturns⟩
  · exact filter_of_run codec hchunk ht hfs h
  · exact run_framesOf codec hchunk ht hframe hsize hpartial hover

/-- A name that is longer than four chunks, and a file that is read byte by byte. -/
theorem turns_eq_encode_byte_by_byte :
    let limits : Limits := { chunkSize := 2 }
    let nonces : NonceSupply := ⟨fun _ => List.replicate 12 0,fun _ => rfl⟩
    let ticket : Ticket := ⟨3,0⟩
    let e : Endpoint := { establish "a" .initiator "b" 3 with
      errands := [.upload (.start "p" "notes.txt" ticket 16 8 5) .streaming] }
    let m := Upload.request ticket "notes.txt" [1,2,3,4,5]
    ∃ bytes u, turns ⟨limits,none⟩ nonces 0 (e,[1,2,3,4,5]) (List.replicate 13 1) =
        ((e.extend bytes (Codec.chunksOf ⟨limits,none⟩ nonces.1 m) none).setErrand 0
          (.upload u .streaming),[]) ∧
      u.digest = Sha256.hex [1,2,3,4,5] ∧
      (Codec.chunksOf ⟨limits,none⟩ nonces.1 m).map Chunk.piece =
        [[0,9],[110,111],[116,101],[115,46],[116,120],[116,1],[2,3],[4,5]] ∧
      Reassembler.run limits {} (Codec.framesOf ⟨limits,none⟩ nonces.1 m) = some ({},[m]) := by
  intro limits nonces ticket e m
  obtain ⟨-,hencodes,-,-,hfound,-⟩ := turns_eq_encode limits none nonces e 0 "p" "notes.txt" ticket
    [1,2,3,4,5] 8 (List.replicate 13 1) (by decide +kernel) (by decide) (by decide +kernel) rfl rfl rfl
    (by decide)
  have hnone : (Codec.emitMessage ⟨limits,none⟩ nonces.1 m).fault = none := by decide +kernel
  obtain ⟨-,u,hturns,-,hdigest⟩ := hencodes _ (Codec.encode_eq_ok_iff.mpr ⟨hnone,rfl⟩)
  exact ⟨_,u,hturns,hdigest,by decide +kernel,
    hfound (by decide) (by decide +kernel) (by decide) (by decide +kernel)⟩

end Endpoint
end Tether
