import Tether.Proofs.Link.Asking

/-! The stream from one endpoint to the other. The reader has taken in a first part of the chunks that
the writer put on the stream, and the rest of them is on its way; so the messages that were found under
one key are those of a first part of what was said under that key. -/
namespace Tether

/-- The payloads are sealed under a key, or not at all. -/
def Codec.Keyed (codec : Codec) : Prop :=
  ∀ cipher, codec.cipher = some cipher → ∃ key, cipher = .ofKey key

theorem Codec.Keyed.sound {codec : Codec} (h : codec.Keyed) : codec.Sound := by
  intro cipher hc
  obtain ⟨key,rfl⟩ := h cipher hc
  exact Cipher.ofKey_sound key

variable {codec : Codec}

namespace Decoder

theorem openPayload_of_short (hk : codec.Keyed) {cipher : Cipher} (hc : codec.cipher = some cipher)
    {header : Header} (he : header.flags.encrypted = true) {raw : List UInt8}
    (hraw : raw.length < Cipher.overhead) :
    codec.openPayload header raw = .error (.sealedPayload (.tooShort raw.length)) := by
  obtain ⟨key,rfl⟩ := hk cipher hc
  simp [Codec.openPayload,hc,he,Cipher.ofKey,hraw,Except.mapError]

/-- The bytes at hand hold all that the header of a chunk tells of. -/
def Arrived (codec : Codec) (c : Chunk) (bytes : List UInt8) : Prop :=
  Header.size + (c.frame codec).header.payloadLength.toNat ≤ bytes.length

section Front

variable {c : Chunk} {bytes later rest : List UInt8}

theorem length_payload_le (hc : c.Sendable codec) :
    (c.frame codec).header.payloadLength.toNat ≤ codec.limits.framePayload.toNat := by
  rw [Chunk.toNat_payloadLength]
  exact (Nat.mod_le ..).trans hc.fits

theorem exists_eq_encode_append (h : bytes ++ later = c.wire codec ++ rest)
    (hsize : Header.size ≤ bytes.length) : ∃ front, bytes = (c.frame codec).header.encode ++ front ∧
      front ++ later = codec.body c.nonce c.piece ++ rest := by
  rw [Chunk.wire,List.append_assoc,List.append_eq_append_iff] at h
  rcases h with ⟨extra,hextra,hrest⟩ | ⟨front,rfl,hrest⟩
  · have hlen := congrArg List.length hextra
    rw [List.length_append,Header.length_encode] at hlen
    obtain rfl := List.length_eq_zero_iff.mp (show extra.length = 0 by omega)
    exact ⟨[],by simpa using hextra.symm,by simpa using hrest⟩
  · exact ⟨front,rfl,hrest.symm⟩

theorem parse_of_not_arrived (hc : c.Sendable codec) (h : bytes ++ later = c.wire codec ++ rest)
    (hshort : ¬ Arrived codec c bytes) : parse codec bytes = (.more,bytes) := by
  by_cases hsize : bytes.length < Header.size
  · rw [parse,if_pos hsize]
  · obtain ⟨front,rfl,-⟩ := exists_eq_encode_append h (Nat.not_lt.mp hsize)
    rw [Arrived,List.length_append,Header.length_encode] at hshort
    rw [parse_encode codec _ _ (decode_chunkHeader codec c hc.place) (length_payload_le hc),
      parsePayload,if_pos (by omega)]

theorem parse_of_arrived (hk : codec.Keyed) (hc : c.Sendable codec)
    (hlen : c.bodyLength codec < 2^32) (h : bytes ++ later = c.wire codec ++ rest)
    (harrived : Arrived codec c bytes) : (parse codec bytes).1 = .frame (c.frame codec) := by
  rw [Arrived,Chunk.toNat_payloadLength,Nat.mod_eq_of_lt hlen] at harrived
  have hwire : (c.wire codec).length = Header.size + c.bodyLength codec := by
    rw [Chunk.wire,List.length_append,Header.length_encode]
    rfl
  have hfront : bytes = c.wire codec ++ bytes.drop (c.wire codec).length := by
    have htake := congrArg (List.take (c.wire codec).length) h
    rw [List.take_append_of_le_length (by omega),List.take_left'] at htake
    · conv_lhs => rw [← List.take_append_drop (c.wire codec).length bytes,htake]
    · rfl
  rw [hfront,parse_wire codec hk.sound c ⟨hc.fits,hc.nonce,hc.place,hlen⟩]

/-- A sealed chunk that is too long for its length field seems shorter than any sealed chunk is. -/
theorem parse_of_long (hk : codec.Keyed) (hc : c.Sendable codec)
    (hlong : ¬ c.bodyLength codec < 2^32) (h : bytes ++ later = c.wire codec ++ rest)
    (harrived : Arrived codec c bytes) : ∃ fault, (parse codec bytes).1 = .fault fault := by
  obtain ⟨cipher,hcipher⟩ : ∃ cipher, codec.cipher = some cipher := by
    rw [← Option.ne_none_iff_exists']
    intro hnone
    have hplain : c.bodyLength codec = c.piece.length := by
      simp [Chunk.bodyLength,Codec.body,hnone]
    exact hlong (hplain ▸ hc.piece)
  have hsealed : c.bodyLength codec = c.piece.length + Cipher.overhead := by
    have hlength := (hk.sound cipher hcipher).length_seal c.nonce c.piece hc.nonce
    simpa [Chunk.bodyLength,Codec.body,hcipher] using hlength
  have hencrypted : (c.frame codec).header.flags.encrypted = true := by
    simp [Chunk.frame,Codec.chunkHeader,hcipher]
  have hpiece := hc.piece
  have hover : Cipher.overhead = 28 := rfl
  have hfield : (c.frame codec).header.payloadLength.toNat < Cipher.overhead := by
    rw [Chunk.toNat_payloadLength]
    omega
  obtain ⟨front,rfl,-⟩ := exists_eq_encode_append h (Nat.le_of_add_right_le harrived)
  rw [Arrived,List.length_append,Header.length_encode] at harrived
  rw [parse_encode codec _ _ (decode_chunkHeader codec c hc.place) (length_payload_le hc),parsePayload,
    if_neg (by omega),openPayload_of_short hk hcipher hencrypted (by rw [List.length_take]; omega)]
  exact ⟨_,rfl⟩

end Front

theorem arrived_wire (codec : Codec) (c : Chunk) (rest : List UInt8) :
    Arrived codec c (c.wire codec ++ rest) := by
  have hmod := Nat.mod_le (c.bodyLength codec) (2^32)
  rw [Arrived,Chunk.toNat_payloadLength,Chunk.wire,List.length_append,List.length_append,Header.length_encode]
  change _ ≤ Header.size + c.bodyLength codec + rest.length
  omega

theorem frame_of_parse_wire (hk : codec.Keyed) {c : Chunk} (hc : c.Sendable codec) {f : Frame}
    {rest last : List UInt8} (h : parse codec (c.wire codec ++ rest) = (.frame f,last)) :
    f = c.frame codec ∧ last = rest := by
  by_cases hlen : c.bodyLength codec < 2^32
  · have hparse := parse_wire codec hk.sound c ⟨hc.fits,hc.nonce,hc.place,hlen⟩ rest
    rw [hparse,Prod.mk.injEq,Decoded.frame.injEq] at h
    exact ⟨h.1.symm,h.2.symm⟩
  · obtain ⟨fault,hfault⟩ := parse_of_long hk hc hlen (List.append_nil _) (arrived_wire codec c rest)
    rw [h] at hfault
    simp at hfault

theorem parse_wire_ne_more (hk : codec.Keyed) {c : Chunk} (hc : c.Sendable codec) (rest : List UInt8) :
    (parse codec (c.wire codec ++ rest)).1 ≠ .more := by
  by_cases hlen : c.bodyLength codec < 2^32
  · rw [parse_wire codec hk.sound c ⟨hc.fits,hc.nonce,hc.place,hlen⟩ rest]
    simp
  · obtain ⟨fault,hfault⟩ := parse_of_long hk hc hlen (List.append_nil _) (arrived_wire codec c rest)
    simp [hfault]

end Decoder

namespace Codec

/-- A first part of the chunks of a message gives the message or nothing. -/
theorem track_of_prefix {nonces : Nonces} {m : Message} {cs : List Chunk}
    (h : cs <+: codec.chunksOf nonces m) :
    (Reassembler.track none (cs.map (Chunk.frame codec))).2 = [] ∨
      (Reassembler.track none (cs.map (Chunk.frame codec))).2 = [m] := by
  obtain ⟨rest,hrest⟩ := h
  cases ht : codec.limits.chunkCount m.payload.length with
  | error fault =>
    simp only [chunksOf,ht,List.append_eq_nil_iff] at hrest
    simp [hrest.1,Reassembler.track]
  | ok total =>
    have hframes := congrArg (List.map (Chunk.frame codec)) hrest
    rw [frames_chunksOf ht,List.map_append] at hframes
    by_cases hone : 1 ≤ total.toNat
    · have hlen : m.payload.length ≤ codec.limits.chunkSize.toNat*total.toNat := by
        by_cases hchunk : 1 ≤ codec.limits.chunkSize.toNat
        · exact Limits.length_le_chunkCount hchunk ht
        · -- without a chunk size only the empty message has a chunk
          have hzero : codec.limits.chunkSize.toNat = 0 := by omega
          have hneeded := Limits.toNat_chunkCount ht
          by_cases hempty : m.payload.length = 0
          · omega
          · simp only [Limits.needed,hempty,if_false,hzero,Nat.div_zero] at hneeded
            omega
      have htrack := Reassembler.track_frames codec nonces m total hone hlen
      rw [← hframes,Reassembler.track_append,Prod.mk.injEq] at htrack
      rcases List.append_eq_singleton_iff.mp htrack.2 with ⟨hfirst,-⟩ | ⟨hfirst,-⟩
      · exact .inl hfirst
      · exact .inr hfirst
    · have hnone : total.toNat = 0 := by omega
      simp only [frames,chunks,hnone,cut,chunksFrom,List.map_nil,List.append_eq_nil_iff] at hframes
      simp [hframes.1,Reassembler.track]

end Codec

namespace Endpoint

variable {move : Move} {e e' w w' r r' : Endpoint}

/-- What a step puts on the stream. Only a write that is the last one may lose bytes. -/
theorem Step.writes (h : Step codec move e e') :
    (e'.sent = e.sent ∧ e'.outgoing = e.outgoing ∧ (e'.writable = true → e.writable = true)) ∨
    ∃ chunks lost, e.writable = true ∧ (∀ c ∈ chunks, c.Sendable codec) ∧
      e'.sent = e.sent ++ chunks ∧ e'.outgoing ++ lost = e.outgoing ++ codec.wires chunks ∧
      (e'.writable = true → lost = []) := by
  have hextend : ∀ (chunks : List Chunk) (tear : Option Tear), ∃ lost,
      (e.extend (codec.wires chunks) chunks tear).outgoing ++ lost = e.outgoing ++ codec.wires chunks ∧
        ((e.extend (codec.wires chunks) chunks tear).writable = true → lost = []) := by
    intro chunks tear
    rcases tear with _ | ⟨kept,fault⟩
    · exact ⟨[],List.append_nil _,fun _ => rfl⟩
    · refine ⟨(codec.wires chunks).drop kept,?_,fun hw => by simp [extend] at hw⟩
      simp only [extend,List.append_assoc,List.take_append_drop]
  cases h with
  | shut => exact .inl ⟨rfl,rfl,fun hw => by simp at hw⟩
  | wrote i x y acts chunks tear hx ha hacts ho hs =>
    obtain ⟨lost,hout,hlost⟩ := hextend chunks tear
    exact .inr ⟨chunks,lost,ho.2,hs,sent_extend ..,hout,hlost⟩
  | found decoder reassembler frame m =>
    unfold route
    split <;> exact .inl ⟨rfl,rfl,id⟩
  | replied k request b reply nonces tear hk ho hf =>
    obtain ⟨lost,hout,hlost⟩ := hextend (codec.chunksOf nonces.1 (reply.message request.counter)) tear
    exact .inr ⟨_,lost,ho.2,Codec.sendable_of_mem_chunksOf hf,sent_extend ..,hout,hlost⟩
  | _ => exact .inl ⟨rfl,rfl,id⟩

inductive Reads (codec : Codec) (e e' : Endpoint) : Prop
  | none : e'.routed = e.routed →
    (e'.reading = true → e.reading = true ∧ e'.inbound = e.inbound) → Reads codec e e'
  | more (decoder : Decoder) : e.reading = true → e.inbound.decoder.next codec = (decoder,.more) →
    e'.routed = e.routed → e'.inbound = { e.inbound with decoder } → Reads codec e e'
  | frame (decoder : Decoder) (reassembler : Reassembler) (frame : Frame) (out : Option Message) :
    e.reading = true → e.inbound.decoder.next codec = (decoder,.frame frame) →
    e.inbound.reassembler.push codec.limits frame = (reassembler,.ok out) →
    e'.routed = e.routed ++ out.toList → e'.inbound = ⟨decoder,reassembler⟩ → Reads codec e e'

theorem Step.reads (h : Step codec move e e') : Reads codec e e' := by
  cases h with
  | wrote i x y acts chunks tear =>
    refine .none (routed_extend ..) fun hr => ⟨?_,inbound_extend ..⟩
    exact (reading_extend e (codec.wires chunks) chunks tear).symm.trans hr
  | waited decoder hr hn => exact .more decoder hr hn rfl rfl
  | took decoder reassembler frame hr hn hp =>
    exact .frame decoder reassembler frame none hr hn hp (List.append_nil _).symm rfl
  | found decoder reassembler frame m hr hn hp =>
    unfold route
    split <;> exact .frame decoder reassembler frame (some m) hr hn hp rfl rfl
  | stopped inbound reason => exact .none rfl fun hr => by simp [stop] at hr
  | replied k request b reply nonces tear =>
    refine .none (routed_extend ..) fun hr => ⟨?_,inbound_extend ..⟩
    exact (reading_extend e _ _ tear).symm.trans hr
  | _ => exact .none rfl fun hr => ⟨hr,rfl⟩

/-- What the writer has put on the stream after its first `n` chunks is on its way, apart from what was
lost with the last write. -/
structure Underway (codec : Codec) (w r : Endpoint) (n : Nat) : Prop where
  valid : r.inbound.decoder.Valid codec
  bytes : ∃ lost, r.inbound.decoder.pending ++ w.outgoing ++ lost = codec.wires (w.sent.drop n) ∧
    (w.writable = true → lost = [])

/-- The reader has taken in the first `n` chunks of the writer, and for as long as it reads it goes on
from there. -/
structure Taken (codec : Codec) (w r : Endpoint) (n : Nat) (reassembler : Reassembler) : Prop where
  le : n ≤ w.sent.length
  run : Reassembler.run codec.limits {} ((w.sent.take n).map (Chunk.frame codec)) =
    some (reassembler,r.routed)
  going : r.reading = true → r.inbound.reassembler = reassembler ∧ Underway codec w r n

structure Carried (codec : Codec) (w r : Endpoint) : Prop where
  sendable : ∀ c ∈ w.sent, c.Sendable codec
  taken : ∃ n reassembler, Taken codec w r n reassembler

theorem Carried.write (h : Carried codec w r) (hs : Step codec move w w') : Carried codec w' r := by
  obtain ⟨n,reassembler,ht⟩ := h.taken
  rcases hs.writes with ⟨hsent,hout,hwritable⟩ | ⟨chunks,lost,hw,hnew,hsent,hout,hlost⟩
  · refine ⟨hsent ▸ h.sendable,n,reassembler,hsent ▸ ht.le,hsent ▸ ht.run,fun hr => ?_⟩
    obtain ⟨hreassembler,hvalid,lost,hbytes,hlost⟩ := ht.going hr
    exact ⟨hreassembler,hvalid,lost,by rw [hout,hsent]; exact hbytes,fun hw => hlost (hwritable hw)⟩
  · refine ⟨fun c hc => ?_,n,reassembler,?_,?_,fun hr => ?_⟩
    · rw [hsent] at hc
      exact (List.mem_append.mp hc).elim (h.sendable c) (hnew c)
    · rw [hsent,List.length_append]
      exact ht.le.trans (Nat.le_add_right ..)
    · rw [hsent,List.take_append_of_le_length ht.le]
      exact ht.run
    · obtain ⟨hreassembler,hvalid,lost',hbytes,hlost'⟩ := ht.going hr
      obtain rfl := hlost' hw
      refine ⟨hreassembler,hvalid,lost,?_,hlost⟩
      rw [List.append_nil] at hbytes
      rw [List.append_assoc,hout,← List.append_assoc,hbytes,hsent,
        List.drop_append_of_le_length ht.le,Codec.wires_append]

/-- One more frame of the stream is that of the next chunk. -/
theorem Taken.frame {n : Nat} {reassembler reassembler' : Reassembler} (hk : codec.Keyed)
    (hsendable : ∀ c ∈ w.sent, c.Sendable codec) (ht : Taken codec w r n reassembler)
    (hr : r.reading = true) {decoder : Decoder} {frame : Frame} {out : Option Message}
    (hn : r.inbound.decoder.next codec = (decoder,.frame frame))
    (hp : r.inbound.reassembler.push codec.limits frame = (reassembler',.ok out))
    (hrouted : r'.routed = r.routed ++ out.toList) (hinbound : r'.inbound = ⟨decoder,reassembler'⟩) :
    Taken codec w r' (n + 1) reassembler' := by
  obtain ⟨rfl,hvalid,lost,hbytes,hlost⟩ := ht.going hr
  have hnext := Decoder.next_parse hvalid
  rw [hn] at hnext
  obtain ⟨hfound,hrest,hvalid'⟩ := hnext
  have hparse := Decoder.parse_append (Prod.ext hfound.symm hrest.symm) (by simp) (w.outgoing ++ lost)
  rw [← List.append_assoc,hbytes] at hparse
  cases hdrop : w.sent.drop n with
  | nil =>
    rw [hdrop,Codec.wires_nil] at hparse
    simp [Decoder.parse,Header.size] at hparse
  | cons c rest =>
    have hlt : n < w.sent.length := by
      by_contra hge
      rw [List.drop_of_length_le (Nat.not_lt.mp hge)] at hdrop
      simp at hdrop
    rw [List.drop_eq_getElem_cons hlt,List.cons.injEq] at hdrop
    obtain ⟨rfl,hdrop⟩ := hdrop
    rw [List.drop_eq_getElem_cons hlt,Codec.wires_cons] at hparse
    obtain ⟨rfl,hlast⟩ := Decoder.frame_of_parse_wire hk (hsendable _ (List.getElem_mem hlt)) hparse
    refine ⟨hlt,?_,fun _ => ?_⟩
    · rw [List.take_succ_eq_append_getElem hlt,List.map_append,Reassembler.run_append_eq_some_iff]
      refine ⟨_,_,out.toList,ht.run,?_,hrouted⟩
      exact (Reassembler.run_cons_eq_some_iff ..).mpr ⟨_,out,[],hp,rfl,(List.append_nil _).symm⟩
    · refine ⟨by rw [hinbound],by rw [hinbound]; exact hvalid',lost,?_,hlost⟩
      rw [hinbound,List.append_assoc]
      exact hlast

theorem Carried.read (hk : codec.Keyed) (h : Carried codec w r) (hs : Step codec move r r') :
    Carried codec w r' := by
  obtain ⟨n,reassembler,ht⟩ := h.taken
  refine ⟨h.sendable,?_⟩
  cases hs.reads with
  | none hrouted hgoing =>
    refine ⟨n,reassembler,ht.le,hrouted ▸ ht.run,fun hr => ?_⟩
    obtain ⟨hr₀,hinbound⟩ := hgoing hr
    obtain ⟨hreassembler,hvalid,hbytes⟩ := ht.going hr₀
    exact ⟨hinbound ▸ hreassembler,by rw [hinbound]; exact hvalid,by rw [hinbound]; exact hbytes⟩
  | more decoder hr hn hrouted hinbound =>
    refine ⟨n,reassembler,ht.le,hrouted ▸ ht.run,fun _ => ?_⟩
    obtain ⟨hreassembler,hvalid,hbytes⟩ := ht.going hr
    have hnext := Decoder.next_parse hvalid
    rw [hn] at hnext
    obtain ⟨hfound,hrest,hvalid'⟩ := hnext
    have hsame : decoder.pending = r.inbound.decoder.pending :=
      hrest.trans (Decoder.parse_more (Prod.ext hfound.symm rfl))
    refine ⟨by rw [hinbound]; exact hreassembler,by rw [hinbound]; exact hvalid',?_⟩
    rw [hinbound,hsame]
    exact hbytes
  | frame decoder reassembler' frame out hr hn hp hrouted hinbound =>
    exact ⟨n + 1,reassembler',ht.frame hk h.sendable hr hn hp hrouted hinbound⟩

theorem Carried.carry (h : Carried codec w r) (k : Nat) :
    Carried codec { w with outgoing := w.outgoing.drop k } (r.feed (w.outgoing.take k)) := by
  obtain ⟨n,reassembler,ht⟩ := h.taken
  refine ⟨h.sendable,n,reassembler,ht.le,ht.run,fun hr => ?_⟩
  obtain ⟨hreassembler,hvalid,lost,hbytes,hlost⟩ := ht.going hr
  refine ⟨hreassembler,hvalid.feed _,lost,?_,hlost⟩
  simp only [feed,Decoder.pending_feed,List.append_assoc,List.take_append_drop]
  rwa [List.append_assoc] at hbytes

theorem Carried.exists_prefix (h : Carried codec w r) (key : ChunkKey) : ∃ cs, cs <+: w.said key ∧
    r.routed.filter (·.key == key) = (Reassembler.track none (cs.map (Chunk.frame codec))).2 := by
  obtain ⟨n,reassembler,ht⟩ := h.taken
  have htrack := Reassembler.track_of_run codec.limits ht.run key
  rw [List.filter_map] at htrack
  exact ⟨_,(List.take_prefix n w.sent).filter _,(congrArg Prod.snd htrack).symm⟩

theorem Carried.found_nil (h : Carried codec w r) {key : ChunkKey} (hsaid : w.said key = []) :
    r.routed.filter (·.key == key) = [] := by
  obtain ⟨cs,hpart,hfound⟩ := h.exists_prefix key
  rw [hsaid,List.prefix_nil] at hpart
  rw [hfound,hpart]
  rfl

theorem Carried.found_message (h : Carried codec w r) {nonces : Nonces} {key : ChunkKey} {m : Message}
    (hsaid : w.said key = codec.chunksOf nonces m) :
    r.routed.filter (·.key == key) = [] ∨ r.routed.filter (·.key == key) = [m] := by
  obtain ⟨cs,hpart,hfound⟩ := h.exists_prefix key
  rw [hfound]
  exact Codec.track_of_prefix (hsaid ▸ hpart)

end Endpoint
end Tether
