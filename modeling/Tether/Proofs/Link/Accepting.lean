import Tether.Proofs.Link.Refusing

/-! What becomes of a chunk that was let through, when it arrives. Both ends have the same limits, but the
sender only looks at the number of chunks, the length field and the size of a frame; the receiver besides
asks for the length of the message, the capacity of its chunks, and the number of messages that are half
received. It refuses a chunk for these reasons, and for no other. All this is told of a release build: where
products are checked, a capacity of 2^64 bytes or more stops the reader. -/
namespace Tether

open Reassembler

/-- What the receiver asks of the next chunk of a sender. -/
structure Welcome (codec : Codec) (r : Reassembler) (c : Chunk) : Prop where
  expressible : c.bodyLength codec < 2^32
  size : c.place.messageLength.toNat ≤ codec.limits.messageSize.toNat
  capacity : c.place.index = 0 → c.place.total ≠ 1 →
    ¬ codec.limits.Overflows c.place.messageLength.toNat
  room : c.place.index = 0 → c.place.total ≠ 1 → r.inProgress < codec.limits.partialMessages.toNat

/-- With frames of less than 2^32 bytes no field and no product wraps; what remains are the limits on the
length of a message and on the number of those that are half received. -/
theorem welcome_iff_of_small_frames {codec : Codec} (hchunk : 1 ≤ codec.limits.chunkSize.toNat)
    (hroom : codec.limits.chunkSize.toNat ≤ codec.limits.framePayload.toNat)
    (hsmall : codec.limits.framePayload.toNat < 2^32) {c : Chunk} (hc : c.Fits codec) (r : Reassembler) :
    Welcome codec r c ↔ c.place.messageLength.toNat ≤ codec.limits.messageSize.toNat ∧
      (c.place.index = 0 → c.place.total ≠ 1 → r.inProgress < codec.limits.partialMessages.toNat) := by
  constructor
  · exact fun h => ⟨h.size,h.room⟩
  · rintro ⟨hsize,hpartial⟩
    refine ⟨Nat.lt_of_le_of_lt hc hsmall,hsize,fun _ _ => Limits.not_overflows hchunk hroom ?_,hpartial⟩
    have hword := c.place.messageLength.toNat_lt
    have hneeded := codec.limits.needed_le hchunk c.place.messageLength.toNat
    calc codec.limits.needed c.place.messageLength.toNat*codec.limits.framePayload.toNat
        ≤ 2^32*codec.limits.framePayload.toNat := Nat.mul_le_mul_right _ (by omega)
      _ < 2^32*2^32 := Nat.mul_lt_mul_of_pos_left hsmall (by decide)
      _ = 2^64 := by decide

namespace Endpoint

variable {codec : Codec} {first : UInt32} {e w r : Endpoint} {n : Nat} {reassembler : Reassembler}

theorem reading_decode (hr : e.reading = true) : (e.decode codec).reading =
    match (e.inbound.decoder.next codec).2 with
    | .more => true
    | .fault _ => false
    | .frame f => match (e.inbound.reassembler.push codec.limits f).2 with
      | .ok _ => true
      | .error _ => false := by
  unfold decode
  rw [if_neg (by simp [hr])]
  rcases e.inbound.decoder.next codec with ⟨decoder,_ | frame | fault⟩
  · exact hr
  · simp only
    rcases e.inbound.reassembler.push codec.limits frame with ⟨reassembler,fault | _ | m⟩
    · rfl
    · exact hr
    · simp only [route]
      split <;> exact hr
  · rfl

theorem reading_decode_of_frame (hr : e.reading = true) {f : Frame}
    (hn : (e.inbound.decoder.next codec).2 = .frame f) : (e.decode codec).reading = true ↔
      ∃ r' out, e.inbound.reassembler.push codec.limits f = (r',.ok out) := by
  rw [reading_decode hr,hn]
  rcases hp : e.inbound.reassembler.push codec.limits f with ⟨r',fault | out⟩
  · simp [hp]
  · simp [hp]

/-- The receiver reads on as long as the next chunk of the sender is not there or welcome. -/
theorem Taken.reading_decode_iff (hk : codec.Keyed) (hchunk : 1 ≤ codec.limits.chunkSize.toNat)
    (hw : w.Speaking codec) (ha : w.Asking codec first) (hsendable : ∀ c ∈ w.sent, c.Sendable codec)
    (ht : Taken codec w r n reassembler) (hr : r.reading = true) :
    (r.decode codec).reading = true ↔ ∀ c, w.sent[n]? = some c →
      Decoder.Arrived codec c r.inbound.decoder.pending → Welcome codec r.inbound.reassembler c := by
  obtain ⟨hreassembler,hvalid,lost,hbytes,-⟩ := ht.going hr
  have hnext := (Decoder.next_parse hvalid).1
  rcases hc : w.sent[n]? with _ | c
  · -- everything that was sent has been taken in
    rw [List.drop_of_length_le (List.getElem?_eq_none_iff.mp hc),Codec.wires_nil,List.append_assoc,
      List.append_eq_nil_iff] at hbytes
    rw [hbytes.1] at hnext
    rw [reading_decode hr,hnext]
    exact ⟨fun _ c hnone => by simp at hnone,fun _ => rfl⟩
  · obtain ⟨hlt,hget⟩ := List.getElem?_eq_some_iff.mp hc
    have hsend := hsendable c (List.mem_of_getElem? hc)
    rw [List.drop_eq_getElem_cons hlt,hget,Codec.wires_cons,List.append_assoc] at hbytes
    have hsome : (∀ c', some c = some c' → Decoder.Arrived codec c' r.inbound.decoder.pending →
        Welcome codec r.inbound.reassembler c') ↔
          (Decoder.Arrived codec c r.inbound.decoder.pending →
            Welcome codec r.inbound.reassembler c) := by
      simp
    rw [hsome]
    by_cases harrived : Decoder.Arrived codec c r.inbound.decoder.pending
    · by_cases hlen : c.bodyLength codec < 2^32
      · rw [Decoder.parse_of_arrived hk hsend hlen hbytes harrived] at hnext
        have hseen := seen_empty.run ht.run
        rw [List.nil_append,← hreassembler] at hseen
        have hfollows := hw.follows hchunk ha hc hseen
        rw [reading_decode_of_frame hr hnext,hfollows.push_ok_iff]
        exact ⟨fun h _ => ⟨hlen,h.1,fun hi ht => (h.2 hi ht).1,fun hi ht => (h.2 hi ht).2⟩,
          fun h => ⟨(h harrived).size,fun hi ht => ⟨(h harrived).capacity hi ht,(h harrived).room hi ht⟩⟩⟩
      · obtain ⟨fault,hfault⟩ := Decoder.parse_of_long hk hsend hlen hbytes harrived
        rw [reading_decode hr,hnext,hfault]
        exact ⟨fun h => by simp at h,fun h => absurd (h harrived).expressible hlen⟩
    · rw [Decoder.parse_of_not_arrived hsend hbytes harrived] at hnext
      rw [reading_decode hr,hnext]
      exact ⟨fun _ h => absurd h harrived,fun _ => rfl⟩

end Endpoint

namespace Duplex

/-- Two ends with the same limits, of a configuration that passes its check, whatever they do. What either
of them says is let through or refused for its size alone, and a refusal spares everything else; and each
of them, after the chunks of the other that it has taken in, reads on exactly as long as the next one is
not there yet or is welcome. -/
theorem welcomed_of_run (limits : Limits) (key : Option PayloadKey) (name : Side → String)
    (role : Side → Role) (peerAddr : Side → String) (first : Side → UInt32) (acts : List Act) :
    let codec : Codec := ⟨limits,key.map Cipher.ofKey⟩
    let d := (establish name role peerAddr first).run codec acts
    limits.validate = .ok () → (∀ side, d.started side < 2^32) → ∀ side,
      (d side).Vets codec ∧ ((d side.other).reading = true → ∃ n,
        Endpoint.Taken codec (d side) (d side.other) n (d side.other).inbound.reassembler ∧
          (((d side.other).decode codec).reading = true ↔ ∀ c, (d side).sent[n]? = some c →
            Decoder.Arrived codec c (d side.other).inbound.decoder.pending →
              Welcome codec (d side.other).inbound.reassembler c)) := by
  intro codec d hvalid hfew side
  have hk : codec.Keyed := by
    intro cipher hc
    obtain ⟨k,-,rfl⟩ := Option.map_eq_some_iff.mp hc
    exact ⟨k,rfl⟩
  have hp : codec.limits.Passed := Limits.passed_of_validate hvalid
  have h₀ := honest_establish codec name role peerAddr first
  have hd : d.Honest codec first fun _ _ => False := h₀.run hk acts (fun _ _ hc => absurd hc id) hfew
  have hspeaking := h₀.speaking_run hk hp.chunk
    (fun s => Endpoint.speaking_establish codec (name s) (role s) (peerAddr s) (first s)) acts hfew
  have ha := hd.asking side
  refine ⟨(hspeaking side).vets ha (hfew side) hk.sound hp,fun hr => ?_⟩
  obtain ⟨n,reassembler,ht⟩ := (hd.carried side).taken
  obtain rfl := (ht.going hr).1
  exact ⟨n,ht,ht.reading_decode_iff hk hp.chunk (hspeaking side) ha (hd.carried side).sendable hr⟩

/-- The first chunk of an upload has been taken in, and a call that was written behind it is next. -/
theorem welcomed_of_run_interleaved :
    let codec : Codec := ⟨{ chunkSize := 2, framePayload := 30, messageSize := 6, partialMessages := 2 },none⟩
    let supply : NonceSupply := ⟨fun _ => List.replicate 12 0,fun _ => rfl⟩
    let acts : List Act :=
      [.own .left (.ready "right"),.own .right (.ready "left"),.own .left (.upload "f" "f" 3),
        .own .left (.write 0 supply none),.own .left (.call .echo [5]),.own .left (.write 1 supply none),
        .carry .left 63,.own .right .decode]
    let d := (establish (fun _ => "own") (fun _ => .initiator) (fun _ => "address") fun _ => 7).run codec acts
    (d .right).inbound.reassembler.inProgress = 1 ∧ ((d .right).decode codec).reading = true := by
  intro codec supply acts d
  have hsent : ∀ c ∈ (d .left).sent, c.bodyLength codec < 2^32 ∧
      c.place.messageLength.toNat ≤ codec.limits.messageSize.toNat ∧
        ¬ codec.limits.Overflows c.place.messageLength.toNat := by decide +kernel
  have hroom : (d .right).inbound.reassembler.inProgress = 1 := by decide +kernel
  obtain ⟨-,hreads⟩ := welcomed_of_run codec.limits none (fun _ => "own") (fun _ => .initiator)
    (fun _ => "address") (fun _ => 7) acts (by decide) (fun side => by cases side <;> decide +kernel) .left
  obtain ⟨n,-,hiff⟩ := hreads (by decide +kernel)
  refine ⟨hroom,hiff.mpr fun c hc _ => ?_⟩
  obtain ⟨hlen,hsize,hcapacity⟩ := hsent c (List.mem_of_getElem? hc)
  exact ⟨hlen,hsize,fun _ _ => hcapacity,fun _ _ => hroom.symm ▸ by decide⟩

/-- A call of one byte more than the limit of both ends is let through. The other end refuses it, and the
call that was waiting for its reply is lost with the link. -/
theorem refused_of_long_call :
    let codec : Codec := ⟨{ messageSize := 100 },none⟩
    let supply : NonceSupply := ⟨fun _ => List.replicate 12 0,fun _ => rfl⟩
    let data : List UInt8 := List.replicate 101 0
    let acts : List Act :=
      [.own .left (.ready "right"),.own .right (.ready "left"),.own .left (.call .string [1]),
        .own .left (.write 0 supply none),.own .left (.call .echo data),.own .left (.write 1 supply none)]
    let later : List Act :=
      [.carry .left 162,.own .right .decode,.own .right .decode,.own .right (.proceed 0),
        .own .left (.stop "connection closed by peer"),.own .left (.proceed 0),.own .left (.proceed 0),
        .own .left (.proceed 0),.own .left (.collect 0)]
    let d := (establish (fun _ => "own") (fun _ => .initiator) (fun _ => "address") fun _ => 7).run codec acts
    let d' := d.run codec later
    codec.limits.validate = .ok () ∧
      (d .left).errands[1]? = some (.call ⟨8,1⟩ .echo data .sent) ∧ (d' .right).reading = false ∧
      (d' .right).session.link.closeReason =
        some "protocol error: message of 101 bytes exceeds limit 100" ∧
      (d' .left).errands[0]? =
        some (.call ⟨7,0⟩ .string [1] (.ended (.error (.lost "connection closed by peer")))) := by
  decide +kernel

end Duplex
end Tether
