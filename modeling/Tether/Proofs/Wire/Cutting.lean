import Tether.Link.Inbound
import Tether.Proofs.Wire.Draining

/-! A stream that is cut into pieces, whatever its bytes are. Between two pieces the decoder keeps a
header apart as soon as its thirty bytes are there, so its state is a function of the bytes that are
pending. What two ways to cut a stream make of it can then be compared through the one way in which the
whole of it is drained, and every byte is accounted for. -/
namespace Tether

/-- A header that the decoder goes on with. -/
structure Header.Admitted (codec : Codec) (h : Header) : Prop where
  genuine : Header.decode h.encode = .ok h
  fits : h.payloadLength.toNat ≤ codec.limits.framePayload.toNat

namespace Decoder

variable {codec : Codec}

/-! ### One state for what is pending -/

/-- No whole header lies about undecoded. -/
def Settled (d : Decoder) : Prop := d.header = none → d.unread.length < Header.size

theorem settled_some (h : Header) (bytes : List UInt8) : (⟨some h,bytes⟩ : Decoder).Settled :=
  fun hn => by simp at hn

theorem settled_empty : ({} : Decoder).Settled := fun _ => by simp [Header.size]

theorem takePayload_more {header : Header} {unread : List UInt8} {d : Decoder}
    (h : takePayload codec header unread = (d,.more)) : d.Settled := by
  simp only [takePayload,List.splitAt_eq] at h
  split at h
  · obtain rfl := (Prod.mk.inj h).1
    exact settled_some header unread
  · split at h <;> simp at h

theorem next_more {d d' : Decoder} (h : next codec d = (d',.more)) : d'.Settled := by
  rcases d with ⟨header,unread⟩
  cases header with
  | some header => exact takePayload_more h
  | none =>
    simp only [next,List.splitAt_eq] at h
    split at h
    · rename_i hshort
      obtain rfl := (Prod.mk.inj h).1
      intro _
      rw [List.length_take] at hshort
      exact (min_lt_iff.mp hshort).resolve_left (lt_irrefl _)
    · split at h
      · simp at h
      · split at h
        · simp at h
        · exact takePayload_more h

theorem drainOnto_settled (found : List Frame) (d : Decoder) (fuel : Nat) (hv : d.Valid codec)
    (hfuel : d.pending.length < Header.size*fuel) (hnone : (drainOnto codec found d fuel).2.2 = none) :
    (drainOnto codec found d fuel).1.Settled := by
  induction fuel generalizing found d with
  | zero => simp at hfuel
  | succ fuel ih =>
    obtain ⟨hfound,hrest,hvalid⟩ := next_parse hv
    have hp : parse codec d.pending = ((next codec d).2,(next codec d).1.pending) :=
      Prod.ext hfound.symm hrest.symm
    rw [drainOnto] at hnone ⊢
    rcases hn : next codec d with ⟨d',decoded⟩
    rw [hn] at hp hvalid hnone
    cases decoded with
    | more => exact next_more hn
    | fault fault => simp at hnone
    | frame frame =>
      have hless := length_parse_frame hp
      simp only [Header.size] at hfuel hless
      exact ih (frame :: found) d' hvalid (by simp only [Header.size]; omega) hnone

theorem length_pending_lt (d : Decoder) : d.pending.length < Header.size*d.steps := by
  have hlen : d.pending.length ≤ Header.size + d.unread.length := by
    rcases d with ⟨header,unread⟩
    cases header <;> simp [pending]
  simp only [steps,Header.size] at hlen ⊢
  omega

theorem drain_settled (d : Decoder) (hv : d.Valid codec) (hnone : (drain codec d).2.2 = none) :
    (drain codec d).1.Settled :=
  drainOnto_settled [] d d.steps hv d.length_pending_lt hnone

/-- A settled decoder is told by what is pending. -/
theorem eq_of_pending {d d' : Decoder} (hv : d.Valid codec) (hv' : d'.Valid codec) (hs : d.Settled)
    (hs' : d'.Settled) (h : d.pending = d'.pending) : d = d' := by
  rcases d with ⟨header,unread⟩
  rcases d' with ⟨header',unread'⟩
  have hlen := congrArg List.length h
  cases header with
  | none =>
    cases header' with
    | none => exact congrArg (Decoder.mk none) h
    | some h' =>
      have hshort := hs rfl
      simp only [pending_none,pending_some,List.length_append,Header.length_encode] at hlen hshort
      omega
  | some g =>
    cases header' with
    | none =>
      have hshort := hs' rfl
      simp only [pending_none,pending_some,List.length_append,Header.length_encode] at hlen hshort
      omega
    | some g' =>
      simp only [pending_some] at h
      obtain ⟨hbytes,rfl⟩ := List.append_inj h (by simp only [Header.length_encode])
      have hdecode := (hv g rfl).1
      rw [hbytes,(hv' g' rfl).1] at hdecode
      rw [Except.ok.inj hdecode]

/-! ### Where the bytes go -/

/-- The bytes that frames were made of, one after the other. -/
inductive Spells (codec : Codec) : List Frame → List UInt8 → Prop
  | nil : Spells codec [] []
  | cons {frame : Frame} {raw bytes : List UInt8} {frames : List Frame} :
    frame.header.Admitted codec → raw.length = frame.header.payloadLength.toNat →
    codec.openPayload frame.header raw = .ok frame.payload → Spells codec frames bytes →
    Spells codec (frame :: frames) (frame.header.encode ++ raw ++ bytes)

/-- The bytes that are used up without a frame when the decoder stops: none if there are not enough or
a header is wrong, and a whole frame if its payload is refused. -/
inductive Wastes (codec : Codec) : Option ProtocolFault → List UInt8 → Prop
  | more : Wastes codec none []
  | header (fault : ProtocolFault) : Wastes codec (some fault) []
  | payload {header : Header} {raw : List UInt8} {fault : ProtocolFault} :
    header.Admitted codec → raw.length = header.payloadLength.toNat →
    codec.openPayload header raw = .error fault → Wastes codec (some fault) (header.encode ++ raw)

theorem Spells.length_eq {frames : List Frame} {bytes : List UInt8} (h : Spells codec frames bytes) :
    bytes.length = (frames.map Inbound.frameSize).sum := by
  induction h with
  | nil => rfl
  | cons _ hraw _ _ ih =>
    simp only [List.length_append,Header.length_encode,hraw,ih,List.map_cons,List.sum_cons,
      Inbound.frameSize]

/-- All that can come of the bytes: they are left as they are, or a frame is cut off and its payload
decides. -/
theorem parse_cases {bytes rest : List UInt8} {found : Decoded} (h : parse codec bytes = (found,rest)) :
    (rest = bytes ∧ ∀ frame, found ≠ .frame frame) ∨
    ∃ header raw, header.Admitted codec ∧ raw.length = header.payloadLength.toNat ∧
      bytes = header.encode ++ raw ++ rest ∧
      ((∃ payload, codec.openPayload header raw = .ok payload ∧ found = .frame ⟨header,payload⟩) ∨
        ∃ fault, codec.openPayload header raw = .error fault ∧ found = .fault fault) := by
  unfold parse at h
  split at h
  · obtain ⟨rfl,rfl⟩ := Prod.mk.inj h
    exact .inl ⟨rfl,by simp⟩
  · rename_i hsize
    have htake : (bytes.take Header.size).length = Header.size := by
      rw [List.length_take]
      omega
    split at h
    · obtain ⟨rfl,rfl⟩ := Prod.mk.inj h
      exact .inl ⟨rfl,by simp⟩
    · rename_i header hd
      obtain ⟨hencode,-⟩ := Header.encode_decode htake hd
      split at h
      · obtain ⟨rfl,rfl⟩ := Prod.mk.inj h
        exact .inl ⟨rfl,by simp⟩
      · rename_i hover
        have hadmitted : header.Admitted codec := ⟨by rw [hencode,hd],Nat.not_lt.mp hover⟩
        unfold parsePayload at h
        split at h
        · obtain ⟨rfl,rfl⟩ := Prod.mk.inj h
          exact .inl ⟨by rw [hencode,List.take_append_drop],by simp⟩
        · rename_i hshort
          refine .inr ⟨header,(bytes.drop Header.size).take header.payloadLength.toNat,hadmitted,?_,?_⟩
          · rw [List.length_take]
            omega
          · have hwhole (tail : List UInt8)
                (ht : (bytes.drop Header.size).drop header.payloadLength.toNat = tail) :
                bytes = header.encode ++ (bytes.drop Header.size).take header.payloadLength.toNat ++
                  tail := by
              rw [← ht,hencode,List.append_assoc,List.take_append_drop,List.take_append_drop]
            split at h
            · rename_i payload hopen
              obtain ⟨rfl,hrest⟩ := Prod.mk.inj h
              exact ⟨hwhole rest hrest,.inl ⟨payload,hopen,rfl⟩⟩
            · rename_i fault hopen
              obtain ⟨rfl,hrest⟩ := Prod.mk.inj h
              exact ⟨hwhole rest hrest,.inr ⟨fault,hopen,rfl⟩⟩

theorem Drains.accounts {bytes last : List UInt8} {frames : List Frame} {fault : Option ProtocolFault}
    (h : Drains codec bytes frames fault last) :
    ∃ used wasted, bytes = used ++ wasted ++ last ∧ Spells codec frames used ∧
      Wastes codec fault wasted := by
  induction h with
  | more hp =>
    obtain rfl := parse_more hp
    exact ⟨[],[],rfl,.nil,.more⟩
  | @fault bytes rest fault hp =>
    rcases parse_cases hp with ⟨rfl,-⟩ | ⟨header,raw,hadmitted,hlen,rfl,⟨_,_,hne⟩ | ⟨f,hopen,hf⟩⟩
    · exact ⟨[],[],rfl,.nil,.header fault⟩
    · simp at hne
    · obtain rfl := Decoded.fault.inj hf
      exact ⟨[],header.encode ++ raw,rfl,.nil,.payload hadmitted hlen hopen⟩
  | @frame bytes rest last frame frames fault hp _ ih =>
    obtain ⟨used,wasted,rfl,hused,hwasted⟩ := ih
    rcases parse_cases hp with ⟨-,hne⟩ | ⟨header,raw,hadmitted,hlen,rfl,⟨payload,hopen,hf⟩ | ⟨f,_,hf⟩⟩
    · exact absurd rfl (hne frame)
    · obtain rfl := Decoded.frame.inj hf
      exact ⟨header.encode ++ raw ++ used,wasted,by simp only [List.append_assoc],
        .cons hadmitted hlen hopen hused,hwasted⟩
    · simp at hf

/-! ### Pieces -/

/-- What comes of feeding pieces: the decoder as it is left, what it has yielded, and the bytes that it
had been fed when it stopped. -/
structure Outcome where
  decoder : Decoder
  frames : List Frame
  fault : Option ProtocolFault
  fed : List UInt8

/-- Feeds one piece after the other, and drains after each, until something is wrong. -/
def feedAll (codec : Codec) (d : Decoder) : List (List UInt8) → Outcome
  | [] => ⟨d,[],none,[]⟩
  | piece :: rest =>
    match drain codec (d.feed piece) with
    | (d,frames,some fault) => ⟨d,frames,some fault,piece⟩
    | (d,frames,none) =>
      let later := feedAll codec d rest
      { later with frames := frames ++ later.frames, fed := piece ++ later.fed }

theorem feedAll_fed (codec : Codec) (d : Decoder) (cuts : List (List UInt8)) :
    ∃ later, cuts.flatten = (feedAll codec d cuts).fed ++ later ∧
      ((feedAll codec d cuts).fault = none → later = []) := by
  induction cuts generalizing d with
  | nil => exact ⟨[],rfl,fun _ => rfl⟩
  | cons piece rest ih =>
    rcases hdrain : drain codec (d.feed piece) with ⟨d',frames,fault⟩
    cases fault with
    | some fault =>
      simp only [feedAll,hdrain,List.flatten_cons]
      exact ⟨rest.flatten,rfl,by simp⟩
    | none =>
      simp only [feedAll,hdrain,List.flatten_cons]
      obtain ⟨later,hfed,hlater⟩ := ih d'
      exact ⟨later,by rw [hfed,List.append_assoc],hlater⟩

/-- Piece by piece, what was fed is drained as it is in one piece. -/
theorem feedAll_drains (d : Decoder) (cuts : List (List UInt8)) (hv : d.Valid codec)
    (hs : d.Settled) (hidle : Drains codec d.pending [] none d.pending) :
    Drains codec (d.pending ++ (feedAll codec d cuts).fed) (feedAll codec d cuts).frames
        (feedAll codec d cuts).fault (feedAll codec d cuts).decoder.pending ∧
      (feedAll codec d cuts).decoder.Valid codec ∧
      ((feedAll codec d cuts).fault = none → (feedAll codec d cuts).decoder.Settled) := by
  induction cuts generalizing d with
  | nil =>
    simp only [feedAll,List.append_nil]
    exact ⟨hidle,hv,fun _ => hs⟩
  | cons piece rest ih =>
    obtain ⟨hpiece,hvalid⟩ := drain_drains (d.feed piece) (hv.feed piece)
    have hsettled := drain_settled (d.feed piece) (hv.feed piece)
    rw [pending_feed] at hpiece
    rcases hdrain : drain codec (d.feed piece) with ⟨d',frames,fault⟩
    rw [hdrain] at hpiece hvalid hsettled
    cases fault with
    | some fault =>
      simp only [feedAll,hdrain]
      exact ⟨hpiece,hvalid,by simp⟩
    | none =>
      simp only [feedAll,hdrain]
      obtain ⟨hlater,hvalid',hsettled'⟩ := ih d' hvalid (hsettled rfl) hpiece.idle
      refine ⟨?_,hvalid',hsettled'⟩
      rw [← List.append_assoc]
      exact hpiece.append hlater

theorem feedAll_fresh (codec : Codec) (cuts : List (List UInt8)) :
    ∃ last, Drains codec cuts.flatten (feedAll codec {} cuts).frames (feedAll codec {} cuts).fault last ∧
      ((feedAll codec {} cuts).fault = none → last = (feedAll codec {} cuts).decoder.pending) := by
  obtain ⟨hdrains,-,-⟩ := feedAll_drains {} cuts (valid_none codec []) settled_empty (.more rfl)
  obtain ⟨later,hflat,hlater⟩ := feedAll_fed codec {} cuts
  simp only [pending_none,List.nil_append] at hdrains
  rw [hflat]
  cases hfault : (feedAll codec {} cuts).fault with
  | none =>
    rw [hlater hfault,List.append_nil]
    rw [hfault] at hdrains
    exact ⟨_,hdrains,fun _ => rfl⟩
  | some fault =>
    rw [hfault] at hdrains
    exact ⟨_,hdrains.append_fault later,by simp⟩

/-! ### Two ways to cut -/

theorem length_pending (d : Decoder) :
    d.pending.length = (if d.header.isSome then Header.size else 0) + d.unread.length := by
  rcases d with ⟨header,unread⟩
  cases header <;> simp

/-- Where a stream is cut makes no difference, whatever its bytes are. Two ways to feed it to a fresh
decoder yield the same frames and come to the same first fault. Without a fault they leave the decoder
in the same state, and the bytes of the stream are those of the frames and those that the decoder
holds. With a fault, the bytes that were fed have been used in the same way, but for one frame whose
payload was refused. -/
theorem feedAll_of_flatten_eq (codec : Codec) (cuts cuts' : List (List UInt8))
    (h : cuts.flatten = cuts'.flatten) :
    let one := feedAll codec {} cuts
    let other := feedAll codec {} cuts'
    one.frames = other.frames ∧ one.fault = other.fault ∧
    (one.fault = none → one.decoder = other.decoder ∧ one.fed = cuts.flatten ∧
      cuts.flatten.length = (one.frames.map Inbound.frameSize).sum +
        (if one.decoder.header.isSome then Header.size else 0) + one.decoder.unread.length) ∧
    ∃ used wasted, one.fed = used ++ wasted ++ one.decoder.pending ∧ Spells codec one.frames used ∧
      Wastes codec one.fault wasted := by
  intro one other
  obtain ⟨last,hdrains,hlast⟩ := feedAll_fresh codec cuts
  obtain ⟨last',hdrains',hlast'⟩ := feedAll_fresh codec cuts'
  obtain ⟨hfed,hvalid,hsettled⟩ := feedAll_drains {} cuts (valid_none codec []) settled_empty
    (.more rfl)
  obtain ⟨-,hvalid',hsettled'⟩ := feedAll_drains {} cuts' (valid_none codec []) settled_empty
    (.more rfl)
  obtain ⟨later,hflat,hlater⟩ := feedAll_fed codec {} cuts
  obtain ⟨used,wasted,hbytes,hused,hwasted⟩ := hfed.accounts
  rw [← h] at hdrains'
  obtain ⟨hframes,hfault,hend⟩ := hdrains.unique hdrains'
  refine ⟨hframes,hfault,fun hnone => ?_,used,wasted,hbytes,hused,hwasted⟩
  have hnone' : other.fault = none := hfault.symm.trans hnone
  have hpending : one.decoder.pending = other.decoder.pending := by
    rw [← hlast hnone,← hlast' hnone',hend]
  have hall : one.fed = cuts.flatten := by
    rw [hflat,hlater hnone,List.append_nil]
  have hnowaste : wasted = [] := by
    rw [hnone] at hwasted
    cases hwasted
    rfl
  refine ⟨eq_of_pending hvalid hvalid' (hsettled hnone) (hsettled' hnone') hpending,hall,?_⟩
  calc cuts.flatten.length
      = (used ++ one.decoder.pending).length := by
        rw [← hall,show one.fed = used ++ wasted ++ one.decoder.pending from hbytes,hnowaste,
          List.append_nil]
    _ = _ := by rw [List.length_append,hused.length_eq,length_pending,Nat.add_assoc]

/-- A frame, then one that claims to be sealed where there is no key, then more: as one piece, and byte by
byte. Without its last four bytes the stream has no fault yet, and the header of the second frame and the
first byte of its payload are held. -/
theorem feedAll_of_flatten_eq_bytes :
    let plain : Header := ⟨1,.string,1,{},0,1,2,2⟩
    let stream := plain.encode ++ [104,105] ++
      { plain with flags := { encrypted := true } }.encode ++ [1,2,3,4,5]
    let short := stream.take 63
    (feedAll {} {} (stream.map ([·]))).frames = [⟨plain,[104,105]⟩] ∧
      (feedAll {} {} (stream.map ([·]))).fault = some .sealedFrame ∧
      (feedAll {} {} (short.map ([·]))).decoder.header.isSome ∧
      (feedAll {} {} (short.map ([·]))).decoder.unread = [1] := by
  intro plain stream short
  have hflat (bytes : List UInt8) : [bytes].flatten = (bytes.map ([·])).flatten := by
    rw [← List.flatMap_def,List.flatMap_singleton',List.flatten_singleton]
  obtain ⟨hframes,hfault,-,-⟩ := feedAll_of_flatten_eq {} [stream] (stream.map ([·])) (hflat stream)
  obtain ⟨-,-,hsound,-⟩ := feedAll_of_flatten_eq {} [short] (short.map ([·])) (hflat short)
  have hd := (hsound (by decide +kernel)).1
  rw [← hframes,← hfault,← hd]
  decide +kernel

end Decoder
end Tether
