import Tether.Cluster.Sending
import Tether.Proofs.Cluster.Spelling
import Tether.Proofs.Wire.Appending

/-! What both ends of a link count. A sender counts the frames and the bytes that it hands to the stream, and
a reader those that it finds, from their headers. Whatever is written, and in whatever pieces it is read, the
reader counts the frames of the sender one by one, with the size that each of them has. -/
namespace Tether

/-! ### Pieces of a stream -/

namespace Inbound

variable {codec : Codec} {i : Inbound}

/-- Reading goes on only with bytes that are not enough for a frame. -/
structure Idle (codec : Codec) (i : Inbound) : Prop where
  valid : i.decoder.Valid codec
  drained : Decoder.Drains codec i.decoder.pending [] none i.decoder.pending

theorem idle_empty (codec : Codec) : Idle codec {} := ⟨Decoder.valid_none codec [],.more rfl⟩

theorem absorb_append (limits : Limits) (r : Reassembler) (fs more : List Frame) :
    absorb limits r (fs ++ more) =
      if (absorb limits r fs).2.2 then
        ((absorb limits (absorb limits r fs).1 more).1,
          (absorb limits r fs).2.1 ++ (absorb limits (absorb limits r fs).1 more).2.1,
          (absorb limits (absorb limits r fs).1 more).2.2)
      else absorb limits r fs := by
  induction fs generalizing r with
  | nil => rfl
  | cons f fs ih =>
    rw [List.cons_append,absorb,absorb]
    rcases r.push limits f with ⟨r₁,fault | _ | m⟩
    · rfl
    · simp only [ih r₁]
      split <;> rfl
    · simp only [ih r₁]
      split <;> rfl

theorem faults_absorb (limits : Limits) (r : Reassembler) (fs : List Frame) :
    Arrival.faults (absorb limits r fs).2.1 = [] ↔ (absorb limits r fs).2.2 = true := by
  have h := absorbs limits r fs
  generalize absorb limits r fs = taken at h
  cases h with
  | all _ _ hnone _ => simpa using hnone
  | refused _ _ _ _ hone _ => simp [hone]

/-- The first piece of a stream: what it holds comes first, and if something is wrong with it, that is all. -/
theorem read_append (h : Idle codec i) (piece rest : List UInt8) :
    (Arrival.faults (i.read codec piece).2 = [] ∧ Idle codec (i.read codec piece).1 ∧
      (i.read codec (piece ++ rest)).2 =
        (i.read codec piece).2 ++ ((i.read codec piece).1.read codec rest).2) ∨
    (Arrival.faults (i.read codec piece).2 ≠ [] ∧
      (i.read codec (piece ++ rest)).2 = (i.read codec piece).2) := by
  have hread := read_eq codec i piece
  obtain ⟨hd,hvalid⟩ := Decoder.drain_drains (i.decoder.feed piece) (h.valid.feed piece)
  rw [Decoder.pending_feed] at hd
  generalize Decoder.drain codec (i.decoder.feed piece) = drained at hread hd hvalid
  obtain ⟨d,fs,fault⟩ := drained
  have hsound := faults_absorb codec.limits i.reassembler fs
  simp only at hread hd hvalid
  rw [hread,Arrival.faults_append]
  cases fault with
  | none =>
    obtain ⟨fs',fault',last,hd'⟩ := Decoder.exists_drains codec (d.pending ++ rest)
    have hwhole := hd.append hd'
    rw [List.append_assoc] at hwhole
    rw [read_of_drains h.valid hwhole,absorb_append]
    cases htaken : (absorb codec.limits i.reassembler fs).2.2 with
    | true =>
      refine .inl ⟨by rw [hsound.mpr htaken]; rfl,⟨hvalid,hd.idle⟩,?_⟩
      rw [read_of_drains (i := ⟨d,_⟩) hvalid hd']
      simp [faultOf]
    | false =>
      refine .inr ⟨fun hnone => ?_,by simp [htaken,faultOf]⟩
      rw [hsound.mp (List.append_eq_nil_iff.mp hnone).1] at htaken
      cases htaken
  | some fault =>
    have hwhole := hd.append_fault rest
    rw [List.append_assoc] at hwhole
    rw [read_of_drains h.valid hwhole]
    refine .inr ⟨fun hnone => ?_,rfl⟩
    obtain ⟨hfirst,hlast⟩ := List.append_eq_nil_iff.mp hnone
    rw [hsound.mp hfirst] at hlast
    cases hlast

theorem Idle.read_nil (h : Idle codec i) : (i.read codec []).2 = [] := by
  have hd := h.drained
  rw [← List.append_nil i.decoder.pending] at hd
  exact read_of_drains h.valid hd

/-- However a stream is cut, reading finds in the pieces what it finds in the whole, and goes on behind that
only if something was wrong. -/
theorem exists_readAll (h : Idle codec i) (cuts : List (List UInt8)) :
    ∃ later, (i.readAll codec cuts).2 = (i.read codec cuts.flatten).2 ++ later ∧
      (Arrival.faults (i.read codec cuts.flatten).2 = [] → later = []) := by
  induction cuts generalizing i with
  | nil => exact ⟨[],by simp [readAll,h.read_nil],fun _ => rfl⟩
  | cons piece cuts ih =>
    rw [List.flatten_cons]
    rcases read_append h piece cuts.flatten with ⟨hnone,hidle,hwhole⟩ | ⟨hwrong,hwhole⟩
    · obtain ⟨later,hlater,hdone⟩ := ih hidle
      refine ⟨later,by simp [readAll,hlater,hwhole],fun hsound => hdone ?_⟩
      rw [hwhole,Arrival.faults_append,List.append_eq_nil_iff] at hsound
      exact hsound.2
    · exact ⟨_,by rw [hwhole]; rfl,fun hsound => absurd (hwhole ▸ hsound) hwrong⟩

end Inbound

/-! ### What is counted of a stream -/

namespace Arrival

def sound (arrivals : List Arrival) : List Arrival := arrivals.takeWhile (·.fault?.isNone)

/-- The sizes of the frames that are counted: those that are decoded before reading stops. -/
def counted (arrivals : List Arrival) : List Nat := sizes (sound arrivals)

theorem exists_sound (arrivals : List Arrival) : ∃ rest, arrivals = sound arrivals ++ rest ∧
    faults (sound arrivals) = [] ∧ (rest = [] ∨ ∃ error more, rest = .fault error :: more) := by
  induction arrivals with
  | nil => exact ⟨[],rfl,rfl,.inl rfl⟩
  | cons a arrivals ih =>
    obtain ⟨rest,hsplit,hnone,hrest⟩ := ih
    cases a with
    | fault error => exact ⟨.fault error :: arrivals,rfl,rfl,.inr ⟨error,arrivals,rfl⟩⟩
    | frame size => exact ⟨rest,congrArg (.frame size :: ·) hsplit,hnone,hrest⟩
    | message m => exact ⟨rest,congrArg (.message m :: ·) hsplit,hnone,hrest⟩

theorem sound_of_faults {arrivals : List Arrival} (h : faults arrivals = []) : sound arrivals = arrivals := by
  obtain ⟨rest,hsplit,-,rfl | ⟨error,more,rfl⟩⟩ := exists_sound arrivals
  · rw [List.append_nil] at hsplit
    exact hsplit.symm
  · rw [hsplit,faults_append] at h
    simp [faults,fault?] at h

theorem sound_append_of_faults {arrivals : List Arrival} (h : faults arrivals ≠ []) (later : List Arrival) :
    sound (arrivals ++ later) = sound arrivals := by
  induction arrivals with
  | nil => exact absurd rfl h
  | cons a arrivals ih =>
    cases a with
    | fault error => rfl
    | frame size => simpa [sound,fault?] using ih h
    | message m => simpa [sound,fault?] using ih h

end Arrival

theorem Inbound.counted_readAll {codec : Codec} {i : Inbound} (h : Idle codec i) (cuts : List (List UInt8)) :
    let whole := (i.read codec cuts.flatten).2
    Arrival.counted (i.readAll codec cuts).2 <+: Arrival.sizes whole ∧
      (Arrival.faults (i.readAll codec cuts).2 = [] → Arrival.faults whole = [] ∧
        Arrival.counted (i.readAll codec cuts).2 = Arrival.sizes whole) := by
  intro whole
  obtain ⟨later,hlater,hdone⟩ := exists_readAll h cuts
  rw [hlater]
  by_cases hnone : Arrival.faults whole = []
  · rw [hdone hnone,List.append_nil,Arrival.counted,Arrival.sound_of_faults hnone]
    exact ⟨List.prefix_refl _,fun _ => ⟨hnone,rfl⟩⟩
  · rw [Arrival.counted,Arrival.sound_append_of_faults hnone]
    refine ⟨(List.takeWhile_prefix _).filterMap _,fun hall => ?_⟩
    rw [Arrival.faults_append,List.append_eq_nil_iff] at hall
    exact absurd hall.1 hnone

/-! ### Chunks of any place -/

theorem Header.decode_encode_of_le {h : Header} (hv : h.version = currentVersion) (hi : h.total ≤ h.index) :
    decode h.encode = .error (.chunkPosition h.index h.total) := by
  have hsize : ¬ h.encode.length < size := by simp
  unfold decode
  rw [if_neg hsize]
  simp only [encode,BigEndian.ofUInt32,List.cons_append,List.nil_append,List.append_assoc]
  rw [List.take_left' (Tag.length_padded h.tag),List.drop_left' (Tag.length_padded h.tag)]
  simp only [Tag.ofPadded_padded,BigEndian.ofUInt16,List.cons_append,List.nil_append,List.take_succ_cons,
    List.take_zero,decodeTail,hv,Flags.ofBits_bits,BigEndian.toUInt16_ofUInt16]
  simp [hi]

/-- A chunk that a sender may hand to the stream, whatever place it names. -/
structure Chunk.Framed (codec : Codec) (c : Chunk) : Prop where
  fits : c.Fits codec
  nonce : c.nonce.length = Gcm.nonceSize

namespace Decoder

variable {codec : Codec}

theorem frameSize_frame {c : Chunk} (hc : c.Framed codec) (hword : codec.limits.framePayload.toNat < 2^32) :
    Inbound.frameSize (c.frame codec) = (c.wire codec).length := by
  have hlt : c.bodyLength codec < 2^32 := Nat.lt_of_le_of_lt hc.fits hword
  rw [Inbound.frameSize,Chunk.toNat_payloadLength,Nat.mod_eq_of_lt hlt,Chunk.wire,List.length_append,
    Header.length_encode]
  rfl

theorem parse_framed (hs : codec.Sound) (hword : codec.limits.framePayload.toNat < 2^32) {c : Chunk}
    (hc : c.Framed codec) (rest : List UInt8) :
    parse codec (c.wire codec ++ rest) = (.frame (c.frame codec),rest) ∨
      ∃ fault, (parse codec (c.wire codec ++ rest)).1 = .fault fault := by
  by_cases hplace : c.place.index < c.place.total
  · exact .inl (parse_wire codec hs c ⟨hc.fits,hc.nonce,hplace,Nat.lt_of_le_of_lt hc.fits hword⟩ rest)
  · right
    have hsize := Header.length_encode (c.frame codec).header
    have hdecode := Header.decode_encode_of_le (h := (c.frame codec).header) rfl (UInt16.not_lt.mp hplace)
    rw [Chunk.wire,List.append_assoc,parse,if_neg (by simp [hsize]),List.take_left' hsize,hdecode]
    exact ⟨_,rfl⟩

/-- The frames that are read are the first of those that were written, and all of them if nothing is wrong. -/
theorem Drains.of_framed (hs : codec.Sound) (hword : codec.limits.framePayload.toNat < 2^32)
    {cs : List Chunk} (hcs : ∀ c ∈ cs, c.Framed codec) {fs : List Frame} {fault : Option ProtocolFault}
    {last : List UInt8} (h : Drains codec (cs.map (Chunk.wire codec)).flatten fs fault last) :
    fs <+: cs.map (Chunk.frame codec) ∧ (fault = none → fs = cs.map (Chunk.frame codec)) := by
  induction cs generalizing fs with
  | nil =>
    obtain ⟨rfl,rfl,-⟩ := h.unique (.more rfl)
    exact ⟨List.prefix_refl _,fun _ => rfl⟩
  | cons c cs ih =>
    rw [List.forall_mem_cons] at hcs
    rw [List.map_cons,List.flatten_cons] at h
    rcases parse_framed hs hword hcs.1 (cs.map (Chunk.wire codec)).flatten with hparse | ⟨fault',hparse⟩
    · cases h with
      | more hp => simp [hparse] at hp
      | fault hp => simp [hparse] at hp
      | frame hp hrest =>
        obtain ⟨hframe,rfl⟩ := Prod.mk.inj (hparse.symm.trans hp)
        obtain rfl := Decoded.frame.inj hframe
        obtain ⟨hfront,hall⟩ := ih hcs.2 hrest
        exact ⟨(List.prefix_cons_inj _).mpr hfront,fun hnone => congrArg _ (hall hnone)⟩
    · cases h with
      | more hp => simp [hp] at hparse
      | fault hp => exact ⟨List.nil_prefix,fun hnone => nomatch hnone⟩
      | frame hp hrest => simp [hp] at hparse

end Decoder

namespace Inbound

variable {codec : Codec}

theorem sizes_faultOf (sound : Bool) (fault : Option ProtocolFault) :
    Arrival.sizes (faultOf sound fault) = [] := by
  cases sound <;> cases fault <;> rfl

theorem sizes_of_drains {bytes last : List UInt8} {fs : List Frame} {fault : Option ProtocolFault}
    (hd : Decoder.Drains codec bytes fs fault last) :
    let arrivals := (({} : Inbound).read codec bytes).2
    Arrival.sizes arrivals <+: fs.map frameSize ∧
      (Arrival.faults arrivals = [] → fault = none ∧ Arrival.sizes arrivals = fs.map frameSize) := by
  intro arrivals
  have harrivals : arrivals = _ := read_of_drains (i := {}) (Decoder.valid_none codec []) hd
  rw [harrivals,Arrival.sizes_append,Arrival.faults_append,sizes_faultOf,List.append_nil]
  have habsorbs := absorbs codec.limits {} fs
  change Absorbs _ _ _ (absorb codec.limits ({} : Inbound).reassembler fs) at habsorbs
  generalize absorb codec.limits ({} : Inbound).reassembler fs = taken at habsorbs
  cases habsorbs with
  | all _ _ _ hall =>
    refine ⟨hall ▸ List.prefix_refl _,fun hnone => ⟨?_,hall⟩⟩
    cases fault with
    | none => rfl
    | some fault => simp [faultOf,Arrival.faults,Arrival.fault?] at hnone
  | @refused _ _ before after f _ _ _ hfs _ _ _ hone hall =>
    refine ⟨?_,fun hnone => ?_⟩
    · rw [hall,hfs]
      exact ⟨after.map frameSize,by simp⟩
    · simp [hone] at hnone

theorem sizes_read_wires (hs : codec.Sound) (hword : codec.limits.framePayload.toNat < 2^32) {cs : List Chunk}
    (hcs : ∀ c ∈ cs, c.Framed codec) :
    let arrivals := (({} : Inbound).read codec (cs.map (Chunk.wire codec)).flatten).2
    Arrival.sizes arrivals <+: cs.map (fun c => (c.wire codec).length) ∧
      (Arrival.faults arrivals = [] → Arrival.sizes arrivals = cs.map fun c => (c.wire codec).length) := by
  intro arrivals
  obtain ⟨fs,fault,last,hd⟩ := Decoder.exists_drains codec (cs.map (Chunk.wire codec)).flatten
  obtain ⟨hfront,hall⟩ := hd.of_framed hs hword hcs
  obtain ⟨hcounted,hsound⟩ := sizes_of_drains hd
  have hsizes : (cs.map (Chunk.frame codec)).map frameSize = cs.map fun c => (c.wire codec).length := by
    rw [List.map_map]
    exact List.map_congr_left fun c hc => Decoder.frameSize_frame (hcs c hc) hword
  rw [← hsizes]
  refine ⟨hcounted.trans (hfront.map frameSize),fun hnone => ?_⟩
  obtain ⟨hfault,heq⟩ := hsound hnone
  rw [heq,hall hfault]

end Inbound

namespace Cluster

/-! ### What the sender counts -/

/-- What is handed to a stream at once. -/
inductive Writing
  | message (m : Message)
  | chunk (number : Nat) (place : ChunkPlace) (piece : List UInt8)

namespace World

def write (w : World) (i : Nat) : Writing → World × Except LinkError Unit
  | .message m => w.writeMessage i m
  | .chunk number place piece => w.writeChunk i number place piece

def writeAll (w : World) (i : Nat) : List Writing → World × Except LinkError Unit
  | [] => (w,.ok ())
  | x :: rest => match w.write i x with
    | (w,.ok ()) => writeAll w i rest
    | (w,.error e) => (w,.error e)

/-- What can be seen of the writing side of a link: what lies in its pipe, and its counters. -/
structure Outlet (w : World) (i : Nat) (codec : Codec) (sink : Nat) (written : List UInt8) (t : Traffic) :
    Prop where
  stream : ∃ s, w.streams[i]? = some s ∧ s.codec = codec ∧ s.sink = sink
  pipe : ∃ p, w.pipes[sink]? = some p ∧ p.parts.reverse.flatten = written
  traffic : w.traffic? i = some t

variable {w w' : World} {i sink : Nat} {codec : Codec} {written bytes : List UInt8} {t : Traffic}

theorem Outlet.pour (h : w.Outlet i codec sink written t) (bytes : List UInt8) :
    (w.pour sink bytes).Outlet i codec sink (written ++ bytes) t := by
  obtain ⟨hstream,⟨p,hp,hparts⟩,htraffic⟩ := h
  unfold World.pour
  split
  · rename_i hempty
    rw [List.isEmpty_iff.mp hempty,List.append_nil]
    exact ⟨hstream,⟨p,hp,hparts⟩,htraffic⟩
  · exact ⟨hstream,⟨{ p with parts := bytes :: p.parts },by simp [World.onPipe,hp],by simp [hparts]⟩,htraffic⟩

theorem streams_pour (w : World) (pipe : Nat) (bytes : List UInt8) :
    (w.pour pipe bytes).streams = w.streams := by
  unfold World.pour
  split <;> rfl

theorem Outlet.onStream (h : w.Outlet i codec sink written t) {f : Stream → Stream}
    (hf : ∀ s, (f s).codec = s.codec ∧ (f s).sink = s.sink ∧ (f s).traffic = s.traffic) :
    (w.onStream i f).Outlet i codec sink written t := by
  obtain ⟨⟨s,hs,hcodec,hsink⟩,hpipe,htraffic⟩ := h
  refine ⟨⟨f s,by simp [World.onStream,hs],(hf s).1.trans hcodec,(hf s).2.1.trans hsink⟩,hpipe,?_⟩
  simpa [traffic?,World.onStream,hs,(hf s).2.2] using htraffic

theorem Outlet.count (h : w.Outlet i codec sink written t) {s : Stream} (hs : w.streams[i]? = some s)
    (events : List TrafficEvent) :
    (w.count s.traffic events).Outlet i codec sink written (t.countAll events) := by
  refine ⟨h.stream,h.pipe,?_⟩
  have hcount := w.traffic?_countOn i events
  rw [h.traffic,countOn,hs] at hcount
  exact hcount

/-- Bytes that are written lie in the pipe, and are counted with the frames that they are said to be. -/
theorem Outlet.writeBytes (h : w.Outlet i codec sink written t) {frames : Nat}
    (hw : w.writeBytes i bytes frames = (w',.ok ())) :
    w'.Outlet i codec sink (written ++ bytes) (t.countAll [.framesSent frames bytes.length]) := by
  obtain ⟨s,hs,-,hsink⟩ := h.stream
  have hpour := h.pour bytes
  unfold World.writeBytes at hw
  rw [hs] at hw
  cases hlink : w.links[i]? with
  | none => simp [hlink] at hw
  | some c =>
    simp only [hlink,hsink] at hw
    split at hw
    · cases hw
    · cases hallowance : s.allowance with
      | none =>
        simp only [hallowance] at hw
        obtain ⟨rfl,-⟩ := Prod.mk.inj hw
        exact hpour.count (by rw [streams_pour,hs]) _
      | some most =>
        simp only [hallowance] at hw
        split at hw
        · rename_i hle
          rw [List.take_of_length_le hle] at hw
          obtain ⟨rfl,-⟩ := Prod.mk.inj hw
          have hspent := hpour.onStream (f := fun s => { s with allowance := some (most - bytes.length) })
            fun _ => ⟨rfl,rfl,rfl⟩
          exact hspent.count (s := { s with allowance := some (most - bytes.length) })
            (by simp [World.onStream,streams_pour,hs]) _
        · cases hw

/-- Chunks have been handed to the stream, and counted, since it was as it is told here. -/
structure Wrote (w : World) (i : Nat) (codec : Codec) (sink : Nat) (written : List UInt8) (t : Traffic)
    (cs : List Chunk) : Prop where
  framed : ∀ c ∈ cs, c.Framed codec
  outlet : ∃ t', w.Outlet i codec sink (written ++ (cs.map (Chunk.wire codec)).flatten) t' ∧
    t'.framesSent = t.framesSent + .ofNat cs.length ∧
    t'.bytesSent = t.bytesSent + .ofNat (cs.map fun c => (c.wire codec).length).sum

variable {cs : List Chunk}

theorem Outlet.wrote (h : w.Outlet i codec sink written t) : w.Wrote i codec sink written t [] :=
  ⟨by simp,t,by simpa using h,(UInt64.add_zero _).symm,(UInt64.add_zero _).symm⟩

theorem Outlet.wroteBytes (h : w.Outlet i codec sink written t) (hcs : ∀ c ∈ cs, c.Framed codec)
    (hw : w.writeBytes i (cs.map (Chunk.wire codec)).flatten cs.length = (w',.ok ())) :
    w'.Wrote i codec sink written t cs := by
  refine ⟨hcs,_,h.writeBytes hw,rfl,?_⟩
  rw [← Function.comp_def,← List.map_map,← List.length_flatten]
  rfl

theorem Outlet.writeMessage (h : w.Outlet i codec sink written t) {m : Message}
    (hw : w.writeMessage i m = (w',.ok ())) : ∃ cs, w'.Wrote i codec sink written t cs := by
  obtain ⟨s,hs,rfl,-⟩ := h.stream
  rw [writeMessage_eq hs] at hw
  cases hfault : (s.codec.emitMessage w.nonces m).fault with
  | some error => simp [hfault] at hw
  | none =>
    obtain ⟨total,htotal,hfits⟩ := (s.codec.emitMessage_fault_iff w.nonces m).mp hfault
    simp only [hfault,s.codec.emitMessage_bytes w.nonces m total htotal hfits,Codec.chunksOf,htotal] at hw
    refine ⟨_,h.wroteBytes (fun c hc => ⟨hfits c hc,?_⟩) hw⟩
    obtain ⟨k,piece,-,-,rfl⟩ := Codec.mem_chunks hc
    exact w.length_nonces k

theorem Outlet.writeChunk (h : w.Outlet i codec sink written t) {number : Nat} {place : ChunkPlace}
    {piece : List UInt8} (hw : w.writeChunk i number place piece = (w',.ok ())) :
    ∃ cs, w'.Wrote i codec sink written t cs := by
  obtain ⟨s,hs,hcodec,-⟩ := h.stream
  simp only [World.writeChunk,hs,hcodec] at hw
  let c : Chunk := ⟨place,w.nonces number,piece⟩
  cases hencode : codec.encodeChunk (w.nonces number) place piece with
  | error error => simp [hencode] at hw
  | ok bytes =>
    obtain ⟨hfits,rfl⟩ := (codec.encodeChunk_ok_iff c bytes).mp hencode
    simp only [hencode] at hw
    refine ⟨[c],h.wroteBytes (fun c' hc => ?_) (by simpa using hw)⟩
    rw [List.mem_singleton.mp hc]
    exact ⟨hfits,w.length_nonces number⟩

theorem Wrote.trans {cs' : List Chunk} {t₁ : Traffic} (hcs : ∀ c ∈ cs, c.Framed codec)
    (hframes : t₁.framesSent = t.framesSent + .ofNat cs.length)
    (hbytes : t₁.bytesSent = t.bytesSent + .ofNat (cs.map fun c => (c.wire codec).length).sum)
    (h : w.Wrote i codec sink (written ++ (cs.map (Chunk.wire codec)).flatten) t₁ cs') :
    w.Wrote i codec sink written t (cs ++ cs') := by
  obtain ⟨hcs',t₂,houtlet,hframes',hbytes'⟩ := h
  refine ⟨fun c hc => (List.mem_append.mp hc).elim (hcs c) (hcs' c),t₂,?_,?_,?_⟩
  · rwa [List.map_append,List.flatten_append,← List.append_assoc]
  · rw [hframes',hframes,List.length_append,UInt64.ofNat_add,UInt64.add_assoc]
  · rw [hbytes',hbytes,List.map_append,List.sum_append,UInt64.ofNat_add,UInt64.add_assoc]

theorem Outlet.writeAll (h : w.Outlet i codec sink written t) {writings : List Writing}
    (hw : w.writeAll i writings = (w',.ok ())) : ∃ cs, w'.Wrote i codec sink written t cs := by
  induction writings generalizing w written t with
  | nil =>
    obtain ⟨rfl,-⟩ := Prod.mk.inj hw
    exact ⟨[],h.wrote⟩
  | cons x writings ih =>
    rw [World.writeAll] at hw
    rcases hx : w.write i x with ⟨w₁,error | ⟨⟩⟩
    · simp [hx] at hw
    · simp only [hx] at hw
      obtain ⟨cs,hcs,t₁,houtlet,hframes,hbytes⟩ : ∃ cs, w₁.Wrote i codec sink written t cs := by
        cases x with
        | message m => exact h.writeMessage hx
        | chunk number place piece => exact h.writeChunk hx
      obtain ⟨cs',hwrote⟩ := ih houtlet hw
      exact ⟨cs ++ cs',hwrote.trans hcs hframes hbytes⟩

end World

/-! ### What the reader counts -/

theorem Reading.exists_counted {v : World} {r : Reading} {u : Traffic} (hu : v.traffic? r.link = some u)
    (arrivals : List Arrival) : ∃ u', (Reading.arriveAll v r arrivals).1.traffic? r.link = some u' ∧
      u'.framesReceived = u.framesReceived + .ofNat (Arrival.counted arrivals).length ∧
      u'.bytesReceived = u.bytesReceived + .ofNat (Arrival.counted arrivals).sum := by
  obtain ⟨rest,hsplit,hsound,hrest⟩ := Arrival.exists_sound arrivals
  obtain ⟨v₁,r₁,u₁,hall,hlink,hu₁,hreads⟩ := Reading.exists_arriveAll hu hsound
  have harrivals := hall rest
  rw [← hsplit] at harrivals
  rw [harrivals]
  rcases hrest with rfl | ⟨error,more,rfl⟩
  · exact ⟨u₁,hu₁,hreads.frames,hreads.bytes⟩
  · rw [← hlink] at hu₁
    obtain ⟨v₂,r₂,u₂,harrive,-,hu₂,hreads₂⟩ := Reading.exists_arrive hu₁ (.fault error)
    rw [hlink] at hu₂
    have hboth := hreads.trans hreads₂
    have hnone : (Arrival.fault error).size?.toList = [] := rfl
    rw [hnone,List.append_nil] at hboth
    refine ⟨u₂,?_,hboth.frames,hboth.bytes⟩
    simpa [Reading.arriveAll,harrive,Arrival.fault?] using hu₂

theorem eq_of_prefix_of_sum_eq {front all : List Nat} (h : front <+: all) (hpos : ∀ n ∈ all, 0 < n)
    (hsum : front.sum = all.sum) : front = all := by
  obtain ⟨rest,rfl⟩ := h
  rw [List.sum_append] at hsum
  cases rest with
  | nil => exact (List.append_nil front).symm
  | cons n rest =>
    have hn := hpos n (by simp)
    rw [List.sum_cons] at hsum
    omega

/-- What is written one after the other, messages and single chunks, is counted by the reader as the sender
has counted it: in whatever pieces it reads, if it decodes all the bytes that were written, it has counted as
many frames and as many bytes; and it decodes all of them unless it finds something wrong. -/
theorem counted_alike_of_written {w w' : World} {i : Nat} {s : Stream} {key : Option PayloadKey} {p : Pipe}
    {t : Traffic} {writings : List Writing} (hs : w.streams[i]? = some s)
    (hkey : s.codec.cipher = key.map Cipher.ofKey) (hword : s.codec.limits.framePayload.toNat < 2^32)
    (hp : w.pipes[s.sink]? = some p) (hfresh : p.parts = []) (ht : w.traffic? i = some t)
    (hw : w.writeAll i writings = (w',.ok ())) :
    ∃ p' t', w'.pipes[s.sink]? = some p' ∧ w'.traffic? i = some t' ∧
      let written := p'.parts.reverse.flatten
      ∀ cuts : List (List UInt8), cuts.flatten = written →
        let arrivals := (Inbound.readAll s.codec {} cuts).2
        (Arrival.faults arrivals = [] → (Arrival.counted arrivals).sum = written.length) ∧
        ∀ (v : World) (r : Reading) (u : Traffic), v.traffic? r.link = some u →
          (Arrival.counted arrivals).sum = written.length →
          ∃ u', (Reading.arriveAll v r arrivals).1.traffic? r.link = some u' ∧
            u'.framesReceived - u.framesReceived = t'.framesSent - t.framesSent ∧
            u'.bytesReceived - u.bytesReceived = t'.bytesSent - t.bytesSent := by
  have hsound : s.codec.Sound := fun cipher hc =>
    Codec.sound_of_key s.codec.limits key cipher (hc.symm.trans hkey).symm
  have houtlet : w.Outlet i s.codec s.sink [] t := ⟨⟨s,hs,rfl,rfl⟩,⟨p,hp,by simp [hfresh]⟩,ht⟩
  obtain ⟨cs,hcs,t',⟨-,⟨p',hp',hwritten⟩,ht'⟩,hframes,hbytes⟩ := houtlet.writeAll hw
  rw [List.nil_append] at hwritten
  refine ⟨p',t',hp',ht',fun cuts hcuts => ?_⟩
  obtain ⟨hfirst,hall⟩ := Inbound.counted_readAll (Inbound.idle_empty s.codec) cuts
  obtain ⟨hfront,hwhole⟩ := Inbound.sizes_read_wires hsound hword hcs
  rw [hcuts,hwritten] at hfirst hall
  rw [hwritten]
  have hlength : (cs.map (Chunk.wire s.codec)).flatten.length = (cs.map fun c => (c.wire s.codec).length).sum := by
    rw [List.length_flatten,List.map_map]
    rfl
  refine ⟨fun hnone => ?_,fun v r u hu hdone => ?_⟩
  · obtain ⟨hsame,heq⟩ := hall hnone
    rw [heq,hwhole hsame,hlength]
  · have hsizes := eq_of_prefix_of_sum_eq (hfirst.trans hfront) ?_ (hdone.trans hlength)
    · obtain ⟨u',hu',hframes',hbytes'⟩ := Reading.exists_counted hu (Inbound.readAll s.codec {} cuts).2
      rw [hsizes] at hframes' hbytes'
      refine ⟨u',hu',?_,?_⟩
      · rw [hframes',hframes,List.length_map,UInt64.add_comm u.framesReceived,UInt64.add_comm t.framesSent,
          UInt64.add_sub_cancel,UInt64.add_sub_cancel]
      · rw [hbytes',hbytes,UInt64.add_comm u.bytesReceived,UInt64.add_comm t.bytesSent,UInt64.add_sub_cancel,
          UInt64.add_sub_cancel]
    · intro n hn
      obtain ⟨c,-,rfl⟩ := List.mem_map.mp hn
      simp [Chunk.wire,Header.size]

/-- A message of three chunks and one more chunk, read byte by byte: four frames on both sides. -/
theorem counted_alike_of_bytes :
    let codec : Codec := ⟨{ chunkSize := 2, framePayload := 30 },none⟩
    let link := (Connection.establish "worker" .initiator "master" 7).markReady "master"
    let w : World :=
      { links := [link]
        streams := [{ codec, source := 1, sink := 0, traffic := 0, registry := 0 }]
        pipes := [{},{}]
        traffics := [{}] }
    let writings : List Writing :=
      [.message ⟨7,.echo,false,[1,2,3,4,5]⟩,.chunk 1 ⟨8,.file,false,0,1,1⟩ [6]]
    (w.writeAll 0 writings).2 = .ok () ∧
      ∃ p' t', (w.writeAll 0 writings).1.pipes[0]? = some p' ∧
        (w.writeAll 0 writings).1.traffic? 0 = some t' ∧
        let cuts := p'.parts.reverse.flatten.map ([·])
        ∃ u', (Reading.arriveAll w ⟨0,[]⟩ (Inbound.readAll codec {} cuts).2).1.traffic? 0 = some u' ∧
          u'.framesReceived = t'.framesSent ∧ u'.bytesReceived = t'.bytesSent ∧ t'.framesSent = 4 := by
  intro codec link w writings
  have hok : (w.writeAll 0 writings).2 = .ok () := by decide +kernel
  have hkey : codec.cipher = (none : Option PayloadKey).map Cipher.ofKey := rfl
  obtain ⟨p',t',hp',ht',hcounted⟩ := counted_alike_of_written (w := w) (i := 0) rfl hkey (by decide) rfl rfl rfl
    (Prod.ext rfl hok)
  have hsent : t' = ((w.writeAll 0 writings).1.traffic? 0).get (by decide +kernel) := by simp [ht']
  have hpipe : p' = ((w.writeAll 0 writings).1.pipes[0]?).get (by decide +kernel) := by simp [hp']
  let cuts := p'.parts.reverse.flatten.map ([·])
  obtain ⟨hdone,hsame⟩ := hcounted cuts (by rw [← List.flatMap_def,List.flatMap_singleton'])
  have hnone : Arrival.faults (Inbound.readAll codec {} cuts).2 = [] := by
    subst hpipe
    decide +kernel
  obtain ⟨u',hu',hframes,hbytes⟩ := hsame w ⟨0,[]⟩ {} rfl (hdone hnone)
  refine ⟨hok,p',t',hp',ht',u',hu',by simpa using hframes,by simpa using hbytes,?_⟩
  subst hsent
  decide +kernel

end Cluster
end Tether
