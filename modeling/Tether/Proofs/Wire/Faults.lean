import Tether.Proofs.Wire.Cutting

/-! What a fault costs. A header that is refused stays in front of all that is still to come, so every
later call refuses it again and nothing behind it is ever read. A payload that is refused is used up with
its frame: the decoder is then as good as new, and what follows is read as if it were the start of a
stream. -/
namespace Tether

/-- Why the payload of a whole frame is not given out: it does not open under the key, or it is sealed
and there is no key, or the other way round. -/
inductive Codec.Rejects (codec : Codec) (header : Header) (raw : List UInt8) : ProtocolFault → Prop
  | unopened {cipher : Cipher} {fault : CipherFault} : codec.cipher = some cipher →
    header.flags.encrypted = true → cipher.openWith raw = .error fault →
    Rejects codec header raw (.sealedPayload fault)
  | unsealed {cipher : Cipher} : codec.cipher = some cipher → header.flags.encrypted = false →
    Rejects codec header raw .unsealedFrame
  | keyless : codec.cipher = none → header.flags.encrypted = true →
    Rejects codec header raw .sealedFrame

namespace Codec

variable {codec : Codec}

theorem openPayload_eq_error_iff {header : Header} {raw : List UInt8} {fault : ProtocolFault} :
    codec.openPayload header raw = .error fault ↔ codec.Rejects header raw fault := by
  constructor
  · intro h
    unfold openPayload at h
    split at h
    · rename_i cipher hcipher hflag
      cases hopen : cipher.openWith raw with
      | ok piece => simp [hopen,Except.mapError] at h
      | error reason =>
        rw [hopen] at h
        obtain rfl := Except.error.inj h
        exact .unopened hcipher hflag hopen
    · simp at h
    · rename_i hcipher hflag
      obtain rfl := Except.error.inj h
      exact .unsealed hcipher hflag
    · rename_i hcipher hflag
      obtain rfl := Except.error.inj h
      exact .keyless hcipher hflag
  · rintro (⟨hcipher,hflag,hopen⟩ | ⟨hcipher,hflag⟩ | ⟨hcipher,hflag⟩)
    · simp [openPayload,hcipher,hflag,hopen,Except.mapError]
    · simp [openPayload,hcipher,hflag]
    · simp [openPayload,hcipher,hflag]

def judge (codec : Codec) (header : Header) (raw : List UInt8) : Decoded :=
  match codec.openPayload header raw with
  | .ok payload => .frame ⟨header,payload⟩
  | .error fault => .fault fault

theorem judge_of_rejects {header : Header} {raw : List UInt8} {fault : ProtocolFault}
    (h : codec.Rejects header raw fault) : codec.judge header raw = .fault fault := by
  simp only [judge,openPayload_eq_error_iff.mpr h]

end Codec

namespace Decoder

variable {codec : Codec}

/-- One call for each piece that is added, and what each call gives. -/
def calls (codec : Codec) (d : Decoder) : List (List UInt8) → Decoder × List Decoded
  | [] => (d,[])
  | piece :: rest =>
    let (d,found) := next codec (d.feed piece)
    let (d,later) := calls codec d rest
    (d,found :: later)

@[simp] theorem feed_nil (d : Decoder) : d.feed [] = d := by
  simp [feed]

@[simp] theorem feed_feed (d : Decoder) (bytes later : List UInt8) :
    (d.feed bytes).feed later = d.feed (bytes ++ later) := by
  simp [feed]

/-! ### A header that is refused -/

/-- A header is in front, all of it, and the decoder does not go on with it: it fails its own checks, or
it announces more than the limit allows. -/
structure Stuck (codec : Codec) (d : Decoder) (fault : ProtocolFault) : Prop where
  undecoded : d.header = none
  whole : Header.size ≤ d.unread.length
  refused : Header.decode (d.unread.take Header.size) = .error fault ∨
    ∃ header, Header.decode (d.unread.take Header.size) = .ok header ∧
      codec.limits.framePayload.toNat < header.payloadLength.toNat ∧
      fault = .framePayload header.payloadLength codec.limits.framePayload

theorem Stuck.feed {d : Decoder} {fault : ProtocolFault} (h : d.Stuck codec fault)
    (bytes : List UInt8) : (d.feed bytes).Stuck codec fault where
  undecoded := h.undecoded
  whole := by
    have hwhole := h.whole
    simp only [Decoder.feed,List.length_append]
    omega
  refused := by
    simp only [Decoder.feed,List.take_append_of_le_length h.whole]
    exact h.refused

theorem Stuck.next_eq {d : Decoder} {fault : ProtocolFault} (h : d.Stuck codec fault) :
    next codec d = (d,.fault fault) := by
  obtain ⟨hheader,hwhole,hrefused⟩ := h
  have hfront : ¬ (d.unread.take Header.size).length < Header.size := by
    rw [List.length_take]
    omega
  simp only [next,hheader,List.splitAt_eq,hfront,if_false]
  rcases hrefused with hdecode | ⟨header,hdecode,hover,rfl⟩
  · simp only [hdecode]
  · simp only [hdecode,hover,if_true]

theorem Stuck.calls_eq {d : Decoder} {fault : ProtocolFault} (h : d.Stuck codec fault)
    (pieces : List (List UInt8)) :
    calls codec d pieces = (d.feed pieces.flatten,List.replicate pieces.length (.fault fault)) := by
  induction pieces generalizing d with
  | nil => simp [calls]
  | cons piece rest ih =>
    simp only [calls,(h.feed piece).next_eq,ih (h.feed piece),feed_feed,List.flatten_cons,
      List.length_cons,List.replicate_succ]

/-! ### A payload that is refused -/

/-- A whole frame is in front, behind it the rest. Its header has been taken up already, or is still to
be, and then the decoder will go on with it. -/
inductive Fronts (codec : Codec) : Decoder → Header → List UInt8 → List UInt8 → Prop
  | kept {header : Header} {raw : List UInt8} (rest : List UInt8) :
    raw.length = header.payloadLength.toNat → Fronts codec ⟨some header,raw ++ rest⟩ header raw rest
  | unread {header : Header} {raw : List UInt8} (rest : List UInt8) : header.Admitted codec →
    raw.length = header.payloadLength.toNat →
    Fronts codec ⟨none,header.encode ++ raw ++ rest⟩ header raw rest

theorem Fronts.pending_eq {d : Decoder} {header : Header} {raw rest : List UInt8}
    (h : d.Fronts codec header raw rest) : d.pending = header.encode ++ raw ++ rest := by
  cases h with
  | kept => rw [pending_some,List.append_assoc]
  | unread => rfl

theorem takePayload_whole {header : Header} {raw : List UInt8}
    (h : raw.length = header.payloadLength.toNat) (rest : List UInt8) :
    takePayload codec header (raw ++ rest) = (⟨none,rest⟩,codec.judge header raw) := by
  simp only [takePayload,List.splitAt_eq,← h,List.take_left,List.drop_left,lt_irrefl,if_false,
    Codec.judge]
  cases codec.openPayload header raw <;> rfl

theorem Fronts.next_eq {d : Decoder} {header : Header} {raw rest : List UInt8}
    (h : d.Fronts codec header raw rest) :
    next codec d = (⟨none,rest⟩,codec.judge header raw) := by
  cases h with
  | kept _ hlen => exact takePayload_whole hlen rest
  | unread _ hadmitted hlen =>
    have hsize := Header.length_encode header
    simp only [next,List.splitAt_eq,List.append_assoc,List.take_left' hsize,List.drop_left' hsize,
      hsize,lt_irrefl,if_false,hadmitted.genuine,Nat.not_lt.mpr hadmitted.fits]
    exact takePayload_whole hlen rest

theorem takePayload_fault {header : Header} {unread : List UInt8} {d : Decoder}
    {fault : ProtocolFault} (h : takePayload codec header unread = (d,.fault fault)) :
    ∃ raw rest, unread = raw ++ rest ∧ raw.length = header.payloadLength.toNat ∧
      codec.openPayload header raw = .error fault := by
  simp only [takePayload,List.splitAt_eq] at h
  refine ⟨unread.take header.payloadLength.toNat,unread.drop header.payloadLength.toNat,
    (List.take_append_drop _ _).symm,?_⟩
  split at h
  · simp at h
  · rename_i hlen
    have htake : (unread.take header.payloadLength.toNat).length = header.payloadLength.toNat := by
      rw [List.length_take] at hlen ⊢
      omega
    split at h
    · simp at h
    · rename_i reason hopen
      obtain rfl := Decoded.fault.inj (Prod.mk.inj h).2
      exact ⟨htake,hopen⟩

/-- There is no third way to a fault. -/
theorem next_fault {d d' : Decoder} {fault : ProtocolFault} (h : next codec d = (d',.fault fault)) :
    d.Stuck codec fault ∨
    ∃ header raw rest, d.Fronts codec header raw rest ∧ codec.Rejects header raw fault := by
  rcases d with ⟨header,unread⟩
  cases header with
  | some header =>
    obtain ⟨raw,rest,rfl,hlen,hopen⟩ := takePayload_fault h
    exact .inr ⟨header,raw,rest,.kept rest hlen,Codec.openPayload_eq_error_iff.mp hopen⟩
  | none =>
    simp only [next,List.splitAt_eq] at h
    split at h
    · simp at h
    · rename_i hshort
      have htake : (unread.take Header.size).length = Header.size := by
        rw [List.length_take] at hshort ⊢
        omega
      have hwhole : Header.size ≤ unread.length := by
        rw [← htake,List.length_take]
        exact min_le_right _ _
      split at h
      · rename_i reason hdecode
        obtain rfl := Decoded.fault.inj (Prod.mk.inj h).2
        exact .inl ⟨rfl,hwhole,.inl hdecode⟩
      · rename_i header hdecode
        split at h
        · rename_i hover
          obtain rfl := Decoded.fault.inj (Prod.mk.inj h).2
          exact .inl ⟨rfl,hwhole,.inr ⟨header,hdecode,hover,rfl⟩⟩
        · rename_i hfits
          obtain ⟨raw,rest,hunread,hlen,hopen⟩ := takePayload_fault h
          have hencode := (Header.encode_decode htake hdecode).1
          have hadmitted : header.Admitted codec := ⟨by rw [hencode,hdecode],Nat.not_lt.mp hfits⟩
          have hbytes : unread = header.encode ++ raw ++ rest := by
            rw [hencode,List.append_assoc,← hunread,List.take_append_drop]
          rw [hbytes]
          exact .inr ⟨header,raw,rest,.unread rest hadmitted hlen,
            Codec.openPayload_eq_error_iff.mp hopen⟩

/-! ### The stream after a fault -/

/-- A decoder that holds some bytes and nothing else reads on as a fresh one reads these bytes and those
that come, however the stream is cut. -/
theorem feedAll_fresh_feed (codec : Codec) (rest : List UInt8) (pieces cuts : List (List UInt8))
    (h : cuts.flatten = rest ++ pieces.flatten) :
    (feedAll codec (({} : Decoder).feed rest) ([] :: pieces)).frames =
        (feedAll codec {} cuts).frames ∧
      (feedAll codec (({} : Decoder).feed rest) ([] :: pieces)).fault =
        (feedAll codec {} cuts).fault := by
  have hsame : feedAll codec {} (rest :: pieces) =
      { feedAll codec (({} : Decoder).feed rest) ([] :: pieces) with
        fed := rest ++ (feedAll codec (({} : Decoder).feed rest) ([] :: pieces)).fed } := by
    simp only [feedAll,feed_nil]
    rcases drain codec (({} : Decoder).feed rest) with ⟨d,frames,_ | fault⟩
    · simp
    · simp
  obtain ⟨last,hdrains,-⟩ := feedAll_fresh codec (rest :: pieces)
  obtain ⟨last',hdrains',-⟩ := feedAll_fresh codec cuts
  rw [List.flatten_cons,← h] at hdrains
  obtain ⟨hframes,hfault,-⟩ := hdrains.unique hdrains'
  rw [hsame] at hframes hfault
  exact ⟨hframes,hfault⟩

structure Parcel where
  header : Header
  raw : List UInt8

def Parcel.wire (p : Parcel) : List UInt8 := p.header.encode ++ p.raw

/-- The decoder goes on with the header, and what follows is as long as it says. -/
structure Parcel.Whole (codec : Codec) (p : Parcel) : Prop where
  admitted : p.header.Admitted codec
  length : p.raw.length = p.header.payloadLength.toNat

/-- Each frame of a stream is judged by itself. A payload that is spoiled changes what its own call gives
and nothing else. -/
theorem calls_parcels (codec : Codec) (ps : List Parcel) (h : ∀ p ∈ ps, p.Whole codec)
    (tail : List UInt8) :
    calls codec ⟨none,(ps.map Parcel.wire).flatten ++ tail⟩ (List.replicate ps.length []) =
      (⟨none,tail⟩,ps.map fun p => codec.judge p.header p.raw) := by
  induction ps with
  | nil => rfl
  | cons p ps ih =>
    simp only [List.mem_cons,forall_eq_or_imp] at h
    obtain ⟨⟨hadmitted,hlen⟩,hlater⟩ := h
    have hfront := Fronts.unread ((ps.map Parcel.wire).flatten ++ tail) hadmitted hlen
    simp only [List.length_cons,List.replicate_succ,calls,feed_nil,List.map_cons,List.flatten_cons,
      Parcel.wire,List.append_assoc] at hfront ⊢
    rw [hfront.next_eq]
    exact congrArg (fun later => (later.1,codec.judge p.header p.raw :: later.2)) (ih hlater)

/-- A header that is refused is fatal, a payload that is refused costs one frame. Once a header has been
refused, every later call gives the same fault and uses up nothing, whatever has been added. When the
payload of a whole frame is refused, the bytes of this frame are gone, the decoder is a fresh one that has
been fed the rest, and it reads the stream from there on as a fresh decoder reads it, however it is cut.
Nothing else leads to a fault. -/
theorem next_fault_cost (codec : Codec) (d : Decoder) :
    (∀ fault, d.Stuck codec fault → next codec d = (d,.fault fault) ∧
      ∀ pieces, calls codec d pieces =
        (d.feed pieces.flatten,List.replicate pieces.length (.fault fault))) ∧
    (∀ header raw rest fault, d.Fronts codec header raw rest → codec.Rejects header raw fault →
      next codec d = (({} : Decoder).feed rest,.fault fault) ∧
      d.pending = header.encode ++ raw ++ rest ∧
      ∀ pieces cuts, cuts.flatten = rest ++ pieces.flatten →
        (feedAll codec (({} : Decoder).feed rest) ([] :: pieces)).frames =
            (feedAll codec {} cuts).frames ∧
          (feedAll codec (({} : Decoder).feed rest) ([] :: pieces)).fault =
            (feedAll codec {} cuts).fault) ∧
    ∀ d' fault, next codec d = (d',.fault fault) → d.Stuck codec fault ∨
      ∃ header raw rest, d.Fronts codec header raw rest ∧ codec.Rejects header raw fault := by
  refine ⟨fun fault hstuck => ⟨hstuck.next_eq,hstuck.calls_eq⟩,?_,fun d' fault h => next_fault h⟩
  intro header raw rest fault hfront hrejects
  refine ⟨?_,hfront.pending_eq,feedAll_fresh_feed codec rest⟩
  rw [hfront.next_eq,Codec.judge_of_rejects hrejects]
  rfl

/-- Without a key, a sealed frame between two plain ones costs itself only, and so does one whose header
was taken up before its payload came; a frame of another version ends it all. -/
theorem next_fault_cost_keyless :
    let plain : Header := ⟨1,.string,1,{},0,1,2,2⟩
    let sealed : Header := { plain with flags := { encrypted := true } }
    let later := plain.encode ++ [7,8]
    next {} ⟨none,sealed.encode ++ [1,2] ++ later⟩ = (⟨none,later⟩,.fault .sealedFrame) ∧
      next {} ⟨some sealed,[1,2] ++ later⟩ = (⟨none,later⟩,.fault .sealedFrame) ∧
      (feedAll {} ⟨none,later⟩ [[]]).frames = [⟨plain,[7,8]⟩] ∧
      ∀ pieces, (calls {} ⟨none,{ plain with version := 2 }.encode⟩ pieces).2 =
        List.replicate pieces.length (.fault (.version 2)) := by
  intro plain sealed later
  have hadmitted : sealed.Admitted {} := ⟨by decide +kernel,by decide +kernel⟩
  obtain ⟨-,hcost,-⟩ := next_fault_cost {} ⟨none,sealed.encode ++ [1,2] ++ later⟩
  obtain ⟨-,hkept,-⟩ := next_fault_cost {} ⟨some sealed,[1,2] ++ later⟩
  obtain ⟨hfatal,-,-⟩ := next_fault_cost {} ⟨none,{ plain with version := 2 }.encode⟩
  obtain ⟨hnext,-,hafter⟩ := hcost sealed [1,2] later .sealedFrame (.unread later hadmitted rfl)
    (.keyless rfl rfl)
  refine ⟨hnext,(hkept sealed [1,2] later .sealedFrame (.kept later rfl) (.keyless rfl rfl)).1,?_,?_⟩
  · exact (hafter [] [later] (by simp)).1.trans (by decide +kernel)
  · intro pieces
    have hstuck : (⟨none,{ plain with version := 2 }.encode⟩ : Decoder).Stuck {} (.version 2) :=
      ⟨rfl,by decide +kernel,.inl (by decide +kernel)⟩
    rw [(hfatal _ hstuck).2 pieces]

end Decoder
end Tether
