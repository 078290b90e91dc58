import Tether.Proofs.Wire.Cutting

/-! Where a stream without a fault ends. It is cut between two frames, within a header, within a payload,
or between a header and the payload that it announces. The bytes alone decide which of these it is, and
the decoder that has used them up tells all but the first and the last apart by the bytes it holds: a
header that is kept apart is not among them. -/
namespace Tether
namespace Decoder

variable {codec : Codec}

inductive Ending
  | whole
  | announced
  | torn
deriving DecidableEq, Repr

/-- The end of a stream: after whole frames, after a header whose payload has not begun, or within a
header or a payload. -/
inductive Ends (codec : Codec) : List UInt8 → Ending → Prop
  | whole {frames : List Frame} {bytes : List UInt8} : Spells codec frames bytes →
    Ends codec bytes .whole
  | announced {frames : List Frame} {used : List UInt8} {header : Header} : Spells codec frames used →
    header.Admitted codec → 0 < header.payloadLength.toNat →
    Ends codec (used ++ header.encode) .announced
  | header {frames : List Frame} {used rest : List UInt8} : Spells codec frames used → rest ≠ [] →
    rest.length < Header.size → Ends codec (used ++ rest) .torn
  | payload {frames : List Frame} {used raw : List UInt8} {header : Header} :
    Spells codec frames used → header.Admitted codec → raw ≠ [] →
    raw.length < header.payloadLength.toNat → Ends codec (used ++ (header.encode ++ raw)) .torn

/-- How the stream of a decoder ended, as far as it shows. -/
def ending (d : Decoder) : Ending :=
  match d.header,d.unread with
  | none,[] => .whole
  | some _,[] => .announced
  | _,_ :: _ => .torn

theorem ending_eq_torn_iff (d : Decoder) : d.ending = .torn ↔ d.unread ≠ [] := by
  rcases d with ⟨header,unread⟩
  cases header <;> cases unread <;> simp [ending]

/-! ### Whole frames and what is behind them -/

theorem parse_whole {header : Header} {raw payload : List UInt8} (h : header.Admitted codec)
    (hraw : raw.length = header.payloadLength.toNat) (hopen : codec.openPayload header raw = .ok payload)
    (rest : List UInt8) :
    parse codec (header.encode ++ raw ++ rest) = (.frame ⟨header,payload⟩,rest) := by
  rw [List.append_assoc,parse_encode codec header _ h.genuine h.fits,parsePayload,
    if_neg (by rw [List.length_append]; omega),List.take_left' hraw,List.drop_left' hraw,hopen]

theorem parse_short {header : Header} {raw : List UInt8} (h : header.Admitted codec)
    (hraw : raw.length < header.payloadLength.toNat) :
    parse codec (header.encode ++ raw) = (.more,header.encode ++ raw) := by
  rw [parse_encode codec header _ h.genuine h.fits,parsePayload,if_pos hraw]

theorem Spells.drains {frames frames' : List Frame} {used rest last : List UInt8}
    {fault : Option ProtocolFault} (h : Spells codec frames used)
    (hrest : Drains codec rest frames' fault last) :
    Drains codec (used ++ rest) (frames ++ frames') fault last := by
  induction h with
  | nil => exact hrest
  | @cons frame raw bytes frames hadmitted hraw hopen _ ih =>
    rw [List.append_assoc]
    exact .frame (parse_whole hadmitted hraw hopen _) ih

/-- What is not enough for a frame: nothing, part of a header, or a header with part of its payload. -/
theorem parse_more_cases {bytes rest : List UInt8} (h : parse codec bytes = (.more,rest)) :
    bytes.length < Header.size ∨ ∃ (header : Header) (raw : List UInt8), header.Admitted codec ∧
      raw.length < header.payloadLength.toNat ∧ bytes = header.encode ++ raw := by
  unfold parse at h
  split at h
  · rename_i hshort
    exact .inl hshort
  · rename_i hsize
    have htake : (bytes.take Header.size).length = Header.size := by
      rw [List.length_take]
      omega
    split at h
    · simp at h
    · rename_i header hd
      obtain ⟨hencode,-⟩ := Header.encode_decode htake hd
      split at h
      · simp at h
      · rename_i hover
        unfold parsePayload at h
        split at h
        · rename_i hshort
          refine .inr ⟨header,bytes.drop Header.size,⟨by rw [hencode,hd],Nat.not_lt.mp hover⟩,hshort,?_⟩
          rw [hencode,List.take_append_drop]
        · split at h <;> simp at h

/-- A decoder that has used up the bytes of a stream tells how the stream ends. -/
theorem Ends.exists_decoder {bytes : List UInt8} {ending : Ending} (h : Ends codec bytes ending) :
    ∃ (fs : List Frame) (d : Decoder), Drains codec bytes fs none d.pending ∧ d.Valid codec ∧
      d.Settled ∧ d.ending = ending := by
  cases h with
  | @whole frames _ hspells =>
    have hd := hspells.drains (.more (show parse codec [] = (.more,[]) from rfl))
    rw [List.append_nil] at hd
    exact ⟨_,{},hd,valid_none codec [],settled_empty,rfl⟩
  | @announced frames used header hspells hadmitted hpos =>
    have hmore := parse_short hadmitted (show ([] : List UInt8).length < header.payloadLength.toNat from hpos)
    rw [List.append_nil] at hmore
    have hd := hspells.drains (.more hmore)
    refine ⟨_,⟨some header,[]⟩,by rwa [pending_some,List.append_nil],?_,settled_some header [],rfl⟩
    rintro _ ⟨⟩
    exact ⟨hadmitted.genuine,hadmitted.fits⟩
  | @header frames used rest hspells hne hshort =>
    have hmore : parse codec rest = (.more,rest) := by rw [parse,if_pos hshort]
    refine ⟨_,⟨none,rest⟩,hspells.drains (.more hmore),valid_none codec rest,fun _ => hshort,?_⟩
    exact (ending_eq_torn_iff _).mpr hne
  | @payload frames used raw header hspells hadmitted hne hshort =>
    refine ⟨_,⟨some header,raw⟩,hspells.drains (.more (parse_short hadmitted hshort)),?_,
      settled_some header raw,(ending_eq_torn_iff _).mpr hne⟩
    rintro _ ⟨⟩
    exact ⟨hadmitted.genuine,hadmitted.fits⟩

theorem Drains.exists_ends {bytes last : List UInt8} {fs : List Frame}
    (h : Drains codec bytes fs none last) : ∃ ending, Ends codec bytes ending := by
  obtain ⟨used,wasted,hbytes,hspells,hwastes⟩ := h.accounts
  obtain rfl : wasted = [] := by
    cases hwastes
    rfl
  rw [List.append_nil] at hbytes
  subst hbytes
  have hidle : parse codec last = (.more,last) := by
    cases h.idle with
    | more hp => exact hp
  rcases parse_more_cases hidle with hshort | ⟨header,raw,hadmitted,hshort,rfl⟩
  · by_cases hne : last = []
    · subst hne
      rw [List.append_nil]
      exact ⟨_,.whole hspells⟩
    · exact ⟨_,.header hspells hne hshort⟩
  · by_cases hne : raw = []
    · subst hne
      rw [List.append_nil]
      exact ⟨_,.announced hspells hadmitted hshort⟩
    · exact ⟨_,.payload hspells hadmitted hne hshort⟩

theorem Drains.ends_iff {bytes : List UInt8} {fs : List Frame} {d : Decoder}
    (h : Drains codec bytes fs none d.pending) (hv : d.Valid codec) (hs : d.Settled) (ending : Ending) :
    Ends codec bytes ending ↔ ending = d.ending := by
  have hof : ∀ {ending}, Ends codec bytes ending → ending = d.ending := by
    intro ending he
    obtain ⟨fs',d',hd',hv',hs',rfl⟩ := he.exists_decoder
    rw [eq_of_pending hv' hv hs' hs (hd'.unique h).2.2]
  refine ⟨hof,?_⟩
  rintro rfl
  obtain ⟨ending,he⟩ := h.exists_ends
  exact hof he ▸ he

end Decoder
end Tether
