import Tether.Proofs.Cluster.Waiting
import Tether.Proofs.Link.Refusing

/-! One end of a link that nothing begins to close. It lets everything through; what was put on the stream at
the one end is found at the other, once it has been read; and a call that can be carried is not refused, and
is told what some reply means and not that the link was lost. -/
namespace Tether

namespace Session

variable {first : UInt32} {s : Session} {i : Nat} {a : Act}

/-- An entry of the table was there before, or it is that of a request that has just been started. -/
theorem Orderly.of_mem_entries_step (h : s.Orderly first) (hfew : s.tickets.length < 2^32)
    {e : PendingEntry} (he : e ∈ (s.step a).link.pending.entries) :
    e ∈ s.link.pending.entries ∨ e.slot = s.tickets.length := by
  cases a with
  | start tag =>
    simp only [Session.step,Session.start] at he
    cases hc : s.link.pending.closed with
    | some reason =>
      rw [Connection.startRequest_of_closed hc] at he
      exact .inl he
    | none =>
      rw [h.startRequest_eq hfew tag hc] at he
      rcases List.mem_append.mp he with he | he
      · exact .inl he
      · exact .inr (List.mem_singleton.mp he ▸ rfl)
  | respond reply =>
    rw [entries_respond] at he
    exact .inl (List.mem_filter.mp he).1
  | release k =>
    simp only [Session.step,Session.release] at he
    split at he
    · exact .inl he
    · split at he
      · exact .inl he
      · exact .inl (Pending.mem_erase.mp he).1
  | proceed k =>
    simp only [Session.step] at he
    split at he
    · rename_i call _
      rcases call with ⟨reason,stage⟩
      cases stage with
      | called =>
        simp only [Session.proceed,Connection.recordReason] at he
        cases hr : s.link.closeReason with
        | none => exact .inl (by simpa [hr,mark] using he)
        | some _ => exact .inl (by simpa [hr,mark] using he)
      | halted => exact absurd he List.not_mem_nil
      | _ => exact .inl he
    · exact .inl he
  | ready peer =>
    rcases Connection.enter_cases { s.link with peerName := some peer } .ready with hl | hl
    all_goals
      simp only [Session.step,Connection.markReady,hl] at he
      exact .inl he
  | handshake =>
    rcases Connection.enter_cases s.link .handshaking with hl | hl
    all_goals
      simp only [Session.step,hl] at he
      exact .inl he
  | close reason => exact .inl he

theorem Orderly.inTable_of_step (h : s.Orderly first) (hfew : s.tickets.length < 2^32)
    (hi : i < s.tickets.length) (ht : (s.step a).InTable i) : s.InTable i := by
  obtain ⟨e,he,rfl⟩ := ht
  exact ⟨e,(h.of_mem_entries_step hfew he).resolve_right (Nat.ne_of_lt hi),rfl⟩

/-- A request that was replied to does not wait any more. -/
def Heard (first : UInt32) (s : Session) (i : Nat) : Prop :=
  ∀ m ∈ s.replies, m.counter = (ticketAt first i).counter → ¬ s.InTable i

theorem Heard.step (h : s.Heard first i) (ho : s.Orderly first) (hfew : s.tickets.length < 2^32)
    (hi : i < s.tickets.length) (a : Act) : (s.step a).Heard first i := by
  intro m hm hcounter ht
  by_cases ha : a = .respond m
  · subst ha
    obtain ⟨e,he,rfl⟩ := ht
    rw [entries_respond,List.mem_filter] at he
    have hid := (ho.entries e he.1).2
    simp [hid,hcounter] at he
  · refine h m ?_ hcounter (ho.inTable_of_step hfew hi ht)
    by_cases hother : ∀ reply, a ≠ .respond reply
    · rwa [s.replies_step hother] at hm
    · push Not at hother
      obtain ⟨reply,rfl⟩ := hother
      rcases List.mem_append.mp hm with hm | hm
      · exact hm
      · exact absurd (List.mem_singleton.mp hm ▸ rfl) ha

theorem Heard.run (h : s.Heard first i) (hs : s.Sound first) (hi : i < s.tickets.length)
    {acts : List Act} (hfew : (s.run acts).tickets.length < 2^32) : (s.run acts).Heard first i := by
  induction acts generalizing s with
  | nil => exact h
  | cons a acts ih =>
    have hstep := (s.tickets_step a).length_le
    have hrest := (tickets_run (s.step a) acts).length_le
    rw [run_cons] at hfew ⊢
    exact ih (h.step hs.orderly (by omega) hi a) (hs.run [a] (by simpa using by omega)) (by omega) hfew

/-- Whatever was handed over is what some reply means. -/
def Replied (first : UInt32) (s : Session) : Prop :=
  ∀ d ∈ s.delivered, ∃ m ∈ s.replies, m.counter = (ticketAt first d.slot).counter ∧
    d.outcome = Connection.outcomeOf m

theorem Replied.of_same {s' : Session} (h : s.Replied first) (hdelivered : s'.delivered = s.delivered)
    (hreplies : s'.replies = s.replies) : s'.Replied first := by
  intro d hd
  rw [hreplies]
  exact h d (hdelivered ▸ hd)

/-- Without a call to close nobody is told that the link was lost. -/
theorem Replied.step (h : s.Replied first) (ho : s.Orderly first) (hnone : s.closes = []) (a : Act) :
    (s.step a).Replied first := by
  cases a with
  | respond reply =>
    intro d hd
    rcases List.mem_append.mp hd with hd | hd
    · obtain ⟨m,hm,hd⟩ := h d hd
      exact ⟨m,List.mem_append_left _ hm,hd⟩
    · unfold Pending.resolve at hd
      cases hf : s.link.pending.find? reply.counter with
      | none => simp [hf] at hd
      | some e =>
        obtain ⟨he,hid⟩ := Pending.mem_of_find?_eq_some hf
        simp only [hf,Option.toList_some,List.mem_singleton] at hd
        subst hd
        exact ⟨reply,by simp [Session.step,Session.respond],hid.symm.trans (ho.entries e he).2,rfl⟩
  | proceed k => simpa [Session.step,hnone] using h
  | start tag =>
    simp only [Session.step,start]
    split <;> exact h.of_same rfl rfl
  | release k =>
    simp only [Session.step,release]
    split
    · exact h
    · split
      · exact h
      · exact h.of_same rfl rfl
  | _ => exact h.of_same rfl rfl

theorem Replied.run (h : s.Replied first) (hs : s.Sound first) {acts : List Act}
    (hfew : (s.run acts).tickets.length < 2^32) (hnone : (s.run acts).closes = []) :
    (s.run acts).Replied first := by
  induction acts generalizing s with
  | nil => exact h
  | cons a acts ih =>
    have hrest := (tickets_run (s.step a) acts).length_le
    rw [run_cons] at hfew hnone ⊢
    have hnone' := (unhalted_step (unhalted_run hnone).1).1
    exact ih (h.step hs.orderly hnone' a) (hs.run [a] (by simpa using by omega)) hfew hnone

end Session

variable {codec : Codec}

theorem Codec.Carries.chunkCount {length : Nat} (h : codec.Carries length) :
    ∃ total, codec.limits.chunkCount length = .ok total :=
  ⟨_,(Limits.chunkCount_eq_ok_iff ..).mpr ⟨h.1,h.2.1,rfl⟩⟩

theorem Codec.track_chunksOf (hchunk : 1 ≤ codec.limits.chunkSize.toNat) {m : Message}
    (hcarries : codec.Carries m.payload.length) (nonces : Nonces) :
    (Reassembler.track none ((codec.chunksOf nonces m).map (Chunk.frame codec))).2 = [m] := by
  obtain ⟨total,ht⟩ := hcarries.chunkCount
  rw [Codec.frames_chunksOf ht,Reassembler.track_frames codec nonces m total
    (Limits.one_le_chunkCount hchunk ht) (Limits.length_le_chunkCount hchunk ht)]

theorem Codec.chunksOf_ne_nil (hchunk : 1 ≤ codec.limits.chunkSize.toNat) {m : Message}
    (hcarries : codec.Carries m.payload.length) (nonces : Nonces) : codec.chunksOf nonces m ≠ [] := by
  intro hnil
  have htrack := Codec.track_chunksOf hchunk hcarries nonces
  simp [hnil,Reassembler.track] at htrack

namespace Endpoint

variable {move : Move} {first : UInt32} {e e' w r : Endpoint}

theorem Carried.found_all (hk : codec.Keyed) (h : Carried codec w r) (hw : w.writable = true)
    (hr : r.reading = true) (hout : w.outgoing = [])
    (hmore : (r.inbound.decoder.next codec).2 = .more) (key : ChunkKey) :
    r.routed.filter (·.key == key) =
      (Reassembler.track none ((w.said key).map (Chunk.frame codec))).2 := by
  obtain ⟨n,reassembler,ht⟩ := h.taken
  obtain ⟨-,hvalid,lost,hbytes,hlost⟩ := ht.going hr
  rw [hout,hlost hw,List.append_nil,List.append_nil] at hbytes
  have hparse : (Decoder.parse codec (codec.wires (w.sent.drop n))).1 = .more := by
    rw [← hbytes,← (Decoder.next_parse hvalid).1]
    exact hmore
  have hall : w.sent.drop n = [] := by
    cases hdrop : w.sent.drop n with
    | nil => rfl
    | cons c rest =>
      have hc := h.sendable c (List.mem_of_mem_drop (hdrop ▸ List.mem_cons_self))
      rw [hdrop] at hparse
      exact absurd hparse (Decoder.parse_wire_ne_more hk hc (codec.wires rest))
  have hrun := ht.run
  rw [List.take_of_length_le (List.drop_eq_nil_iff.mp hall)] at hrun
  have htrack := Reassembler.track_of_run codec.limits hrun key
  rw [List.filter_map] at htrack
  exact (congrArg Prod.snd htrack).symm

/-! ### One end -/

/-- An end of a link that nothing has begun to close. -/
structure Upheld (first : UInt32) (e : Endpoint) : Prop where
  opened : e.Open
  reading : e.reading = true
  replied : e.session.Replied first
  voiced : ∀ t ∈ e.serves, ∀ reply, t.stage = .answered reply → e.said (t.request.counter,true) ≠ []

theorem upheld_establish (name : String) (role : Role) (peerAddr : String) (counter : UInt32) :
    (establish name role peerAddr counter).Upheld counter :=
  ⟨⟨rfl,rfl⟩,rfl,fun _ hd => absurd hd List.not_mem_nil,fun _ ht => absurd ht List.not_mem_nil⟩

theorem said_ne_nil_of_append {chunks : List Chunk} {key : ChunkKey} (hsent : e'.sent = e.sent ++ chunks)
    (h : e.said key ≠ []) : e'.said key ≠ [] := by
  rw [said_append hsent]
  exact fun hnil => h (List.append_eq_nil_iff.mp hnil).1

theorem Upheld.voiced_step (h : e.Upheld first) (hchunk : 1 ≤ codec.limits.chunkSize.toNat)
    (hs : Step codec move e e') : ∀ t ∈ e'.serves, ∀ reply, t.stage = .answered reply →
      e'.said (t.request.counter,true) ≠ [] := by
  obtain ⟨chunks,hsent,hanswers⟩ := hs.answers
  have hkeep : ∀ t ∈ e.serves, ∀ reply, t.stage = .answered reply →
      e'.said (t.request.counter,true) ≠ [] :=
    fun t ht reply hstage => said_ne_nil_of_append hsent (h.voiced t ht reply hstage)
  intro t ht reply hstage
  generalize hb : e'.serves = serves at hanswers ht
  cases hanswers with
  | same => exact hkeep t ht reply hstage
  | routed m =>
    rcases List.mem_append.mp ht with ht | ht
    · exact hkeep t ht reply hstage
    · obtain rfl := List.mem_singleton.mp ht
      simp at hstage
  | stopped =>
    obtain ⟨t₀,ht₀,rfl⟩ := List.mem_map.mp ht
    rw [request_abandon]
    refine hkeep t₀ ht₀ reply ?_
    rcases t₀ with ⟨request,b,stage⟩
    cases stage with
    | answered made => exact hstage
    | _ => simp [abandon] at hstage
  | handled k t₀ t' hk hh =>
    rcases List.mem_or_eq_of_mem_set ht with ht | rfl
    · exact hkeep t ht reply hstage
    · cases hh <;> simp at hstage
  | replied k request b made nonces tear hk ho hf =>
    rcases List.mem_or_eq_of_mem_set ht with ht | rfl
    · exact hkeep t ht reply hstage
    · obtain ⟨total,htotal,-⟩ := (Codec.emitMessage_fault_iff ..).mp hf
      obtain ⟨c,hc,-⟩ := Codec.exists_first_chunk nonces.1 (made.message request.counter)
        (Limits.one_le_chunkCount hchunk htotal)
      have hmem : c ∈ codec.chunksOf nonces.1 (made.message request.counter) := by
        rwa [Codec.chunksOf,htotal]
      have hkey : c.key = (request.counter,true) := key_of_mem_chunksOf hmem
      rw [said_append hsent]
      refine List.ne_nil_of_mem (List.mem_append_right _ (List.mem_filter.mpr ⟨hmem,?_⟩))
      exact beq_iff_eq.mpr hkey

theorem Upheld.step (h : e.Upheld first) (hchunk : 1 ≤ codec.limits.chunkSize.toNat)
    (ha : e.session.Sound first) (hs : Step codec move e e')
    (hfew : e'.session.tickets.length < 2^32) (hnone : e'.session.closes = []) : e'.Upheld first := by
  obtain ⟨acts,hacts,-⟩ := hs.session
  obtain ⟨hopen,hreading⟩ := hs.stays_open ⟨h.opened,h.reading⟩ hnone
  refine ⟨hopen,hreading,?_,h.voiced_step hchunk hs⟩
  rw [hacts] at hfew hnone ⊢
  exact h.replied.run ha hfew hnone

theorem Upheld.congr (h : e.Upheld first) (inbound : Inbound) (outgoing : List UInt8) :
    ({ e with inbound, outgoing } : Endpoint).Upheld first := ⟨h.opened,h.reading,h.replied,h.voiced⟩

/-! ### A call -/

variable {i : Nat} {ticket : Ticket} {tag : Tag} {data : List UInt8} {stage : CallStage}

/-- How a call stands that can be carried: it has its ticket until it is over, it is not refused, and once it
is sent something of it has been said. -/
def Stands (e : Endpoint) (i : Nat) (ticket : Ticket) : CallStage → Prop
  | .opened => i ∉ e.session.released
  | .sent => i ∉ e.session.released ∧ e.said (ticket.counter,false) ≠ []
  | .refused _ => False
  | _ => True

structure Poses (first : UInt32) (i : Nat) (ticket : Ticket) (tag : Tag) (data : List UInt8)
    (e : Endpoint) : Prop where
  call : ∃ stage, e.errands[i]? = some (.call ticket tag data stage) ∧ e.Stands i ticket stage
  heard : e.session.Heard first i

theorem write_call_of_open (hs : codec.Sound) (hchunk : 1 ≤ codec.limits.chunkSize.toNat)
    (hx : e.errands[i]? = some (.call ticket tag data .opened)) (hcarries : codec.Carries data.length)
    (ho : e.Open) (nonces : NonceSupply) (tear : Option Tear)
    (hnone : (e.write codec i nonces tear).session.closes = []) :
    let chunks := codec.chunksOf nonces.1 ⟨ticket.counter,tag,false,data⟩
    e.write codec i nonces tear =
      (e.extend (codec.wires chunks) chunks none).setErrand i (.call ticket tag data .sent) := by
  cases tear with
  | none => exact write_call_of_carries hs hchunk hx hcarries ho nonces
  | some tear =>
    have hf := (Codec.fault_eq_none_iff hs hchunk nonces ⟨ticket.counter,tag,false,data⟩).mpr hcarries
    simp [write,hx,writeMessage_of_encodable e hf,put,ho.1,ho.2,setErrand,extend,Session.step] at hnone

theorem Poses.step (h : e.Poses first i ticket tag data) (hk : codec.Keyed)
    (hchunk : 1 ≤ codec.limits.chunkSize.toNat) (hcarries : codec.Carries data.length)
    (ha : e.Asking codec first) (ho : e.Open) (move : Move)
    (hfew : (e.step codec move).session.tickets.length < 2^32)
    (hnone : (e.step codec move).session.closes = []) :
    (e.step codec move).Poses first i ticket tag data := by
  obtain ⟨⟨stage,hcall,hstands⟩,hheard⟩ := h
  have hs := @step_cases codec e ha.bounded move
  obtain ⟨acts,hacts,-⟩ := hs.session
  obtain ⟨chunks,hsent,-⟩ := hs.asks
  have hheard' : (e.step codec move).session.Heard first i := by
    rw [hacts] at hfew ⊢
    exact hheard.run ha.session (ha.ticket hcall).1 hfew
  obtain ⟨stage',hgoes⟩ := exists_goes codec hcall move
  have hwrites : ∀ nonces tear, stage = .opened → move = .write i nonces tear →
      let chunks := codec.chunksOf nonces.1 ⟨ticket.counter,tag,false,data⟩
      e.step codec move =
        (e.extend (codec.wires chunks) chunks none).setErrand i (.call ticket tag data .sent) := by
    rintro nonces tear rfl rfl
    exact write_call_of_open hk.sound hchunk hcall hcarries ho nonces tear hnone
  refine ⟨⟨stage',hgoes.errand,?_⟩,hheard'⟩
  cases hgoes.becomes with
  | same =>
    have hheld : ¬ stage.Over → i ∉ e.session.released → i ∉ (e.step codec move).session.released :=
      fun hwaits hkept hr => (hgoes.released hr).elim hkept hwaits
    cases stage with
    | opened => exact hheld id hstands
    | sent => exact ⟨hheld id hstands.1,said_ne_nil_of_append hsent hstands.2⟩
    | _ => exact hstands
  | sent nonces tear hmove =>
    have hwrite := hwrites nonces tear rfl hmove
    have hkept : i ∉ e.session.released := hstands
    refine ⟨fun hr => (hgoes.released hr).elim hkept id,?_⟩
    have hkey : ∀ c ∈ codec.chunksOf nonces.1 ⟨ticket.counter,tag,false,data⟩,
        c.key = (ticket.counter,false) := fun c hc => key_of_mem_chunksOf hc
    rw [hwrite,setErrand,said,sent_extend,List.filter_append,filter_key_eq_self hkey]
    exact fun hnil => Codec.chunksOf_ne_nil hchunk hcarries nonces.1 (List.append_eq_nil_iff.mp hnil).2
  | refused error nonces tear _ hmove =>
    have hwrite := hwrites nonces tear rfl hmove
    have herrand := hgoes.errand
    rw [hwrite,setErrand,errands_extend,List.getElem?_set_self (List.getElem?_eq_some_iff.mp hcall).1]
      at herrand
    simp at herrand
  | _ => trivial

theorem Poses.congr (h : e.Poses first i ticket tag data) (inbound : Inbound) (outgoing : List UInt8) :
    ({ e with inbound, outgoing } : Endpoint).Poses first i ticket tag data := by
  obtain ⟨⟨stage,hcall,hstands⟩,hheard⟩ := h
  refine ⟨⟨stage,hcall,?_⟩,hheard⟩
  cases stage <;> exact hstands

theorem call_of_ready (ha : e.Asking codec first) (hfew : e.session.tickets.length < 2^32) (ho : e.Open)
    (hready : e.session.link.phase = .ready) (tag : Tag) (data : List UInt8) :
    e.call tag data = { e with
      session := e.session.step (.start tag)
      errands := e.errands ++ [.call (Session.ticketAt first e.errands.length) tag data .opened] } := by
  have hclosed : e.session.link.pending.closed = none := by
    cases hc : e.session.link.pending.closed with
    | none => rfl
    | some reason =>
      have hhalted := (ha.session.staged.table reason hc).2.1
      simp [ho.1] at hhalted
  have hlen : e.errands.length = e.session.tickets.length := by
    rw [← ha.tickets,List.length_map]
  simp [call,begin,launch,Connection.ensureReady,hready,
    ha.session.orderly.startRequest_eq hfew tag hclosed,hlen]

end Endpoint
end Tether
