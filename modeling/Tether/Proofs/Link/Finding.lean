import Tether.Proofs.Link.Lifecycle
import Tether.Proofs.Link.Reading
import Tether.Proofs.Link.Writing

/-! What an endpoint finds in the bytes that come in, step by step, and what its other steps leave alone: a
message that is found is routed there and then, and only a decoding step finds one. -/
namespace Tether

namespace Session

/-- The reasons of the calls to close, in the order of the calls. -/
def reasons (s : Session) : List String := s.closes.map (·.reason)

theorem reasons_proceed (s : Session) (k : Nat) : (s.step (.proceed k)).reasons = s.reasons := by
  simp only [reasons,step]
  cases hk : s.closes[k]? with
  | none => rfl
  | some call =>
    obtain ⟨stage,hset,-⟩ := closes_proceed hk
    obtain ⟨before,after,hcloses,hput⟩ := exists_split_of_getElem? hk
    simp only [hset,hput]
    simp [hcloses]

theorem reasons_run_proceed (s : Session) (n k : Nat) :
    (s.run (List.replicate n (.proceed k))).reasons = s.reasons := by
  induction n generalizing s with
  | zero => rfl
  | succ n ih => rw [List.replicate_succ,run_cons,ih,reasons_proceed]

theorem reasons_step (s : Session) (a : Act) : s.reasons <+: (s.step a).reasons := by
  cases a with
  | close reason => simp [reasons,step]
  | proceed k => exact (s.reasons_proceed k).symm ▸ List.prefix_refl _
  | start tag =>
    simp only [step,start]
    split <;> exact List.prefix_refl _
  | release k =>
    simp only [step,release]
    split
    · exact List.prefix_refl _
    · split <;> exact List.prefix_refl _
  | _ => exact List.prefix_refl _

theorem reasons_run (s : Session) (acts : List Act) : s.reasons <+: (s.run acts).reasons := by
  induction acts generalizing s with
  | nil => exact List.prefix_refl _
  | cons a acts ih => exact (s.reasons_step a).trans (ih (s.step a))

end Session

namespace Endpoint

variable {codec : Codec} {e e' : Endpoint}

/-! ### What is found on the way -/

def notes (codec : Codec) (e : Endpoint) : Event → List Arrival
  | .move .decode =>
    if !e.reading then []
    else match (e.inbound.decoder.next codec).2 with
      | .more => []
      | .fault fault => [.fault (.protocol fault)]
      | .frame frame =>
        .frame (Inbound.frameSize frame) ::
          match (e.inbound.reassembler.push codec.limits frame).2 with
          | .ok none => []
          | .ok (some m) => [.message m]
          | .error fault => [.fault (.protocol fault)]
  | _ => []

def noted (codec : Codec) : Endpoint → List Event → List Arrival
  | _,[] => []
  | e,ev :: rest => notes codec e ev ++ noted codec (e.after codec ev) rest

def Event.bytes : Event → List UInt8
  | .feed bytes => bytes
  | .move _ => []

def stream (events : List Event) : List UInt8 := events.flatMap Event.bytes

@[simp] theorem stream_nil : stream [] = [] := rfl

@[simp] theorem stream_cons (ev : Event) (rest : List Event) :
    stream (ev :: rest) = ev.bytes ++ stream rest := rfl

/-- A decoding step, with what it finds. -/
inductive Decodes (codec : Codec) (e : Endpoint) : Endpoint → List Arrival → Prop
  | idle : e.reading = false → Decodes codec e e []
  | more (d : Decoder) : e.reading = true → e.inbound.decoder.next codec = (d,.more) →
    Decodes codec e { e with inbound := { e.inbound with decoder := d } } []
  | took (d : Decoder) (ra : Reassembler) (f : Frame) : e.reading = true →
    e.inbound.decoder.next codec = (d,.frame f) →
    e.inbound.reassembler.push codec.limits f = (ra,.ok none) →
    Decodes codec e { e with inbound := ⟨d,ra⟩ } [.frame (Inbound.frameSize f)]
  | found (d : Decoder) (ra : Reassembler) (f : Frame) (m : Message) : e.reading = true →
    e.inbound.decoder.next codec = (d,.frame f) →
    e.inbound.reassembler.push codec.limits f = (ra,.ok (some m)) →
    Decodes codec e ({ e with inbound := ⟨d,ra⟩ }.route m) [.frame (Inbound.frameSize f),.message m]
  | refused (d : Decoder) (ra : Reassembler) (f : Frame) (fault : ProtocolFault) : e.reading = true →
    e.inbound.decoder.next codec = (d,.frame f) →
    e.inbound.reassembler.push codec.limits f = (ra,.error fault) →
    Decodes codec e ({ e with inbound := ⟨d,ra⟩ }.stop (LinkError.protocol fault).message)
      [.frame (Inbound.frameSize f),.fault (.protocol fault)]
  | malformed (d : Decoder) (fault : ProtocolFault) : e.reading = true →
    e.inbound.decoder.next codec = (d,.fault fault) →
    Decodes codec e ({ e with inbound := { e.inbound with decoder := d } }.stop
      (LinkError.protocol fault).message) [.fault (.protocol fault)]

theorem decodes (codec : Codec) (e : Endpoint) :
    Decodes codec e (e.decode codec) (notes codec e (.move .decode)) := by
  unfold decode notes
  by_cases hr : e.reading = true
  · simp only [if_neg (show ¬ (!e.reading) = true by simp [hr])]
    rcases hn : e.inbound.decoder.next codec with ⟨d,_ | f | fault⟩
    · exact .more d hr hn
    · rcases hp : e.inbound.reassembler.push codec.limits f with ⟨ra,fault | _ | m⟩
      · simp only [hp]
        exact .refused d ra f fault hr hn hp
      · simp only [hp]
        exact .took d ra f hr hn hp
      · simp only [hp]
        exact .found d ra f m hr hn hp
    · exact .malformed d fault hr hn
  · simp only [if_pos (show (!e.reading) = true by simp [hr])]
    exact .idle (by simpa using hr)

structure SameReader (e e' : Endpoint) : Prop where
  inbound : e'.inbound = e.inbound
  reading : e'.reading = e.reading
  routed : e'.routed = e.routed

theorem SameReader.refl (e : Endpoint) : e.SameReader e := ⟨rfl,rfl,rfl⟩

theorem Puts.sameReader (h : e.Puts e') : e.SameReader e' := ⟨h.inbound,h.reading,h.routed⟩

theorem Begins.sameReader (h : e.Begins e') : e.SameReader e' := by
  cases h <;> exact ⟨rfl,rfl,rfl⟩

/-- Only a decoding step and the end of reading are about reading. -/
theorem sameReader_step {move : Move} (hdecode : move ≠ .decode) (hstop : ∀ reason, move ≠ .stop reason)
    (e : Endpoint) : e.SameReader (e.step codec move) := by
  cases move with
  | decode => exact absurd rfl hdecode
  | stop reason => exact absurd rfl (hstop reason)
  | greet data => exact (e.begins_launch ..).sameReader
  | call tag data => exact (e.begins_begin ..).sameReader
  | upload path name size => exact (e.begins_upload codec path name size).sameReader
  | write i nonces tear =>
    simp only [step]
    rcases e.write_cases codec i nonces tear with hsame | ⟨e₁,x,hputs,hwrite⟩
    · rw [hsame]
      exact .refl e
    · rw [hwrite]
      exact ⟨hputs.inbound,hputs.reading,hputs.routed⟩
  | respond k nonces tear =>
    simp only [step]
    rcases e.respond_cases codec k nonces tear with hsame | ⟨e₁,t,t',hputs,-,-,-,hrespond⟩
    · rw [hsame]
      exact .refl e
    · rw [hrespond]
      exact ⟨hputs.inbound,hputs.reading,hputs.routed⟩
  | shut =>
    simp only [step]
    split <;> exact ⟨rfl,rfl,rfl⟩
  | fill i got =>
    simp only [step,fill]
    (repeat' split) <;> exact ⟨rfl,rfl,rfl⟩
  | forget i =>
    simp only [step,forget]
    split <;> exact ⟨rfl,rfl,rfl⟩
  | collect i =>
    simp only [step,collect]
    (repeat' split) <;> exact ⟨rfl,rfl,rfl⟩
  | leave i =>
    simp only [step,leave]
    split <;> exact ⟨rfl,rfl,rfl⟩
  | gate k =>
    simp only [step,gate]
    (repeat' split) <;> exact ⟨rfl,rfl,rfl⟩
  | serve k result =>
    simp only [step,serve]
    split <;> exact ⟨rfl,rfl,rfl⟩
  | crash k =>
    simp only [step,crash]
    split <;> exact ⟨rfl,rfl,rfl⟩
  | _ => exact ⟨rfl,rfl,rfl⟩

theorem notes_of_ne {ev : Event} (h : ev ≠ .move .decode) : notes codec e ev = [] := by
  cases ev with
  | feed bytes => rfl
  | move m =>
    cases m with
    | decode => exact absurd rfl h
    | _ => rfl

theorem routed_route (e : Endpoint) (m : Message) : (e.route m).routed = e.routed ++ [m] := by
  unfold route
  split <;> rfl

theorem routed_after (e : Endpoint) (ev : Event) :
    (e.after codec ev).routed = e.routed ++ Arrival.messages (notes codec e ev) := by
  by_cases hdecode : ev = .move .decode
  · subst hdecode
    have hd := decodes codec e
    simp only [after,step]
    generalize e.decode codec = e',notes codec e (.move .decode) = found at hd ⊢
    cases hd with
    | found d ra f m => exact routed_route _ m
    | _ => exact (List.append_nil _).symm
  · rw [notes_of_ne hdecode]
    simp only [Arrival.messages,List.filterMap_nil,List.append_nil]
    cases ev with
    | feed bytes => rfl
    | move m =>
      by_cases hstop : ∃ reason, m = .stop reason
      · obtain ⟨reason,rfl⟩ := hstop
        rfl
      · exact (sameReader_step (fun h => hdecode (h ▸ rfl)) (fun r h => hstop ⟨r,h⟩) e).routed

theorem routed_run (e : Endpoint) (events : List Event) :
    (e.run codec events).routed = e.routed ++ Arrival.messages (noted codec e events) := by
  induction events generalizing e with
  | nil => simp [noted,Arrival.messages]
  | cons ev events ih => rw [run_cons,ih,routed_after,noted,Arrival.messages_append,List.append_assoc]

theorem stream_append (before after : List Event) :
    stream (before ++ after) = stream before ++ stream after := List.flatMap_append

theorem noted_of_over (codec : Codec) (h : e.reading = false) (events : List Event) :
    noted codec e events = [] ∧ (e.run codec events).reading = false := by
  have hstep : ∀ (e : Endpoint) (ev : Event), e.reading = false →
      notes codec e ev = [] ∧ (e.after codec ev).reading = false := by
    intro e ev hover
    by_cases hdecode : ev = .move .decode
    · subst hdecode
      simp [notes,hover,after,step,Endpoint.decode]
    · refine ⟨notes_of_ne hdecode,?_⟩
      cases ev with
      | feed bytes => exact hover
      | move m =>
        by_cases hstop : ∃ reason, m = .stop reason
        · obtain ⟨reason,rfl⟩ := hstop
          rfl
        · exact (sameReader_step (fun h => hdecode (h ▸ rfl)) (fun r h => hstop ⟨r,h⟩) e).reading.trans hover
  induction events generalizing e with
  | nil => exact ⟨rfl,h⟩
  | cons ev events ih =>
    obtain ⟨hnone,hover⟩ := hstep e ev h
    obtain ⟨hrest,hlast⟩ := ih hover
    exact ⟨by rw [noted,hnone,hrest,List.append_nil],hlast⟩

/-! ### Replies come in by being found -/

/-- Unless a message is found, no reply comes in. -/
theorem Living.session_after_of_routed (h : e.Living) {ev : Event}
    (hrouted : (e.after codec ev).routed = e.routed) :
    ∃ acts, (e.after codec ev).session = e.session.run acts ∧ ∀ a ∈ acts, ∀ m, a ≠ .respond m := by
  cases ev with
  | feed bytes => exact ⟨[],rfl,by simp⟩
  | move m =>
    have hs := @step_cases codec e h.bounded m
    have hquiet : ∀ {acts : List Session.Act}, (∀ a ∈ acts, Quiet a ∧ a.Plain) →
        ∀ a ∈ acts, ∀ m, a ≠ .respond m := fun hacts a ha => (hacts a ha).1.2
    simp only [Endpoint.after] at hrouted ⊢
    generalize e.step codec m = e' at hs hrouted ⊢
    cases hs with
    | link a ha => exact ⟨[a],rfl,by simpa using ha.2⟩
    | began tag => exact ⟨[.start tag],rfl,by simp⟩
    | errand i x y acts _ _ hacts => exact ⟨acts,rfl,hquiet hacts⟩
    | wrote i x y acts chunks tear _ _ hacts =>
      rcases tear with _ | ⟨kept,fault⟩
      · exact ⟨acts,rfl,hquiet hacts⟩
      · exact ⟨.close (tornReason fault) :: acts,rfl,by simpa using hquiet hacts⟩
    | found decoder reassembler frame m =>
      simp [routed_route] at hrouted
    | stopped inbound reason => exact ⟨[.close reason],rfl,by simp⟩
    | replied k request b reply nonces tear =>
      rcases tear with _ | ⟨kept,fault⟩
      · exact ⟨[],rfl,by simp⟩
      · exact ⟨[.close (tornReason fault)],rfl,by simp⟩
    | _ => exact ⟨[],rfl,by simp⟩

theorem Living.session_run_of_over (codec : Codec) (h : e.Living) (hover : e.reading = false)
    (events : List Event) :
    ∃ acts, (e.run codec events).session = e.session.run acts ∧ ∀ a ∈ acts, ∀ m, a ≠ .respond m := by
  induction events generalizing e with
  | nil => exact ⟨[],rfl,by simp⟩
  | cons ev events ih =>
    obtain ⟨hnone,hover'⟩ := noted_of_over codec hover [ev]
    have hrouted : (e.after codec ev).routed = e.routed := by
      rw [routed_after,show notes codec e ev = [] by simpa [noted] using hnone]
      exact List.append_nil _
    obtain ⟨acts,hacts,hquiet⟩ := h.session_after_of_routed hrouted
    obtain ⟨acts',hacts',hquiet'⟩ := ih (h.after codec ev) hover'
    refine ⟨acts ++ acts',by rw [run_cons,hacts',hacts,Session.run_append],fun a ha => ?_⟩
    exact (List.mem_append.mp ha).elim (hquiet a) (hquiet' a)

end Endpoint
end Tether
