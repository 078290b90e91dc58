import Tether.Proofs.Link.Answering
import Tether.Proofs.Link.Lifecycle
import Tether.Proofs.Link.Replying
import Tether.Proofs.Master.Reception

/-! The gate of one end that waits for hello. What the end was made for stays, and nothing but a mark of
readiness makes its link ready; so as long as its peer has not been let in, no request but hello is served,
and what the gate makes of any other is the same refusal, which is short enough for the stream. -/
namespace Tether

/-! ### The link -/

theorem Connection.role_enter (c : Connection) (phase : Phase) : (c.enter phase).1.role = c.role := by
  rcases c.enter_cases phase with h | h <;> rw [h]

theorem Connection.ready_of_enter {c : Connection} {phase : Phase} (hphase : phase ≠ .ready)
    (h : (c.enter phase).1.phase = .ready) : c.phase = .ready := by
  rcases c.enter_cases phase with hsame | hnew
  · rwa [hsame] at h
  · rw [hnew] at h
    exact absurd h hphase

namespace Session

theorem role_step (s : Session) (a : Act) : (s.step a).link.role = s.link.role := by
  cases a with
  | close reason => rfl
  | proceed k =>
    simp only [step]
    cases s.closes[k]? with
    | none => rfl
    | some call =>
      rcases call with ⟨reason,stage⟩
      cases stage with
      | called => cases hr : s.link.closeReason <;> simp [proceed,Connection.recordReason,hr,mark]
      | _ => rfl
  | start tag =>
    simp only [step,start]
    split
    · rename_i link ticket hs
      unfold Connection.startRequest at hs
      split at hs
      · simp at hs
      · simp only [Except.ok.injEq,Prod.mk.injEq] at hs
        rw [← hs.1]
    · rfl
  | respond reply =>
    simp only [step,respond,Connection.processResponse]
    split <;> rfl
  | release k =>
    simp only [step,release]
    split
    · rfl
    · split <;> rfl
  | ready peer => exact Connection.role_enter { s.link with peerName := some peer } .ready
  | handshake => exact s.link.role_enter .handshaking

theorem role_run (s : Session) (acts : List Act) : (s.run acts).link.role = s.link.role := by
  induction acts generalizing s with
  | nil => rfl
  | cons a acts ih => exact (ih (s.step a)).trans (s.role_step a)

/-- Only a mark of readiness makes a link ready. -/
theorem ready_of_step {s : Session} {a : Act} (ha : a.named? = none)
    (h : (s.step a).link.phase = .ready) : s.link.phase = .ready := by
  cases a with
  | close reason => exact h
  | proceed k =>
    simp only [step] at h
    cases hk : s.closes[k]? with
    | none => rwa [hk] at h
    | some call =>
      rw [hk] at h
      rcases call with ⟨reason,stage⟩
      cases stage with
      | called => cases hr : s.link.closeReason <;> simpa [proceed,Connection.recordReason,hr,mark] using h
      | failed => simp [proceed,mark,Connection.disconnect] at h
      | _ => exact h
  | start tag =>
    simp only [step,start] at h
    cases hs : s.link.startRequest tag with
    | error error => rwa [hs] at h
    | ok result =>
      rw [hs] at h
      exact (Connection.unmoved_startRequest hs).phase ▸ h
  | respond reply => exact (s.link.unmoved_processResponse reply).phase ▸ h
  | release k =>
    simp only [step,release] at h
    split at h
    · exact h
    · split at h <;> exact h
  | ready peer => simp [Act.named?] at ha
  | handshake => exact Connection.ready_of_enter (by simp) h

theorem ready_of_run {s : Session} {acts : List Act} (ha : ∀ a ∈ acts, a.named? = none)
    (h : (s.run acts).link.phase = .ready) : s.link.phase = .ready := by
  induction acts generalizing s with
  | nil => exact h
  | cons a acts ih =>
    simp only [List.mem_cons,forall_eq_or_imp] at ha
    exact ready_of_step ha.1 (ih ha.2 h)

end Session

/-! ### The refusal -/

theorem Tag.length_encode_text (tag : Tag) : (Utf8.encode tag.text).length = tag.bytes.length := by
  have hsize : ∀ b ∈ tag.bytes, (String.utf8EncodeChar (Char.ofNat b.toNat)).length = 1 := by
    intro b hb
    have hgraphic := List.all_eq_true.mp tag.graphic b hb
    simp only [isGraphic,Bool.and_eq_true,decide_eq_true_eq,UInt8.le_iff_toNat_le] at hgraphic
    have hle : b.toNat ≤ 126 := hgraphic.2
    have hvalid : b.toNat.isValidChar := .inl (by omega)
    have hval : (Char.ofNat b.toNat).val.toNat = b.toNat := by
      rw [Char.ofNat,dif_pos hvalid]
      rfl
    have hmax : (127 : UInt32).toNat = 127 := rfl
    rw [String.length_utf8EncodeChar,Char.utf8Size_eq_one_iff,UInt32.le_iff_toNat_le]
    omega
  rw [text,Utf8.encode_ofList,List.flatMap_map,List.length_flatMap,List.map_congr_left hsize]
  simp

theorem Reply.length_early (tag : Tag) : (early tag).payload.length = 31 + tag.bytes.length := by
  have hlen : (early tag).payload.length =
      ("Error: '" ++ tag.text ++ "' received before hello").utf8ByteSize := Utf8.length_encode _
  have hfirst : "Error: '".utf8ByteSize = 8 := by decide
  have hlast : "' received before hello".utf8ByteSize = 23 := by decide
  rw [hlen,String.utf8ByteSize_append,String.utf8ByteSize_append,hfirst,hlast,← Utf8.length_encode tag.text,
    tag.length_encode_text]
  omega

theorem Codec.carries_early {codec : Codec} (hchunk : 1 ≤ codec.limits.chunkSize.toNat)
    (hroom : codec.limits.chunkSize.toNat + codec.overhead ≤ codec.limits.framePayload.toNat) (tag : Tag) :
    codec.Carries (Reply.early tag).payload.length := by
  have hlen := Reply.length_early tag
  have hfits := tag.fits
  have hmin : min codec.limits.chunkSize.toNat (Reply.early tag).payload.length ≤
      codec.limits.chunkSize.toNat := Nat.min_le_left ..
  have hneeded := codec.limits.needed_le hchunk (Reply.early tag).payload.length
  have hchunks : Limits.chunksMax = 65535 := rfl
  have hword : Limits.wordMax = 4294967295 := rfl
  exact ⟨by omega,by omega,by omega⟩

/-- A request that was not let through: it has not been served, and the only reply it may have is the
refusal. -/
def Serve.Unserved (t : Serve) : Prop :=
  t.dispatched = false ∧ t.stage ≠ .running ∧ ∀ reply, t.reply? = some reply → reply = .early t.request.tag

theorem Connection.not_admits {c : Connection} (hrole : c.role = .acceptor) (hphase : c.phase ≠ .ready)
    {tag : Tag} (htag : tag ≠ .hello) : c.admits tag = false := by
  simp [admits,hrole,hphase,htag]

namespace Endpoint

variable {codec : Codec} {move : Move} {e e' : Endpoint}

def Move.serve? : Move → Option Nat
  | .gate k | .serve k _ | .crash k | .respond k _ _ => some k
  | _ => none

theorem link_step_of_serve {k : Nat} (hm : move.serve? = some k) :
    (e.step codec move).session.link = e.session.link := by
  cases move with
  | gate k =>
    simp only [step,gate]
    (repeat' split) <;> rfl
  | serve k result =>
    simp only [step,serve]
    split <;> rfl
  | crash k =>
    simp only [step,crash]
    split <;> rfl
  | respond k nonces tear =>
    rcases e.respond_cases codec k nonces tear with hsame | ⟨e₁,t,t',hputs,-,-,-,hrespond⟩
    · exact congrArg (·.session.link) hsame
    · exact (congrArg (·.session.link) hrespond).trans hputs.link
  | _ => simp [Move.serve?] at hm

theorem Handles.unserved {k : Nat} {t t' : Serve} (hh : Handles codec move e k t t') (h : t.Unserved)
    (hout : e.session.link.admits t.request.tag = false) : t'.Unserved := by
  obtain ⟨hgate,hrunning,hreply⟩ := h
  cases hh with
  | dispatch request b hadmits => simp [hadmits] at hout
  | early request b => exact ⟨rfl,by simp,fun _ hr => (Option.some.inj hr).symm⟩
  | fail request b reply nonces error => exact ⟨hgate,by simp,hreply⟩
  | _ => exact absurd rfl hrunning

theorem unserved_abandon {t : Serve} (h : t.Unserved) : (abandon t).Unserved := by
  obtain ⟨hgate,hrunning,hreply⟩ := h
  rcases t with ⟨request,b,stage⟩
  cases stage with
  | answered reply => exact ⟨hgate,hrunning,hreply⟩
  | failed reply error => exact ⟨hgate,hrunning,hreply⟩
  | _ => exact ⟨hgate,by simp [abandon],by simp [abandon,Serve.reply?]⟩

/-- As long as the gate lets nothing through but hello, a step serves nothing else. -/
theorem Answers.unserved {serves : List Serve} {chunks : List Chunk} (ha : Answers codec move e serves chunks)
    (hout : ∀ tag, tag ≠ .hello → e.session.link.admits tag = false)
    (h : ∀ t ∈ e.serves, t.request.tag ≠ .hello → t.Unserved) :
    ∀ t ∈ serves, t.request.tag ≠ .hello → t.Unserved := by
  have hset : ∀ (k : Nat) (x y : Serve), e.serves[k]? = some x →
      (y.request.tag ≠ .hello → y.Unserved) →
      ∀ t ∈ e.serves.set k y, t.request.tag ≠ .hello → t.Unserved := by
    intro k x y _ hy t ht htag
    rcases List.mem_or_eq_of_mem_set ht with ht | rfl
    · exact h t ht htag
    · exact hy htag
  cases ha with
  | same => exact h
  | routed m =>
    intro t ht htag
    rcases List.mem_append.mp ht with ht | ht
    · exact h t ht htag
    · rw [List.mem_singleton.mp ht]
      exact ⟨rfl,by simp,by simp [Serve.reply?]⟩
  | stopped =>
    intro t ht htag
    obtain ⟨t',ht',rfl⟩ := List.mem_map.mp ht
    exact unserved_abandon (h t' ht' (by simpa using htag))
  | handled k x y hk hh =>
    refine hset k x y hk fun htag => ?_
    rw [hh.request] at htag
    exact hh.unserved (h x (List.mem_of_getElem? hk) htag) (hout _ htag)
  | replied k request b reply nonces tear hk =>
    refine hset k _ _ hk fun htag => ?_
    obtain ⟨hgate,-,hreply⟩ := h _ (List.mem_of_getElem? hk) htag
    cases tear <;> exact ⟨hgate,by simp [ServeStage.written],hreply⟩

/-! ### One end -/

/-- The end of an acceptor, in view of whether its peer has been let in. -/
structure Guarded (met : Prop) (e : Endpoint) : Prop where
  living : e.Living
  acceptor : e.session.link.role = .acceptor
  named : e.session.link.peerName.isSome = true → met
  ready : e.session.link.phase = .ready → met
  unserved : ¬ met → ∀ t ∈ e.serves, t.request.tag ≠ .hello → t.Unserved

theorem guarded_establish (met : Prop) (name peerAddr : String) (counter : UInt32) :
    (establish name .acceptor peerAddr counter).Guarded met where
  living := living_establish ..
  acceptor := rfl
  named h := by cases h
  ready h := by cases h
  unserved _ _ h := by cases h

theorem Guarded.mono {met met' : Prop} (h : e.Guarded met) (hm : met → met') : e.Guarded met' :=
  ⟨h.living,h.acceptor,hm ∘ h.named,hm ∘ h.ready,fun hn => h.unserved (hn ∘ hm)⟩

theorem Guarded.not_admits {met : Prop} (h : e.Guarded met) (hm : ¬ met) {tag : Tag} (htag : tag ≠ .hello) :
    e.session.link.admits tag = false := Connection.not_admits h.acceptor (hm ∘ h.ready) htag

theorem Living.unnamed_after (h : e.Living) {ev : Event} (hev : ev.named? = none) :
    ∃ acts, (e.after codec ev).session = e.session.run acts ∧ ∀ a ∈ acts, a.named? = none := by
  rcases h.session_after codec ev with ⟨peer,rfl⟩ | rfl | ⟨-,acts,hacts,hplain⟩
  · simp [Event.named?] at hev
  · exact ⟨[.handshake],rfl,by simp [Session.Act.named?]⟩
  · exact ⟨acts,hacts,fun a ha => Session.named?_of_plain (hplain a ha)⟩

/-- Whatever an end does, it goes on to be guarded, if only a peer that was let in is given a name. -/
theorem Guarded.after {met : Prop} (h : e.Guarded met) {ev : Event} (hev : ev.named?.isSome = true → met) :
    (e.after codec ev).Guarded met := by
  have hliving := h.living.after codec ev
  have hserves : ¬ met → ∀ t ∈ (e.after codec ev).serves, t.request.tag ≠ .hello → t.Unserved := by
    intro hm
    cases ev with
    | feed bytes => exact h.unserved hm
    | move m =>
      obtain ⟨chunks,-,hanswers⟩ := (@step_cases codec e h.living.bounded m).answers
      exact hanswers.unserved (fun _ => h.not_admits hm) (h.unserved hm)
  cases hn : ev.named? with
  | none =>
    obtain ⟨acts,hacts,hnamed⟩ := @Living.unnamed_after codec e h.living ev hn
    refine ⟨hliving,?_,?_,?_,hserves⟩
    · rw [hacts,Session.role_run,h.acceptor]
    · rw [hacts,Session.peerName_run hnamed]
      exact h.named
    · rw [hacts]
      exact h.ready ∘ Session.ready_of_run hnamed
  | some name =>
    have hm : met := hev (by rw [hn]; rfl)
    refine ⟨hliving,?_,fun _ => hm,fun _ => hm,hserves⟩
    cases ev with
    | feed bytes => exact h.acceptor
    | move m =>
      obtain ⟨acts,hacts,-⟩ := (@step_cases codec e h.living.bounded m).session
      exact (congrArg (·.link.role) hacts).trans ((Session.role_run ..).trans h.acceptor)

theorem Guarded.run {met : Prop} (h : e.Guarded met) {events : List Event}
    (hev : ∀ ev ∈ events, ev.named?.isSome = true → met) : (e.run codec events).Guarded met := by
  induction events generalizing e with
  | nil => exact h
  | cons ev events ih =>
    simp only [List.mem_cons,forall_eq_or_imp] at hev
    exact ih (h.after hev.1) hev.2

end Endpoint
end Tether
