import Tether.Proofs.Link.Carrying
import Tether.Proofs.Link.Serving

/-! What becomes of the requests that come in, whatever their sender does. As long as nothing begins to
close the link, every request that has been dealt with has been answered once or not at all, and which
of the two it is depends on the length of the reply alone. -/
namespace Tether

theorem Connection.halted_enter (c : Connection) (phase : Phase) :
    (c.enter phase).1.halted = c.halted := by
  rcases c.enter_cases phase with h | h
  · rw [h]
  · rw [h]

namespace Session

variable {s : Session}

/-- A call to close stays on record. -/
theorem unhalted_step {a : Act} (h : (s.step a).closes = []) :
    s.closes = [] ∧ (s.step a).link.halted = s.link.halted := by
  cases a with
  | close reason => simp [step] at h
  | proceed k =>
    simp only [step] at h ⊢
    cases hk : s.closes[k]? with
    | none =>
      rw [hk] at h
      exact ⟨h,rfl⟩
    | some call =>
      obtain ⟨stage,hset,-⟩ := closes_proceed hk
      rw [hk] at h
      simp only [hset,List.set_eq_nil_iff] at h
      simp [h] at hk
  | start tag =>
    simp only [step,start] at h ⊢
    cases hs : s.link.startRequest tag with
    | error e =>
      rw [hs] at h
      exact ⟨h,rfl⟩
    | ok result =>
      rw [hs] at h
      exact ⟨h,(Connection.unmoved_startRequest hs).halted⟩
  | respond reply => exact ⟨h,(s.link.unmoved_processResponse reply).halted⟩
  | release k =>
    simp only [step,release] at h ⊢
    split
    · rename_i hk
      rw [hk] at h
      exact ⟨h,rfl⟩
    · rename_i ticket hk
      rw [hk] at h
      simp only at h
      split
      · rename_i hreleased
        rw [if_pos hreleased] at h
        exact ⟨h,rfl⟩
      · rename_i hreleased
        rw [if_neg hreleased] at h
        exact ⟨h,rfl⟩
  | ready peer => exact ⟨h,Connection.halted_enter { s.link with peerName := some peer } .ready⟩
  | handshake => exact ⟨h,s.link.halted_enter .handshaking⟩

theorem unhalted_run {acts : List Act} (h : (s.run acts).closes = []) :
    s.closes = [] ∧ (s.run acts).link.halted = s.link.halted := by
  induction acts generalizing s with
  | nil => exact ⟨h,rfl⟩
  | cons a acts ih =>
    obtain ⟨hstep,hhalted⟩ := ih h
    obtain ⟨hs,hhalted'⟩ := unhalted_step hstep
    exact ⟨hs,hhalted.trans hhalted'⟩

end Session

/-- The response that answers a request, once it is on the stream. -/
def Serve.answer? (t : Serve) : Option Message :=
  match t.stage with
  | .answered reply => some (reply.message t.request.counter)
  | _ => none

def Serve.Finished (t : Serve) : Prop :=
  match t.stage with
  | .answered _ | .failed .. | .dropped => True
  | _ => False

/-- How a request may have ended: with a reply that can be sent, or one that is too large. -/
def Serve.Dealt (codec : Codec) (t : Serve) : Prop :=
  match t.stage with
  | .answered reply => codec.Carries reply.payload.length
  | .failed reply error => ¬ codec.Carries reply.payload.length ∧
    ∃ size limit, error = .payloadTooLarge size limit
  | .dropped => False
  | _ => True

theorem filterMap_set_of_none {α β : Type} {f : α → Option β} {l : List α} {k : Nat} {x y : α}
    (hk : l[k]? = some x) (hx : f x = none) (hy : f y = none) :
    (l.set k y).filterMap f = l.filterMap f := by
  obtain ⟨before,after,hl,hset⟩ := exists_split_of_getElem? hk
  rw [hset,hl]
  simp [hx,hy]

theorem perm_filterMap_set {α β : Type} {f : α → Option β} {l : List α} {k : Nat} {x y : α} {b : β}
    (hk : l[k]? = some x) (hx : f x = none) (hy : f y = some b) :
    (l.filterMap f ++ [b]).Perm ((l.set k y).filterMap f) := by
  obtain ⟨before,after,hl,hset⟩ := exists_split_of_getElem? hk
  rw [hset,hl,List.filterMap_append,List.filterMap_append,List.filterMap_cons_none hx,
    List.filterMap_cons_some hy]
  exact (List.perm_append_singleton ..).trans List.perm_middle.symm

namespace Endpoint

variable {codec : Codec} {move : Move} {e e' : Endpoint}

/-- The stream holds the answers of some requests, one after the other. -/
def Logged (codec : Codec) (e : Endpoint) : Prop :=
  ∃ log : List (NonceSupply × Message),
    e.sent.filter (·.place.response) = log.flatMap (fun b => codec.chunksOf b.1.1 b.2) ∧
      (log.map (·.2)).Perm (e.serves.filterMap Serve.answer?)

/-- An endpoint whose link nothing has begun to close. -/
structure Upright (codec : Codec) (e : Endpoint) : Prop where
  opened : e.Open
  reading : e.reading = true
  dealt : ∀ t ∈ e.serves, t.Dealt codec
  logged : Logged codec e

theorem Logged.congr (h : Logged codec e)
    (hsent : e'.sent.filter (·.place.response) = e.sent.filter (·.place.response))
    (hserves : e'.serves.filterMap Serve.answer? = e.serves.filterMap Serve.answer?) :
    Logged codec e' := by
  obtain ⟨log,hlog,hperm⟩ := h
  exact ⟨log,hsent.trans hlog,by rwa [hserves]⟩

theorem Handles.dealt (hk : codec.Keyed) (hchunk : 1 ≤ codec.limits.chunkSize.toNat) {k : Nat}
    {t t' : Serve} (h : Handles codec move e k t t') (hcrash : move ≠ .crash k) (ho : e.Open) :
    t.answer? = none ∧ t'.answer? = none ∧ t'.Dealt codec := by
  cases h with
  | crash request b hmove => exact absurd hmove hcrash
  | fail request b reply nonces error hwhy =>
    have hf := hwhy.resolve_left (not_not.mpr ho)
    refine ⟨rfl,rfl,fun hcarries => ?_,Codec.fault_emitMessage hf⟩
    have hnone := (Codec.fault_eq_none_iff hk.sound hchunk nonces (reply.message request.counter)).mpr
      hcarries
    simp [hnone] at hf
  | _ => exact ⟨rfl,rfl,trivial⟩

theorem Step.closes_eq_nil (hs : Step codec move e e') (hnone : e'.session.closes = []) :
    e.session.closes = [] := by
  obtain ⟨acts,hacts,-⟩ := hs.session
  exact (Session.unhalted_run (hacts ▸ hnone)).1

theorem closes_close_ne_nil (s : Session) (reason : String) (acts : List Session.Act) :
    ((s.step (.close reason)).run acts).closes ≠ [] := by
  intro hnone
  have hclose := (Session.unhalted_run hnone).1
  simp [Session.step] at hclose

/-- Until something begins to close the link, it lets everything through and is read. -/
theorem Step.stays_open (hs : Step codec move e e') (h : e.Open ∧ e.reading = true)
    (hnone : e'.session.closes = []) : e'.Open ∧ e'.reading = true := by
  obtain ⟨acts,hacts,-⟩ := hs.session
  have hhalted := (Session.unhalted_run (hacts ▸ hnone)).2
  rw [← hacts] at hhalted
  obtain ⟨⟨hup,hwritable⟩,hreading⟩ := h
  have hup' := hhalted.trans hup
  cases hs with
  | shut hr => simp [hreading] at hr
  | wrote i x y acts' chunks tear =>
    rcases tear with _ | tear
    · exact ⟨⟨hup',hwritable⟩,hreading⟩
    · exact absurd hnone (closes_close_ne_nil _ _ acts')
  | found decoder reassembler frame m =>
    unfold route at hup' ⊢
    split
    · rename_i hm
      rw [if_pos hm] at hup'
      exact ⟨⟨hup',hwritable⟩,hreading⟩
    · exact ⟨⟨hup,hwritable⟩,hreading⟩
  | stopped inbound reason => exact absurd hnone (closes_close_ne_nil _ _ [])
  | replied k request b reply nonces tear =>
    rcases tear with _ | tear
    · exact ⟨⟨hup',hwritable⟩,hreading⟩
    · exact absurd hnone (closes_close_ne_nil _ _ [])
  | _ => exact ⟨⟨hup',hwritable⟩,hreading⟩

theorem Upright.step (hk : codec.Keyed) (hchunk : 1 ≤ codec.limits.chunkSize.toNat)
    (hs : Step codec move e e') (hcrash : ∀ k, move ≠ .crash k) (h : e.session.closes = [] → Upright codec e)
    (hnone : e'.session.closes = []) : Upright codec e' := by
  obtain ⟨hopen,hreading,hdealt,hlogged⟩ := h (hs.closes_eq_nil hnone)
  obtain ⟨hopen',hreading'⟩ := hs.stays_open ⟨hopen,hreading⟩ hnone
  cases hs with
  | wrote i x y acts' chunks tear hx ha hacts' ho hsend =>
    rcases tear with _ | tear
    · refine ⟨hopen',hreading',hdealt,hlogged.congr ?_ rfl⟩
      have hrequests : chunks.filter (·.place.response) = [] := by
        rw [List.filter_eq_nil_iff]
        intro c hc hresponse
        have hkey := congrArg Prod.snd (ha.key c hc)
        simp only [Chunk.key] at hkey
        simp [hkey] at hresponse
      simp [conclude,extend,hrequests]
    · exact absurd hnone (closes_close_ne_nil _ _ acts')
  | found decoder reassembler frame m =>
    unfold route at hopen' hreading' ⊢
    split
    · rename_i hm
      rw [if_pos hm] at hopen' hreading'
      exact ⟨hopen',hreading',hdealt,hlogged.congr rfl rfl⟩
    · refine ⟨hopen,hreading,fun t ht => ?_,hlogged.congr rfl (by simp [Serve.answer?])⟩
      rcases List.mem_append.mp ht with ht | ht
      · exact hdealt t ht
      · exact List.mem_singleton.mp ht ▸ trivial
  | stopped inbound reason => exact absurd hnone (closes_close_ne_nil _ _ [])
  | handled k t t' ht hh =>
    obtain ⟨hbefore,hafter,hdealt'⟩ := hh.dealt hk hchunk (hcrash k) hopen
    refine ⟨hopen,hreading,fun t₀ ht₀ => ?_,
      hlogged.congr rfl (filterMap_set_of_none ht hbefore hafter)⟩
    rcases List.mem_or_eq_of_mem_set ht₀ with ht₀ | rfl
    · exact hdealt t₀ ht₀
    · exact hdealt'
  | replied k request b reply nonces tear ht ho hf =>
    rcases tear with _ | tear
    · have hcarries := (Codec.fault_eq_none_iff hk.sound hchunk nonces
        (reply.message request.counter)).mp hf
      refine ⟨hopen,hreading,fun t₀ ht₀ => ?_,?_⟩
      · rcases List.mem_or_eq_of_mem_set ht₀ with ht₀ | rfl
        · exact hdealt t₀ ht₀
        · exact hcarries
      · obtain ⟨log,hlog,hperm⟩ := hlogged
        have hresponses : (codec.chunksOf nonces.1 (reply.message request.counter)).filter
            (·.place.response) = codec.chunksOf nonces.1 (reply.message request.counter) := by
          rw [List.filter_eq_self]
          exact fun c hc => congrArg Prod.snd (key_of_mem_chunksOf hc)
        refine ⟨log ++ [(nonces,reply.message request.counter)],?_,?_⟩
        · simp [setServe,extend,hresponses,hlog]
        · rw [List.map_append]
          exact (hperm.append_right _).trans (perm_filterMap_set ht rfl rfl)
    · exact absurd hnone (closes_close_ne_nil _ _ [])
  | _ => exact ⟨hopen',hreading',hdealt,hlogged.congr rfl rfl⟩

theorem respond_of_carries (hs : codec.Sound) (hchunk : 1 ≤ codec.limits.chunkSize.toNat) (ho : e.Open)
    {k : Nat} {request : Message} {b : Bool} {reply : Reply}
    (ht : e.serves[k]? = some ⟨request,b,.replying reply⟩)
    (hcarries : codec.Carries reply.payload.length) (nonces : NonceSupply) :
    let chunks := codec.chunksOf nonces.1 (reply.message request.counter)
    e.respond codec k nonces none =
      (e.extend (codec.wires chunks) chunks none).setServe k ⟨request,b,.answered reply⟩ := by
  intro chunks
  have hf := (Codec.fault_eq_none_iff hs hchunk nonces (reply.message request.counter)).mpr hcarries
  simp [respond,ht,writeMessage_of_encodable e hf,put,ho.1,ho.2,chunks]

theorem respond_of_not_carries (hs : codec.Sound) (hchunk : 1 ≤ codec.limits.chunkSize.toNat)
    {k : Nat} {request : Message} {b : Bool} {reply : Reply}
    (ht : e.serves[k]? = some ⟨request,b,.replying reply⟩)
    (hlarge : ¬ codec.Carries reply.payload.length) (nonces : NonceSupply) (tear : Option Tear) :
    ∃ size limit, e.respond codec k nonces tear =
      e.setServe k ⟨request,b,.failed reply (.payloadTooLarge size limit)⟩ := by
  rcases hf : (codec.emitMessage nonces.1 (reply.message request.counter)).fault with _ | error
  · exact absurd ((Codec.fault_eq_none_iff hs hchunk nonces _).mp hf) hlarge
  · obtain ⟨size,limit,rfl⟩ := Codec.fault_emitMessage hf
    exact ⟨size,limit,by simp [respond,ht,writeMessage,hf]⟩

theorem serve_respond_of_not_carries (hs : codec.Sound) (hchunk : 1 ≤ codec.limits.chunkSize.toNat)
    {k : Nat} {request : Message} {b : Bool} (ht : e.serves[k]? = some ⟨request,b,.running⟩) (reply : Reply)
    (hlarge : ¬ codec.Carries reply.payload.length) (nonces : NonceSupply) (tear : Option Tear) :
    ∃ size limit, (e.serve k (some (.ok reply))).respond codec k nonces tear =
      e.setServe k ⟨request,b,.failed reply (.payloadTooLarge size limit)⟩ := by
  obtain ⟨hk,-⟩ := List.getElem?_eq_some_iff.mp ht
  have hserve : e.serve k (some (.ok reply)) = e.setServe k ⟨request,b,.replying reply⟩ := by
    simp [serve,ht,Reply.ofResult]
  have hreplying : (e.setServe k ⟨request,b,.replying reply⟩).serves[k]? =
      some ⟨request,b,.replying reply⟩ := by simp [setServe,hk]
  obtain ⟨size,limit,hrespond⟩ := respond_of_not_carries hs hchunk hreplying hlarge nonces tear
  exact ⟨size,limit,by rw [hserve,hrespond]; simp [setServe]⟩

/-! ### Runs -/

/-- Whatever comes in and whatever the tasks do, the endpoint is upright until something begins to close
its link. -/
structure Enduring (codec : Codec) (e : Endpoint) : Prop where
  bounded : ∀ x ∈ e.errands, x.Bounded
  staged : e.session.Staged
  upright : e.session.closes = [] → Upright codec e

theorem enduring_establish (codec : Codec) (name : String) (role : Role) (peerAddr : String)
    (counter : UInt32) : (establish name role peerAddr counter).Enduring codec := by
  refine ⟨fun x hx => ?_,Session.staged_establish ..,fun _ => ⟨⟨rfl,rfl⟩,rfl,fun t ht => ?_,[],rfl,.nil⟩⟩
  · simp [establish] at hx
  · simp [establish] at ht

theorem Enduring.after (hk : codec.Keyed) (hchunk : 1 ≤ codec.limits.chunkSize.toNat)
    (h : e.Enduring codec) (a : Event) (hcrash : ∀ k, a ≠ .move (.crash k)) :
    (e.after codec a).Enduring codec := by
  cases a with
  | feed bytes =>
    refine ⟨h.bounded,h.staged,fun hnone => ?_⟩
    obtain ⟨hopen,hreading,hdealt,hlogged⟩ := h.upright hnone
    exact ⟨hopen,hreading,hdealt,hlogged.congr rfl rfl⟩
  | move m =>
    have hs := @step_cases codec e h.bounded m
    obtain ⟨acts,hacts,-⟩ := hs.session
    refine ⟨hs.bounded h.bounded,?_,Upright.step hk hchunk hs (fun k hm => hcrash k (hm ▸ rfl)) h.upright⟩
    exact hacts ▸ h.staged.run acts

theorem Enduring.run (hk : codec.Keyed) (hchunk : 1 ≤ codec.limits.chunkSize.toNat)
    (h : e.Enduring codec) (events : List Event) (hcrash : ∀ a ∈ events, ∀ k, a ≠ .move (.crash k)) :
    (e.run codec events).Enduring codec := by
  induction events generalizing e with
  | nil => exact h
  | cons a events ih =>
    simp only [List.mem_cons,forall_eq_or_imp] at hcrash
    exact ih (h.after hk hchunk a hcrash.1) hcrash.2

/-- With services that do not crash, and as long as nothing begins to close the link, the link is
connected, and the responses on the stream are those of the requests that count as answered, one for
each. A request that has been dealt with is one of them exactly if its reply can be sent; if the reply is
too large, the request stays without a response on a link that stays open. -/
theorem answered_iff_carries (limits : Limits) (key : Option PayloadKey) (name : String) (role : Role)
    (peerAddr : String) (counter : UInt32) (events : List Event) :
    let codec : Codec := ⟨limits,key.map Cipher.ofKey⟩
    let e := (establish name role peerAddr counter).run codec events
    1 ≤ limits.chunkSize.toNat → (∀ a ∈ events, ∀ k, a ≠ .move (.crash k)) → e.session.closes = [] →
      (e.Open ∧ e.session.link.isConnected = true) ∧ Logged codec e ∧
        ∀ t ∈ e.serves, t.Finished → ∃ reply, t.reply? = some reply ∧
          (t.answer? = some (reply.message t.request.counter) ↔ codec.Carries reply.payload.length) := by
  intro codec e hchunk hcrash hnone
  have hk : codec.Keyed := by
    intro cipher hc
    obtain ⟨k,-,rfl⟩ := Option.map_eq_some_iff.mp hc
    exact ⟨k,rfl⟩
  have h : e.Enduring codec :=
    (enduring_establish codec name role peerAddr counter).run hk hchunk events hcrash
  obtain ⟨hopen,-,hdealt,hlogged⟩ := h.upright hnone
  refine ⟨⟨hopen,?_⟩,hlogged,fun t ht hfinished => ?_⟩
  · have hphase : e.session.link.phase ≠ .disconnected := by
      intro hgone
      obtain ⟨reason,hreason⟩ := Option.isSome_iff_exists.mp (h.staged.phase hgone)
      have hhalted := (h.staged.table reason hreason).2.1
      simp [hopen.1] at hhalted
    simpa [Connection.isConnected] using hphase
  · have hd := hdealt t ht
    rcases t with ⟨request,b,stage⟩
    cases stage with
    | answered reply => exact ⟨reply,rfl,fun _ => hd,fun _ => rfl⟩
    | failed reply error => exact ⟨reply,rfl,fun ha => by simp [Serve.answer?] at ha,fun hc => absurd hc hd.1⟩
    | dropped => exact absurd hd id
    | _ => exact absurd hfinished id

/-- A reply of two bytes, sent in two chunks. -/
theorem answered_iff_carries_echo :
    let codec : Codec := ⟨{ chunkSize := 1 },none⟩
    let supply : NonceSupply := ⟨fun _ => List.replicate 12 0,fun _ => rfl⟩
    let request : Message := ⟨5,.echo,false,[9]⟩
    let e := (establish "master" .acceptor "address" 7).run codec
      [.move (.ready "worker"),.feed (codec.emitMessage supply.1 request).bytes,.move .decode,
        .move (.gate 0),.move (.serve 0 (some (.ok ⟨.ok,[1,2]⟩))),.move (.respond 0 supply none)]
    ∃ t, e.serves = [t] ∧ t.request = request ∧ t.answer? = some ⟨5,.ok,true,[1,2]⟩ := by
  intro codec supply request e
  have hserves : e.serves = [⟨request,true,.answered ⟨.ok,[1,2]⟩⟩] := by decide +kernel
  obtain ⟨-,-,h⟩ := answered_iff_carries codec.limits none "master" .acceptor "address" 7
    [.move (.ready "worker"),.feed (codec.emitMessage supply.1 request).bytes,.move .decode,
      .move (.gate 0),.move (.serve 0 (some (.ok ⟨.ok,[1,2]⟩))),.move (.respond 0 supply none)]
    (by decide) (by simp) (by decide +kernel)
  obtain ⟨reply,hreply,hiff⟩ := h ⟨request,true,.answered ⟨.ok,[1,2]⟩⟩
    (hserves ▸ List.mem_singleton.mpr rfl) trivial
  obtain rfl : (⟨.ok,[1,2]⟩ : Reply) = reply := Option.some.inj hreply
  exact ⟨_,hserves,rfl,hiff.mpr (by decide)⟩

/-- One byte more than chunks of one byte can count: the request has been dealt with, it has no response,
and the link is ready. -/
theorem unanswered_of_large_reply :
    let codec : Codec := ⟨{ chunkSize := 1 },none⟩
    let supply : NonceSupply := ⟨fun _ => List.replicate 12 0,fun _ => rfl⟩
    let request : Message := ⟨5,.echo,false,[9]⟩
    let asked : List Event :=
      [.move (.ready "worker"),.feed (codec.emitMessage supply.1 request).bytes,.move .decode,
        .move (.gate 0)]
    let e := (establish "master" .acceptor "address" 7).run codec
      (asked ++ [.move (.serve 0 (some (.ok ⟨.ok,List.replicate 65536 0⟩))),.move (.respond 0 supply none)])
    (∃ t, e.serves = [t] ∧ t.request = request ∧ t.Finished) ∧ e.sent = [] ∧
      e.Open ∧ e.session.link.phase = .ready := by
  intro codec supply request asked e
  have hserves : ((establish "master" .acceptor "address" 7).run codec asked).serves =
      [⟨request,true,.running⟩] := by decide +kernel
  have hstate : let e := (establish "master" .acceptor "address" 7).run codec asked
      e.sent = [] ∧ e.session.link.halted = false ∧ e.writable = true ∧
        e.session.link.phase = .ready := by decide +kernel
  have hlarge : ¬ codec.Carries (List.replicate 65536 (0 : UInt8)).length := by
    rw [List.length_replicate]
    decide
  simp only [e,run_append]
  generalize (establish "master" .acceptor "address" 7).run codec asked = e₀ at hserves hstate ⊢
  generalize List.replicate 65536 (0 : UInt8) = payload at hlarge ⊢
  obtain ⟨size,limit,he⟩ := @serve_respond_of_not_carries codec e₀ (by simp [Codec.Sound,codec])
    (by decide) 0 request true (by rw [hserves]; rfl) ⟨.ok,payload⟩ hlarge supply none
  simp only [run_cons,run_nil,after,step,he]
  exact ⟨⟨⟨request,true,.failed ⟨.ok,payload⟩ (.payloadTooLarge size limit)⟩,by simp [setServe,hserves],
    rfl,trivial⟩,hstate.1,⟨hstate.2.1,hstate.2.2.1⟩,hstate.2.2.2⟩

end Endpoint
end Tether
