import Tether.Cluster.Serving
import Tether.Proofs.Batch.Answers
import Tether.Proofs.Link.Resting
import Tether.Proofs.Text.Utf8

/-! A sink at the far end of a link. A batch that is sent over is run through the sink there, once and as it
is, and comes back to what the sink made of it; so its events are answered as they would be here, but for the
text of an error. -/
namespace Tether

/-! ### Over the link and back -/

theorem Event.ofBytes?_toBytes (events : List Event) :
    ofBytes? (toBytes events) = parseList (print events) := by
  rw [ofBytes?,toBytes,Utf8.decode?_encode]

namespace Batch

/-- What a service makes of a request when it passes the batch to a sink. -/
def answer (sink : List Event → Except BatchError (List Event)) (body : List UInt8) :
    Except LinkError Reply := do
  reply (sink (← readRequest body))

/-- What the request is replied to when its batch came to this. -/
def returned (result : Except BatchError (List Event)) : Reply := .ofResult (reply result)

/-- What a sink came to can be sent, and is read as it was printed. -/
structure Returns (codec : Codec) (result : Except BatchError (List Event)) : Prop where
  carries : codec.Carries (returned result).payload.length
  reads : ∀ answers, result = .ok answers → Event.ofBytes? (Event.toBytes answers) = .ok answers

theorem answer_request {batch : List Event} (h : Event.ofBytes? (Event.toBytes batch) = .ok batch)
    (sink : List Event → Except BatchError (List Event)) :
    Reply.ofResult (answer sink (request batch)) = returned (sink batch) := by
  have hread : readRequest (request batch) = .ok batch := by rw [readRequest,request,h]; rfl
  rw [answer,hread]
  rfl

theorem readReply_returned {codec : Codec} {result : Except BatchError (List Event)}
    (h : Returns codec result) (counter : UInt32) (answers : List Event) :
    readReply (Connection.outcomeOf ((returned result).message counter)) = .ok answers ↔
      result = .ok answers := by
  cases result with
  | error e =>
    constructor
    · intro hread
      cases hread
    · intro hresult
      cases hresult
  | ok made =>
    have hread : readReply (Connection.outcomeOf ((returned (.ok made)).message counter)) = .ok made := by
      change (Event.ofBytes? (Event.toBytes made)).mapError _ = _
      rw [h.reads made rfl]
      rfl
    rw [hread]

/-- Two results of a batch between which its events see no difference but the text of an error. -/
structure Agree (batch : List Event) (result result' : Except BatchError (List Event)) : Prop where
  answers : ∀ answers, result = .ok answers ↔ result' = .ok answers
  delivered : answersFor batch result = answersFor batch result' ∨
    ∃ text text', answersFor batch result = batch.map (fun e => ⟨e.uid,errorBody text⟩) ∧
      answersFor batch result' = batch.map fun e => ⟨e.uid,errorBody text'⟩

theorem answersFor_error (batch : List Event) (e : BatchError) :
    answersFor batch (.error e) = batch.map fun x => ⟨x.uid,errorBody e.message⟩ := by
  simp [answersFor]

theorem agree_of_answers {batch : List Event} {result result' : Except BatchError (List Event)}
    (h : ∀ answers, result = .ok answers ↔ result' = .ok answers) : Agree batch result result' := by
  refine ⟨h,?_⟩
  cases result with
  | ok answers => exact .inl (by rw [(h answers).mp rfl])
  | error e =>
    cases result' with
    | ok answers => exact absurd ((h answers).mpr rfl) (by simp)
    | error e' => exact .inr ⟨_,_,answersFor_error batch e,answersFor_error batch e'⟩

end Batch

theorem Cluster.Dispatch.batch_answer (w : World) (d : Dispatch) (rule : SinkRule)
    {sink : Nat → List Event → Except BatchError (List Event)} (hdelay : rule.delay = 0)
    (hsink : ∀ k batch, rule.result k batch = .answered (sink k batch)) :
    (d.batch w rule).2 =
      .ends (.reply (.ofResult (Batch.answer (sink (d.countRun w).2) d.payload))) := by
  unfold Dispatch.batch Batch.answer
  cases Batch.readRequest d.payload with
  | error e => rfl
  | ok events => simp [SinkRun.beginRule,hdelay,hsink,settleSink,replyWith]; rfl

/-! ### The serving end -/

/-- How a batch stands that a sink runs: it is not given up, its reply is turned away only for its size, and
it is the one that the sink makes. -/
structure Serve.Sunk (codec : Codec) (sink : List Event → Except BatchError (List Event)) (t : Serve) :
    Prop where
  kept : t.stage ≠ .dropped
  refused : ∀ reply error, t.stage = .failed reply error → ¬ codec.Carries reply.payload.length
  made : t.dispatched = true → ∀ reply, t.reply? = some reply →
    reply = .ofResult (Batch.answer sink t.request.payload)

namespace Endpoint

variable {codec : Codec} {move : Move} {e e' : Endpoint} {n : Nat}
  {sink : Nat → List Tether.Event → Except BatchError (List Tether.Event)}

/-- The service for batches is one that passes them to a sink, which comes to something each time. The
request with number `k` is the sink's run `k`. -/
def Sinks (sink : Nat → List Tether.Event → Except BatchError (List Tether.Event)) (e : Endpoint) :
    Move → Prop
  | .serve k result => ∀ request b, e.serves[k]? = some ⟨request,b,.running⟩ → request.tag = .batch →
    result = some (Batch.answer (sink k) request.payload)
  | .crash k => ∀ request b, e.serves[k]? = some ⟨request,b,.running⟩ → request.tag ≠ .batch
  | _ => True

theorem sinks_serve {k : Nat} {t : Serve} {result : Option (Except LinkError Reply)}
    (hk : e.serves[k]? = some t) (h : result = some (Batch.answer (sink k) t.request.payload)) :
    e.Sinks sink (.serve k result) := by
  intro request b hget _
  obtain rfl : t = ⟨request,b,.running⟩ := Option.some.inj (hk.symm.trans hget)
  exact h

def Sinking (codec : Codec) (sink : Nat → List Tether.Event → Except BatchError (List Tether.Event))
    (n : Nat) (e : Endpoint) : Prop :=
  ∀ k t, n ≤ k → e.serves[k]? = some t → t.request.tag = .batch → t.Sunk codec (sink k)

theorem Handles.sunk (hs : codec.Sound) (hchunk : 1 ≤ codec.limits.chunkSize.toNat) {k : Nat}
    {t t' : Serve} (hh : Handles codec move e k t t') (ho : e.Open) (hk : e.serves[k]? = some t)
    (hsinks : e.Sinks sink move) (htag : t.request.tag = .batch) (h : t.Sunk codec (sink k)) :
    t'.Sunk codec (sink k) := by
  cases hh with
  | dispatch request b => exact ⟨by simp,by simp,by simp [Serve.reply?]⟩
  | early request b => exact ⟨by simp,by simp,by simp⟩
  | serve request b reply result hmove hmade =>
    subst hmove
    refine ⟨by simp,by simp,fun _ made hr => ?_⟩
    obtain rfl : reply = made := Option.some.inj hr
    exact hmade _ (hsinks request b hk htag)
  | crash request b hmove =>
    subst hmove
    exact absurd htag (hsinks request b hk)
  | fail request b reply nonces error hwhy =>
    have hf := hwhy.resolve_left (not_not.mpr ho)
    refine ⟨by simp,fun made fault hstage hcarries => ?_,h.made⟩
    obtain ⟨rfl,-⟩ : reply = made ∧ error = fault := by simpa using hstage
    have hnone := (Codec.fault_eq_none_iff hs hchunk nonces (reply.message request.counter)).mpr hcarries
    simp [hnone] at hf

theorem Sinking.set {k : Nat} {t t' : Serve} (h : e.Sinking codec sink n) (hk : e.serves[k]? = some t)
    (hrequest : t'.request = t.request)
    (ht' : t.request.tag = .batch → t.Sunk codec (sink k) → t'.Sunk codec (sink k)) :
    (e.setServe k t').Sinking codec sink n := by
  intro j x hn hx htag
  by_cases hkj : k = j
  · subst hkj
    have hx' : t' = x := by
      simpa [setServe,List.getElem?_set_self (List.getElem?_eq_some_iff.mp hk).1] using hx
    subst hx'
    rw [hrequest] at htag
    exact ht' htag (h k t hn hk htag)
  · exact h j x hn ((List.getElem?_set_ne hkj).symm.trans hx) htag

theorem Sinking.step (h : e.Sinking codec sink n) (hsound : codec.Sound)
    (hchunk : 1 ≤ codec.limits.chunkSize.toNat) (hs : Step codec move e e') (ho : e.Open)
    (hsinks : e.Sinks sink move) (hnone : e'.session.closes = []) : e'.Sinking codec sink n := by
  cases hs with
  | wrote i x y acts chunks tear =>
    intro k t hn hk htag
    rw [conclude,serves_extend] at hk
    exact h k t hn hk htag
  | found decoder reassembler frame m =>
    unfold route
    split
    · exact h
    · intro k t hn hk htag
      rcases Nat.lt_or_ge k e.serves.length with hlt | hge
      · exact h k t hn ((List.getElem?_append_left hlt).symm.trans hk) htag
      · have hk' : [({ request := m } : Serve)][k - e.serves.length]? = some t :=
          (List.getElem?_append_right hge).symm.trans hk
        obtain rfl := List.mem_singleton.mp (List.mem_of_getElem? hk')
        exact ⟨by simp,by simp,by simp⟩
  | stopped inbound reason => exact absurd hnone (closes_close_ne_nil _ _ [])
  | handled k t t' hk hh =>
    exact h.set hk hh.request fun htag => hh.sunk hsound hchunk ho hk hsinks htag
  | replied k request b reply nonces tear hk _ hf =>
    have hcarries := (Codec.fault_eq_none_iff hsound hchunk nonces (reply.message request.counter)).mp hf
    rcases tear with _ | tear
    · refine Sinking.set (t := ⟨request,b,.replying reply⟩) (fun j x hn hx htag => ?_) ?_ rfl
        fun _ hsunk => ?_
      · rw [serves_extend] at hx
        exact h j x hn hx htag
      · rw [serves_extend]
        exact hk
      · exact ⟨by simp [ServeStage.written],by simp [ServeStage.written],hsunk.made⟩
    · exact absurd hnone (closes_close_ne_nil _ _ [])
  | _ => exact h

end Endpoint

namespace Duplex

variable {codec : Codec} {d : Duplex} {side : Side} {a : Act} {acts : List Act}
  {sink : Nat → List Event → Except BatchError (List Event)}

def ServesBatches (codec : Codec) (side : Side) (sink : Nat → List Event → Except BatchError (List Event))
    (d : Duplex) (acts : List Act) : Prop :=
  ∀ early move late, acts = early ++ .own side move :: late →
    ((d.run codec early) side).Sinks sink move

theorem servesBatches_of_idle (h : ∀ move, .own side move ∈ acts → ∀ e, Endpoint.Sinks sink e move) :
    ServesBatches codec side sink d acts := by
  intro early move late hsplit
  exact h move (by simp [hsplit]) _

theorem servesBatches_cons (hfirst : ∀ move, a = .own side move → (d side).Sinks sink move)
    (hrest : ServesBatches codec side sink (d.step codec a) acts) :
    ServesBatches codec side sink d (a :: acts) := by
  intro early move late hsplit
  cases early with
  | nil => exact hfirst move (List.cons.inj hsplit).1
  | cons b early =>
    obtain ⟨rfl,rfl⟩ := List.cons.inj hsplit
    exact hrest early move late rfl

theorem servesBatches_append {early late : List Act} (hearly : ServesBatches codec side sink d early)
    (hlate : ServesBatches codec side sink (d.run codec early) late) :
    ServesBatches codec side sink d (early ++ late) := by
  induction early generalizing d with
  | nil => exact hlate
  | cons a early ih =>
    refine servesBatches_cons (fun move ha => hearly [] move early (by rw [ha]; rfl)) (ih ?_ hlate)
    exact fun first move rest hsplit => hearly (a :: first) move rest (by rw [hsplit]; rfl)

/-! ### Both ends -/

variable {first : Side → UInt32} {counts : Side → UInt32 → Prop} {i n : Nat} {ticket : Ticket}
  {data : List UInt8}

/-- What is kept while a batch is away. -/
structure Forwards (codec : Codec) (first : Side → UInt32) (side : Side)
    (sink : Nat → List Event → Except BatchError (List Event)) (i n : Nat) (ticket : Ticket)
    (data : List UInt8) (d : Duplex) : Prop where
  upheld : ∀ s, (d s).Upheld (first s)
  poses : (d side).Poses (first side) i ticket .batch data
  sinking : (d side.other).Sinking codec sink n

theorem Forwards.step (h : d.Forwards codec first side sink i n ticket data) (hk : codec.Keyed)
    (hchunk : 1 ≤ codec.limits.chunkSize.toNat) (hcarries : codec.Carries data.length)
    (hd : d.Honest codec first counts)
    (hsinks : ∀ move, a = .own side.other move → (d side.other).Sinks sink move)
    (hfew : ∀ s, (d.step codec a).started s < 2^32)
    (hclosed : ∀ s, ((d.step codec a) s).session.closes = []) :
    (d.step codec a).Forwards codec first side sink i n ticket data := by
  refine ⟨upheld_step hchunk hd h.upheld hfew hclosed,
    poses_step hk hchunk hcarries hd (h.upheld side) h.poses (hfew side) (hclosed side),?_⟩
  have hnone := hclosed side.other
  rcases step_cases codec d a side.other with ⟨move,ha,hstep⟩ | ⟨inbound,outgoing,hstep⟩
  · rw [hstep] at hnone ⊢
    exact h.sinking.step hk.sound hchunk (Endpoint.step_cases (hd.asking side.other).bounded move)
      (h.upheld side.other).opened (hsinks move ha) hnone
  · rw [hstep]
    exact h.sinking

/-- A batch that was asked for is run through the sink, once, and what it is told is what the sink made of
it. -/
theorem Forwards.agrees (h : d.Forwards codec first side sink i n ticket data)
    (hd : d.Honest codec first counts) (hcounts : counts side.other ticket.counter)
    (hnew : ∀ k t, (d side.other).serves[k]? = some t → t.request.counter = ticket.counter → n ≤ k)
    (hfew : d.started side < 2^32) {batch : List Event} (hdata : data = Batch.request batch)
    (hread : Event.ofBytes? (Event.toBytes batch) = .ok batch) {stage : CallStage}
    (hcall : (d side).errands[i]? = some (.call ticket .batch data stage))
    (hreturns : ∀ k t, (d side.other).serves[k]? = some t → t.request.counter = ticket.counter →
      Batch.Returns codec (sink k batch)) {outcome : Outcome} (hresult : stage.result? = some outcome) :
    ∃ k t, (d side.other).serves[k]? = some t ∧ d.dispatches side.other ticket.counter = [t] ∧
      Batch.readRequest t.request.payload = .ok batch ∧
      Batch.Agree batch (Batch.readReply outcome) (sink k batch) := by
  have hreply := hd.reply_of_result (h.upheld side) h.poses hcall hresult
  rcases hd.asked_call hfew hcall with hnone | ⟨t,hone,hrequest⟩
  · obtain ⟨k,t,-,hk,hrequest,-⟩ := hd.exists_served hfew hcall hresult hreply
    exact absurd (by simp [hrequest]) (List.filter_eq_nil_iff.mp hnone t (List.mem_of_getElem? hk))
  · obtain ⟨reply,hmade,hdispatched,rfl⟩ := hd.exists_replied hcall hone hresult hreply
    obtain ⟨k,hk,hcounter,-⟩ := Endpoint.exists_lone hone
    have hserved := hdispatched hcounts
    have hpayload : t.request.payload = Batch.request batch := by rw [hrequest,hdata]
    have hsunk := h.sinking k t (hnew k t hk hcounter) hk (by rw [hrequest])
    have hreturned : reply = Batch.returned (sink k batch) := by
      rw [hsunk.made hserved reply hmade,hpayload]
      exact Batch.answer_request hread (sink k)
    refine ⟨k,t,hk,?_,?_,Batch.agree_of_answers fun answers => ?_⟩
    · rw [dispatches_eq,hone,List.filter_cons_of_pos hserved,List.filter_nil]
    · rw [hpayload,Batch.readRequest,Batch.request,hread]
      rfl
    · rw [hreturned]
      exact Batch.readReply_returned (hreturns k t hk hcounter) _ _

/-- What the sink runs is not turned away, if it can be carried. -/
theorem Forwards.settles (h : d.Forwards codec first side sink i n ticket data)
    (hd : d.Honest codec first counts) (hcounts : counts side.other ticket.counter)
    (hnew : ∀ k t, (d side.other).serves[k]? = some t → t.request.counter = ticket.counter → n ≤ k)
    (hfew : d.started side < 2^32) {batch : List Event} (hdata : data = Batch.request batch)
    (hread : Event.ofBytes? (Event.toBytes batch) = .ok batch) {stage : CallStage}
    (hcall : (d side).errands[i]? = some (.call ticket .batch data stage))
    (hreturns : ∀ k t, (d side.other).serves[k]? = some t → t.request.counter = ticket.counter →
      Batch.Returns codec (sink k batch)) :
    ∀ t ∈ (d side.other).serves, t.request.counter = ticket.counter → Settles codec t := by
  intro t ht hcounter
  obtain ⟨k,hk⟩ := List.getElem?_of_mem ht
  have hrequest : t.request = ⟨ticket.counter,.batch,false,data⟩ := by
    rcases hd.asked_call hfew hcall with hnone | ⟨t',hone,hrequest⟩
    · exact absurd (beq_iff_eq.mpr hcounter) (List.filter_eq_nil_iff.mp hnone t ht)
    · have hmem : t ∈ (d side.other).serves.filter (·.request.counter == ticket.counter) :=
        List.mem_filter.mpr ⟨ht,beq_iff_eq.mpr hcounter⟩
      rw [hone,List.mem_singleton] at hmem
      rwa [hmem]
  have hsunk := h.sinking k t (hnew k t hk hcounter) hk (by rw [hrequest])
  -- the gate of a link that is not closed lets it in
  have hserved : ∀ reply, t.reply? = some reply → t.dispatched = true := by
    intro reply hr
    rcases (hd.serving side.other).gated t ht (hcounter ▸ hcounts) with hg | hg | hg | hg
    · exact hg
    · simp [Serve.reply?,hg] at hr
    · exact absurd hg hsunk.kept
    · rw [(h.upheld side.other).opened.1] at hg
      cases hg
  have hcarries : ∀ reply, t.reply? = some reply → codec.Carries reply.payload.length := by
    intro reply hr
    rw [hsunk.made (hserved reply hr) reply hr,hrequest,hdata,Batch.answer_request hread]
    exact (hreturns k t hk hcounter).carries
  refine ⟨hsunk.kept,fun reply error hstage => hsunk.refused reply error hstage ?_,hcarries⟩
  exact hcarries reply (by simp [Serve.reply?,hstage])

/-- A remote sink is as good as a local one. A batch is sent over a ready link whose other end serves batches
with a sink; what goes over can be carried and is read as it was printed, nothing begins to close the link,
and each end has started fewer than 2^32 requests, so that no counter comes round. Then whatever both ends do,
and in whatever portions the bytes go over, what the batch comes to is told by one run of the sink with that
very batch: it is the list of answers that the sink gave, or a failure if the sink failed, so that every event
is answered as by the sink itself but for the text of an error. It has come to that as soon as nobody has
anything left to do. -/
theorem forwarded_of_run (limits : Limits) (key : Option PayloadKey) (name : Side → String)
    (role : Side → Role) (peerAddr : Side → String) (first : Side → UInt32) (before after : List Act)
    (side : Side) (batch : List Event) (sink : Nat → List Event → Except BatchError (List Event)) :
    let codec : Codec := ⟨limits,key.map Cipher.ofKey⟩
    let d := (establish name role peerAddr first).run codec before
    let acts := .own side (.call .batch (Batch.request batch)) :: after
    let d' := d.run codec acts
    let i := (d side).errands.length
    let ticket := Session.ticketAt (first side) i
    1 ≤ limits.chunkSize.toNat → (∀ s, (d s).session.link.phase = .ready) → (∀ a ∈ after, a.Late) →
    (∀ s, d'.started s < 2^32) → (∀ s, (d' s).session.closes = []) →
    ServesBatches codec side.other sink d acts → codec.Carries (Batch.request batch).length →
    Event.ofBytes? (Event.toBytes batch) = .ok batch →
    (∀ k t, (d' side.other).serves[k]? = some t → t.request.counter = ticket.counter →
      Batch.Returns codec (sink k batch)) →
    ∃ stage, (d' side).errands[i]? = some (.call ticket .batch (Batch.request batch) stage) ∧
      (∀ outcome, stage.result? = some outcome → ∃ k t, (d' side.other).serves[k]? = some t ∧
        d'.dispatches side.other ticket.counter = [t] ∧
        Batch.readRequest t.request.payload = .ok batch ∧
        Batch.Agree batch (Batch.readReply outcome) (sink k batch)) ∧
      (d'.Rested codec side ticket stage → stage ≠ .left → ∃ outcome, stage.result? = some outcome) := by
  intro codec d acts d' i ticket hchunk hready hlate hfew hclosed hserves hcarries hread hreturns
  have hk : codec.Keyed := by
    intro cipher hc
    obtain ⟨k,-,rfl⟩ := Option.map_eq_some_iff.mp hc
    exact ⟨k,rfl⟩
  have h₀ := honest_establish codec name role peerAddr first
  have hbounded : d.Bounded := (Bounded.run (fun s => (h₀.asking s).bounded) before).1
  have hfew_d : ∀ s, d.started s < 2^32 :=
    fun s => Nat.lt_of_le_of_lt ((hbounded.run acts).2 s) (hfew s)
  have hd : d.Honest codec first fun _ _ => False := h₀.run hk before (fun _ _ hc => absurd hc id) hfew_d
  have hup : ∀ s, (d s).Upheld (first s) :=
    upheld_run hk hchunk h₀ (fun s => Endpoint.upheld_establish ..) (fun _ _ hc => absurd hc id) hfew_d
      fun s => hbounded.closes_run (hclosed s)
  -- the call is let in
  let d₁ := d.step codec (.own side (.call .batch (Batch.request batch)))
  have hbounded₁ : d₁.Bounded := (hbounded.step _).1
  have hfew₁ : ∀ s, d₁.started s < 2^32 :=
    fun s => Nat.lt_of_le_of_lt ((hbounded₁.run after).2 s) (hfew s)
  have hclosed₁ : ∀ s, (d₁ s).session.closes = [] := fun s => hbounded₁.closes_run (hclosed s)
  have hd₁ : d₁.Honest codec first (Later first d) :=
    (hd.ready hready).step hk _ (fun _ _ _ => by simp [Act.Late]) hfew₁
  have hstart : d₁.Forwards codec first side sink i (d side.other).serves.length ticket
      (Batch.request batch) := by
    refine ⟨upheld_step hchunk hd hup hfew₁ hclosed₁,
      poses_call hd (hup side) (hfew_d side) (hready side) .batch _,fun k t hn hget => ?_⟩
    have hsame : d₁ side.other = d side.other := step_own_other ..
    rw [hsame,List.getElem?_eq_none hn] at hget
    cases hget
  have h : d'.Forwards codec first side sink i (d side.other).serves.length ticket
      (Batch.request batch) := by
    refine hd₁.run_induction hk (fun _ _ _ => hlate) hfew hclosed hstart ?_
    intro early a late hsplit hhonest hforwards hfew hclosed
    refine hforwards.step hk hchunk hcarries hhonest (fun move ha => ?_) hfew hclosed
    exact hserves (_ :: early) move late (by simp [acts,hsplit,ha])
  have hd' : d'.Honest codec first (Later first d) := hd₁.run hk after (fun _ _ _ => hlate) hfew
  obtain ⟨stage,hcall,-⟩ := h.poses.call
  have hi : i < 2^32 := Nat.lt_trans ((hd'.asking side).ticket hcall).1 (hfew side)
  have hcounts : Later first d side.other ticket.counter :=
    ⟨i,hi,by rw [Side.other_other],by rw [Side.other_other]⟩
  -- it was not asked for before
  have hnew : ∀ k t, (d' side.other).serves[k]? = some t → t.request.counter = ticket.counter →
      (d side.other).serves.length ≤ k := by
    intro k t hget hcounter
    by_contra hge
    have hlt : k < (d side.other).serves.length := Nat.lt_of_not_le hge
    refine hd.not_later side.other (List.getElem_mem hlt) ?_
    rwa [hbounded.request_run hget hlt,hcounter]
  exact ⟨stage,hcall,fun outcome hresult =>
      h.agrees hd' hcounts hnew (hfew side) rfl hread hcall hreturns hresult,
    fun hrest hstays => hd'.ended_of_rested hk hchunk hcarries h.upheld h.poses (hfew side) hcall
      (h.settles hd' hcounts hnew (hfew side) rfl hread hcall hreturns) hrest hstays⟩

/-- One event goes over in two chunks to a sink that gives back its batch. -/
theorem forwarded_of_run_echo :
    let codec : Codec := ⟨{ chunkSize := 40, framePayload := 68 },none⟩
    let supply : NonceSupply := ⟨fun _ => List.replicate 12 0,fun _ => rfl⟩
    let batch : List Event := [⟨⟨0,1⟩,.bool true⟩]
    let text := "[\x7b\"uid\":\"00000000-0000-0000-0000-000000000001\",\"msg\":true\x7d]"
    let bytes := text.toList.map fun c => UInt8.ofNat c.toNat
    let hello : List Act := [.own .left (.ready "master"),.own .right (.ready "worker")]
    let early : List Act :=
      [.own .left (.call .batch bytes),.own .left (.write 0 supply none),.carry .left 119,
        .own .right .decode,.own .right .decode,.own .right (.gate 0)]
    let late : List Act :=
      [.own .right (.serve 0 (some (.ok (.ok bytes)))),.own .right (.respond 0 supply none),
        .carry .right 119,.own .left .decode,.own .left .decode,.own .left (.collect 0)]
    let d := (establish (fun _ => "own") (fun | .left => .initiator | .right => .acceptor)
      (fun _ => "address") fun | .left => 7 | .right => 8).run codec hello
    let d' := d.run codec (early ++ late)
    ∃ outcome, (d' .left).errands = [.call ⟨7,0⟩ .batch bytes (.ended outcome)] ∧
      Batch.Agree batch (Batch.readReply outcome) (.ok batch) := by
  have hprinted :
      Event.parseList (Event.print [⟨⟨0,1⟩,.bool true⟩]) = .ok [⟨⟨0,1⟩,.bool true⟩] := by
    with_unfolding_all rfl
  intro codec supply batch text bytes hello early late d d'
  have hbytes : Batch.request batch = bytes := by
    rw [Batch.request,Event.toBytes,Event.print,Utf8.encode_ofList]
    decide +kernel
  have hread : Event.ofBytes? (Event.toBytes batch) = .ok batch := by
    rw [Event.ofBytes?_toBytes]
    exact hprinted
  have hanswer : Batch.answer (fun events => .ok events) bytes = .ok (.ok bytes) := by
    rw [← hbytes,Batch.answer,Batch.readRequest,Batch.request,hread]
    rfl
  have hrunning : ((d.run codec early) .right).serves[0]? =
      some ⟨⟨7,.batch,false,bytes⟩,true,.running⟩ := by decide +kernel
  have hserves : ServesBatches codec .right (fun _ events => .ok events) d (early ++ late) := by
    refine servesBatches_append (servesBatches_of_idle ?_) (servesBatches_cons ?_ ?_)
    · simp [early,Endpoint.Sinks]
    · rintro _ ⟨⟩
      exact Endpoint.sinks_serve hrunning (congrArg some hanswer.symm)
    · exact servesBatches_of_idle (by simp [Endpoint.Sinks])
  have hcarries : codec.Carries (Batch.request batch).length := by
    rw [hbytes]
    decide +kernel
  have hended : (d' .left).errands = [.call ⟨7,0⟩ .batch bytes (.ended (.ok (.ok,bytes)))] := by
    decide +kernel
  have h := forwarded_of_run codec.limits none (fun _ => "own")
    (fun | .left => .initiator | .right => .acceptor) (fun _ => "address")
    (fun | .left => 7 | .right => 8) hello (early.tail ++ late) .left batch fun _ events => .ok events
  rw [hbytes] at h
  obtain ⟨stage,hcall,htold,-⟩ := h (by decide) (fun s => by cases s <;> decide +kernel)
    (by simp [early,late,Act.Late]) (fun s => by cases s <;> decide +kernel)
    (fun s => by cases s <;> decide +kernel) hserves (hbytes ▸ hcarries) hread
    fun _ _ _ _ => ⟨hcarries,fun answers hanswers => Except.ok.inj hanswers ▸ hread⟩
  have hstage : [Errand.call ⟨7,0⟩ .batch bytes (.ended (.ok (.ok,bytes)))][0]? =
      some (.call ⟨7,0⟩ .batch bytes stage) := hended ▸ hcall
  obtain ⟨_,_,_,_,_,hagree⟩ := htold (.ok (.ok,bytes)) (by
    obtain rfl : CallStage.ended (.ok (.ok,bytes)) = stage :=
      (Errand.call.inj (Option.some.inj hstage)).2.2.2
    rfl)
  exact ⟨_,hended,hagree⟩

end Duplex
end Tether
