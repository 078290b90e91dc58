import Tether.Cluster.Probing
import Tether.Proofs.Cluster.Exchanging
import Tether.Proofs.Cluster.Mirrors
import Tether.Proofs.Link.Striking

/-! The loop of probes on a link, turn by turn, among other tasks that do what they like to the world and to the
link whatever can be done to one. The results of the probes alone tell what the tracker shows and where the
loop ends. A probe is decided by a reply under its own counter, and one that has ended hears nothing more. -/
namespace Tether.Cluster

open ProbeResult

namespace Probing

/-! ### One turn -/

def request (p : Probing) : Request :=
  { link := p.link, tag := p.tag, payload := probePayload, limit := some p.settings.timeout.millis }

def exchange? (w : World) (p : Probing) : Option Exchange :=
  match p.stage with
  | .unstarted =>
    if p.settings.enabled ∧ w.now + p.settings.interval.millis ≤ w.now then some (.fresh p.request) else none
  | .dormant => none
  | .resting due => if due ≤ w.now then some (.fresh p.request) else none
  | .asking _ x => some x

def ticket? (p : Probing) : Option Ticket :=
  match p.stage with
  | .asking _ (.inFlight _ ticket _ _) => some ticket
  | _ => none

def hear (w : World) (p : Probing) : List Exchange.Heard := (p.exchange? w).elim [] (Exchange.hear w)

/-- What a turn does to the link, with the steps of closing that a write takes if it breaks off. -/
def acts (w : World) (torn : List Session.Act) (p : Probing) : List Session.Act :=
  (p.exchange? w).elim [] (Exchange.acts w torn)

def resultOf (h : Exchange.Heard) : ProbeResult := .ofOutcome h.outcome

/-- A loop that is on, on this link, whose probe in flight has its request there. -/
structure Kept (i : Nat) (settings : KeepaliveSettings) (tag : Tag) (s : Session) (p : Probing) : Prop where
  link : p.link = i
  settings : p.settings = settings
  tag : p.tag = tag
  awake : p.stage ≠ .dormant
  held : ∀ due x, p.stage = .asking due x → x.Held i s

variable {w : World} {p : Probing} {i : Nat} {settings : KeepaliveSettings} {tag : Tag} {s : Session}

theorem run_of_none (hk : p.Kept i settings tag s) (henabled : settings.enabled = true)
    (hnone : p.exchange? w = none) (hopen : w.connected i = true) :
    ∃ due, p.run w = (w,.waits { p with stage := .resting due }) := by
  have hrest : ∀ due, ¬due ≤ w.now → rest w p due = (w,.waits { p with stage := .resting due }) := by
    intro due hlate
    rw [rest,if_neg hlate,hk.link,if_pos hopen]
  cases hstage : p.stage with
  | unstarted =>
    simp only [exchange?,hstage,hk.settings,henabled,true_and] at hnone
    split at hnone
    · cases hnone
    · rename_i hlate
      exact ⟨_,by rw [run,hstage]; simpa only [hk.settings,henabled,if_true] using hrest _ hlate⟩
  | dormant => exact absurd hstage hk.awake
  | resting due =>
    simp only [exchange?,hstage] at hnone
    split at hnone
    · cases hnone
    · rename_i hlate
      exact ⟨due,by rw [run,hstage]; exact hrest due hlate⟩
  | asking due x => simp [exchange?,hstage] at hnone

/-- The loop as it was, but for the count of the probes that it has sent. -/
structure Sends (p p' : Probing) : Prop where
  link : p'.link = p.link
  settings : p'.settings = p.settings
  tag : p'.tag = p.tag
  tracker : p'.tracker = p.tracker ∨ p'.tracker = p.tracker.recordSent

theorem Sends.shows {p' : Probing} {results : List ProbeResult} (h : p.Sends p')
    (ht : p.tracker.Shows settings results) : p'.tracker.Shows settings results := by
  rcases h.tracker with hsame | hsent
  · exact hsame ▸ ht
  · exact hsent ▸ ht.recordSent

/-- A turn with a probe is what comes of that probe. -/
theorem run_of_some {x : Exchange} (hx : p.exchange? w = some x) :
    ∃ p' due, p.Sends p' ∧ p.run w = runExchange w p' due x := by
  have hsent : p.Sends { p with tracker := p.tracker.recordSent } := ⟨rfl,rfl,rfl,.inr rfl⟩
  cases hstage : p.stage with
  | unstarted =>
    simp only [exchange?,hstage] at hx
    split at hx
    · rename_i hdue
      obtain rfl := Option.some.inj hx
      refine ⟨_,p.following w.now (w.now + p.settings.interval.millis),hsent,?_⟩
      rw [run,hstage]
      simp only [hdue.1,if_true,rest,if_pos hdue.2]
      rfl
    · cases hx
  | dormant => simp [exchange?,hstage] at hx
  | resting due =>
    simp only [exchange?,hstage] at hx
    split at hx
    · rename_i hdue
      obtain rfl := Option.some.inj hx
      refine ⟨_,p.following w.now due,hsent,?_⟩
      rw [run,hstage]
      simp only [rest,if_pos hdue]
      rfl
    · cases hx
  | asking due x' =>
    simp only [exchange?,hstage,Option.some.injEq] at hx
    subst hx
    exact ⟨p,due,⟨rfl,rfl,rfl,.inl rfl⟩,by rw [run,hstage]⟩

theorem fits_of_exchange? (hk : p.Kept i settings tag s) {x : Exchange} (hx : p.exchange? w = some x) :
    x.Fits i s := by
  cases hstage : p.stage with
  | unstarted =>
    simp only [exchange?,hstage] at hx
    split at hx
    · exact Option.some.inj hx ▸ hk.link
    · cases hx
  | dormant => simp [exchange?,hstage] at hx
  | resting due =>
    simp only [exchange?,hstage] at hx
    split at hx
    · exact Option.some.inj hx ▸ hk.link
    · cases hx
  | asking due x' =>
    simp only [exchange?,hstage,Option.some.injEq] at hx
    exact hx ▸ (hk.held due x' hstage).fits

/-! ### What a probe leads to -/

/-- What the outcome of a probe leads to: after a failure it is counted, and the last one closes the link. -/
inductive Leads (settings : KeepaliveSettings) (results : List ProbeResult) (w : World) (p : Probing) (due : Nat) :
    ProbeResult → World × Turn Probing (Tracker × LinkError) → Prop
  | answered (t : Tracker) : Bearable settings.maxMissed (results ++ [.answered]) →
    t.Shows settings (results ++ [.answered]) →
    Leads settings results w p due .answered (w,.waits { p with tracker := t, stage := .resting due })
  | missed (t : Tracker) : Bearable settings.maxMissed (results ++ [.failed]) →
    t.Shows settings (results ++ [.failed]) →
    Leads settings results w p due .failed
      (w.countOn p.link [.keepaliveFailure],.waits { p with tracker := t, stage := .resting due })
  | stopped (t : Tracker) (e : LinkError) : t.Shows settings (results ++ [.lost e]) →
    Leads settings results w p due (.lost e) (w,.ends (t,e))
  | closed (t : Tracker) : t.Shows settings (results ++ [.failed]) →
    streak (results ++ [.failed]) = settings.maxMissed.toNat →
    Leads settings results w p due .failed
      ((w.countOn p.link [.keepaliveFailure]).closeLink p.link
        (LinkError.keepaliveExhausted settings.maxMissed).message,
        .ends (t,.keepaliveExhausted settings.maxMissed))

variable {results : List ProbeResult}

theorem leads_settle (hb : Bearable settings.maxMissed results) (ht : p.tracker.Shows settings results)
    (w : World) (due : Nat) (outcome : Outcome) :
    Leads settings results w p due (.ofOutcome outcome) (settle w p due outcome) := by
  have hsettles := ht.settles hb (.ofOutcome outcome)
  unfold settle
  generalize ProbeResult.ofOutcome outcome = result at hsettles ⊢
  cases result with
  | answered =>
    cases hsettles with
    | goesOn _ _ hb' ht' => exact .answered _ hb' ht'
  | lost e =>
    cases hsettles with
    | stops _ _ ht' => exact .stopped _ e ht'
  | failed =>
    dsimp only
    generalize p.tracker.settle .failed = settled at hsettles ⊢
    cases hsettles with
    | goesOn _ t hb' ht' => exact .missed t hb' ht'
    | closes t ht' hstreak => exact .closed t ht' hstreak

/-- Where the loop stands after these results. -/
inductive Course (settings : KeepaliveSettings) (results : List ProbeResult) :
    Turn Probing (Tracker × LinkError) → Prop
  | goesOn (p : Probing) : Bearable settings.maxMissed results → p.tracker.Shows settings results →
    Course settings results (.waits p)
  | stopped (front : List ProbeResult) (t : Tracker) (e : LinkError) : results = front ++ [.lost e] →
    Bearable settings.maxMissed front → t.Shows settings results → Course settings results (.ends (t,e))
  | closed (front : List ProbeResult) (t : Tracker) : results = front ++ [.failed] →
    Bearable settings.maxMissed front → t.Shows settings results →
    streak results = settings.maxMissed.toNat →
    Course settings results (.ends (t,.keepaliveExhausted settings.maxMissed))

theorem Leads.course {due : Nat} {result : ProbeResult} {w' : World} {turn : Turn Probing (Tracker × LinkError)}
    (h : Leads settings results w p due result (w',turn)) (hb : Bearable settings.maxMissed results) :
    Course settings (results ++ [result]) turn := by
  cases h with
  | answered t hb' ht' => exact .goesOn _ hb' ht'
  | missed t hb' ht' => exact .goesOn _ hb' ht'
  | stopped t e ht' => exact .stopped results t e rfl hb ht'
  | closed t ht' hstreak => exact .closed results t rfl hb ht' hstreak

/-- How many of the probes that end in a turn have failed. -/
def failures (w : World) (p : Probing) : Nat := ((p.hear w).map resultOf).count .failed

/-- A turn of a loop that is on: between two probes nothing happens; a probe goes on, or it ends. -/
inductive Goes (settings : KeepaliveSettings) (results : List ProbeResult) (w : World) (p : Probing) :
    World × Turn Probing (Tracker × LinkError) → Prop
  | rests (due : Nat) : p.exchange? w = none →
    Goes settings results w p (w,.waits { p with stage := .resting due })
  | asks (x x' : Exchange) (p' : Probing) (due : Nat) (w' : World) : p.exchange? w = some x → p.Sends p' →
    x.run w = (w',.waits x') → Goes settings results w p (w',.waits { p' with stage := .asking due x' })
  | hears (x : Exchange) (p' : Probing) (due : Nat) (w' : World) (outcome : Outcome)
    (ran : World × Turn Probing (Tracker × LinkError)) : p.exchange? w = some x → p.Sends p' →
    x.run w = (w',.ends outcome) → Leads settings results w' p' due (.ofOutcome outcome) ran →
    Goes settings results w p ran

theorem goes_run (hk : p.Kept i settings tag s) (henabled : settings.enabled = true)
    (hopen : p.exchange? w = none → w.connected i = true) (hb : Bearable settings.maxMissed results)
    (ht : p.tracker.Shows settings results) : Goes settings results w p (p.run w) := by
  cases hx : p.exchange? w with
  | none =>
    obtain ⟨due,hrun⟩ := run_of_none hk henabled hx (hopen hx)
    exact hrun ▸ .rests due hx
  | some x =>
    obtain ⟨p',due,hsends,hrun⟩ := run_of_some hx
    rw [hrun,runExchange]
    rcases hran : x.run w with ⟨w',x' | outcome⟩
    · exact .asks x x' p' due w' hx hsends hran
    · exact .hears x p' due w' outcome _ hx hsends hran (leads_settle hb (hsends.shows ht) w' due outcome)

theorem hear_of_some {x : Exchange} (hx : p.exchange? w = some x) : p.hear w = x.hear w := by
  rw [hear,hx,Option.elim_some]

theorem acts_of_some {x : Exchange} (hx : p.exchange? w = some x) (torn : List Session.Act) :
    p.acts w torn = x.acts w torn := by
  rw [acts,hx,Option.elim_some]

variable {ran : World × Turn Probing (Tracker × LinkError)}

theorem Goes.course (h : Goes settings results w p ran) (hb : Bearable settings.maxMissed results)
    (ht : p.tracker.Shows settings results) :
    Course settings (results ++ (p.hear w).map resultOf) ran.2 := by
  cases h with
  | rests due hx =>
    rw [hear,hx,Option.elim_none,List.map_nil,List.append_nil]
    exact .goesOn _ hb ht
  | asks x x' p' due w' hx hsends hrun =>
    rw [hear_of_some hx,Exchange.hear,hrun]
    rw [List.map_nil,List.append_nil]
    exact .goesOn _ hb (hsends.shows ht)
  | hears x p' due w' outcome _ hx hsends hrun hleads =>
    rw [hear_of_some hx,Exchange.hear,hrun]
    exact hleads.course hb

/-- After the turn the loop is still what it was, if it goes on. -/
theorem Goes.kept (h : Goes settings results w p ran) (hk : p.Kept i settings tag s) (hr : s.Reached)
    (hlink : w.links[i]? = some s.link) {torn closing : List Session.Act} (htorn : ∀ a ∈ torn, a.Closing)
    (hclosing : ∀ a ∈ closing, a.Closing) {p₁ : Probing} (hp : ran.2 = .waits p₁) :
    p₁.Kept i settings tag (s.run (p.acts w torn ++ closing)) := by
  have hrests : ∀ (p' : Probing) {t : Tracker} {due : Nat}, p.Sends p' →
      ({ p' with tracker := t, stage := .resting due } : Probing).Kept i settings tag
        (s.run (p.acts w torn ++ closing)) := fun _ _ _ hsends =>
    ⟨hsends.link.trans hk.link,hsends.settings.trans hk.settings,hsends.tag.trans hk.tag,by simp,by simp⟩
  cases h with
  | rests due hx =>
    obtain rfl := Turn.waits.inj hp
    exact hrests p ⟨rfl,rfl,rfl,.inl rfl⟩
  | asks x x' p' due w' hx hsends hrun =>
    obtain rfl := Turn.waits.inj hp
    refine ⟨hsends.link.trans hk.link,hsends.settings.trans hk.settings,hsends.tag.trans hk.tag,by simp,?_⟩
    intro due' x₁ hstage
    obtain ⟨-,rfl⟩ := ProbeStage.asking.inj hstage
    have hturns := Exchange.turns hr hlink (fits_of_exchange? hk hx)
    obtain ⟨ticket,limit,deadline,rfl,ho⟩ := hturns.held htorn (by rw [hrun])
    refine ⟨ticket,limit,deadline,rfl,?_⟩
    rw [Session.run_append,acts_of_some hx]
    exact ho.spared (Session.spared_run hclosing)
  | hears x p' due w' outcome _ hx hsends hrun hleads =>
    generalize ProbeResult.ofOutcome outcome = result at hleads
    cases hleads with
    | answered t | missed t =>
      obtain rfl := Turn.waits.inj hp
      exact hrests p' hsends
    | stopped t e | closed t => cases hp

theorem sound_hear (hk : p.Kept i settings tag s) (hr : s.Reached) (hlink : w.links[i]? = some s.link)
    {torn closing : List Session.Act} (htorn : ∀ a ∈ torn, a.Closing) {found : Exchange.Heard}
    (hfound : found ∈ p.hear w) : found.Sound (s.run (p.acts w torn ++ closing)) := by
  cases hx : p.exchange? w with
  | none => simp [hear,hx] at hfound
  | some x =>
    rw [hear_of_some hx] at hfound
    rw [Session.run_append,acts_of_some hx]
    exact ((Exchange.turns hr hlink (fits_of_exchange? hk hx)).sound htorn hfound).run closing

theorem exists_brings (hk : p.Kept i settings tag s) (hr : s.Reached) (hlink : w.links[i]? = some s.link)
    {x : Exchange} (hx : p.exchange? w = some x) :
    ∃ torn, (∀ a ∈ torn, Session.Act.Closing a) ∧
      w.Brings (x.run w).1 i s.link (s.run (p.acts w torn)).link ∧
      (torn = [] ∨ ∃ reason, (x.run w).2 = .ends (.error (.lost reason))) := by
  obtain ⟨torn,htorn,hbrings,hopen⟩ := (Exchange.turns hr hlink (fits_of_exchange? hk hx)).exists_acts hlink
  exact ⟨torn,htorn,acts_of_some hx torn ▸ hbrings,hopen⟩

/-- The failures of the turn are counted, one by one, and nothing else. -/
theorem Goes.counts (h : Goes settings results w p ran) (hk : p.Kept i settings tag s) (hr : s.Reached)
    (hlink : w.links[i]? = some s.link) {t : Traffic} (ht : w.traffic? i = some t) :
    ∃ t', ran.1.traffic? i = some t' ∧
      t'.keepaliveFailures = t.keepaliveFailures + .ofNat (p.failures w) := by
  have hquiet : ∀ {x w' turn}, p.exchange? w = some x → x.run w = (w',turn) → ∃ t', w'.traffic? i = some t' ∧
      t'.keepaliveFailures = t.keepaliveFailures := by
    intro x w' turn hx hrun
    obtain ⟨torn,-,hbrings,-⟩ := exists_brings hk hr hlink hx
    rw [hrun] at hbrings
    exact hbrings.quiet t ht
  cases h with
  | rests due hx => exact ⟨t,ht,by simp [failures,hear,hx]⟩
  | asks x x' p' due w' hx hsends hrun =>
    obtain ⟨t',ht',hsame⟩ := hquiet hx hrun
    exact ⟨t',ht',by simp [failures,hear_of_some hx,Exchange.hear,hrun,hsame]⟩
  | hears x p' due w' outcome _ hx hsends hrun hleads =>
    obtain ⟨t',ht',hsame⟩ := hquiet hx hrun
    have hfailures : p.failures w = [ProbeResult.ofOutcome outcome].count .failed := by
      rw [failures,hear_of_some hx,Exchange.hear,hrun]
      rfl
    rw [hfailures,← hsame]
    have hcounted : ∀ w₁ : World, w₁.traffic? i = (w'.countOn p'.link [.keepaliveFailure]).traffic? i →
        ∃ t'', w₁.traffic? i = some t'' ∧ t''.keepaliveFailures = t'.keepaliveFailures + 1 := by
      intro w₁ hw₁
      refine ⟨t'.count .keepaliveFailure,?_,rfl⟩
      rw [hw₁,hsends.link,hk.link,World.traffic?_countOn,ht']
      rfl
    generalize ProbeResult.ofOutcome outcome = result at hleads ⊢
    cases hleads with
    | answered t₁ | stopped t₁ e => exact ⟨t',ht',by simp⟩
    | missed t₁ => exact hcounted _ rfl
    | closed t₁ => exact hcounted _ rfl

theorem Goes.exists_acts (h : Goes settings results w p ran) (hk : p.Kept i settings tag s) (hr : s.Reached)
    (hlink : w.links[i]? = some s.link) :
    ∃ torn closing, (∀ a ∈ torn, Session.Act.Closing a) ∧ (∀ a ∈ closing, Session.Act.Closing a) ∧
      ran.1.links[i]? = some (s.run (p.acts w torn ++ closing)).link := by
  cases h with
  | rests due hx => exact ⟨[],[],by simp,by simp,by simpa [acts,hx] using hlink⟩
  | asks x x' p' due w' hx hsends hrun =>
    obtain ⟨torn,htorn,⟨-,hafter,-⟩,-⟩ := exists_brings hk hr hlink hx
    rw [hrun] at hafter
    exact ⟨torn,[],htorn,by simp,by rwa [List.append_nil]⟩
  | hears x p' due w' outcome _ hx hsends hrun hleads =>
    obtain ⟨torn,htorn,⟨-,hafter,-⟩,-⟩ := exists_brings hk hr hlink hx
    rw [hrun] at hafter
    generalize ProbeResult.ofOutcome outcome = result at hleads
    cases hleads with
    | answered t | stopped t => exact ⟨torn,[],htorn,by simp,by rwa [List.append_nil]⟩
    | missed t => exact ⟨torn,[],htorn,by simp,by rwa [List.append_nil,World.links_countOn]⟩
    | closed t =>
      let s' := s.run (p.acts w torn)
      refine ⟨torn,s'.closing (LinkError.keepaliveExhausted settings.maxMissed).message,htorn,
        s'.closing_closing _,?_⟩
      rw [Session.run_append,Session.closing,Session.link_close,hsends.link,hk.link]
      simp [World.closeLink,World.onLink,Links.update,World.links_countOn,hafter]

theorem isLost_of_lost {outcome : Outcome} {e : LinkError} (h : ProbeResult.ofOutcome outcome = .lost e) :
    e.isLost = true := by
  unfold ProbeResult.ofOutcome at h
  split at h
  · cases h
  · split at h
    · obtain rfl := ProbeResult.lost.inj h
      assumption
    · cases h

/-- A failure that is one too many closes the link, unless that is under way. -/
theorem Goes.closes (h : Goes settings results w p ran) (hk : p.Kept i settings tag s) (hr : s.Reached)
    (hlink : w.links[i]? = some s.link) {t : Tracker} {missed : UInt32}
    (hend : ran.2 = .ends (t,.keepaliveExhausted missed)) :
    ∃ c, ran.1.links[i]? = some c ∧
      c.closeReason = some (s.link.closeReason.getD (LinkError.keepaliveExhausted missed).message) ∧
      (s.link.closeReason = none → c.phase = .disconnected) := by
  cases h with
  | rests due hx => cases hend
  | asks x x' p' due w' hx hsends hrun => cases hend
  | hears x p' due w' outcome _ hx hsends hrun hleads =>
    generalize hresult : ProbeResult.ofOutcome outcome = result at hleads
    cases hleads with
    | answered t₁ | missed t₁ => cases hend
    | stopped t₁ e =>
      obtain rfl := (Prod.mk.inj (Turn.ends.inj hend)).2
      cases isLost_of_lost hresult
    | closed t₁ =>
      obtain ⟨-,herror⟩ := Prod.mk.inj (Turn.ends.inj hend)
      obtain rfl := LinkError.keepaliveExhausted.inj herror
      obtain ⟨torn,-,hbrings,hopen⟩ := exists_brings hk hr hlink hx
      rw [acts_of_some hx,hrun] at hbrings
      rw [hrun] at hopen
      obtain rfl : torn = [] := by
        refine hopen.resolve_right ?_
        rintro ⟨reason,hlost⟩
        obtain rfl := Turn.ends.inj hlost
        cases hresult
      have hreason := Exchange.closeReason_acts w s x
      generalize (s.run (x.acts w [])).link = c at hbrings hreason
      refine ⟨c.close (LinkError.keepaliveExhausted settings.maxMissed).message,?_,?_,fun hnone => ?_⟩
      · have hafter := hbrings.after
        rw [hsends.link,hk.link]
        simp [World.closeLink,World.onLink,Links.update,World.links_countOn,hafter]
      · rw [← hreason]
        cases hc : c.closeReason <;> simp [Connection.close,Connection.recordReason,hc,Connection.disconnect,
          Connection.failPending,Connection.halt]
      · simp [Connection.close,Connection.recordReason,hreason.trans hnone,Connection.disconnect]

end Probing

/-! ### The loop among other tasks -/

/-- A link of a world, a loop of probes on it, and what the probes so far have come to. -/
structure Watch where
  world : World
  session : Session
  turn : Turn Probing (Tracker × LinkError)
  heard : List Exchange.Heard

namespace Watch

def results (st : Watch) : List ProbeResult := st.heard.map Probing.resultOf

def ticket? (st : Watch) : Option Ticket :=
  match st.turn with
  | .waits p => p.ticket?
  | .ends _ => none

def take (st : Watch) (p : Probing) (torn closing : List Session.Act) : Watch where
  world := (p.run st.world).1
  session := st.session.run (p.acts st.world torn ++ closing)
  turn := (p.run st.world).2
  heard := st.heard ++ p.hear st.world

variable (i : Nat) (settings : KeepaliveSettings) (tag : Tag)

/-- The loop begins at any time of a link. Other tasks may change the world at will, and the link by whatever
acts there are; the request of the loop's probe is left by nobody else. The link is not closed between two
probes. -/
inductive Reached : Watch → Prop
  | begins (s : Session) (w : World) : s.Reached → w.links[i]? = some s.link →
    Reached ⟨w,s,.waits (.begin i settings tag),[]⟩
  | aside (st : Watch) (w : World) (acts : List Session.Act) : Reached st →
    (∀ ticket, st.ticket? = some ticket → .release ticket.slot ∉ acts) →
    w.links[i]? = some (st.session.run acts).link →
    Reached { st with world := w, session := st.session.run acts }
  | turn (st : Watch) (p : Probing) (torn closing : List Session.Act) : Reached st → st.turn = .waits p →
    (∀ a ∈ torn, a.Closing) → (∀ a ∈ closing, a.Closing) →
    (p.exchange? st.world = none → st.world.connected i = true) →
    (p.run st.world).1.links[i]? = some (st.session.run (p.acts st.world torn ++ closing)).link →
    Reached (st.take p torn closing)

variable {i : Nat} {settings : KeepaliveSettings} {tag : Tag} {st : Watch}

structure Kept (i : Nat) (settings : KeepaliveSettings) (tag : Tag) (st : Watch) : Prop where
  reached : st.session.Reached
  link : st.world.links[i]? = some st.session.link
  course : Probing.Course settings st.results st.turn
  loop : ∀ p, st.turn = .waits p → p.Kept i settings tag st.session
  heard : ∀ h ∈ st.heard, h.Sound st.session

theorem kept_begins (henabled : settings.enabled = true) (hmax : 1 ≤ settings.maxMissed.toNat) {s : Session}
    {w : World} (hr : s.Reached) (hlink : w.links[i]? = some s.link) :
    Kept i settings tag ⟨w,s,.waits (.begin i settings tag),[]⟩ where
  reached := hr
  link := hlink
  course := .goesOn _ (bearable_nil hmax) (Tracker.shows_start henabled hmax)
  loop := by
    rintro p hp
    obtain rfl := Turn.waits.inj hp
    exact ⟨rfl,rfl,rfl,by simp [Probing.begin],by simp [Probing.begin]⟩
  heard := by simp

theorem Kept.aside (h : st.Kept i settings tag) {w : World} {acts : List Session.Act}
    (hacts : ∀ ticket, st.ticket? = some ticket → .release ticket.slot ∉ acts)
    (hlink : w.links[i]? = some (st.session.run acts).link) :
    Kept i settings tag { st with world := w, session := st.session.run acts } where
  reached := h.reached.later acts
  link := hlink
  course := h.course
  loop := by
    intro p hp
    obtain ⟨hi,hsettings,htag,hawake,hheld⟩ := h.loop p hp
    refine ⟨hi,hsettings,htag,hawake,fun due x hstage => ?_⟩
    obtain ⟨ticket,limit,deadline,rfl,ho⟩ := hheld due x hstage
    have hturn : st.turn = .waits p := hp
    exact ⟨ticket,limit,deadline,rfl,ho.run (hacts ticket (by simp only [ticket?,hturn,Probing.ticket?,hstage]))⟩
  heard := fun found hfound => (h.heard found hfound).run acts

theorem Kept.goes (h : st.Kept i settings tag) (henabled : settings.enabled = true) {p : Probing}
    (hp : st.turn = .waits p) (hopen : p.exchange? st.world = none → st.world.connected i = true) :
    Bearable settings.maxMissed st.results ∧ p.tracker.Shows settings st.results ∧
      Probing.Goes settings st.results st.world p (p.run st.world) := by
  have hcourse := h.course
  rw [hp] at hcourse
  cases hcourse with
  | goesOn _ hb ht => exact ⟨hb,ht,Probing.goes_run (h.loop p hp) henabled hopen hb ht⟩

theorem Kept.take (h : st.Kept i settings tag) (henabled : settings.enabled = true) {p : Probing}
    {torn closing : List Session.Act} (hp : st.turn = .waits p) (htorn : ∀ a ∈ torn, a.Closing)
    (hclosing : ∀ a ∈ closing, a.Closing)
    (hopen : p.exchange? st.world = none → st.world.connected i = true)
    (hlink : (p.run st.world).1.links[i]? = some (st.session.run (p.acts st.world torn ++ closing)).link) :
    (st.take p torn closing).Kept i settings tag := by
  obtain ⟨hb,ht,hgoes⟩ := h.goes henabled hp hopen
  have hk := h.loop p hp
  refine ⟨h.reached.later _,hlink,?_,fun p₁ hp₁ => ?_,fun found hfound => ?_⟩
  · rw [results,Watch.take,List.map_append]
    exact hgoes.course hb ht
  · exact hgoes.kept hk h.reached h.link htorn hclosing hp₁
  · rcases List.mem_append.mp hfound with hfound | hfound
    · exact (h.heard found hfound).run _
    · exact Probing.sound_hear hk h.reached h.link htorn hfound

theorem Reached.kept (h : Reached i settings tag st) (henabled : settings.enabled = true)
    (hmax : 1 ≤ settings.maxMissed.toNat) : st.Kept i settings tag := by
  induction h with
  | begins s w hr hlink => exact kept_begins henabled hmax hr hlink
  | aside st w acts _ hacts hlink ih => exact ih.aside hacts hlink
  | turn st p torn closing _ hp htorn hclosing hopen hlink ih =>
    exact ih.take henabled hp htorn hclosing hopen hlink

theorem Reached.exists_take (h : Reached i settings tag st) (henabled : settings.enabled = true)
    (hmax : 1 ≤ settings.maxMissed.toNat) {p : Probing} (hp : st.turn = .waits p)
    (hopen : p.exchange? st.world = none → st.world.connected i = true) :
    ∃ torn closing, Reached i settings tag (st.take p torn closing) := by
  have hkept := h.kept henabled hmax
  obtain ⟨-,-,hgoes⟩ := hkept.goes henabled hp hopen
  obtain ⟨torn,closing,htorn,hclosing,hlink⟩ := hgoes.exists_acts (hkept.loop p hp) hkept.reached hkept.link
  exact ⟨torn,closing,.turn st p torn closing h hp htorn hclosing hopen hlink⟩

/-- On a link that is not closed between two probes, the loop goes on as long as no probe has lost the connection
and never as many in a row have failed as may not be missed, and the first probe of which that cannot be said
ends it: with the loss, or as exhausted. At any time the tracker shows the failures since the last success. In
each turn, which the loop can always take, the probe that fails is counted, and one that is one too many closes
the link with the text of its error. What a probe comes to is decided by a reply under its own counter, by its
time, by the loss of the link or by an error of this side; a reply that comes after the probe has ended changes
nothing, as long as counters do not come round. -/
theorem struck_of_reached (h : Reached i settings tag st) (henabled : settings.enabled = true)
    (hmax : 1 ≤ settings.maxMissed.toNat) :
    (∀ p, st.turn = .waits p →
      Bearable settings.maxMissed st.results ∧ p.tracker.Shows settings st.results ∧
      ((p.exchange? st.world = none → st.world.connected i = true) →
        (∃ torn closing, Reached i settings tag (st.take p torn closing)) ∧
        (∀ t, st.world.traffic? i = some t → ∃ t', (p.run st.world).1.traffic? i = some t' ∧
          t'.keepaliveFailures = t.keepaliveFailures + .ofNat (p.failures st.world)) ∧
        ∀ t missed, (p.run st.world).2 = .ends (t,.keepaliveExhausted missed) →
          ∃ c, (p.run st.world).1.links[i]? = some c ∧ c.closeReason =
              some (st.session.link.closeReason.getD (LinkError.keepaliveExhausted missed).message) ∧
            (st.session.link.closeReason = none → c.phase = .disconnected))) ∧
    (∀ t e, st.turn = .ends (t,e) → t.Shows settings st.results ∧ ∃ front last,
      st.results = front ++ [last] ∧ Bearable settings.maxMissed front ∧
        (last = .lost e ∨ last = .failed ∧ streak st.results = settings.maxMissed.toNat ∧
          e = .keepaliveExhausted settings.maxMissed)) ∧
    ∀ found ∈ st.heard, found.Sound st.session ∧
      (st.session.tickets.length < 2^32 → ∀ ticket, found.ticket = some ticket →
        ∀ late : Message, late.counter = ticket.counter →
          (st.session.step (.respond late)).link = st.session.link) := by
  have hkept := h.kept henabled hmax
  refine ⟨fun p hp => ?_,fun t e hend => ?_,fun found hfound => ⟨hkept.heard found hfound,?_⟩⟩
  · have hcourse := hkept.course
    rw [hp] at hcourse
    cases hcourse with
    | goesOn _ hb ht =>
      refine ⟨hb,ht,fun hopen => ?_⟩
      have hgoes := Probing.goes_run (hkept.loop p hp) henabled hopen hb ht
      exact ⟨h.exists_take henabled hmax hp hopen,
        fun _ => hgoes.counts (hkept.loop p hp) hkept.reached hkept.link,
        fun _ _ => hgoes.closes (hkept.loop p hp) hkept.reached hkept.link⟩
  · have hcourse := hkept.course
    rw [hend] at hcourse
    cases hcourse with
    | stopped front _ _ hresults hb ht => exact ⟨ht,front,_,hresults,hb,.inl rfl⟩
    | closed front _ hresults hb ht hstreak => exact ⟨ht,front,_,hresults,hb,.inr ⟨rfl,hstreak,rfl⟩⟩
  · intro hfew ticket hticket late hlate
    cases hkept.heard found hfound with
    | refused e => cases hticket
    | came ticket' outcome htaken hleft =>
      obtain rfl := Option.some.inj hticket
      exact hkept.reached.link_respond_of_left hfew htaken hleft hlate

theorem Reached.next {w w' : World} {s : Session} {p : Probing} {heard more : List Exchange.Heard}
    {turn : Turn Probing (Tracker × LinkError)} (h : Reached i settings tag ⟨w,s,.waits p,heard⟩)
    (henabled : settings.enabled = true) (hmax : 1 ≤ settings.maxMissed.toNat)
    (hopen : p.exchange? w = none → w.connected i = true) (hrun : p.run w = (w',turn)) (hhear : p.hear w = more)
    (now : Nat) :
    ∃ s', w'.links[i]? = some s'.link ∧ Reached i settings tag ⟨{ w' with now },s',turn,heard ++ more⟩ := by
  obtain ⟨torn,closing,h'⟩ := h.exists_take henabled hmax rfl hopen
  have hlink := (h'.kept henabled hmax).link
  simp only [take,hrun,hhear] at h' hlink
  exact ⟨_,hlink,.aside _ { w' with now } [] h' (by simp) hlink⟩

/-! ### A probe that is missed -/

def alone (c : Connection) (now : Nat) : World :=
  { now
    links := [c]
    streams := [{ codec := {}, source := 1, sink := 0, traffic := 0, registry := 0 }]
    pipes := [{},{}]
    traffics := [{}] }

def ready : Session := (Session.establish "worker" .initiator "master" 7).run [.ready "master"]

theorem reached_ready : ready.Reached := .run "worker" .initiator "master" 7 [.ready "master"]

theorem spent_ready : ready.link.Spent 7 0 := ⟨rfl,rfl,rfl,rfl,rfl,rfl,rfl⟩

/-- A probe in each millisecond, which must be answered in one. -/
def brief : KeepaliveSettings := { interval := .ofMillis 1, timeout := .ofMillis 1, maxMissed := 2 }

def resting (t : Tracker) (due : Nat) : Probing :=
  { link := 0, settings := brief, tag := .echo, tracker := t, stage := .resting due }

def asking (t : Tracker) (due : Nat) (ticket : Ticket) (deadline : Nat) : Probing :=
  { resting t due with stage := .asking due (.inFlight 0 ticket (some 1) (some deadline)) }

variable {c c' : Connection} {ticket : Ticket} {t : Tracker} {due now deadline : Nat}

def question : Request := ⟨0,.echo,probePayload,some 1,true⟩

/-- On a link that takes it, the request goes out and waits. -/
theorem run_question (hready : c.phase = .ready) (hstart : c.startRequest .echo = .ok (c',ticket))
    (hrunning : c'.halted = false) (hwaits : c'.outcome? ticket = none) (now : Nat) :
    ∃ w, (Exchange.fresh question).run (alone c now) =
        (w,.waits (.inFlight 0 ticket (some 1) (some (now + 1)))) ∧ w.links = [c'] := by
  let opened : World := (alone c now).onLink 0 fun _ => c'
  have hopen : (alone c now).openRequest 0 .echo true = (opened,.ok ticket) := by
    simp [World.openRequest,alone,Connection.ensureReady,hready,hstart,opened]
  let m : Message := ⟨ticket.counter,.echo,false,probePayload⟩
  have hcarries : Codec.Carries {} probePayload.length := by decide +kernel
  have hfault : (Codec.emitMessage {} opened.nonces m).fault = none :=
    (Codec.fault_eq_none_iff (Codec.sound_of_key {} none) (by decide) opened.supply m).mpr hcarries
  obtain ⟨w,hwrite,hlinks,hnow⟩ :=
    World.writeMessage_of_room (w := opened) (i := 0) (c := c') rfl rfl hrunning rfl rfl hfault
  have hwaiting : (w.countOn 0 [.requestSent]).links[0]?.bind (·.outcome? ticket) = none := by
    rw [World.links_countOn,hlinks]
    exact hwaits
  refine ⟨w.countOn 0 [.requestSent],?_,by rw [World.links_countOn,hlinks]; rfl⟩
  rw [Exchange.run,Exchange.begin]
  dsimp only [question]
  rw [hopen]
  dsimp only
  rw [hwrite]
  dsimp only
  rw [Option.map_some,Exchange.await,hwaiting]
  dsimp only
  rw [World.now_countOn,hnow,if_neg (Nat.not_succ_le_self _)]
  rfl

theorem run_resting (hready : c.phase = .ready) (hstart : c.startRequest .echo = .ok (c',ticket))
    (hrunning : c'.halted = false) (hwaits : c'.outcome? ticket = none) (hdue : due ≤ now) :
    ∃ w, (resting t due).run (alone c now) =
        (w,.waits (asking t.recordSent ((resting t.recordSent due).following now due) ticket (now + 1))) ∧
      w.links = [c'] ∧ (resting t due).hear (alone c now) = [] := by
  have hstage : (resting t due).stage = .resting due := rfl
  have hlimit : brief.timeout.millis = 1 := by decide
  have hrequest : (resting t due).request = question := by simp only [Probing.request,resting,hlimit,question]
  have hrun : (resting t due).run (alone c now) = Probing.runExchange (alone c now) (resting t.recordSent due)
      ((resting t.recordSent due).following now due) (.fresh question) := by
    rw [Probing.run,hstage,← hrequest]
    dsimp only
    rw [Probing.rest,if_pos (show due ≤ (alone c now).now from hdue)]
    rfl
  have hx : (resting t due).exchange? (alone c now) = some (.fresh question) := by
    rw [Probing.exchange?,hstage,← hrequest]
    dsimp only
    exact if_pos hdue
  obtain ⟨w,hwaiting,hlinks⟩ := run_question hready hstart hrunning hwaits now
  refine ⟨w,by rw [hrun,Probing.runExchange,hwaiting]; rfl,hlinks,?_⟩
  rw [Probing.hear_of_some hx,Exchange.hear,hwaiting]

/-- A probe whose time is over is given up, and the loop goes on if it was not one too many. -/
theorem run_asking {w : World} (due : Nat) (hlink : w.links = [c]) (hnone : c.outcome? ticket = none)
    (hdue : deadline ≤ w.now) (halive : t.recordFailure.isDead = false) :
    ∃ w', (asking t due ticket deadline).run w = (w',.waits (resting t.recordFailure due)) ∧
      w'.links = [c.release ticket] ∧
      (asking t due ticket deadline).hear w = [⟨some ticket,.error (.requestTimeout ticket.counter 1)⟩] := by
  have hwaiting : w.links[0]?.bind (·.outcome? ticket) = none := by
    rw [hlink]
    exact hnone
  let given : World := (w.countOn 0 [.timeout]).releaseTicket 0 ticket
  have hends : (Exchange.inFlight 0 ticket (some 1) (some deadline)).run w =
      (given,.ends (.error (.requestTimeout ticket.counter 1))) := by
    rw [Exchange.run,Exchange.await,hwaiting]
    exact if_pos hdue
  have hsettle : t.settle .failed = (t.recordFailure,.goOn) := by
    simp [Tracker.settle,halive]
  have hrun : (asking t due ticket deadline).run w =
      Probing.runExchange w (asking t due ticket deadline) due (.inFlight 0 ticket (some 1) (some deadline)) := rfl
  let timeout : Outcome := .error (.requestTimeout ticket.counter 1)
  have hfailed : ProbeResult.ofOutcome timeout = .failed := rfl
  have htracker : (asking t due ticket deadline).tracker = t := rfl
  refine ⟨given.countOn 0 [.keepaliveFailure],?_,?_,?_⟩
  · rw [hrun,Probing.runExchange,hends]
    change Probing.settle given (asking t due ticket deadline) due timeout = _
    simp only [Probing.settle,hfailed,htracker,hsettle]
    rfl
  · rw [World.links_countOn]
    simp [given,World.releaseTicket,World.onLink,Links.update,World.links_countOn,hlink]
  · rw [Probing.hear_of_some (x := .inFlight 0 ticket (some 1) (some deadline)) rfl,Exchange.hear,hends]
    rfl

def asked : Tracker := (Tracker.start brief).recordSent

theorem reached_missed : ∃ w s, s.link.Spent 7 1 ∧ Reached 0 brief .echo
    ⟨w,s,.waits (resting asked.recordFailure 2),[⟨some ⟨7,0⟩,.error (.requestTimeout 7 1)⟩]⟩ := by
  have hmax : 1 ≤ brief.maxMissed.toNat := by decide
  have hticket : Session.ticketAt 7 0 = ⟨7,0⟩ := rfl
  obtain ⟨c,hstart,hrunning,hwaits,hspent,-⟩ := spent_ready.exists_start .echo
  rw [hticket] at hstart hwaits hspent
  have h₀ : Reached 0 brief .echo ⟨alone ready.link 0,ready,.waits (.begin 0 brief .echo),[]⟩ :=
    .begins ready _ reached_ready rfl
  -- the loop rests for one interval
  have hrest : (Probing.begin 0 brief .echo).run (alone ready.link 0) =
      (alone ready.link 0,.waits (resting (.start brief) 1)) := rfl
  obtain ⟨s₁,-,h₁⟩ := h₀.next rfl hmax (fun _ => rfl) hrest rfl 1
  -- the probe goes out
  obtain ⟨w,hrun,hlinks,hhear⟩ :=
    run_resting (t := .start brief) spent_ready.ready hstart hrunning hwaits (Nat.le_refl 1)
  obtain ⟨s₂,-,h₂⟩ := Reached.next (w := alone ready.link 1) h₁ rfl hmax (fun _ => rfl) hrun hhear 2
  -- its time runs out
  obtain ⟨w',hrun',hlinks',hhear'⟩ :=
    run_asking (w := { w with now := 2 }) (t := asked) 2 hlinks hwaits (Nat.le_refl 2) rfl
  obtain ⟨s₃,hlink,h₃⟩ := h₂.next rfl hmax (fun hnone => by cases hnone) hrun' hhear' 2
  rw [hlinks'] at hlink
  exact ⟨_,s₃,Option.some.inj hlink ▸ hspent,h₃⟩

/-- The first of two probes that may not be missed in a row times out, and its answer comes late. -/
theorem struck_of_reached_missed : ∃ st, Reached 0 brief .echo st ∧ ∃ p, st.turn = .waits p ∧
    st.results = [.failed] ∧ p.tracker.health = .warning ∧ p.tracker.failures = 1 ∧
      ∀ payload, (st.session.step (.respond ⟨7,.ok,true,payload⟩)).link = st.session.link := by
  obtain ⟨w,s,hspent,h⟩ := reached_missed
  have hlength : s.tickets.length = 1 :=
    ((h.kept rfl (by decide)).reached.length_tickets).trans hspent.slots
  obtain ⟨hgoes,-,hheard⟩ := struck_of_reached h rfl (by decide)
  obtain ⟨-,hshows,-⟩ := hgoes (resting asked.recordFailure 2) rfl
  obtain ⟨-,hlate⟩ := hheard _ (List.mem_singleton_self _)
  have hfew : s.tickets.length < 2^32 := by omega
  have hstreak : 1 ≤ streak [.failed] ∧ streak [.failed] ≤ brief.maxMissed.toNat - 1 := by decide
  exact ⟨_,h,resting asked.recordFailure 2,rfl,rfl,hshows.warning.mpr hstreak,hshows.failures,
    fun payload => hlate hfew ⟨7,0⟩ rfl ⟨7,.ok,true,payload⟩ rfl⟩

theorem reached_again : ∃ w s t, Reached 0 brief .echo
      ⟨w,s,.waits (asking t 11 ⟨7,2^32⟩ 11),[⟨some ⟨7,0⟩,.error (.requestTimeout 7 1)⟩]⟩ ∧
    ∀ reply : Message, reply.counter = 7 →
      (s.link.processResponse reply).1.outcome? ⟨7,2^32⟩ = some (Connection.outcomeOf reply) := by
  obtain ⟨w,s,hspent,h⟩ := reached_missed
  have hmax : 1 ≤ brief.maxMissed.toNat := by decide
  have hround := (h.kept rfl hmax).reached.spent hspent (2^32-1)
  have haside := Reached.aside _ (alone (s.run (Session.spend 1 (2^32-1))).link 10) (Session.spend 1 (2^32-1)) h
    (by simp [ticket?,resting,Probing.ticket?]) rfl
  generalize s.run (Session.spend 1 (2^32-1)) = s₁ at hround haside
  have hticket : Session.ticketAt 7 (1 + (2^32-1)) = ⟨7,2^32⟩ := by
    rw [show 1 + (2^32-1) = 2^32 by norm_num]
    exact congrArg (Ticket.mk · (2^32)) (Session.counter_round 7)
  obtain ⟨c,hstart,hrunning,hwaits,-,hreplies⟩ := hround.exists_start .echo
  rw [hticket] at hstart hwaits hreplies
  obtain ⟨w₁,hrun,hlinks,hhear⟩ :=
    run_resting (t := asked.recordFailure) hround.ready hstart hrunning hwaits (show 2 ≤ 10 by decide)
  obtain ⟨s₂,hlink,h₂⟩ := haside.next rfl hmax (fun hnone => by cases hnone) hrun hhear 10
  rw [hlinks] at hlink
  obtain rfl := Option.some.inj hlink
  exact ⟨_,s₂,_,h₂,hreplies⟩

/-- Once counters have come round, a late reply to a missed probe is taken for the answer to a later one. -/
theorem mistaken_of_reached : ∃ (st : Watch) (p : Probing) (first later : Ticket),
    Reached 0 brief .echo st ∧ st.turn = .waits p ∧ p.ticket? = some later ∧ later ≠ first ∧
      st.heard = [⟨some first,.error (.requestTimeout first.counter 1)⟩] ∧
      ∀ late : Message, late.counter = first.counter → ∃ w,
        Reached 0 brief .echo { st with world := w, session := st.session.step (.respond late) } ∧
          p.hear w = [⟨some later,Connection.outcomeOf late⟩] := by
  obtain ⟨w,s,t,h,hreplies⟩ := reached_again
  refine ⟨_,asking t 11 ⟨7,2^32⟩ 11,⟨7,0⟩,⟨7,2^32⟩,h,rfl,rfl,by decide,rfl,fun late hlate => ?_⟩
  refine ⟨alone (s.step (.respond late)).link 10,.aside _ _ [.respond late] h (by simp) rfl,?_⟩
  have houtcome : (alone (s.step (.respond late)).link 10).links[0]?.bind (·.outcome? ⟨7,2^32⟩) =
      some (Connection.outcomeOf late) := hreplies late hlate
  rw [Probing.hear_of_some (x := .inFlight 0 ⟨7,2^32⟩ (some 1) (some 11)) rfl,Exchange.hear,Exchange.run,
    Exchange.await,houtcome]
  rfl

end Watch
end Tether.Cluster
