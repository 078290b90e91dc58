import Tether.Node.Settings
import Tether.Proofs.Link.Duplex
import Tether.Proofs.Link.Replying
import Tether.Proofs.Master.Holders
import Tether.Proofs.Text.Utf8

/-! A worker says hello to a master, and each of the two decides for itself what has come of it: the master by
its roster, the worker by the reply. The link is seen from both its ends, while the rest of the master goes
on. -/
namespace Tether

/-! ### The worker's side -/

namespace Connection

/-- A text that begins like an error. -/
def alarming (text : String) : Bool := errorMark.isPrefixOf (Utf8.encode text)

theorem outcomeOf_okText (text : String) (counter : UInt32) :
    outcomeOf ((Reply.okText text).message counter) = .ok (.ok,Utf8.encode text) := rfl

theorem outcomeOf_error (text : String) (counter : UInt32) :
    outcomeOf ((Reply.error text).message counter) = .error (.application text) := by
  have hreply : outcomeOf ((Reply.error text).message counter) =
      .error (.application (Utf8.lossy (Utf8.encode text))) := rfl
  rw [hreply,Utf8.lossy_encode]

theorem phase_close {c : Connection} (h : c.closeReason = none) (reason : String) :
    (c.close reason).phase = .disconnected := by
  simp [close,recordReason,h,disconnect]

theorem phase_markReady {c : Connection} (h : c.phase ≠ .disconnected) (peer : String) :
    (c.markReady peer).phase = .ready ∧ (c.markReady peer).peerName = some peer := by
  unfold markReady enter
  split
  · rename_i hsame
    exact ⟨hsame.resolve_left h,rfl⟩
  · exact ⟨rfl,rfl⟩

theorem finishHandshake_of_refused {c : Connection} (h : c.closeReason = none) (text : String) :
    (c.finishHandshake (.error (.application text))).2 = .error (.handshake text) ∧
      (c.finishHandshake (.error (.application text))).1.phase = .disconnected :=
  ⟨rfl,phase_close h _⟩

theorem finishHandshake_of_named {c : Connection} (h : c.closeReason = none) (hc : c.phase ≠ .disconnected)
    (text : String) :
    let done := c.finishHandshake (.ok (.ok,Utf8.encode text))
    (alarming text = false → done.2 = .ok text ∧ done.1.phase = .ready) ∧
      (alarming text = true → done.2 = .error (.handshake text) ∧ done.1.phase = .disconnected) := by
  intro done
  have hdone : done = if alarming text then c.refuse text else (c.markReady text,.ok text) := by
    simp only [done,finishHandshake,Utf8.lossy_encode]
    rfl
  refine ⟨fun hm => ?_,fun hm => ?_⟩
  · rw [hdone,hm]
    exact ⟨rfl,(phase_markReady hc text).1⟩
  · rw [hdone,hm]
    exact ⟨rfl,phase_close h _⟩

end Connection

/-! ### Both sides -/

/-- A worker's link to a master, and the master's roster. Of the master's links it is the one between those
that were accepted earlier and those that were accepted later. -/
structure Admission where
  link : Duplex
  roster : Roster := {}
  earlier : Links := []
  later : Links := []

namespace Admission

inductive Act
  /-- One of the two ends does something, or bytes go over. -/
  | link (act : Duplex.Act)
  /-- The master's end answers a request that is a hello. -/
  | hello (serve : Nat) (now : Nat)
  /-- The rest of the master goes on. -/
  | rest (roster : Roster) (earlier later : Links)

def number (m : Admission) : Nat := m.earlier.length

def links (m : Admission) : Links := m.earlier ++ (m.link .right).session.link :: m.later

/-- What the roster makes of a hello on this link: the roster and the links after it, the reply, and the name
that was entered. -/
def told (master : String) (m : Admission) (payload : List UInt8) (now : Nat) :
    Roster × Links × Reply × Option String :=
  m.roster.hello m.links master m.number payload now

/-- The master's end is made ready under the name that was entered, and has its reply. -/
def answers (told : Roster × Links × Reply × Option String) (k : Nat) : List Duplex.Act :=
  told.2.2.2.toList.map (fun name => .own .right (.ready name)) ++
    [.own .right (.serve k (some (.ok told.2.2.1)))]

def hear (codec : Codec) (master : String) (m : Admission) (k now : Nat) : Admission :=
  match (m.link .right).serves[k]? with
  | some ⟨request,_,.running⟩ =>
    if request.tag = .hello then
      { m with
        roster := (m.told master request.payload now).1
        link := m.link.run codec (answers (m.told master request.payload now) k) }
    else m
  | _ => m

/-- A hello is served by the roster, and by nothing else. -/
def reserved (m : Admission) : Duplex.Act → Bool
  | .own .right (.serve k _) => ((m.link .right).serves[k]?).any (·.request.tag == .hello)
  | _ => false

def step (codec : Codec) (master : String) (m : Admission) : Act → Admission
  | .link a => if m.reserved a then m else { m with link := m.link.step codec a }
  | .hello k now => m.hear codec master k now
  | .rest roster earlier later =>
    if earlier.length = m.earlier.length then { m with roster, earlier, later } else m

def run (codec : Codec) (master : String) (m : Admission) (acts : List Act) : Admission :=
  acts.foldl (step codec master) m

variable {codec : Codec} {master : String} {m : Admission} {k now : Nat} {t : Serve} {reply : Reply}

theorem run_append (m : Admission) (before after : List Act) :
    m.run codec master (before ++ after) = (m.run codec master before).run codec master after :=
  List.foldl_append

theorem exists_link_step (codec : Codec) (master : String) (m : Admission) (a : Act) :
    ∃ acts, (m.step codec master a).link = m.link.run codec acts := by
  cases a with
  | link a =>
    simp only [step]
    split
    · exact ⟨[],rfl⟩
    · exact ⟨[a],rfl⟩
  | hello k now =>
    simp only [step,hear]
    split
    · rename_i request _ _
      split
      · exact ⟨answers (m.told master request.payload now) k,by dsimp only⟩
      · exact ⟨[],rfl⟩
    · exact ⟨[],rfl⟩
  | rest roster earlier later =>
    simp only [step]
    split <;> exact ⟨[],rfl⟩

theorem exists_link_run (codec : Codec) (master : String) (m : Admission) (acts : List Act) :
    ∃ linked, (m.run codec master acts).link = m.link.run codec linked := by
  induction acts generalizing m with
  | nil => exact ⟨[],rfl⟩
  | cons a acts ih =>
    obtain ⟨first,hfirst⟩ := m.exists_link_step codec master a
    obtain ⟨rest,hrest⟩ := ih (m.step codec master a)
    exact ⟨first ++ rest,hrest.trans (by rw [hfirst,Duplex.run_append])⟩

/-! ### A hello and its answer -/

variable {request : Message} {b : Bool}

theorem right_answers (codec : Codec) {d : Duplex} (hk : (d .right).serves[k]? = some ⟨request,b,.running⟩)
    (told : Roster × Links × Reply × Option String) :
    ((d.run codec (answers told k)) .right).serves =
      (d .right).serves.set k ⟨request,b,.replying told.2.2.1⟩ ∧
    ((d.run codec (answers told k)) .right).session =
      (d .right).session.run (told.2.2.2.toList.map .ready) := by
  rcases told with ⟨r,ls,reply,_ | name⟩
  all_goals
    simp only [answers,Option.toList_none,Option.toList_some,List.map_nil,List.map_cons,List.nil_append,
      List.cons_append,Duplex.run_cons,Duplex.run_nil,Duplex.step_own,Session.run_cons,Session.run_nil]
    simp [Endpoint.step,Endpoint.serve,Endpoint.setServe,Reply.ofResult,hk]

theorem hear_eq (hk : (m.link .right).serves[k]? = some ⟨request,b,.running⟩) (htag : request.tag = .hello) :
    m.hear codec master k now =
      { m with
        roster := (m.told master request.payload now).1
        link := m.link.run codec (answers (m.told master request.payload now) k) } := by
  simp only [hear,hk,if_pos htag]

theorem hear_of_not (h : ∀ request b, (m.link .right).serves[k]? = some ⟨request,b,.running⟩ →
    request.tag ≠ .hello) : m.hear codec master k now = m := by
  unfold hear
  split
  · rename_i request b hk
    exact if_neg (h request b hk)
  · rfl

theorem modify_middle {α : Type} (before after : List α) (x : α) (f : α → α) :
    (before ++ x :: after).modify before.length f = before ++ f x :: after := by
  induction before with
  | nil => rfl
  | cons y before ih => simp [ih]

theorem links_hear (hk : (m.link .right).serves[k]? = some ⟨request,b,.running⟩)
    (htag : request.tag = .hello) :
    (m.hear codec master k now).links = (m.told master request.payload now).2.1 := by
  have hright := (right_answers codec hk (m.told master request.payload now)).2
  rw [hear_eq hk htag,links,hright]
  by_cases hadmits : m.roster.Admits m.links m.number (Roster.helloName request.payload)
  · rw [told,Roster.hello_of_admits hadmits]
    simp [links,number,Links.update,Session.run,Session.step,modify_middle]
  · obtain ⟨text,htold⟩ := Roster.exists_hello_of_not_admits hadmits master now
    rw [told,htold]
    simp [links]

theorem serves_hear (hk : (m.link .right).serves[k]? = some ⟨request,b,.running⟩)
    (htag : request.tag = .hello) : ((m.hear codec master k now).link .right).serves =
      (m.link .right).serves.set k ⟨request,b,.replying (m.told master request.payload now).2.2.1⟩ := by
  rw [hear_eq hk htag]
  simp only [(right_answers codec hk _).1]

theorem stood_or_heard {j : Nat} (hk : ((m.hear codec master j now).link .right).serves[k]? = some t)
    (hr : t.reply? = some reply) :
    (m.link .right).Stood k t reply ∨ j = k ∧ ∃ b,
      (m.link .right).serves[k]? = some ⟨t.request,b,.running⟩ ∧
        reply = (m.told master t.request.payload now).2.2.1 := by
  by_cases hhello : ∃ request b, (m.link .right).serves[j]? = some ⟨request,b,.running⟩ ∧
      request.tag = .hello
  · obtain ⟨request,b,hj,htag⟩ := hhello
    rw [serves_hear hj htag] at hk
    by_cases hjk : j = k
    · subst hjk
      generalize htold : (m.told master request.payload now).2.2.1 = made at hk
      rw [List.getElem?_set_self (List.getElem?_eq_some_iff.mp hj).1,Option.some.injEq] at hk
      subst hk
      simp only [Serve.reply?,Option.some.injEq] at hr
      subst hr
      refine .inr ⟨rfl,b,hj,?_⟩
      rw [← htold]
    · rw [List.getElem?_set_ne hjk] at hk
      exact .inl ⟨t,hk,rfl,hr⟩
  · rw [hear_of_not fun request b hj h => hhello ⟨request,b,hj,h⟩] at hk
    exact .inl ⟨t,hk,rfl,hr⟩

theorem stood_of_link {act : Duplex.Act} (hfree : m.reserved act = false)
    (hk : ((m.link.step codec act) .right).serves[k]? = some t) (htag : t.request.tag = .hello)
    (hr : t.reply? = some reply) : (m.link .right).Stood k t reply := by
  cases act with
  | carry side count => cases side <;> exact ⟨t,hk,rfl,hr⟩
  | own side move =>
    cases side with
    | left => exact ⟨t,hk,rfl,hr⟩
    | right =>
      by_cases hserve : ∃ result, move = .serve k result
      · obtain ⟨result,rfl⟩ := hserve
        refine Endpoint.stood_of_serve (fun request b hj h => ?_) hk htag hr
        simp [reserved,hj,h] at hfree
      · exact Endpoint.stood_of_step (fun result h => hserve ⟨result,h⟩) hk htag hr

theorem stood_or_told {a : Act} (hk : ((m.step codec master a).link .right).serves[k]? = some t)
    (htag : t.request.tag = .hello) (hr : t.reply? = some reply) :
    (m.link .right).Stood k t reply ∨ ∃ now b, a = .hello k now ∧
      (m.link .right).serves[k]? = some ⟨t.request,b,.running⟩ ∧
        reply = (m.told master t.request.payload now).2.2.1 := by
  cases a with
  | rest roster earlier later =>
    simp only [step] at hk
    split at hk <;> exact .inl ⟨t,hk,rfl,hr⟩
  | hello j now =>
    rcases stood_or_heard hk hr with hstood | ⟨rfl,b,hj,hreply⟩
    · exact .inl hstood
    · exact .inr ⟨now,b,rfl,hj,hreply⟩
  | link act =>
    simp only [step] at hk
    split at hk
    · exact .inl ⟨t,hk,rfl,hr⟩
    · rename_i hfree
      exact .inl (stood_of_link (by simpa using hfree) hk htag hr)

theorem exists_hello_of_replied (hstart : (m.link .right).serves = []) {acts : List Act}
    (hk : ((m.run codec master acts).link .right).serves[k]? = some t) (htag : t.request.tag = .hello)
    (hr : t.reply? = some reply) :
    ∃ before now after b, acts = before ++ .hello k now :: after ∧
      ((m.run codec master before).link .right).serves[k]? = some ⟨t.request,b,.running⟩ ∧
        reply = ((m.run codec master before).told master t.request.payload now).2.2.1 := by
  induction acts using List.reverseRecOn generalizing t with
  | nil => simp [run,hstart] at hk
  | append_singleton acts a ih =>
    rw [run_append] at hk
    rcases stood_or_told hk htag hr with ⟨t',hk',hrequest,hr'⟩ | ⟨now,b,rfl,hserve,hreply⟩
    · obtain ⟨before,now,after,b,rfl,hserve,hreply⟩ := ih hk' (hrequest ▸ htag) hr'
      rw [hrequest] at hserve hreply
      exact ⟨before,now,after ++ [a],b,by simp,hserve,hreply⟩
    · exact ⟨acts,now,[],b,rfl,hserve,hreply⟩

/-! ### What the master decides -/

/-- The master lets the worker in: it is answered for with the master's name, holds its own in the roster, and
the master's end is ready under that name. -/
structure Enters (codec : Codec) (master : String) (m : Admission) (k now : Nat) (name : String) : Prop where
  reply : ∃ t, ((m.hear codec master k now).link .right).serves[k]? = some t ∧
    t.reply? = some (.okText master)
  held : (name,m.number) ∈ (m.hear codec master k now).roster.holders
  phase : ((m.hear codec master k now).link .right).session.link.phase = .ready
  peer : ((m.hear codec master k now).link .right).session.link.peerName = some name

/-- The master turns the worker away with that text, and nothing of its own has changed. -/
structure Refuses (codec : Codec) (master : String) (m : Admission) (k now : Nat) (text : String) : Prop where
  reply : ∃ t, ((m.hear codec master k now).link .right).serves[k]? = some t ∧
    t.reply? = some (.error text)
  roster : (m.hear codec master k now).roster = m.roster
  links : (m.hear codec master k now).links = m.links

theorem exists_reply_hear (hk : (m.link .right).serves[k]? = some ⟨request,b,.running⟩)
    (htag : request.tag = .hello) :
    ∃ t, ((m.hear codec master k now).link .right).serves[k]? = some t ∧
      t.reply? = some (m.told master request.payload now).2.2.1 := by
  rw [serves_hear hk htag]
  generalize (m.told master request.payload now).2.2.1 = made
  exact ⟨_,List.getElem?_set_self (List.getElem?_eq_some_iff.mp hk).1,rfl⟩

theorem enters_of_admits (hk : (m.link .right).serves[k]? = some ⟨request,b,.running⟩)
    (htag : request.tag = .hello) (hup : (m.link .right).session.link.phase ≠ .disconnected)
    (h : m.roster.Admits m.links m.number (Roster.helloName request.payload)) (codec : Codec)
    (master : String) (now : Nat) :
    (m.told master request.payload now).2.2.1 = .okText master ∧
      m.Enters codec master k now (Roster.helloName request.payload) := by
  have htold := Roster.hello_of_admits h master now
  have hreply : (m.told master request.payload now).2.2.1 = .okText master := by rw [told,htold]
  have hlink : ((m.hear codec master k now).link .right).session.link =
      (m.link .right).session.link.markReady (Roster.helloName request.payload) := by
    rw [hear_eq hk htag]
    simp only [(right_answers codec hk _).2]
    rw [told,htold]
    rfl
  have hready := Connection.phase_markReady hup (Roster.helloName request.payload)
  refine ⟨hreply,?_,?_,hlink ▸ hready.1,hlink ▸ hready.2⟩
  · rw [← hreply]
    exact exists_reply_hear hk htag
  · rw [hear_eq hk htag]
    simp only [told,htold,Roster.holders_put]
    exact List.mem_cons_self

theorem exists_refuses_of_not_admits (hk : (m.link .right).serves[k]? = some ⟨request,b,.running⟩)
    (htag : request.tag = .hello)
    (h : ¬ m.roster.Admits m.links m.number (Roster.helloName request.payload)) (codec : Codec)
    (master : String) (now : Nat) :
    ∃ text, (m.told master request.payload now).2.2.1 = .error text ∧
      m.Refuses codec master k now text := by
  obtain ⟨text,htold⟩ := Roster.exists_hello_of_not_admits h master now
  have hreply : (m.told master request.payload now).2.2.1 = .error text := by rw [told,htold]
  refine ⟨text,hreply,?_,?_,?_⟩
  · rw [← hreply]
    exact exists_reply_hear hk htag
  · rw [hear_eq hk htag]
    simp only [told,htold]
  · rw [links_hear hk htag,told,htold]

theorem Enters.not_refuses {name text : String} (h : m.Enters codec master k now name)
    (h' : m.Refuses codec master k now text) : False := by
  obtain ⟨t,hk,hr⟩ := h.reply
  obtain ⟨t',hk',hr'⟩ := h'.reply
  obtain rfl := Option.some.inj (hk.symm.trans hk')
  have htag := congrArg Reply.tag (Option.some.inj (hr.symm.trans hr'))
  exact absurd (show Tag.ok = Tag.err from htag) (by decide)

/-! ### What comes of it -/

theorem honest_run {name : Side → String} {role : Side → Role} {peerAddr : Side → String}
    {first : Side → UInt32} (hm : m.link = .establish name role peerAddr first) (hcodec : codec.Keyed)
    {acts : List Act} (hfew : ∀ side, (m.run codec master acts).link.started side < 2^32) :
    (m.run codec master acts).link.Honest codec first fun _ _ => False := by
  obtain ⟨linked,hlinked⟩ := m.exists_link_run codec master acts
  rw [hlinked,hm] at hfew ⊢
  exact (Duplex.honest_establish ..).run hcodec linked (fun _ _ h => absurd h id) hfew

theorem up_of_run {name : Side → String} {role : Side → Role} {peerAddr : Side → String}
    {first : Side → UInt32} (hm : m.link = .establish name role peerAddr first) (before after : List Act)
    {side : Side} (hhonest : (m.run codec master (before ++ after)).link.Honest codec first fun _ _ => False)
    (hup : ((m.run codec master (before ++ after)).link side).session.link.closeReason = none) :
    ((m.run codec master before).link side).session.link.phase ≠ .disconnected ∧
      ((m.run codec master (before ++ after)).link side).session.link.phase ≠ .disconnected := by
  have hstaged := (hhonest.asking side).session.staged
  have hnow : ((m.run codec master (before ++ after)).link side).session.link.phase ≠ .disconnected := by
    intro hgone
    obtain ⟨reason,hreason⟩ := Option.isSome_iff_exists.mp (hstaged.phase hgone)
    rw [(hstaged.table reason hreason).1] at hup
    exact absurd hup (by simp)
  obtain ⟨earlier,hearlier⟩ := m.exists_link_run codec master before
  obtain ⟨later,hlater⟩ :=
    (m.run codec master before).exists_link_run codec master after
  have hbounded : (m.run codec master before).link.Bounded := by
    rw [hearlier,hm]
    exact (Duplex.Bounded.run (fun side => ((Duplex.honest_establish codec name role peerAddr
      first).asking side).bounded) earlier).1
  have honward := @Duplex.Bounded.onward_run codec _ hbounded later side
  rw [← hlater,← run_append] at honward
  exact ⟨fun hgone => hnow (honward.gone hgone),hnow⟩

/-- Both sides agree on what has come of a hello, but for a master whose name begins like an error. However
the roster and the rest of the master go on, and whatever both ends do besides, when the reply to a hello is
there and the link is up, the hello was served by the roster; and the worker is ready and knows its master if
and only if it was let in by one that has no such name. If it was turned away, it has the text of that, its
link is closed, and nothing has changed for the master. If it was let in under such a name, it takes that for
a refusal. -/
theorem agrees_of_run {codec : Codec} (hcodec : codec.Keyed) {master : String} {name : Side → String}
    {role : Side → Role} {peerAddr : Side → String} {first : Side → UInt32} {m m' : Admission}
    (hm : m.link = .establish name role peerAddr first) {acts : List Act}
    (hrun : m.run codec master acts = m')
    (hup : ∀ side, (m'.link side).session.link.closeReason = none)
    (hfew : ∀ side, m'.link.started side < 2^32) {i : Nat} {ticket : Ticket} {worker : String}
    {outcome : Outcome}
    (hcall : (m'.link .left).errands[i]? =
      some (.call ticket .hello (Utf8.encode worker) (.ended outcome)))
    (hreply : (∃ result, outcome = .ok result) ∨ ∃ text, outcome = .error (.application text)) :
    ∃ before k now after b, acts = before ++ .hello k now :: after ∧
      let met := m.run codec master before
      let done := (m'.link .left).session.link.finishHandshake outcome
      let entered := met.Enters codec master k now (Blank.trim worker)
      (met.link .right).serves[k]? =
          some ⟨⟨ticket.counter,.hello,false,Utf8.encode worker⟩,b,.running⟩ ∧
        (entered ∧ Connection.alarming master = false ↔ done.2 = .ok master ∧ done.1.phase = .ready) ∧
        (¬ entered → ∃ text, met.Refuses codec master k now text ∧
          done.2 = .error (.handshake text) ∧ done.1.phase = .disconnected) ∧
        (entered ∧ Connection.alarming master = true →
          done.2 = .error (.handshake master) ∧ done.1.phase = .disconnected) := by
  have hhonest : m'.link.Honest codec first fun _ _ => False := hrun ▸ honest_run hm hcodec (hrun ▸ hfew)
  obtain ⟨k,t,reply,hk,hrequest,hr,hout⟩ := hhonest.exists_served (hfew .left) hcall rfl hreply
  have hstart : (m.link .right).serves = [] := by rw [hm]; rfl
  obtain ⟨before,now,after,b,rfl,hserve,hmade⟩ :=
    exists_hello_of_replied hstart (hrun ▸ hk : ((m.run codec master acts).link .right).serves[k]? = some t)
      (by rw [hrequest]) hr
  rw [hrequest] at hserve hmade
  refine ⟨before,k,now,after,b,rfl,?_⟩
  intro met done entered
  have hmet : (met.link .right).session.link.phase ≠ .disconnected :=
    (up_of_run hm before _ (hrun ▸ hhonest) (hrun ▸ hup .right)).1
  have hleft := (up_of_run hm before _ (hrun ▸ hhonest) (hrun ▸ hup .left)).2
  rw [hrun] at hleft
  have hworker : Roster.helloName (Utf8.encode worker) = Blank.trim worker := by
    rw [Roster.helloName,Utf8.lossy_encode]
  by_cases hadmits : met.roster.Admits met.links met.number (Roster.helloName (Utf8.encode worker))
  · obtain ⟨htold,henters⟩ := enters_of_admits hserve rfl hmet hadmits codec master now
    have hentered : met.Enters codec master k now (Blank.trim worker) := hworker ▸ henters
    have hdone : done = (m'.link .left).session.link.finishHandshake (.ok (.ok,Utf8.encode master)) := by
      rw [← Connection.outcomeOf_okText master ticket.counter,← htold,← hmade,← hout]
    obtain ⟨hcalm,halarm⟩ := Connection.finishHandshake_of_named (hup .left) hleft master
    rw [← hdone] at hcalm halarm
    refine ⟨hserve,⟨fun h => hcalm h.2,fun h => ⟨hentered,?_⟩⟩,fun h => absurd hentered h,fun h => halarm h.2⟩
    by_contra halarming
    have hrefused := (halarm (by simpa using halarming)).1
    rw [h.1] at hrefused
    cases hrefused
  · obtain ⟨text,htold,hrefuses⟩ := exists_refuses_of_not_admits hserve rfl hadmits codec master now
    have hentered : ¬ entered := fun h => h.not_refuses hrefuses
    have hdone : done = (m'.link .left).session.link.finishHandshake (.error (.application text)) := by
      rw [← Connection.outcomeOf_error text ticket.counter,← htold,← hmade,← hout]
    obtain ⟨htext,hgone⟩ := Connection.finishHandshake_of_refused (hup .left) text
    rw [← hdone] at htext hgone
    refine ⟨hserve,⟨fun h => absurd h.1 hentered,fun h => ?_⟩,fun _ => ⟨text,hrefuses,htext,hgone⟩,
      fun h => absurd h.1 hentered⟩
    rw [htext] at h
    cases h.1

/-- A worker whose name has blanks around it is let in without them, by a master that it gets to know. -/
theorem agrees_of_run_entered :
    let codec : Codec := ⟨{},none⟩
    let supply : NonceSupply := ⟨fun _ => List.replicate 12 0,fun _ => rfl⟩
    let acts : List Act :=
      [.link (.own .left .handshake),.link (.own .left (.greet (Utf8.encode " w "))),
        .link (.own .left (.write 0 supply none)),.link (.carry .left 33),.link (.own .right .decode),
        .link (.own .right (.gate 0)),.rest {} [] [],.hello 0 5,.link (.own .right (.respond 0 supply none)),
        .link (.carry .right 36),.link (.own .left .decode),.link (.own .left (.collect 0))]
    let m : Admission :=
      { link := .establish (fun _ => "own") (fun | .left => .initiator | .right => .acceptor)
          (fun _ => "address") fun | .left => 7 | .right => 8 }
    let m' := m.run codec "master" acts
    let done := (m'.link .left).session.link.finishHandshake (.ok (.ok,Utf8.encode "master"))
    done.2 = .ok "master" ∧ ∃ before k now, (m.run codec "master" before).Enters codec "master" k now "w" := by
  intro codec supply acts m m' done
  have hrun : m.run codec "master" acts = m' := rfl
  have hup : ∀ side, (m'.link side).session.link.closeReason = none :=
    fun side => by cases side <;> decide +kernel
  have hfew : ∀ side, m'.link.started side < 2^32 := fun side => by cases side <;> decide +kernel
  have hcall : (m'.link .left).errands[0]? = some (.call ⟨7,0⟩ .hello (Utf8.encode " w ")
      (.ended (.ok (.ok,Utf8.encode "master")))) := by decide +kernel
  have hdone : done.2 = .ok "master" ∧ done.1.phase = .ready := by decide +kernel
  have hname : Blank.trim " w " = "w" := by decide +kernel
  clear_value m'
  obtain ⟨before,k,now,-,-,-,-,hagrees,-⟩ :=
    agrees_of_run (fun _ h => by cases h) rfl hrun hup hfew hcall (.inl ⟨_,rfl⟩)
  rw [hname] at hagrees
  exact ⟨hdone.1,before,k,now,(hagrees.mpr hdone).1⟩

/-- A master whose name begins like an error, as a master may be named, lets a worker in, and is taken for one
that has turned it away. -/
theorem closed_of_entered_alarming :
    let codec : Codec := ⟨{},none⟩
    let supply : NonceSupply := ⟨fun _ => List.replicate 12 0,fun _ => rfl⟩
    let greeting : List Act :=
      [.link (.own .left .handshake),.link (.own .left (.greet (Utf8.encode "w"))),
        .link (.own .left (.write 0 supply none)),.link (.carry .left 31),.link (.own .right .decode),
        .link (.own .right (.gate 0))]
    let answer : List Act :=
      [.hello 0 5,.link (.own .right (.respond 0 supply none)),.link (.carry .right 37),
        .link (.own .left .decode),.link (.own .left (.collect 0))]
    let m : Admission :=
      { link := .establish (fun _ => "own") (fun | .left => .initiator | .right => .acceptor)
          (fun _ => "address") fun | .left => 7 | .right => 8 }
    let met := m.run codec "Error-1" greeting
    let m' := met.run codec "Error-1" answer
    let outcome : Outcome := .ok (.ok,Utf8.encode "Error-1")
    let done := (m'.link .left).session.link.finishHandshake outcome
    Node.Settings.validate { name := "Error-1" } = .ok () ∧
      Node.Settings.validate { name := "w",role := .worker } = .ok () ∧
      (∀ side, (m'.link side).session.link.closeReason = none) ∧
      (m'.link .left).errands[0]? = some (.call ⟨7,0⟩ .hello (Utf8.encode "w") (.ended outcome)) ∧
      met.Enters codec "Error-1" 0 5 "w" ∧ ("w",m'.number) ∈ m'.roster.holders ∧
      done.2 = .error (.handshake "Error-1") ∧ done.1.phase = .disconnected := by
  intro codec supply greeting answer m met m' outcome done
  have henters : met.Enters codec "Error-1" 0 5 "w" :=
    ⟨⟨⟨⟨7,.hello,false,Utf8.encode "w"⟩,true,.replying (.okText "Error-1")⟩,by decide +kernel,rfl⟩,
      by decide +kernel,by decide +kernel,by decide +kernel⟩
  exact ⟨by decide +kernel,by decide +kernel,fun side => by cases side <;> decide +kernel,by decide +kernel,
    henters,by decide +kernel,by decide +kernel,by decide +kernel⟩

end Admission
end Tether
