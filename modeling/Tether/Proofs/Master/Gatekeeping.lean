import Tether.Proofs.Master.Guarding
import Tether.Proofs.Master.Holders

/-! The master's hall: every link with its bytes and its tasks, and the roster that judges what comes to
hello. A request is dealt with step by step, and any other task of any link may run in between; services
other than hello and keepalive are not fixed, and may do whatever an act of the hall does, once they run.
Whoever runs before its client was let in is hello: this holds of every order of the acts. -/
namespace Tether

structure Hall where
  roster : Roster := {}
  ends : List Endpoint := []
  /-- Clients whose link is watched, to take them out of the roster when it has closed. -/
  watched : List (String × Nat) := []

namespace Hall

inductive Act
  | adopt (peerAddr : String) (counter : UInt32)
  /-- Bytes come in over a link, or one of its tasks takes a step. -/
  | own (link : Nat) (event : Endpoint.Event)
  | hello (link serve now : Nat)
  | heartbeat (link serve now : Nat)
  | leave (watched : Nat)
  | sweep (limit now : Nat)
  | drain

def connections (h : Hall) : Links := h.ends.map (·.session.link)

def running? (h : Hall) (i k : Nat) : Option Message :=
  match (h.ends[i]?).bind (·.serves[k]?) with
  | some ⟨request,_,.running⟩ => some request
  | _ => none

def adopt (master : String) (h : Hall) (peerAddr : String) (counter : UInt32) : Hall :=
  let ends := h.ends ++ [.establish master .acceptor peerAddr counter]
  { h with ends, roster := h.roster.adopt (ends.map (·.session.link)) h.ends.length }

/-- A peer that has a name may be given another one by those who serve it. The first one comes with hello. -/
def own (codec : Codec) (h : Hall) (i : Nat) (ev : Endpoint.Event) : Hall :=
  { h with ends := h.ends.modify i fun e =>
    if ev.named?.isNone || e.session.link.peerName.isSome then e.after codec ev else e }

/-- A hello is answered, after the link was made ready under the name that was entered, if one was. -/
def answers (k : Nat) (reply : Reply) (entered : Option String) : List Endpoint.Event :=
  entered.toList.map (fun name => .move (.ready name)) ++ [.move (.serve k (some (.ok reply)))]

def hello (codec : Codec) (master : String) (h : Hall) (i k now : Nat) : Hall :=
  match h.running? i k with
  | some request =>
    if request.tag = .hello then
      let (roster,_,reply,entered) := h.roster.hello h.connections master i request.payload now
      { roster
        ends := h.ends.modify i (·.run codec (answers k reply entered))
        watched := h.watched ++ (entered.map (·,i)).toList }
    else h
  | none => h

def heard (h : Hall) (i now : Nat) : Roster :=
  match h.connections.peerName? i with
  | some name => h.roster.touch name now
  | none => h.roster

def heartbeat (codec : Codec) (h : Hall) (i k now : Nat) : Hall :=
  match h.running? i k with
  | some request =>
    { h with
      roster := h.heard i now
      ends := h.ends.modify i
        (·.after codec (.move (.serve k (some (.ok ⟨.okMaster,request.payload⟩))))) }
  | none => h

def leave (h : Hall) (k : Nat) : Hall :=
  match h.watched[k]? with
  | some (name,i) =>
    if h.connections.connected i then h
    else { h with roster := h.roster.remove name i, watched := h.watched.eraseIdx k }
  | none => h

def step (codec : Codec) (master : String) (h : Hall) : Act → Hall
  | .adopt peerAddr counter => h.adopt master peerAddr counter
  | .own i ev => h.own codec i ev
  | .hello i k now => h.hello codec master i k now
  | .heartbeat i k now => h.heartbeat codec i k now
  | .leave k => h.leave k
  | .sweep limit now => { h with roster := (h.roster.expire h.connections limit now).1 }
  | .drain => { h with roster := (h.roster.stop h.connections).1 }

def run (codec : Codec) (master : String) (h : Hall) (acts : List Act) : Hall :=
  acts.foldl (step codec master) h

theorem run_append (codec : Codec) (master : String) (h : Hall) (before after : List Act) :
    h.run codec master (before ++ after) = (h.run codec master before).run codec master after :=
  List.foldl_append

/-- The roster lets the client of a link in when it judges this hello. -/
def Enters (h : Hall) (i k : Nat) (name : String) : Prop :=
  ∃ request, h.running? i k = some request ∧ request.tag = .hello ∧
    Roster.helloName request.payload = name ∧ h.roster.Admits h.connections i name

/-- A client was let in over this link, under this name. -/
def Entered (codec : Codec) (master : String) (acts : List Act) (i : Nat) (name : String) : Prop :=
  ∃ before k now after, acts = before ++ .hello i k now :: after ∧
    (({} : Hall).run codec master before).Enters i k name

variable {codec : Codec} {master : String} {h : Hall}

/-! ### What every order of the tasks keeps -/

/-- Who is in the roster was let in, and each end is guarded until its client is. -/
structure Kept (met : Nat → String → Prop) (h : Hall) : Prop where
  entered : ∀ client ∈ h.roster.holders, met client.2 client.1
  guarded : ∀ i (e : Endpoint), h.ends[i]? = some e → e.Guarded (∃ name, met i name)

variable {met met' : Nat → String → Prop}

theorem Kept.mono (h' : h.Kept met) (hm : ∀ i name, met i name → met' i name) : h.Kept met' :=
  ⟨fun client hc => hm _ _ (h'.entered client hc),
    fun i e he => (h'.guarded i e he).mono fun ⟨name,hname⟩ => ⟨name,hm i name hname⟩⟩

theorem Kept.shrink (h' : h.Kept met) {roster : Roster} (watched : List (String × Nat))
    (hsub : roster.holders.Sublist h.roster.holders) : ({ h with roster, watched } : Hall).Kept met :=
  ⟨fun client hc => h'.entered client (hsub.subset hc),h'.guarded⟩

theorem Kept.change (h' : h.Kept met) {roster : Roster} {watched : List (String × Nat)}
    (hentered : ∀ client ∈ roster.holders, met client.2 client.1) {i : Nat} {f : Endpoint → Endpoint}
    (hf : ∀ e : Endpoint, e.Guarded (∃ name, met i name) → (f e).Guarded (∃ name, met i name)) :
    ({ roster, ends := h.ends.modify i f, watched } : Hall).Kept met := by
  refine ⟨hentered,fun j e he => ?_⟩
  rw [List.getElem?_modify] at he
  obtain ⟨e₀,he₀,rfl⟩ := Option.map_eq_some_iff.mp he
  by_cases hij : i = j
  · subst hij
    rw [if_pos rfl]
    exact hf e₀ (h'.guarded i e₀ he₀)
  · rw [if_neg hij]
    exact h'.guarded j e₀ he₀

theorem Kept.own (h' : h.Kept met) (i : Nat) (ev : Endpoint.Event) : (h.own codec i ev).Kept met := by
  refine h'.change h'.entered fun e he => ?_
  split
  · rename_i hallowed
    refine he.after fun hn => he.named ?_
    rw [Bool.or_eq_true] at hallowed
    exact hallowed.resolve_left fun hnone => by simp [Option.isNone_iff_eq_none.mp hnone] at hn
  · exact he

theorem running?_eq_some_iff {i k : Nat} {request : Message} : h.running? i k = some request ↔
    ∃ (e : Endpoint) (b : Bool), h.ends[i]? = some e ∧ e.serves[k]? = some ⟨request,b,.running⟩ := by
  unfold running?
  constructor
  · intro hr
    split at hr
    · rename_i request' b hk
      obtain ⟨e,he,hserve⟩ := Option.bind_eq_some_iff.mp hk
      exact ⟨e,b,he,Option.some.inj hr ▸ hserve⟩
    · simp at hr
  · rintro ⟨e,b,he,hserve⟩
    simp [he,hserve]

theorem hello_cases (codec : Codec) (master : String) (h : Hall) (i k now : Nat) :
    (∃ name, h.Enters i k name ∧ h.hello codec master i k now =
      { roster := h.roster.put ⟨name,i,now⟩
        ends := h.ends.modify i (·.run codec (answers k (.okText master) (some name)))
        watched := h.watched ++ [(name,i)] }) ∨
    (∃ text, h.hello codec master i k now =
      { h with ends := h.ends.modify i (·.run codec (answers k (.error text) none)) }) ∨
    h.hello codec master i k now = h := by
  unfold hello
  split
  · rename_i request hr
    split
    · rename_i htag
      by_cases ha : h.roster.Admits h.connections i (Roster.helloName request.payload)
      · refine .inl ⟨_,⟨request,hr,htag,rfl,ha⟩,?_⟩
        rw [Roster.hello_of_admits ha]
        rfl
      · obtain ⟨text,htext⟩ := Roster.exists_hello_of_not_admits ha master now
        refine .inr (.inl ⟨text,?_⟩)
        rw [htext]
        simp
    · exact .inr (.inr rfl)
  · exact .inr (.inr rfl)

theorem Kept.hello (h' : h.Kept met) (i k now : Nat) : (h.hello codec master i k now).Kept
    fun j name => met j name ∨ j = i ∧ h.Enters i k name := by
  rcases hello_cases codec master h i k now with ⟨name,henters,heq⟩ | ⟨text,heq⟩ | heq
  · rw [heq]
    refine (h'.mono fun _ _ => .inl).change (fun client hc => ?_) fun e he => he.run fun _ _ _ => ?_
    · rw [Roster.holders_put,List.mem_cons] at hc
      rcases hc with rfl | hc
      · exact .inr ⟨rfl,henters⟩
      · exact .inl (h'.entered client (List.mem_filter.mp hc).1)
    · exact ⟨name,.inr ⟨rfl,henters⟩⟩
  · rw [heq]
    refine (h'.change h'.entered fun e he => he.run fun ev hev hn => ?_).mono fun _ _ => .inl
    obtain rfl := List.mem_singleton.mp hev
    simp [Endpoint.Event.named?] at hn
  · rw [heq]
    exact h'.mono fun _ _ => .inl

theorem Kept.adopt (h' : h.Kept met) (peerAddr : String) (counter : UInt32) :
    (h.adopt master peerAddr counter).Kept met := by
  refine ⟨h'.entered,fun i e he => ?_⟩
  rcases Nat.lt_or_ge i h.ends.length with hlt | hge
  · exact h'.guarded i e ((List.getElem?_append_left hlt).symm.trans he)
  · have hnew := (List.getElem?_append_right hge).symm.trans he
    rw [List.mem_singleton.mp (List.mem_of_getElem? hnew)]
    exact Endpoint.guarded_establish ..

theorem holders_heard (h : Hall) (i now : Nat) : (h.heard i now).holders = h.roster.holders := by
  unfold heard
  split
  · exact Roster.holders_touch ..
  · rfl

theorem Kept.heartbeat (h' : h.Kept met) (i k now : Nat) : (h.heartbeat codec i k now).Kept met := by
  unfold Hall.heartbeat
  split
  · refine h'.change (fun client hc => h'.entered client (h.holders_heard i now ▸ hc)) fun e he => ?_
    exact he.after fun hn => by simp [Endpoint.Event.named?] at hn
  · exact h'

theorem Kept.leave (h' : h.Kept met) (k : Nat) : (h.leave k).Kept met := by
  unfold Hall.leave
  split
  · split
    · exact h'
    · exact h'.shrink _ (h.roster.holders_remove ..)
  · exact h'

theorem Kept.step (h' : h.Kept met) (a : Act) : (h.step codec master a).Kept
    fun i name => met i name ∨ ∃ k now, a = .hello i k now ∧ h.Enters i k name := by
  have hmono : ∀ {h₁ : Hall}, h₁.Kept met → h₁.Kept
      fun i name => met i name ∨ ∃ k now, a = .hello i k now ∧ h.Enters i k name :=
    fun h₁ => h₁.mono fun _ _ => .inl
  cases a with
  | hello i k now =>
    have hhello : (h.hello codec master i k now).Kept _ := h'.hello i k now
    refine hhello.mono fun j name hm => hm.imp_right ?_
    rintro ⟨rfl,henters⟩
    exact ⟨k,now,rfl,henters⟩
  | adopt peerAddr counter => exact hmono (h'.adopt peerAddr counter)
  | own i ev => exact hmono (h'.own i ev)
  | heartbeat i k now => exact hmono (h'.heartbeat i k now)
  | leave k => exact hmono (h'.leave k)
  | sweep limit now => exact hmono (h'.shrink h.watched (h.roster.holders_expire h.connections limit now))
  | drain => exact hmono (h'.shrink h.watched (List.nil_sublist _))

theorem kept_run (codec : Codec) (master : String) (acts : List Act) :
    (({} : Hall).run codec master acts).Kept (Entered codec master acts) := by
  induction acts using List.reverseRecOn with
  | nil => exact ⟨fun _ hc => (List.not_mem_nil hc).elim,fun i e he => by simp [run] at he⟩
  | append_singleton acts a ih =>
    rw [run_append]
    refine (ih.step a).mono fun i name hm => ?_
    rcases hm with ⟨before,k,now,after,rfl,henters⟩ | ⟨k,now,rfl,henters⟩
    · exact ⟨before,k,now,after ++ [a],by simp,henters⟩
    · exact ⟨acts,k,now,[],rfl,henters⟩

/-! ### Requests that are turned away -/

def Act.request? : Act → Option (Nat × Nat)
  | .own i (.move m) => m.serve?.map (i,·)
  | .hello i k _ | .heartbeat i k _ => some (i,k)
  | _ => none

def put (h : Hall) (i : Nat) (e : Endpoint) : Hall := { h with ends := h.ends.set i e }

theorem own_of_unnamed {i : Nat} {e : Endpoint} (he : h.ends[i]? = some e) {ev : Endpoint.Event}
    (hev : ev.named? = none) : h.own codec i ev = h.put i (e.after codec ev) := by
  rw [own,modify_eq_set he,hev]
  rfl

/-- Nothing has changed but one end, and of that not the link. -/
structure Apart (i : Nat) (h h' : Hall) : Prop where
  roster : h'.roster = h.roster
  watched : h'.watched = h.watched
  connections : h'.connections = h.connections
  others : ∀ j, j ≠ i → h'.ends[j]? = h.ends[j]?

theorem Apart.refl (i : Nat) (h : Hall) : Apart i h h := ⟨rfl,rfl,rfl,fun _ _ => rfl⟩

theorem apart_modify (i : Nat) (h : Hall) {f : Endpoint → Endpoint}
    (hf : ∀ e, (f e).session.link = e.session.link) : Apart i h { h with ends := h.ends.modify i f } := by
  refine ⟨rfl,rfl,List.ext_getElem? fun j => ?_,fun j hj => List.getElem?_modify_ne _ _ (Ne.symm hj)⟩
  by_cases hij : i = j
  · subst hij
    simp [connections,Function.comp_def,hf]
  · simp [connections,hij]

theorem apart_own (i : Nat) (h : Hall) {m : Endpoint.Move} {k : Nat} (hm : m.serve? = some k) :
    Apart i h (h.own codec i (.move m)) := by
  refine apart_modify i h fun e => ?_
  split
  · exact Endpoint.link_step_of_serve hm
  · rfl

/-- What becomes of a request that is not let through: the gate has its refusal, which goes to the stream of
its own link if it is open, and whatever is done about the request does nothing else. -/
structure TurnedAway (codec : Codec) (master : String) (h : Hall) (i k : Nat) (e : Endpoint) (t : Serve) :
    Prop where
  unserved : t.Unserved
  refused : t.stage = .routed → h.step codec master (.own i (.move (.gate k))) =
    h.put i (e.setServe k ⟨t.request,false,.replying (.early t.request.tag)⟩)
  answered : ∀ reply, t.stage = .replying reply → e.Open → 1 ≤ codec.limits.chunkSize.toNat →
    codec.limits.chunkSize.toNat + codec.overhead ≤ codec.limits.framePayload.toNat → ∀ nonces,
      let chunks := codec.chunksOf nonces.1 ((Reply.early t.request.tag).message t.request.counter)
      h.step codec master (.own i (.move (.respond k nonces none))) =
        h.put i ((e.extend (codec.wires chunks) chunks none).setServe k
          ⟨t.request,false,.answered (.early t.request.tag)⟩)
  apart : ∀ a : Act, a.request? = some (i,k) → Apart i h (h.step codec master a)

theorem turnedAway_of_unserved (hs : codec.Sound) (master : String) {i k : Nat} {e : Endpoint} {t : Serve}
    (he : h.ends[i]? = some e) (hk : e.serves[k]? = some t) (ht : t.Unserved)
    (hout : e.session.link.admits t.request.tag = false) : TurnedAway codec master h i k e t := by
  have hidle : h.running? i k = none := by
    by_contra hruns
    obtain ⟨request,hrequest⟩ := Option.ne_none_iff_exists'.mp hruns
    obtain ⟨e',b,he',hk'⟩ := running?_eq_some_iff.mp hrequest
    obtain rfl := Option.some.inj (he.symm.trans he')
    exact ht.2.1 (congrArg Serve.stage (Option.some.inj (hk.symm.trans hk')))
  refine ⟨ht,fun hrouted => ?_,fun reply hreplying ho hchunk hroom nonces => ?_,fun a ha => ?_⟩
  · rcases t with ⟨request,b,stage⟩
    obtain rfl : stage = .routed := hrouted
    refine (own_of_unnamed he rfl).trans ?_
    simp [Endpoint.after,Endpoint.step,Endpoint.gate,hk,hout]
  · obtain ⟨hgate,-,hearly⟩ := ht
    rcases t with ⟨request,b,stage⟩
    obtain rfl : stage = .replying reply := hreplying
    obtain rfl : reply = .early request.tag := hearly reply rfl
    obtain rfl : b = false := hgate
    refine (own_of_unnamed he rfl).trans ?_
    rw [← Endpoint.respond_of_carries hs hchunk ho hk (Codec.carries_early hchunk hroom request.tag) nonces]
    rfl
  · cases a with
    | own j ev =>
      cases ev with
      | feed bytes => simp [Act.request?] at ha
      | move m =>
        obtain ⟨k',hm,hjk⟩ := Option.map_eq_some_iff.mp ha
        obtain ⟨rfl,rfl⟩ := Prod.mk.inj hjk
        exact apart_own j h hm
    | hello j k' now =>
      obtain ⟨rfl,rfl⟩ := Prod.mk.inj (Option.some.inj ha)
      have hsame : h.step codec master (.hello j k' now) = h := by simp [step,hello,hidle]
      rw [hsame]
      exact .refl j h
    | heartbeat j k' now =>
      obtain ⟨rfl,rfl⟩ := Prod.mk.inj (Option.some.inj ha)
      have hsame : h.step codec master (.heartbeat j k' now) = h := by simp [step,heartbeat,hidle]
      rw [hsame]
      exact .refl j h
    | _ => simp [Act.request?] at ha

/-- The end of a link after a hello: made ready under the name that was entered, and with the reply. -/
def answered (e : Endpoint) (k : Nat) (t : Serve) (reply : Reply) (entered : Option String) : Endpoint :=
  { e with
    session := e.session.run (entered.toList.map .ready)
    serves := e.serves.set k { t with stage := .replying reply } }

theorem run_answers {e : Endpoint} {k : Nat} {request : Message} {b : Bool}
    (hk : e.serves[k]? = some ⟨request,b,.running⟩) (codec : Codec) (reply : Reply) (entered : Option String) :
    e.run codec (answers k reply entered) = answered e k ⟨request,b,.running⟩ reply entered := by
  cases entered with
  | none => simp [answers,answered,Endpoint.after,Endpoint.step,Endpoint.serve,hk,Reply.ofResult,Endpoint.setServe]
  | some name =>
    simp [answers,answered,Endpoint.after,Endpoint.step,Endpoint.serve,hk,Reply.ofResult,Endpoint.setServe]

theorem hello_told {i k : Nat} {e : Endpoint} {request : Message} {b : Bool} (he : h.ends[i]? = some e)
    (hk : e.serves[k]? = some ⟨request,b,.running⟩) (htag : request.tag = .hello) (codec : Codec)
    (master : String) (now : Nat) :
    let told := h.roster.hello h.connections master i request.payload now
    let h' := h.hello codec master i k now
    h'.roster = told.1 ∧ h'.connections = told.2.1 ∧
      h'.ends = h.ends.set i (answered e k ⟨request,b,.running⟩ told.2.2.1 told.2.2.2) := by
  intro told h'
  have hr : h.running? i k = some request := running?_eq_some_iff.mpr ⟨e,b,he,hk⟩
  have hends : h'.ends = h.ends.set i (answered e k ⟨request,b,.running⟩ told.2.2.1 told.2.2.2) := by
    rw [← run_answers hk codec,← modify_eq_set he (·.run codec (answers k told.2.2.1 told.2.2.2))]
    simp only [h',hello,hr,if_pos htag,told]
  refine ⟨by simp only [h',hello,hr,if_pos htag,told],?_,hends⟩
  have hlink : h.connections[i]? = some e.session.link := by simp [connections,he]
  rw [connections,hends,List.map_set]
  by_cases ha : h.roster.Admits h.connections i (Roster.helloName request.payload)
  · have htold : told = _ := Roster.hello_of_admits ha master now
    rw [htold,Links.update,modify_eq_set hlink]
    rfl
  · obtain ⟨text,htext⟩ := Roster.exists_hello_of_not_admits ha master now
    have htold : told = _ := htext
    rw [htold]
    exact (modify_eq_set hlink id).symm.trans (List.modify_id i h.connections)

theorem connections_heartbeat (codec : Codec) (h : Hall) (i k now : Nat) :
    (h.heartbeat codec i k now).connections = h.connections := by
  unfold heartbeat
  split
  · rename_i request _
    let reply : Reply := ⟨.okMaster,request.payload⟩
    exact (apart_modify i h fun e =>
      @Endpoint.link_step_of_serve codec (.serve k (some (.ok reply))) e k rfl).connections
  · rfl

theorem roster_heartbeat {i k : Nat} {request : Message} (hr : h.running? i k = some request) (codec : Codec)
    (now : Nat) : (h.heartbeat codec i k now).roster = h.heard i now := by
  simp only [heartbeat,hr]

theorem enters_or_refused (codec : Codec) (master : String) {i k : Nat} {e : Endpoint} {request : Message}
    {b : Bool} (he : h.ends[i]? = some e) (hk : e.serves[k]? = some ⟨request,b,.running⟩)
    (htag : request.tag = .hello) (now : Nat) :
    (∃ name, h.Enters i k name) ∨ ∃ text, h.step codec master (.hello i k now) =
      h.put i (e.setServe k ⟨request,b,.replying (.error text)⟩) := by
  have hr : h.running? i k = some request := running?_eq_some_iff.mpr ⟨e,b,he,hk⟩
  by_cases ha : h.roster.Admits h.connections i (Roster.helloName request.payload)
  · exact .inl ⟨_,request,hr,htag,rfl,ha⟩
  · obtain ⟨text,htext⟩ := Roster.exists_hello_of_not_admits ha master now
    refine .inr ⟨text,?_⟩
    simp only [step,hello,hr,if_pos htag,htext,modify_eq_set he,run_answers hk]
    simp [put,answered,Endpoint.setServe]

/-- However the tasks of the master take their turns, a service other than that of hello runs for a link, and
its link is ready, only if the roster has let a client in over that link before; and so is every entry of the
roster. Until then each request that is not a hello is turned away: it is not served, the gate has the refusal
for it, which goes to the stream when it is open, and what is done about it changes neither the roster nor
anything of another link. A hello that is not let in has an error for a reply, and changes nothing else. -/
theorem gated_of_run (limits : Limits) (key : Option PayloadKey) (master : String) (acts : List Act) :
    let codec : Codec := ⟨limits,key.map Cipher.ofKey⟩
    let h := ({} : Hall).run codec master acts
    (∀ entry ∈ h.roster.entries, Entered codec master acts entry.link entry.name) ∧
    ∀ (i : Nat) (e : Endpoint), h.ends[i]? = some e →
      let met := ∃ name, Entered codec master acts i name
      (e.session.link.phase = .ready → met) ∧
      (∀ t ∈ e.serves, t.request.tag ≠ .hello → t.dispatched = true ∨ t.stage = .running → met) ∧
      (¬ met → ∀ (k : Nat) (t : Serve), e.serves[k]? = some t → t.request.tag ≠ .hello →
        TurnedAway codec master h i k e t) ∧
      ∀ (k now : Nat) (request : Message) (b : Bool), e.serves[k]? = some ⟨request,b,.running⟩ →
        request.tag = .hello → (∃ name, h.Enters i k name) ∨
          ∃ text, h.step codec master (.hello i k now) =
            h.put i (e.setServe k ⟨request,b,.replying (.error text)⟩) := by
  intro codec h
  have hkept : h.Kept (Entered codec master acts) := kept_run codec master acts
  have hkeyed : codec.Keyed := by
    intro cipher hc
    obtain ⟨k,-,rfl⟩ := Option.map_eq_some_iff.mp hc
    exact ⟨k,rfl⟩
  clear_value h
  refine ⟨fun entry he => hkept.entered _ (Roster.mem_holders he),fun i e he => ?_⟩
  intro met
  have hguarded : e.Guarded met := hkept.guarded i e he
  refine ⟨hguarded.ready,fun t ht htag hserved => ?_,fun hout k t hk htag => ?_,
    fun k now request b hk htag => enters_or_refused codec master he hk htag now⟩
  · by_contra hout
    obtain ⟨hgate,hrunning,-⟩ := hguarded.unserved hout t ht htag
    rcases hserved with hpassed | hruns
    · simp [hgate] at hpassed
    · exact hrunning hruns
  · exact turnedAway_of_unserved hkeyed.sound master he hk
      (hguarded.unserved hout t (List.mem_of_getElem? hk) htag) (hguarded.not_admits hout htag)

/-- A request that comes with its link's hello, but in front of it, is turned away; one that follows is served. -/
theorem gated_of_run_pipelined :
    let codec : Codec := ⟨{},none⟩
    let supply : NonceSupply := ⟨fun _ => List.replicate 12 0,fun _ => rfl⟩
    let ask (m : Message) : List Act :=
      [.own 0 (.feed (codec.emitMessage supply.1 m).bytes),.own 0 (.move .decode)]
    let acts : List Act := .adopt "address" 7 :: ask ⟨1,.echo,false,[9]⟩ ++
      ask ⟨2,.hello,false,Utf8.encode "w"⟩ ++ ask ⟨3,.echo,false,[9]⟩ ++
      [.own 0 (.move (.gate 0)),.own 0 (.move (.gate 1)),.hello 0 1 5,.own 0 (.move (.gate 2))]
    let h := ({} : Hall).run codec "master" acts
    ∃ e, h.ends[0]? = some e ∧ e.session.link.phase = .ready ∧
      e.serves.map (·.stage) = [.replying (.early .echo),.replying (.okText "master"),.running] ∧
      ∃ name, Entered codec "master" acts 0 name := by
  intro codec supply ask acts h
  have hshown : h.ends.map (fun e => (e.session.link.phase,e.serves.map (·.stage))) =
      [(.ready,[.replying (.early .echo),.replying (.okText "master"),.running])] := by decide +kernel
  obtain ⟨e,hends,hshown⟩ := List.map_eq_singleton_iff.mp hshown
  obtain ⟨hready,hstages⟩ := Prod.mk.inj hshown
  have he : h.ends[0]? = some e := by rw [hends]; rfl
  exact ⟨e,he,hready,hstages,((gated_of_run {} none "master" acts).2 0 e he).1 hready⟩

end Hall
end Tether
