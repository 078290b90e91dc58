import Tether.Proofs.Link.Going
import Tether.Proofs.Master.Membership

/-! The master's loop among the other tasks. It adopts links one by one; when it is told to stop, it takes
the clients out of the roster, adds the links that it has accepted, and closes them one after the other,
while every other task goes on. In all of this a link that is up is among the accepted ones, or is the one
that is being adopted; and when the loop closes links, those without a reason are still ahead of it. -/
namespace Tether

namespace Reception

variable {r : Reception} {master : String}

/-- An act of the other tasks: whoever may change the roster or a link, but for the loop, which alone
adopts links and alone empties the roster. -/
def Act.Beside : Act → Prop
  | .adopt .. | .drain => False
  | _ => True

theorem links_hello (r : Reception) (master : String) (i : Nat) (payload : List UInt8) (now : Nat) :
    (r.hello master i payload now).links = r.links ∨ (r.hello master i payload now).links =
      r.links.modify i (·.step (.ready (Roster.helloName payload))) := by
  by_cases h : r.roster.Admits r.connections i (Roster.helloName payload)
  · refine .inr ?_
    rw [hello_eq_of_admits h]
    refine List.ext_getElem? fun k => ?_
    by_cases hik : i = k
    · subst hik
      cases hs : r.links[i]? <;> simp [replace,connections,Links.update,List.getElem?_zipWith,hs,Session.step]
    · cases hs : r.links[k]? <;> simp [replace,connections,Links.update,List.getElem?_zipWith,hs,hik]
  · rw [hello_eq_self h]
    exact .inl rfl

theorem links_step_cases {a : Act} (h : a.Beside) :
    (r.step master a).links = r.links ∨ ∃ k act, (r.step master a).links = r.links.modify k (·.step act) ∧
      (act.Quiet ∨ ∃ hact, a = .link k ⟨act,hact⟩) := by
  cases a with
  | adopt peerAddr counter => exact absurd h id
  | drain => exact absurd h id
  | hello i payload now =>
    simp only [step]
    split
    · exact (links_hello r master i payload now).imp_right fun hl => ⟨i,.ready _,hl,.inl trivial⟩
    · exact .inl rfl
  | touch i now =>
    simp only [step,touch]
    split <;> exact .inl rfl
  | leave k =>
    simp only [step,leave]
    split
    · split <;> exact .inl rfl
    · exact .inl rfl
  | sweep limit now => exact .inl rfl
  | link k a => exact .inr ⟨k,a.1,rfl,.inr ⟨a.2,rfl⟩⟩

theorem links_step {a : Act} (h : a.Beside) : LinksGo r.links (r.step master a).links := by
  rcases links_step_cases h with hl | ⟨k,act,hl,-⟩
  · rw [hl]
    exact linksGo_refl _
  · rw [hl]
    exact linksGo_modify _ _ fun s => s.goes_step act

/-- The other tasks leave the accepted links alone. -/
theorem accepted_step {a : Act} (h : a.Beside) :
    (r.step master a).roster.accepted = r.roster.accepted := by
  cases a with
  | adopt peerAddr counter => exact absurd h id
  | drain => exact absurd h id
  | hello i payload now =>
    simp only [step]
    split
    · by_cases ha : r.roster.Admits r.connections i (Roster.helloName payload)
      · rw [hello_eq_of_admits ha]
        rfl
      · rw [hello_eq_self ha]
    · rfl
  | touch i now =>
    simp only [step,touch]
    split <;> rfl
  | leave k =>
    simp only [step,leave,Roster.remove]
    split
    · split
      · rfl
      · dsimp only
        split <;> rfl
    · rfl
  | sweep limit now =>
    simp only [step,sweep,Roster.expire,List.partition_eq_filter_filter]
  | link k a => rfl

/-- The other tasks may let a client in, but over no link over which one was let in before. -/
theorem Kept.holders_step (h : r.Kept) {a : Act} (ha : a.Beside) :
    r.admitted ⊆ (r.step master a).admitted ∧
      ∀ client ∈ (r.step master a).roster.holders, client ∈ r.roster.holders ∨ client ∉ r.admitted := by
  cases a with
  | adopt peerAddr counter => exact absurd ha id
  | drain => exact absurd ha id
  | hello i payload now =>
    simp only [Reception.step]
    split
    · by_cases hin : r.roster.Admits r.connections i (Roster.helloName payload)
      · rw [hello_eq_of_admits hin]
        refine ⟨List.subset_append_left ..,fun client hc => ?_⟩
        rw [Roster.holders_put] at hc
        rcases List.mem_cons.mp hc with rfl | hc
        · exact .inr fun hmem => h.not_mem_admitted hin.2.1 (List.mem_map_of_mem hmem)
        · exact .inl (List.mem_filter.mp hc).1
      · rw [hello_eq_self hin]
        exact ⟨List.Subset.refl _,fun _ => .inl⟩
    · exact ⟨List.Subset.refl _,fun _ => .inl⟩
  | touch i now =>
    simp only [Reception.step,Reception.touch]
    split
    · exact ⟨List.Subset.refl _,fun client hc => .inl (by rwa [Roster.holders_touch] at hc)⟩
    · exact ⟨List.Subset.refl _,fun _ => .inl⟩
  | leave k =>
    cases hk : r.watched[k]? with
    | none => simpa [Reception.step,Reception.leave,hk] using fun _ _ => Or.inl
    | some client =>
      rcases leave_cases hk with hstay | ⟨-,hgo⟩
      · simp only [Reception.step,hstay]
        exact ⟨List.Subset.refl _,fun _ => .inl⟩
      · simp only [Reception.step,hgo]
        exact ⟨List.Subset.refl _,fun client hc => .inl ((Roster.holders_remove ..).subset hc)⟩
  | sweep limit now =>
    exact ⟨List.Subset.refl _,fun client hc =>
      .inl ((r.roster.holders_expire r.connections limit now).subset hc)⟩
  | link k a => exact ⟨List.Subset.refl _,fun _ => .inl⟩

end Reception

/-! ### The loop among the other tasks -/

inductive Post
  /-- It waits for a stream, a check or the sign to stop. -/
  | serving
  /-- A link is set up, and is still to be kept among the accepted ones. -/
  | adopting (link : Nat)
  /-- The clients have left the roster; the accepted links are still to be added to theirs. -/
  | gathering (clients : List Nat)
  /-- The links that are left to close, and the call under way: its link, and its number among the calls
  there. -/
  | closing (rest : List Nat) (call : Option (Nat × Nat))
  | returned
deriving DecidableEq

structure Keeper where
  reception : Reception := {}
  post : Post := .serving
  /-- The calls to close that the loop has made at the end. -/
  calls : List (Nat × Nat) := []
  /-- The clients that the roster held when the loop stopped. -/
  former : List (String × Nat) := []

namespace Keeper

inductive Act
  | accept (peerAddr : String) (counter : UInt32)
  | stop
  | go
  /-- Another task closes a link, and is not interrupted. -/
  | close (link : Nat) (reason : String)
  | beside (act : { a : Reception.Act // a.Beside })

def accept (master : String) (w : Keeper) (peerAddr : String) (counter : UInt32) : Keeper :=
  match w.post with
  | .serving =>
    { w with
      reception := { w.reception with
        links := w.reception.links ++ [.establish master .acceptor peerAddr counter] }
      post := .adopting w.reception.links.length }
  | _ => w

def stop (w : Keeper) : Keeper :=
  match w.post with
  | .serving =>
    { w with
      reception := { w.reception with roster := { w.reception.roster with entries := [] } }
      post := .gathering (w.reception.roster.entries.map (·.link))
      former := w.reception.roster.holders }
  | _ => w

def call? (w : Keeper) (k n : Nat) : Option CloseCall := (w.reception.links[k]?).bind (·.closes[n]?)

def go (w : Keeper) : Keeper :=
  match w.post with
  | .serving | .returned => w
  | .adopting i =>
    { w with
      reception := { w.reception with roster := w.reception.roster.adopt w.reception.connections i }
      post := .serving }
  | .gathering clients =>
    { w with
      reception := { w.reception with roster := { w.reception.roster with accepted := [] } }
      post := .closing (clients ++ w.reception.roster.accepted) none }
  | .closing [] none => { w with post := .returned }
  | .closing (k :: rest) none => match w.reception.links[k]? with
    | none => { w with post := .closing rest none }
    | some s =>
      { w with
        reception := w.reception.onLink k ⟨.close "master shutting down",trivial⟩
        post := .closing rest (some (k,s.closes.length))
        calls := w.calls ++ [(k,s.closes.length)] }
  | .closing rest (some (k,n)) => match w.call? k n with
    | none => { w with post := .closing rest none }
    | some call =>
      if call.Over then { w with post := .closing rest none }
      else { w with reception := w.reception.onLink k ⟨.proceed n,trivial⟩ }

def close (w : Keeper) (k : Nat) (reason : String) : Keeper :=
  { w with reception := { w.reception with links := w.reception.links.modify k (·.closeNow reason) } }

def step (master : String) (w : Keeper) : Act → Keeper
  | .accept peerAddr counter => w.accept master peerAddr counter
  | .stop => w.stop
  | .go => w.go
  | .close k reason => w.close k reason
  | .beside a => { w with reception := w.reception.step master a }

def run (master : String) (w : Keeper) (acts : List Act) : Keeper := acts.foldl (step master) w

@[simp] theorem run_nil (master : String) (w : Keeper) : w.run master [] = w := rfl

@[simp] theorem run_cons (master : String) (w : Keeper) (a : Act) (acts : List Act) :
    w.run master (a :: acts) = (w.step master a).run master acts := rfl

theorem run_append (master : String) (w : Keeper) (before after : List Act) :
    w.run master (before ++ after) = (w.run master before).run master after := List.foldl_append

/-! ### What every order of the tasks keeps -/

/-- Why the loop can be sure of a link: it is closed already, or it is among those that the loop has still
to come to. Once the loop closes links, one is closed when it has a reason. -/
def Covers (post : Post) (accepted : List Nat) (k : Nat) (s : Session) : Prop :=
  match post with
  | .serving | .gathering _ => s.link.phase = .disconnected ∨ k ∈ accepted
  | .adopting i => s.link.phase = .disconnected ∨ k ∈ accepted ∨ k = i
  | .closing rest call => s.link.closeReason.isSome = true ∨ k ∈ rest ∨ ∃ n, call = some (k,n)
  | .returned => s.link.closeReason.isSome = true

theorem Covers.goes {post : Post} {accepted : List Nat} {k : Nat} {s s' : Session}
    (h : Covers post accepted k s) (hg : s.Goes s') : Covers post accepted k s' := by
  have hreason : s.link.closeReason.isSome = true → s'.link.closeReason.isSome = true := by
    intro hr
    obtain ⟨reason,hr⟩ := Option.isSome_iff_exists.mp hr
    rw [hg.onward.reason reason hr]
    rfl
  cases post with
  | serving => exact h.imp_left hg.onward.gone
  | adopting i => exact h.imp_left hg.onward.gone
  | gathering clients => exact h.imp_left hg.onward.gone
  | closing rest call => exact h.imp_left hreason
  | returned => exact hreason h

def underway (w : Keeper) : Option (Nat × Nat) :=
  match w.post with
  | .closing _ call => call
  | _ => none

structure Sound (w : Keeper) : Prop where
  kept : w.reception.Kept
  owned : ∀ s ∈ w.reception.links, s.Owned
  covers : ∀ k s, w.reception.links[k]? = some s → Covers w.post w.reception.roster.accepted k s
  there : ∀ k n, w.underway = some (k,n) → ∃ s, w.reception.links[k]? = some s ∧ n < s.closes.length
  calls : ∀ k n, (k,n) ∈ w.calls → w.underway = some (k,n) ∨ ∃ call, w.call? k n = some call ∧ call.Over
  former : w.former ⊆ w.reception.admitted
  gone : ∀ client ∈ w.reception.roster.holders, client ∉ w.former

variable {w : Keeper} {master : String}

theorem sound_start : ({} : Keeper).Sound :=
  ⟨Reception.kept_empty,by simp,by simp,by simp [underway],by simp,List.nil_subset _,by simp⟩

/-- The links go on, and the clients come and go as the other tasks have it. -/
theorem Sound.goes (h : w.Sound) {r : Reception} (hkept : r.Kept) (hlinks : LinksGo w.reception.links r.links)
    (haccepted : r.roster.accepted = w.reception.roster.accepted)
    (hadmitted : w.reception.admitted ⊆ r.admitted)
    (hholders : ∀ client ∈ r.roster.holders,
      client ∈ w.reception.roster.holders ∨ client ∉ w.reception.admitted) :
    { w with reception := r }.Sound where
  kept := hkept
  owned s' hs' := by
    obtain ⟨k,hk⟩ := List.getElem?_of_mem hs'
    obtain ⟨s,hs,hgoes⟩ := hlinks.each k s' hk
    exact hgoes.owned (h.owned s (List.mem_of_getElem? hs))
  covers k s' hs' := by
    obtain ⟨s,hs,hgoes⟩ := hlinks.each k s' hs'
    have hcovers := (h.covers k s hs).goes hgoes
    rwa [← haccepted] at hcovers
  there k n hunder := by
    obtain ⟨s,hs,hn⟩ := h.there k n hunder
    obtain ⟨s',hs',hgoes⟩ := hlinks.get hs
    exact ⟨s',hs',Nat.lt_of_lt_of_le hn hgoes.calls⟩
  calls k n hc := by
    refine (h.calls k n hc).imp_right fun ⟨call,hcall,hover⟩ => ⟨call,?_,hover⟩
    obtain ⟨s,hs,hn⟩ := Option.bind_eq_some_iff.mp hcall
    obtain ⟨s',hs',hgoes⟩ := hlinks.get hs
    exact Option.bind_eq_some_iff.mpr ⟨s',hs',hgoes.settled n call hn hover⟩
  former := List.Subset.trans h.former hadmitted
  gone client hc hformer := by
    rcases hholders client hc with hold | hnew
    · exact h.gone client hold hformer
    · exact hnew (h.former hformer)

theorem Sound.onLink (h : w.Sound) (k : Nat) {f : Session → Session} (hf : ∀ s : Session, s.Goes (f s))
    (hnames : w.reception.Names { w.reception with links := w.reception.links.modify k f }) :
    { w with reception := { w.reception with links := w.reception.links.modify k f } }.Sound :=
  h.goes (h.kept.shrink hnames (List.Sublist.refl _) (List.Subset.refl _) rfl)
    (linksGo_modify w.reception.links k hf) rfl (List.Subset.refl _) fun _ => .inl

theorem Sound.beside (h : w.Sound) {a : Reception.Act} (ha : a.Beside) :
    { w with reception := w.reception.step master a }.Sound :=
  h.goes (h.kept.step a) (Reception.links_step ha) (Reception.accepted_step ha) (h.kept.holders_step ha).1
    (h.kept.holders_step ha).2

theorem Sound.calls_over (h : w.Sound) (hunder : w.underway = none) {k n : Nat} (hc : (k,n) ∈ w.calls) :
    ∃ call, w.call? k n = some call ∧ call.Over :=
  (h.calls k n hc).resolve_left (by simp [hunder])

/-! ### The steps of the loop -/

theorem Sound.accept (h : w.Sound) (peerAddr : String) (counter : UInt32) :
    (w.accept master peerAddr counter).Sound := by
  unfold Keeper.accept
  cases hp : w.post with
  | serving =>
    have hunder : w.underway = none := by simp [underway,hp]
    have hcovers := h.covers
    simp only [hp] at hcovers
    refine ⟨h.kept.shrink (Reception.names_adopt peerAddr counter) (List.Sublist.refl _)
        (List.Subset.refl _) rfl,fun s hs => ?_,fun k s hk => ?_,by simp [underway],fun k n hc => ?_,h.former,
      h.gone⟩
    · rcases List.mem_append.mp hs with hs | hs
      · exact h.owned s hs
      · rw [List.mem_singleton.mp hs]
        exact Session.owned_establish ..
    · rcases Nat.lt_or_ge k w.reception.links.length with hlt | hge
      · rw [List.getElem?_append_left hlt] at hk
        exact (hcovers k s hk).imp_right .inl
      · have hlen : k < (w.reception.links ++ [_]).length := (List.getElem?_eq_some_iff.mp hk).1
        rw [List.length_append,List.length_singleton] at hlen
        exact .inr (.inr (by omega))
    · obtain ⟨call,hcall,hover⟩ := h.calls_over hunder hc
      obtain ⟨s,hs,hn⟩ := Option.bind_eq_some_iff.mp hcall
      have hlt := (List.getElem?_eq_some_iff.mp hs).1
      exact .inr ⟨call,Option.bind_eq_some_iff.mpr ⟨s,(List.getElem?_append_left hlt).trans hs,hn⟩,hover⟩
  | _ => exact h

theorem Sound.stop (h : w.Sound) : w.stop.Sound := by
  unfold Keeper.stop
  cases hp : w.post with
  | serving =>
    have hunder : w.underway = none := by simp [underway,hp]
    have hcovers := h.covers
    simp only [hp] at hcovers
    exact ⟨h.kept.shrink (.of_links rfl) (List.nil_sublist _) (List.Subset.refl _) rfl,h.owned,hcovers,
      by simp [underway],fun k n hc => .inr (h.calls_over hunder hc),h.kept.entered,
      by simp [Roster.holders]⟩
  | _ => exact h

theorem Sound.adopted (h : w.Sound) {i : Nat} (hp : w.post = .adopting i) : w.go.Sound := by
  have hunder : w.underway = none := by simp [underway,hp]
  have hcovers := h.covers
  simp only [hp] at hcovers
  simp only [go,hp]
  refine ⟨h.kept.shrink (.of_links rfl) (List.Sublist.refl _) (List.Subset.refl _) rfl,h.owned,
    fun k s hk => ?_,by simp [underway],fun k n hc => .inr (h.calls_over hunder hc),h.former,h.gone⟩
  by_cases hup : s.link.phase = .disconnected
  · exact .inl hup
  · have hconnected : w.reception.connections.connected k = true := by
      simp [Links.connected,Reception.connections,hk,Connection.isConnected,hup]
    refine .inr ?_
    simp only [Roster.adopt,List.mem_append,List.mem_filter,List.mem_singleton]
    exact ((hcovers k s hk).resolve_left hup).imp_left fun hmem => ⟨hmem,hconnected⟩

theorem Sound.gathered (h : w.Sound) {clients : List Nat} (hp : w.post = .gathering clients) :
    w.go.Sound := by
  have hunder : w.underway = none := by simp [underway,hp]
  have hcovers := h.covers
  simp only [hp] at hcovers
  simp only [go,hp]
  refine ⟨h.kept.shrink (.of_links rfl) (List.Sublist.refl _) (List.Subset.refl _) rfl,h.owned,
    fun k s hk => ?_,by simp [underway],fun k n hc => .inr (h.calls_over hunder hc),h.former,h.gone⟩
  rcases hcovers k s hk with hdown | hmem
  · exact .inl ((h.owned s (List.mem_of_getElem? hk)).closeReason_of_disconnected hdown)
  · exact .inr (.inl (List.mem_append_right _ hmem))

theorem Sound.closing (h : w.Sound) {rest : List Nat} (hp : w.post = .closing rest none) : w.go.Sound := by
  have hunder : w.underway = none := by simp [underway,hp]
  have hover : ∀ k n, (k,n) ∈ w.calls → ∃ call, w.call? k n = some call ∧ call.Over :=
    fun k n hc => h.calls_over hunder hc
  have hcovers := h.covers
  simp only [hp] at hcovers
  cases rest with
  | nil =>
    simp only [go,hp]
    refine ⟨h.kept,h.owned,fun k s hk => ?_,by simp [underway],fun k n hc => .inr (hover k n hc),h.former,
      h.gone⟩
    simpa [Covers] using hcovers k s hk
  | cons i rest =>
    cases hi : w.reception.links[i]? with
    | none =>
      simp only [go,hp,hi]
      refine ⟨h.kept,h.owned,fun k s hk => ?_,by simp [underway],fun k n hc => .inr (hover k n hc),h.former,
        h.gone⟩
      refine (hcovers k s hk).imp_right (Or.imp_left fun hmem => ?_)
      refine (List.mem_cons.mp hmem).resolve_left ?_
      rintro rfl
      simp [hk] at hi
    | some t =>
      -- the call is begun; the link is covered by it from now on
      have h' := h.onLink i (fun s => s.goes_step (.close "master shutting down"))
        (Reception.names_onLink i ⟨.close "master shutting down",trivial⟩)
      have hcovers' := h'.covers
      simp only [hp] at hcovers'
      simp only [go,hp,hi]
      refine ⟨h'.kept,h'.owned,fun k s hk => ?_,fun k n hkn => ?_,fun k n hc => ?_,h'.former,h'.gone⟩
      · refine (hcovers' k s hk).imp_right fun hrest => ?_
        rcases List.mem_cons.mp (hrest.resolve_right (by simp)) with rfl | hmem
        · exact .inr ⟨_,rfl⟩
        · exact .inl hmem
      · obtain ⟨rfl,rfl⟩ : i = k ∧ t.closes.length = n := by simpa [underway] using hkn
        refine ⟨t.step (.close "master shutting down"),by simp [Reception.onLink,hi],?_⟩
        simp [Session.step]
      · rcases List.mem_append.mp hc with hc | hc
        · exact .inr (h'.calls_over hunder hc)
        · exact .inl (by rw [List.mem_singleton.mp hc]; rfl)

/-- A call goes on, or is over; then its link is closed. -/
theorem Sound.calling (h : w.Sound) {rest : List Nat} {k n : Nat} (hp : w.post = .closing rest (some (k,n))) :
    w.go.Sound := by
  obtain ⟨s,hs,hn⟩ := h.there k n (by simp [underway,hp])
  have hcall : w.call? k n = some s.closes[n] := by simp [call?,hs,hn]
  simp only [go,hp,hcall]
  by_cases hover : s.closes[n].Over
  · have hreason : s.link.closeReason.isSome = true := by
      refine (h.owned s (List.mem_of_getElem? hs)).closeReason_of_moved (List.getElem_mem hn) ?_
      rcases hover with hstage | hstage <;> simp [hstage]
    have hcovers := h.covers
    simp only [hp] at hcovers
    simp only [hover,if_true]
    refine ⟨h.kept,h.owned,fun j t hj => ?_,by simp [underway],fun j m hc => .inr ?_,h.former,h.gone⟩
    · rcases hcovers j t hj with hr | hmem | ⟨m,hm⟩
      · exact .inl hr
      · exact .inr (.inl hmem)
      · obtain ⟨rfl,rfl⟩ : k = j ∧ n = m := by simpa using hm
        obtain rfl := Option.some.inj (hs.symm.trans hj)
        exact .inl hreason
    · rcases h.calls j m hc with hunder | hdone
      · obtain ⟨rfl,rfl⟩ : k = j ∧ n = m := by simpa [underway,hp] using hunder
        exact ⟨_,hcall,hover⟩
      · exact hdone
  · simp only [hover,if_false]
    rw [← hp]
    exact h.onLink k (fun s => s.goes_step (.proceed n)) (Reception.names_onLink k ⟨.proceed n,trivial⟩)

theorem Sound.go (h : w.Sound) : w.go.Sound := by
  cases hp : w.post with
  | serving => simpa only [Keeper.go,hp] using h
  | adopting i => exact h.adopted hp
  | gathering clients => exact h.gathered hp
  | closing rest call =>
    cases call with
    | none => exact h.closing hp
    | some call => exact h.calling hp
  | returned => simpa only [Keeper.go,hp] using h

theorem names_closeNow (r : Reception) (k : Nat) (reason : String) :
    r.Names { r with links := r.links.modify k (·.closeNow reason) } := by
  refine Reception.names_modify k fun s => Session.peerName_run fun a ha => ?_
  rcases List.mem_cons.mp ha with rfl | ha
  · rfl
  · rw [List.eq_of_mem_replicate ha]
    rfl

theorem Sound.step (h : w.Sound) (a : Act) : (w.step master a).Sound := by
  cases a with
  | accept peerAddr counter => exact h.accept peerAddr counter
  | stop => exact h.stop
  | go => exact h.go
  | close k reason => exact h.onLink k (fun s => s.goes_run _) (names_closeNow w.reception k reason)
  | beside a => exact h.beside a.2

theorem Sound.run (h : w.Sound) (acts : List Act) : (w.run master acts).Sound := by
  induction acts generalizing w with
  | nil => exact h
  | cons a acts ih => exact ih (h.step a)

end Keeper
end Tether
