import Tether.Master.Roster
import Tether.Proofs.Link.Owning

/-! The master's door: its roster, its links and the tasks around them, under every order in which they take
their steps. A hello is judged in one step, because the roster is held while it is judged; the calls to
close that a sweep or the end of the master brings about are calls like any others, and take their steps one
by one. Whoever waits for a client's link to close takes the client out of the roster some time later. -/
namespace Tether

/-- The name of the peer changes by a mark of readiness and by nothing else. -/
theorem Session.peerName_step (s : Session) (a : Session.Act) :
    (s.step a).link.peerName = a.named?.or s.link.peerName := by
  have henter : ∀ (c : Connection) (phase : Phase), (c.enter phase).1.peerName = c.peerName := by
    intro c phase
    rcases c.enter_cases phase with h | h <;> rw [h]
  cases a with
  | close reason => rfl
  | proceed k =>
    simp only [step,Act.named?,Option.none_or]
    cases s.closes[k]? with
    | none => rfl
    | some call =>
      rcases call with ⟨reason,stage⟩
      cases stage with
      | called => cases hr : s.link.closeReason <;> simp [proceed,Connection.recordReason,hr,mark]
      | _ => rfl
  | start tag =>
    simp only [step,start,Act.named?,Option.none_or]
    split
    · rename_i link ticket hs
      unfold Connection.startRequest at hs
      split at hs
      · simp at hs
      · simp only [Except.ok.injEq,Prod.mk.injEq] at hs
        rw [← hs.1]
    · rfl
  | respond reply =>
    simp only [step,respond,Connection.processResponse,Act.named?,Option.none_or]
    split <;> rfl
  | release k =>
    simp only [step,release,Act.named?,Option.none_or]
    split
    · rfl
    · split <;> rfl
  | ready peer => exact henter { s.link with peerName := some peer } .ready
  | handshake => exact henter s.link .handshaking

theorem Session.peerName_run {s : Session} {acts : List Session.Act} (ha : ∀ a ∈ acts, a.named? = none) :
    (s.run acts).link.peerName = s.link.peerName := by
  induction acts generalizing s with
  | nil => rfl
  | cons a acts ih =>
    simp only [List.mem_cons,forall_eq_or_imp] at ha
    rw [Session.run_cons,ih ha.2,Session.peerName_step,ha.1,Option.none_or]

structure Reception where
  roster : Roster := {}
  links : List Session := []
  /-- Clients whose link is watched, to take them out of the roster when it has closed. -/
  watched : List (String × Nat) := []
  /-- Clients that were ever let in, in their order. -/
  admitted : List (String × Nat) := []

/-- An act of a link that does not enter a phase: only a hello makes a link of the master ready. -/
abbrev LinkAct := { a : Session.Act // a.Plain }

namespace Reception

inductive Act
  | adopt (peerAddr : String) (counter : UInt32)
  | hello (link : Nat) (payload : List UInt8) (now : Nat)
  | touch (link now : Nat)
  | leave (watched : Nat)
  | sweep (limit now : Nat)
  | drain
  | link (k : Nat) (act : LinkAct)

def connections (r : Reception) : Links := r.links.map (·.link)

def replace (links : List Session) (cs : Links) : List Session :=
  links.zipWith (fun s c => { s with link := c }) cs

def adopt (master : String) (r : Reception) (peerAddr : String) (counter : UInt32) : Reception :=
  let links := r.links ++ [.establish master .acceptor peerAddr counter]
  { r with links, roster := r.roster.adopt (links.map (·.link)) r.links.length }

def hello (master : String) (r : Reception) (i : Nat) (payload : List UInt8) (now : Nat) : Reception :=
  let (roster,links,_,entered) := r.roster.hello r.connections master i payload now
  let client := (entered.map (·,i)).toList
  { roster
    links := replace r.links links
    watched := r.watched ++ client
    admitted := r.admitted ++ client }

def touch (r : Reception) (i now : Nat) : Reception :=
  match (r.connections[i]?).bind (·.peerName) with
  | some name => { r with roster := r.roster.touch name now }
  | none => r

def leave (r : Reception) (k : Nat) : Reception :=
  match r.watched[k]? with
  | some (name,i) =>
    if r.connections.connected i then r
    else { r with roster := r.roster.remove name i, watched := r.watched.eraseIdx k }
  | none => r

/-- The clients unheard of leave the roster; closing their links comes after that. -/
def sweep (r : Reception) (limit now : Nat) : Reception :=
  { r with roster := (r.roster.expire r.connections limit now).1 }

/-- All clients leave the roster, which forgets the links that it accepted; closing them comes after that. -/
def drain (r : Reception) : Reception := { r with roster := (r.roster.stop r.connections).1 }

def onLink (r : Reception) (k : Nat) (a : LinkAct) : Reception :=
  { r with links := r.links.modify k (·.step a) }

def step (master : String) (r : Reception) : Act → Reception
  | .adopt peerAddr counter => r.adopt master peerAddr counter
  | .hello i payload now => if i < r.links.length then r.hello master i payload now else r
  | .touch i now => r.touch i now
  | .leave k => r.leave k
  | .sweep limit now => r.sweep limit now
  | .drain => r.drain
  | .link k a => r.onLink k a

def run (master : String) (r : Reception) (acts : List Act) : Reception := acts.foldl (step master) r

@[simp] theorem run_nil (master : String) (r : Reception) : r.run master [] = r := rfl

@[simp] theorem run_cons (master : String) (r : Reception) (a : Act) (acts : List Act) :
    r.run master (a :: acts) = (r.step master a).run master acts := rfl

theorem run_append (master : String) (r : Reception) (before after : List Act) :
    r.run master (before ++ after) = (r.run master before).run master after := List.foldl_append

/-! ### Sweeps and the end in one go -/

theorem run_link (master : String) (r : Reception) (k : Nat) (acts : List LinkAct) :
    r.run master (acts.map (.link k)) = { r with links := r.links.modify k (·.run (acts.map (·.1))) } := by
  induction acts generalizing r with
  | nil =>
    have hid : r.links.modify k (·.run []) = r.links := List.modify_id k r.links
    rw [List.map_nil,List.map_nil,hid]
    rfl
  | cons a acts ih =>
    rw [List.map_cons,run_cons,ih]
    simp [step,onLink,List.modify_modify_eq,Function.comp_def]

theorem exists_run_close (master : String) (r : Reception) (k : Nat) (reason : String) :
    ∃ acts links, r.run master acts = { r with links } ∧
      links.map (·.link) = r.connections.close k reason := by
  cases hs : r.links[k]? with
  | none =>
    have hlen : r.links.length ≤ k := List.getElem?_eq_none_iff.mp hs
    refine ⟨[],r.links,rfl,?_⟩
    rw [Links.close,Links.update,List.modify_eq_self (by simpa [connections] using hlen)]
    rfl
  | some s =>
    let acts : List LinkAct :=
      ⟨.close reason,trivial⟩ :: List.replicate 4 ⟨.proceed s.closes.length,trivial⟩
    refine ⟨acts.map (.link k),_,run_link master r k acts,List.ext_getElem? fun j => ?_⟩
    by_cases hkj : k = j
    · subst hkj
      have hclose : (s.run (acts.map (·.1))).link = s.link.close reason := by
        simpa [acts] using s.link_close reason
      rw [List.getElem?_map,List.getElem?_modify_eq,hs,Links.close,Links.update,List.getElem?_modify_eq,
        connections,List.getElem?_map,hs]
      exact congrArg some hclose
    · simp [Links.close,Links.update,connections,hkj]

theorem exists_run_closeAll (master : String) (r : Reception) (which : List Nat) (reason : String) :
    ∃ acts links, r.run master acts = { r with links } ∧
      links.map (·.link) = r.connections.closeAll which reason := by
  induction which generalizing r with
  | nil => exact ⟨[],r.links,rfl,rfl⟩
  | cons k which ih =>
    obtain ⟨acts,links,hrun,hlinks⟩ := exists_run_close master r k reason
    obtain ⟨acts',links',hrun',hlinks'⟩ := ih { r with links }
    refine ⟨acts ++ acts',links',by rw [run_append,hrun,hrun'],hlinks'.trans ?_⟩
    rw [connections,hlinks]
    rfl

theorem exists_run_expire (master : String) (r : Reception) (limit now : Nat) :
    ∃ acts links, r.run master (.sweep limit now :: acts) =
        { r with roster := (r.roster.expire r.connections limit now).1, links } ∧
      links.map (·.link) = (r.roster.expire r.connections limit now).2.1 := by
  obtain ⟨acts,links,hrun,hlinks⟩ := exists_run_closeAll master (r.sweep limit now)
    ((r.roster.expire r.connections limit now).2.2.map (·.link)) "keepalive timeout"
  exact ⟨acts,links,hrun,hlinks⟩

theorem exists_run_stop (master : String) (r : Reception) :
    ∃ acts links, r.run master (.drain :: acts) =
        { r with roster := (r.roster.stop r.connections).1, links } ∧
      links.map (·.link) = (r.roster.stop r.connections).2 := by
  obtain ⟨acts,links,hrun,hlinks⟩ := exists_run_closeAll master r.drain
    (r.roster.entries.map (·.link) ++ r.roster.accepted) "master shutting down"
  exact ⟨acts,links,hrun,hlinks⟩

end Reception
end Tether
