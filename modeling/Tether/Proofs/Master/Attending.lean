import Tether.Cluster.Schedule
import Tether.Proofs.Master.Greeting
import Tether.Proofs.Master.Shutting

/-! The master of a cluster at work takes the steps of its reception: what it does with its roster and its
links in one go is an act of the reception, or a few. -/
namespace Tether

open Cluster (World Master Dispatch Admitting Activity)

/-- The links are those of the reception, and so is the master's roster. -/
structure Cluster.World.Attends (w : World) (r : Reception) : Prop where
  links : w.links = r.connections
  roster : w.master.map (·.roster) = some r.roster

variable {w : World} {r : Reception} {m : Master}

theorem Cluster.admission_eq (hm : w.master = some m) (d : Dispatch) :
    let told := m.roster.hello w.links m.name d.link d.payload w.tick.wall
    (d.admission w).1.links = told.2.1 ∧
      (d.admission w).1.master.map (·.roster) = some told.1 ∧
      (d.admission w).2 = .ends (.reply told.2.2.1) := by
  intro told
  have htold : told = m.roster.hello w.tick.links m.name d.link d.payload w.tick.wall := rfl
  rcases told with ⟨roster,links,reply,entered⟩
  have hmaster : w.tick.master = some m := hm
  simp only [Dispatch.admission,hm,← htold]
  cases entered <;>
    simp [World.onMaster,World.start,Dispatch.replyWith,hmaster]

namespace Cluster.World.Attends

theorem roster_eq (h : w.Attends r) (hm : w.master = some m) : m.roster = r.roster := by
  have hroster := h.roster
  rw [hm] at hroster
  exact Option.some.inj hroster

theorem adopts (h : w.Attends r) (hm : w.master = some m) (addr : String) (source sink : Nat) :
    (Admitting.adopt w m addr source sink).Attends
      (r.adopt m.name addr (firstCounter r.links.length)) := by
  have hlength : w.links.length = r.links.length := by rw [h.links,Reception.connections,List.length_map]
  have hlinks : (Admitting.adopt w m addr source sink).links =
      (r.adopt m.name addr (firstCounter r.links.length)).connections := by
    simp [Admitting.adopt,World.addLink,World.count,World.start,World.onMaster,h.links,Reception.adopt,
      Reception.connections,Session.establish]
  refine ⟨hlinks,?_⟩
  simp [Admitting.adopt,World.addLink,World.count,World.start,World.onMaster,hm,h.links,Reception.adopt,
    Reception.connections,Session.establish,h.roster_eq hm]

theorem admits (h : w.Attends r) (hm : w.master = some m) (d : Dispatch) :
    (d.admission w).1.Attends (r.hello m.name d.link d.payload w.tick.wall) := by
  obtain ⟨hlinks,hroster,-⟩ := admission_eq hm d
  rw [h.links,h.roster_eq hm] at hlinks hroster
  by_cases ha : r.roster.Admits r.connections d.link (Roster.helloName d.payload)
  · rw [Roster.hello_of_admits ha] at hlinks hroster
    refine ⟨hlinks.trans (Reception.connections_hello ha _).symm,?_⟩
    rw [Reception.hello_eq_of_admits ha]
    exact hroster
  · obtain ⟨text,htext⟩ := Roster.exists_hello_of_not_admits ha m.name w.tick.wall
    rw [htext] at hlinks hroster
    rw [Reception.hello_eq_self ha]
    exact ⟨hlinks,hroster⟩

theorem hears (h : w.Attends r) (d : Dispatch) : (d.heartbeat w).Attends (r.touch d.link w.tick.wall) := by
  have hroster := h.roster
  unfold Dispatch.heartbeat Reception.touch
  rw [h.links]
  cases (r.connections[d.link]?).bind (·.peerName) with
  | none => exact h
  | some name =>
    refine ⟨h.links,?_⟩
    obtain ⟨m,hm,hr⟩ := Option.map_eq_some_iff.mp hroster
    simp [World.onMaster,World.tick,hm,hr]

theorem leaves (h : w.Attends r) {k link : Nat} {name : String} (hk : r.watched[k]? = some (name,link)) :
    (Activity.leave w name link).1.Attends (r.leave k) := by
  obtain ⟨m,hm,hr⟩ := Option.map_eq_some_iff.mp h.roster
  simp only [Activity.leave,World.connected,h.links,Reception.leave,hk]
  split
  · exact h
  · exact ⟨h.links,by simp [World.onMaster,hm,hr]⟩

theorem closes (h : w.Attends r) (master : String) (k : Nat) (reason : String) :
    ∃ acts, (w.closeLink k reason).Attends (r.run master acts) := by
  obtain ⟨acts,links,hrun,hlinks⟩ := r.exists_run_close master k reason
  refine ⟨acts,?_,?_⟩
  · rw [hrun,Reception.connections,hlinks,← h.links]
    rfl
  · rw [hrun]
    exact h.roster

theorem checks (h : w.Attends r) (hm : w.master = some m) :
    ∃ acts, (Admitting.check w).Attends (r.run m.name acts) := by
  have hr := h.roster_eq hm
  simp only [Admitting.check,hm]
  split
  · exact ⟨[],h.links,h.roster⟩
  · obtain ⟨acts,links,hrun,hlinks⟩ := r.exists_run_expire m.name m.expiry w.tick.wall
    refine ⟨.sweep m.expiry w.tick.wall :: acts,?_,?_⟩
    · rw [hrun,Reception.connections,hlinks,← h.links,← hr]
      rfl
    · rw [hrun,← h.links,← hr]
      simp [World.count,World.onMaster,World.tick,hm]

theorem refuse_eq (w : World) (arriving : List Cluster.Arriving) :
    (Admitting.refuse w arriving).links = w.links ∧ (Admitting.refuse w arriving).master = w.master := by
  induction arriving generalizing w with
  | nil => exact ⟨rfl,rfl⟩
  | cons a arriving ih =>
    cases a with
    | stream addr source sink => exact ih (w.endPipe sink)
    | fault error => exact ih w

theorem stops (h : w.Attends r) (hm : w.master = some m) :
    ∃ acts, (Admitting.stop w m).Attends (r.run m.name acts) := by
  have hr := h.roster_eq hm
  obtain ⟨acts,links,hrun,hlinks⟩ := r.exists_run_stop m.name
  obtain ⟨hrest,hmaster⟩ := refuse_eq { w with links := (m.roster.stop w.links).2 } m.arriving
  refine ⟨.drain :: acts,?_,?_⟩
  · rw [hrun,Reception.connections,hlinks,← h.links,← hr]
    exact hrest
  · rw [hrun,← h.links,← hr]
    simp only [Admitting.stop,World.onMaster,hmaster]
    simp [hm]

theorem stops_keeper {k : Keeper} (h : w.Attends k.reception) (hserving : k.post = .serving)
    (hm : w.master = some m) :
    ∃ n, (k.run m.name (.stop :: List.replicate n .go)).post = .returned ∧
      (Admitting.stop w m).Attends (k.run m.name (.stop :: List.replicate n .go)).reception := by
  have hr := h.roster_eq hm
  obtain ⟨n,hpost,hroster,hlinks⟩ := Keeper.exists_run_stop m.name hserving
  obtain ⟨hrest,hmaster⟩ := refuse_eq { w with links := (m.roster.stop w.links).2 } m.arriving
  refine ⟨n,hpost,?_,?_⟩
  · rw [hlinks,← h.links,← hr]
    exact hrest
  · rw [hroster,← h.links,← hr]
    simp only [Admitting.stop,World.onMaster,hmaster]
    simp [hm]

end Cluster.World.Attends

theorem Admission.admission_hear {codec : Codec} {a : Admission} {k : Nat} {request : Message} {b : Bool}
    (hk : (a.link .right).serves[k]? = some ⟨request,b,.running⟩) (htag : request.tag = .hello)
    (hm : w.master = some m) (hlinks : w.links = a.links) (hroster : m.roster = a.roster) (d : Dispatch)
    (hnumber : d.link = a.number) (hpayload : d.payload = request.payload) :
    let heard := a.hear codec m.name k w.tick.wall
    (d.admission w).1.links = heard.links ∧ (d.admission w).1.master.map (·.roster) = some heard.roster ∧
      ∃ t reply, (heard.link .right).serves[k]? = some t ∧ t.reply? = some reply ∧
        (d.admission w).2 = .ends (.reply reply) := by
  intro heard
  have htold : m.roster.hello w.links m.name d.link d.payload w.tick.wall =
      a.told m.name request.payload w.tick.wall := by
    rw [hlinks,hroster,hnumber,hpayload,told]
  have hheard : heard.links = (a.told m.name request.payload w.tick.wall).2.1 := links_hear hk htag
  have hkept : heard.roster = (a.told m.name request.payload w.tick.wall).1 := by
    simp only [heard,hear_eq hk htag]
  obtain ⟨t,ht,hr⟩ : ∃ t, (heard.link .right).serves[k]? = some t ∧
    t.reply? = some (a.told m.name request.payload w.tick.wall).2.2.1 := exists_reply_hear hk htag
  obtain ⟨hlinks',hroster',hends⟩ := Cluster.admission_eq hm d
  rw [htold] at hlinks' hroster' hends
  rw [hlinks',hroster',hends,hheard,hkept]
  exact ⟨rfl,rfl,t,_,ht,hr,rfl⟩

end Tether
