import Tether.Proofs.Master.Attending
import Tether.Proofs.Master.Gatekeeping

/-! A cluster at work begins to serve a request by the acts of the hall: its gate, and then hello, keepalive or
the lack of a service. -/
namespace Tether

open Cluster (World Dispatch)

/-- The links are those of the hall, and so is the master's roster. -/
structure Cluster.World.Hosts (w : World) (h : Hall) : Prop where
  links : w.links = h.connections
  roster : w.master.map (·.roster) = some h.roster

namespace Hall

/-- A request that has just been read is about to be dispatched. -/
structure Awaits (w : World) (h : Hall) (d : Dispatch) (e : Endpoint) (k : Nat) (request : Message) (b : Bool) :
    Prop where
  hosts : w.Hosts h
  ends : h.ends[d.link]? = some e
  serve : e.serves[k]? = some ⟨request,b,.routed⟩
  tag : d.tag = request.tag
  payload : d.payload = request.payload

variable {codec : Codec} {w : World} {h h' : Hall} {m : Cluster.Master} {d : Dispatch} {e : Endpoint} {k : Nat}
  {request : Message} {b : Bool} {s : Cluster.Stream}

def reply? (h : Hall) (i k : Nat) : Option Reply := (h.ends[i]?).bind fun e => (e.serves[k]?).bind (·.reply?)

theorem reply?_of_set {i k : Nat} {e e' : Endpoint} {t : Serve} (he : h.ends[i]? = some e)
    (hk : k < e.serves.length) (hends : h'.ends = h.ends.set i e')
    (hserves : e'.serves = e.serves.set k t) : h'.reply? i k = t.reply? := by
  have hlt := (List.getElem?_eq_some_iff.mp he).1
  rw [reply?,hends,List.getElem?_set_self hlt,Option.bind_some,hserves,List.getElem?_set_self hk,
    Option.bind_some]

def gated (codec : Codec) (h : Hall) (i k : Nat) : Hall := h.own codec i (.move (.gate k))

theorem Awaits.link (ha : Awaits w h d e k request b) : w.links[d.link]? = some e.session.link := by
  rw [ha.hosts.links,connections,List.getElem?_map,ha.ends]
  rfl

theorem hosts_gated (hw : w.Hosts h) (i k : Nat) : w.Hosts (h.gated codec i k) := by
  have hapart : Apart i h (h.gated codec i k) := apart_own (k := k) i h rfl
  exact ⟨hw.links.trans hapart.connections.symm,hw.roster.trans (congrArg some hapart.roster.symm)⟩

theorem Awaits.begin_refused (ha : Awaits w h d e k request b) (hs : w.streams[d.link]? = some s)
    (hout : e.session.link.admits request.tag = false) :
    d.begin w = (w,.ends (.reply (.early request.tag))) ∧
      h.gated codec d.link k = h.put d.link (e.setServe k ⟨request,false,.replying (.early request.tag)⟩) := by
  constructor
  · simp [Dispatch.begin,ha.link,hs,ha.tag,hout,Dispatch.replyWith]
  · refine (own_of_unnamed ha.ends rfl).trans ?_
    simp [Endpoint.after,Endpoint.step,Endpoint.gate,ha.serve,hout]

theorem Awaits.gated_eq (ha : Awaits w h d e k request b) (hin : e.session.link.admits request.tag = true) :
    h.gated codec d.link k = h.put d.link (e.setServe k ⟨request,true,.running⟩) := by
  refine (own_of_unnamed ha.ends rfl).trans ?_
  simp [Endpoint.after,Endpoint.step,Endpoint.gate,ha.serve,hin]

theorem Awaits.running (ha : Awaits w h d e k request b) (hin : e.session.link.admits request.tag = true) :
    ∃ e' : Endpoint, (h.gated codec d.link k).ends[d.link]? = some e' ∧
      e'.serves[k]? = some ⟨request,true,.running⟩ := by
  refine ⟨e.setServe k ⟨request,true,.running⟩,?_,?_⟩
  · rw [ha.gated_eq hin]
    exact List.getElem?_set_self (List.getElem?_eq_some_iff.mp ha.ends).1
  · exact List.getElem?_set_self (List.getElem?_eq_some_iff.mp ha.serve).1

def service? (w : World) (s : Cluster.Stream) (tag : Tag) : Option Cluster.Service :=
  ((w.registries.getD s.registry []).find? (·.tag == tag)).map (·.service)

theorem Awaits.begin_eq (ha : Awaits w h d e k request b) (hs : w.streams[d.link]? = some s)
    (hin : e.session.link.admits request.tag = true) :
    d.begin w = match service? w s request.tag with
      | some service => d.serve w e.session.link service
      | none => (w,.ends (.reply (.unknown request.tag))) := by
  simp only [Dispatch.begin,ha.link,hs,ha.tag,hin,service?]
  cases (w.registries.getD s.registry []).find? (·.tag == request.tag) <;> rfl

theorem Awaits.begin_hello (ha : Awaits w h d e k request b) (hs : w.streams[d.link]? = some s)
    (hm : w.master = some m) (htag : request.tag = .hello) (hservice : service? w s .hello = some .admission) :
    let h' := (h.gated codec d.link k).hello codec m.name d.link k w.tick.wall
    (d.begin w).1.Hosts h' ∧
      ∃ reply, h'.reply? d.link k = some reply ∧ (d.begin w).2 = .ends (.reply reply) := by
  intro h'
  have hin : e.session.link.admits request.tag = true := htag ▸ Connection.admits_hello _
  obtain ⟨e₁,he₁,hk₁⟩ := @Awaits.running codec w h d e k request b ha hin
  have hosts : w.Hosts (h.gated codec d.link k) := hosts_gated ha.hosts d.link k
  have hroster : m.roster = (h.gated codec d.link k).roster := by
    have hr := hosts.roster
    rw [hm] at hr
    exact Option.some.inj hr
  obtain ⟨htold,hlinks,hends⟩ := hello_told he₁ hk₁ htag codec m.name w.tick.wall
  obtain ⟨hlinks',hroster',hreply⟩ := Cluster.admission_eq hm d
  rw [hosts.links,hroster,ha.payload] at hlinks' hroster' hreply
  have hbegin : d.begin w = d.admission w := by
    rw [ha.begin_eq hs hin,htag,hservice]
    rfl
  rw [hbegin]
  refine ⟨⟨hlinks'.trans hlinks.symm,hroster'.trans (congrArg some htold.symm)⟩,_,?_,hreply⟩
  exact reply?_of_set he₁ (List.getElem?_eq_some_iff.mp hk₁).1 hends rfl

/-- The keepalive that the master's own service answers is that of the hall. -/
theorem Awaits.begin_heartbeat (ha : Awaits w h d e k request b) (hs : w.streams[d.link]? = some s)
    (hin : e.session.link.admits request.tag = true)
    (hservice : service? w s request.tag = some .heartbeat) :
    let h' := (h.gated codec d.link k).heartbeat codec d.link k w.tick.wall
    (d.begin w).1.Hosts h' ∧ (d.begin w).2 = .ends (.reply ⟨.okMaster,request.payload⟩) := by
  intro h'
  obtain ⟨e₁,he₁,hk₁⟩ := @Awaits.running codec w h d e k request b ha hin
  have hosts : w.Hosts (h.gated codec d.link k) := hosts_gated ha.hosts d.link k
  have hr : (h.gated codec d.link k).running? d.link k = some request :=
    running?_eq_some_iff.mpr ⟨e₁,true,he₁,hk₁⟩
  have hbegin : d.begin w = (d.heartbeat w,.ends (.reply ⟨.okMaster,request.payload⟩)) := by
    rw [ha.begin_eq hs hin,hservice,← ha.payload]
    rfl
  rw [hbegin]
  refine ⟨⟨?_,?_⟩,rfl⟩
  · rw [connections_heartbeat,← hosts.links]
    unfold Dispatch.heartbeat
    split <;> rfl
  · obtain ⟨m,hm,hroster⟩ := Option.map_eq_some_iff.mp hosts.roster
    rw [roster_heartbeat hr]
    simp only [Dispatch.heartbeat,heard,Links.peerName?,← hosts.links]
    cases (w.links[d.link]?).bind (·.peerName) with
    | none => exact hosts.roster
    | some name => simp [World.onMaster,World.tick,hm,hroster]

end Hall
end Tether
