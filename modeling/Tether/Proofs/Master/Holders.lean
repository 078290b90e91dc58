import Tether.Master.Roster
import Tether.Proofs.Keyed

/-! Who holds a name of the roster, and what each of its operations does to that. -/
namespace Tether

namespace Links

/-- The name that the peer of a link has, if there is such a link. -/
def peerName? (links : Links) (i : Nat) : Option String := (links[i]?).bind (·.peerName)

theorem peerName?_update_ne (links : Links) {i j : Nat} (hij : i ≠ j) (f : Connection → Connection) :
    (links.update i f).peerName? j = links.peerName? j := by
  simp [peerName?,update,hij]

theorem peerName?_markReady {links : Links} {i : Nat} (hi : i < links.length) (name : String) :
    (links.update i (·.markReady name)).peerName? i = some name := by
  have hname : (links[i].markReady name).peerName = some name := by
    unfold Connection.markReady Connection.enter
    split <;> rfl
  simp [peerName?,update,hi,hname]

theorem disconnected_of_not_connected {links : Links} {i : Nat} (h : links.connected i = false)
    {c : Connection} (hc : links[i]? = some c) : c.phase = .disconnected := by
  simpa [connected,hc,Connection.isConnected] using h

end Links

namespace Roster

/-- The names that are taken, each with the link that holds it. -/
def holders (r : Roster) : List (String × Nat) := r.entries.map fun e => (e.name,e.link)

/-- A name is held once. -/
def Distinct (r : Roster) : Prop := (r.holders.map (·.1)).Nodup

theorem mem_holders {r : Roster} {e : RosterEntry} (he : e ∈ r.entries) : (e.name,e.link) ∈ r.holders :=
  List.mem_map_of_mem he

theorem link?_of_mem {r : Roster} (h : r.Distinct) {e : RosterEntry} (he : e ∈ r.entries) :
    r.link? e.name = some e.link := by
  have hkeys : (r.entries.map (·.name)).Nodup := by simpa [Distinct,holders,Function.comp_def] using h
  rw [link?,find?,← List.head?_filter,filter_key_of_mem (·.name) hkeys he]
  rfl

theorem holders_erase (r : Roster) (name : String) :
    (r.erase name).holders = r.holders.filter (·.1 != name) := by
  simp [erase,holders,List.filter_map,Function.comp_def]

theorem holders_put (r : Roster) (entry : RosterEntry) :
    (r.put entry).holders = (entry.name,entry.link) :: r.holders.filter (·.1 != entry.name) := by
  rw [← holders_erase]
  rfl

theorem holders_touch (r : Roster) (name : String) (now : Nat) : (r.touch name now).holders = r.holders := by
  simp only [touch,holders,List.map_map]
  refine List.map_congr_left fun e _ => ?_
  by_cases he : e.name = name <;> simp [he]

theorem holders_expire (r : Roster) (links : Links) (limit now : Nat) :
    (r.expire links limit now).1.holders.Sublist r.holders := by
  rw [expire,List.partition_eq_filter_filter]
  exact List.filter_sublist.map _

theorem holders_remove (r : Roster) (name : String) (i : Nat) :
    (r.remove name i).holders.Sublist r.holders := by
  unfold remove
  split
  · rw [holders_erase]
    exact List.filter_sublist
  · exact List.Sublist.refl _

theorem Distinct.sublist {r r' : Roster} (h : r.Distinct) (hsub : r'.holders.Sublist r.holders) :
    r'.Distinct := List.Nodup.sublist (hsub.map _) h

theorem Distinct.put {r : Roster} (h : r.Distinct) (entry : RosterEntry) : (r.put entry).Distinct := by
  have hrest : ((r.holders.filter (·.1 != entry.name)).map (·.1)).Nodup :=
    List.Nodup.sublist (List.filter_sublist.map _) h
  rw [Distinct,holders_put,List.map_cons,List.nodup_cons]
  refine ⟨fun hmem => ?_,hrest⟩
  obtain ⟨client,hclient,hname⟩ := List.mem_map.mp hmem
  simp [hname] at hclient

theorem Distinct.eq_of_removed {r : Roster} (h : r.Distinct) {name : String} {i : Nat} {e : RosterEntry}
    (he : e ∈ r.entries) (hgone : e ∉ (r.remove name i).entries) : e.name = name ∧ e.link = i := by
  unfold remove at hgone
  split at hgone
  · rename_i hlink
    obtain rfl : e.name = name := by simpa [erase,he] using hgone
    exact ⟨rfl,Option.some.inj ((link?_of_mem h he).symm.trans hlink)⟩
  · exact absurd he hgone

/-! ### Hello -/

/-- Who is let in: a client with a name, over a link that has no client yet, unless a link that is up holds
the name. -/
def Admits (r : Roster) (links : Links) (i : Nat) (name : String) : Prop :=
  name.isEmpty = false ∧ links.peerName? i = none ∧ (r.link? name).any links.connected = false

theorem hello_of_admits {r : Roster} {links : Links} {i : Nat} {payload : List UInt8}
    (h : r.Admits links i (helloName payload)) (master : String) (now : Nat) :
    r.hello links master i payload now =
      (r.put ⟨helloName payload,i,now⟩,links.update i (·.markReady (helloName payload)),
        .okText master,some (helloName payload)) := by
  obtain ⟨hname,hpeer,hfree⟩ := h
  have hpeer : (links[i]?).bind (·.peerName) = none := hpeer
  simp [hello,hname,register,hpeer,hfree]

theorem exists_hello_of_not_admits {r : Roster} {links : Links} {i : Nat} {payload : List UInt8}
    (h : ¬ r.Admits links i (helloName payload)) (master : String) (now : Nat) :
    ∃ text, r.hello links master i payload now = (r,links,.error text,none) := by
  unfold hello
  by_cases hname : (helloName payload).isEmpty = true
  · simp only [hname,if_true]
    exact ⟨_,rfl⟩
  · have hname : (helloName payload).isEmpty = false := by simpa using hname
    simp only [hname,register]
    cases hpeer : (links[i]?).bind (·.peerName) with
    | some current => exact ⟨_,rfl⟩
    | none =>
      by_cases hfree : (r.link? (helloName payload)).any links.connected = true
      · simp only [hfree,if_true]
        exact ⟨_,rfl⟩
      · exact absurd ⟨hname,hpeer,by simpa using hfree⟩ h

theorem Admits.disconnected {r : Roster} {links : Links} {i : Nat} {name : String}
    (h : r.Admits links i name) (hr : r.Distinct) {e : RosterEntry} (he : e ∈ r.entries)
    (hname : e.name = name) {c : Connection} (hc : links[e.link]? = some c) : c.phase = .disconnected := by
  subst hname
  have hfree := h.2.2
  rw [link?_of_mem hr he,Option.any_some] at hfree
  exact Links.disconnected_of_not_connected hfree hc

end Roster
end Tether
