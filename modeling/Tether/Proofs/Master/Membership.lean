import Tether.Proofs.Master.Holders
import Tether.Proofs.Master.Reception

/-! The roster never loses track of its links. Whoever is let in gives the link its name, and the link keeps
it for good; so an entry always has the name of the peer of its link, and a link that was let in once is not
let in again, however the tasks of the master take their turns. -/
namespace Tether

namespace Reception

variable {r : Reception} {master : String}

/-! ### The links after a hello -/

theorem replace_connections (r : Reception) : replace r.links r.connections = r.links := by
  rw [replace,connections,List.zipWith_map_right,List.zipWith_self]
  exact List.map_id _

theorem map_link_replace {links : List Session} {cs : Links} (h : cs.length = links.length) :
    (replace links cs).map (·.link) = cs := by
  induction links generalizing cs with
  | nil => rw [List.length_eq_zero_iff.mp h]; rfl
  | cons s links ih =>
    cases cs with
    | nil => simp at h
    | cons c cs =>
      have hrest := ih (Nat.succ.inj h)
      simpa [replace] using hrest

theorem hello_eq_self {i : Nat} {payload : List UInt8}
    (h : ¬ r.roster.Admits r.connections i (Roster.helloName payload)) (now : Nat) :
    r.hello master i payload now = r := by
  obtain ⟨text,htext⟩ := Roster.exists_hello_of_not_admits h master now
  simp [hello,htext,replace_connections]

theorem hello_eq_of_admits {i : Nat} {payload : List UInt8}
    (h : r.roster.Admits r.connections i (Roster.helloName payload)) (now : Nat) :
    r.hello master i payload now =
      { roster := r.roster.put ⟨Roster.helloName payload,i,now⟩
        links := replace r.links (r.connections.update i (·.markReady (Roster.helloName payload)))
        watched := r.watched ++ [(Roster.helloName payload,i)]
        admitted := r.admitted ++ [(Roster.helloName payload,i)] } := by
  rw [hello,Roster.hello_of_admits h master now]
  rfl

theorem connections_hello {i : Nat} {payload : List UInt8}
    (h : r.roster.Admits r.connections i (Roster.helloName payload)) (now : Nat) :
    (r.hello master i payload now).connections =
      r.connections.update i (·.markReady (Roster.helloName payload)) := by
  rw [hello_eq_of_admits h now]
  exact map_link_replace (by simp [Links.update,connections])

/-! ### The names of the links -/

/-- A link keeps the name of its peer. -/
def Names (r r' : Reception) : Prop :=
  ∀ i name, r.connections.peerName? i = some name → r'.connections.peerName? i = some name

theorem Names.of_links {r' : Reception} (h : r'.links = r.links) : r.Names r' := by
  intro i name hi
  rwa [connections,h]

theorem names_adopt (peerAddr : String) (counter : UInt32) : r.Names (r.adopt master peerAddr counter) := by
  intro i name hi
  have hlt : i < r.connections.length := by
    obtain ⟨c,hc,-⟩ := Option.bind_eq_some_iff.mp hi
    exact (List.getElem?_eq_some_iff.mp hc).1
  have hsame : (r.adopt master peerAddr counter).connections[i]? = r.connections[i]? := by
    simp only [adopt,connections,List.map_append]
    exact List.getElem?_append_left hlt
  rwa [Links.peerName?,hsame]

theorem names_modify (k : Nat) {f : Session → Session}
    (hf : ∀ s : Session, (f s).link.peerName = s.link.peerName) :
    r.Names { r with links := r.links.modify k f } := by
  intro i name hi
  obtain ⟨c,hc,hname⟩ := Option.bind_eq_some_iff.mp hi
  rw [connections,List.getElem?_map] at hc
  obtain ⟨s,hs,rfl⟩ := Option.map_eq_some_iff.mp hc
  by_cases hki : k = i
  · subst hki
    simp [connections,Links.peerName?,hs,hf,hname]
  · simp [connections,Links.peerName?,hki,hs,hname]

theorem names_onLink (k : Nat) (a : LinkAct) : r.Names (r.onLink k a) :=
  names_modify k fun s => by rw [Session.peerName_step,Session.named?_of_plain a.2,Option.none_or]

theorem names_hello (i : Nat) (payload : List UInt8) (now : Nat) :
    r.Names (r.hello master i payload now) := by
  by_cases h : r.roster.Admits r.connections i (Roster.helloName payload)
  · intro j name hj
    have hij : i ≠ j := by
      rintro rfl
      simp [h.2.1] at hj
    rwa [connections_hello h,Links.peerName?_update_ne _ hij]
  · rw [hello_eq_self h]
    exact fun _ _ => id

/-! ### What every order of the tasks keeps -/

/-- Every entry belongs to a client that was let in over its link, and every such link has the client's
name and no other. -/
structure Kept (r : Reception) : Prop where
  entered : r.roster.holders ⊆ r.admitted
  watched : r.watched ⊆ r.admitted
  named : ∀ client ∈ r.admitted, r.connections.peerName? client.2 = some client.1
  distinct : r.roster.Distinct
  once : (r.admitted.map (·.2)).Nodup

theorem kept_empty : ({} : Reception).Kept :=
  ⟨List.nil_subset _,List.nil_subset _,by simp,by simp [Roster.Distinct,Roster.holders],by simp⟩

theorem Kept.shrink {r' : Reception} (h : r.Kept) (hnames : r.Names r')
    (hholders : r'.roster.holders.Sublist r.roster.holders) (hwatched : r'.watched ⊆ r.watched)
    (hadmitted : r'.admitted = r.admitted) : r'.Kept where
  entered := by
    rw [hadmitted]
    exact List.Subset.trans hholders.subset h.entered
  watched := by
    rw [hadmitted]
    exact List.Subset.trans hwatched h.watched
  named client hc := hnames _ _ (h.named client (hadmitted ▸ hc))
  distinct := h.distinct.sublist hholders
  once := hadmitted ▸ h.once

theorem Kept.not_mem_admitted (h : r.Kept) {i : Nat} (hi : r.connections.peerName? i = none) :
    i ∉ r.admitted.map (·.2) := by
  intro hmem
  obtain ⟨client,hclient,rfl⟩ := List.mem_map.mp hmem
  simpa [hi] using h.named client hclient

theorem Kept.hello (h : r.Kept) {i : Nat} (hi : i < r.links.length) (payload : List UInt8) (now : Nat) :
    (r.hello master i payload now).Kept := by
  by_cases ha : r.roster.Admits r.connections i (Roster.helloName payload)
  · have hconnections := @connections_hello r master i payload ha now
    have hnames : r.Names (r.hello master i payload now) := names_hello i payload now
    have hlen : i < r.connections.length := by simpa [connections] using hi
    have hfresh := h.not_mem_admitted ha.2.1
    have hhello := @hello_eq_of_admits r master i payload ha now
    have hname : (r.hello master i payload now).connections.peerName? i =
        some (Roster.helloName payload) := by
      rw [hconnections]
      exact Links.peerName?_markReady hlen _
    refine ⟨?_,?_,fun client hc => ?_,?_,?_⟩
    · rw [hhello,Roster.holders_put]
      refine List.cons_subset.mpr ⟨by simp,fun client hc => ?_⟩
      exact List.mem_append_left _ (h.entered (List.mem_filter.mp hc).1)
    · rw [hhello]
      exact List.append_subset.mpr
        ⟨List.Subset.trans h.watched (List.subset_append_left ..),List.subset_append_right ..⟩
    · have hmem : client ∈ r.admitted ++ [(Roster.helloName payload,i)] := by rwa [hhello] at hc
      rcases List.mem_append.mp hmem with hold | hnew
      · exact hnames _ _ (h.named client hold)
      · rw [List.mem_singleton.mp hnew]
        exact hname
    · rw [hhello]
      exact h.distinct.put _
    · rw [hhello,List.map_append,List.nodup_append]
      refine ⟨h.once,by simp,fun j hj j' hj' heq => hfresh ?_⟩
      obtain rfl : j' = i := List.mem_singleton.mp hj'
      exact heq ▸ hj
  · rwa [hello_eq_self ha]

theorem leave_cases {k : Nat} {name : String} {i : Nat} (hk : r.watched[k]? = some (name,i)) :
    r.leave k = r ∨ r.connections.connected i = false ∧
      r.leave k = { r with roster := r.roster.remove name i, watched := r.watched.eraseIdx k } := by
  unfold Reception.leave
  simp only [hk]
  split
  · exact .inl rfl
  · rename_i hclosed
    exact .inr ⟨by simpa using hclosed,rfl⟩

theorem Kept.leave (h : r.Kept) (k : Nat) : (r.leave k).Kept := by
  cases hk : r.watched[k]? with
  | none => simpa only [Reception.leave,hk] using h
  | some client =>
    rcases leave_cases hk with hstay | ⟨-,hgo⟩
    · rwa [hstay]
    · rw [hgo]
      exact h.shrink (.of_links rfl) (Roster.holders_remove ..) List.eraseIdx_subset rfl

theorem Kept.touch (h : r.Kept) (i now : Nat) : (r.touch i now).Kept := by
  unfold Reception.touch
  split
  · exact h.shrink (.of_links rfl) (by rw [Roster.holders_touch])
      (List.Subset.refl _) rfl
  · exact h

theorem Kept.step (h : r.Kept) (a : Act) : (r.step master a).Kept := by
  cases a with
  | adopt peerAddr counter =>
    exact h.shrink (names_adopt peerAddr counter) (List.Sublist.refl _) (List.Subset.refl _) rfl
  | hello i payload now =>
    simp only [Reception.step]
    split
    · rename_i hi
      exact h.hello hi payload now
    · exact h
  | touch i now => exact h.touch i now
  | leave k => exact h.leave k
  | sweep limit now =>
    exact h.shrink (.of_links rfl) (r.roster.holders_expire r.connections limit now) (List.Subset.refl _) rfl
  | drain => exact h.shrink (.of_links rfl) (List.nil_sublist _) (List.Subset.refl _) rfl
  | link k a => exact h.shrink (names_onLink k a) (List.Sublist.refl _) (List.Subset.refl _) rfl

theorem Kept.run (h : r.Kept) (acts : List Act) : (r.run master acts).Kept := by
  induction acts generalizing r with
  | nil => exact h
  | cons a acts ih => exact ih (h.step a)

theorem Kept.links_nodup (h : r.Kept) : (r.roster.holders.map (·.2)).Nodup := by
  have hdistinct := h.distinct
  unfold Roster.Distinct at hdistinct
  have hholders := List.Nodup.of_map _ hdistinct
  refine List.Nodup.map_on (fun client hc client' hc' heq => ?_) hholders
  have hname := h.named client (h.entered hc)
  rw [heq,h.named client' (h.entered hc')] at hname
  exact Prod.ext (Option.some.inj hname).symm heq

/-- After any turns of the master's tasks, an entry has the name of the peer of its link, no name is held twice
and no link holds two, nor was any link ever let in twice. A hello that is refused changes nothing; one that
is let in takes its name from nobody but a link that is disconnected. And when a link that was watched has
closed, no entry goes but its own. -/
theorem membership_of_run (master : String) (acts : List Act) :
    let r := ({} : Reception).run master acts
    (∀ e ∈ r.roster.entries, r.connections.peerName? e.link = some e.name) ∧
    (r.roster.entries.map (·.name)).Nodup ∧ (r.roster.entries.map (·.link)).Nodup ∧
    (∀ client ∈ r.admitted, r.connections.peerName? client.2 = some client.1) ∧
    (r.admitted.map (·.2)).Nodup ∧
    (∀ i payload now, i < r.links.length →
      let name := Roster.helloName payload
      let answer := (r.roster.hello r.connections master i payload now).2.2
      let r' := r.step master (.hello i payload now)
      answer.1.tag = .err ∧ answer.2 = none ∧ r' = r ∨
      answer = (.okText master,some name) ∧ r'.admitted = r.admitted ++ [(name,i)] ∧
        r'.connections = r.connections.update i (·.markReady name) ∧
        r'.roster.entries = ⟨name,i,now⟩ :: r.roster.entries.filter (·.name != name) ∧
        ∀ e ∈ r.roster.entries, e.name = name →
          ∃ c, r.connections[e.link]? = some c ∧ c.phase = .disconnected) ∧
    (∀ k name i, r.watched[k]? = some (name,i) →
      let r' := r.step master (.leave k)
      r'.links = r.links ∧ ∀ e ∈ r.roster.entries, e ∉ r'.roster.entries →
        e.name = name ∧ e.link = i ∧ r.connections.connected i = false) := by
  intro r
  have h : r.Kept := kept_empty.run acts
  clear_value r
  have hnamed : ∀ e ∈ r.roster.entries, r.connections.peerName? e.link = some e.name :=
    fun e he => h.named _ (h.entered (Roster.mem_holders he))
  refine ⟨hnamed,?_,?_,h.named,h.once,fun i payload now hi => ?_,fun k name i hk => ?_⟩
  · simpa [Roster.Distinct,Roster.holders,Function.comp_def] using h.distinct
  · simpa [Roster.holders,Function.comp_def] using h.links_nodup
  · have hstep : r.step master (.hello i payload now) = r.hello master i payload now := if_pos hi
    rw [hstep]
    by_cases ha : r.roster.Admits r.connections i (Roster.helloName payload)
    · right
      rw [Roster.hello_of_admits ha,hello_eq_of_admits ha]
      refine ⟨rfl,rfl,map_link_replace (by simp [Links.update,connections]),rfl,fun e he hname => ?_⟩
      obtain ⟨c,hc,-⟩ := Option.bind_eq_some_iff.mp (hnamed e he)
      exact ⟨c,hc,ha.disconnected h.distinct he hname hc⟩
    · left
      obtain ⟨text,htext⟩ := Roster.exists_hello_of_not_admits ha master now
      rw [htext]
      exact ⟨rfl,rfl,hello_eq_self ha now⟩
  · have hleave : r.step master (.leave k) = r.leave k := rfl
    rw [hleave]
    rcases leave_cases hk with hstay | ⟨hclosed,hgo⟩
    · rw [hstay]
      exact ⟨rfl,fun e he hgone => absurd he hgone⟩
    · rw [hgo]
      refine ⟨rfl,fun e he hgone => ?_⟩
      obtain ⟨hname,hlink⟩ := h.distinct.eq_of_removed he hgone
      exact ⟨hname,hlink,hclosed⟩

/-- Two hellos at once over one link, of which the second is refused; then the link closes and another takes
its name before the master sees to it, and keeps the name. -/
theorem membership_of_run_pipelined :
    let plain (a : Session.Act) (h : a.Plain) : LinkAct := ⟨a,h⟩
    let acts : List Act :=
      [.adopt "address" 7,.adopt "address" 8,.hello 0 (Utf8.encode "a") 1,.hello 0 (Utf8.encode "b") 2,
        .link 0 (plain (.close "connection closed") trivial)] ++
      List.replicate 4 (.link 0 (plain (.proceed 0) trivial)) ++ [.hello 1 (Utf8.encode "a") 3]
    let r := ({} : Reception).run "master" acts
    r.admitted = [("a",0),("a",1)] ∧ r.watched[0]? = some ("a",0) ∧ r.connections.connected 0 = false ∧
      ⟨"a",1,3⟩ ∈ (r.step "master" (.leave 0)).roster.entries := by
  intro plain acts r
  have hrun : r.admitted = [("a",0),("a",1)] ∧ r.watched[0]? = some ("a",0) ∧
      r.connections.connected 0 = false ∧ (⟨"a",1,3⟩ : RosterEntry) ∈ r.roster.entries := by
    decide +kernel
  refine ⟨hrun.1,hrun.2.1,hrun.2.2.1,by_contra fun hgone => ?_⟩
  have hleave := ((membership_of_run "master" acts).2.2.2.2.2.2 0 "a" 0 hrun.2.1).2 _ hrun.2.2.2 hgone
  exact absurd hleave.2.1 (by decide)

end Reception
end Tether
