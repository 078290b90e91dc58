import Tether.Proofs.Batch.Mailroom

/-! The bells of a queue. Each send opens a slot with a bell of its own, and with the answer the bell rings;
if the slot is given up, it rings later. Then it is silent for good. -/
namespace Tether

namespace EventQueue

def bell? (q : EventQueue) (uid : Uid) : Option Nat :=
  match q.slot? uid with
  | some (.pending bell) => some bell
  | _ => none

variable {q q' : EventQueue}

theorem bell?_eq_some_iff {uid : Uid} {b : Nat} :
    q.bell? uid = some b ↔ q.slot? uid = some (.pending b) := by
  unfold bell?
  rcases q.slot? uid with _ | bell | answer <;> simp

theorem bell?_congr {u : Uid} (h : q'.slot? u = q.slot? u) : q'.bell? u = q.bell? u := by
  rw [bell?,bell?,h]

theorem bell?_eraseSlot (q : EventQueue) (uid u : Uid) :
    (q.eraseSlot uid).bell? u = if u = uid then none else q.bell? u := by
  rw [bell?,slot?_eraseSlot]
  by_cases hu : u = uid
  · rw [if_pos hu,if_pos hu]
  · rw [if_neg hu,if_neg hu]
    rfl

theorem bell?_look (q : EventQueue) (uid u : Uid) : (q.look uid).1.bell? u = q.bell? u := by
  unfold look
  cases hs : q.slot? uid with
  | none => rfl
  | some slot =>
    cases slot with
    | pending bell => rfl
    | ready answer =>
      rw [bell?_eraseSlot]
      split
      · rename_i hu
        rw [hu,bell?,hs]
      · rfl

theorem bell?_openSlot {uid : Uid} (h : q.slot? uid = none) (u : Uid) :
    (q.openSlot uid).bell? u = if u = uid then some q.nextBell else q.bell? u := by
  rw [bell?,slot?_openSlot h]
  by_cases hu : u = uid
  · rw [if_pos hu,if_pos hu]
  · rw [if_neg hu,if_neg hu]
    rfl

theorem bell?_answer (q : EventQueue) (e : Event) (u : Uid) :
    (q.answer e).1.bell? u = if u = e.uid then none else q.bell? u := by
  by_cases hu : u = e.uid
  · subst hu
    rw [bell?,slot?_answer_self,if_pos rfl]
    rcases q.slot? e.uid with _ | bell | answer <;> rfl
  · rw [if_neg hu,bell?_congr (q.slot?_answer_of_ne hu)]

theorem mem_registered_answer (q : EventQueue) (e : Event) (r : Nat × Nat) :
    r ∈ (q.answer e).1.registered ↔ r ∈ q.registered ∧ q.bell? e.uid ≠ some r.2 := by
  unfold answer bell?
  rcases q.slot? e.uid with _ | bell | answer
  · simp
  · simpa [ring,setSlot] using fun _ => not_congr eq_comm
  · simp

@[simp] theorem nextBell_answer (q : EventQueue) (e : Event) : (q.answer e).1.nextBell = q.nextBell := by
  unfold answer
  split <;> rfl

@[simp] theorem nextBell_look (q : EventQueue) (uid : Uid) : (q.look uid).1.nextBell = q.nextBell := by
  unfold look
  split <;> rfl

@[simp] theorem registered_look (q : EventQueue) (uid : Uid) :
    (q.look uid).1.registered = q.registered := by
  unfold look
  split <;> rfl

theorem collect_fst (q : EventQueue) (uid : Uid) : (q.collect uid).1 = (q.look uid).1 := by
  unfold collect
  split <;> simp_all

end EventQueue

namespace SlotEntry

def sent? : SlotEntry → Option Uid
  | .sent uid => some uid
  | _ => none

end SlotEntry

/-- A queue and its users, where a bell rings only after its slot was given up. -/
structure Vigil where
  room : Mailroom := {}
  /-- The bells of slots that were given up and have not rung yet. -/
  owed : List Nat := []
  /-- Who registered at which bell when its slot did not show it any more and it was not owed. -/
  late : List (Nat × Nat) := []

namespace Vigil

open Mailroom (Act)

variable (v : Vigil)

/-- The identifiers whose slots were opened, one for each bell. -/
def sends : List Uid := v.room.log.filterMap SlotEntry.sent?

def missed (k : Nat) : List (Nat × Nat) :=
  match v.room.waiters[k]? with
  | some (uid,some (.enabling b)) => if v.room.queue.bell? uid = some b ∨ b ∈ v.owed then [] else [(k,b)]
  | _ => []

def step : Act → Vigil
  | .ring b =>
    if b ∈ v.owed then { v with room := v.room.step (.ring b), owed := v.owed.filter (· != b) } else v
  | .drop uid =>
    { v with room := v.room.step (.drop uid), owed := (v.room.queue.bell? uid).toList ++ v.owed }
  | .poll k => { v with room := v.room.step (.poll k), late := v.missed k ++ v.late }
  | a => { v with room := v.room.step a }

def run (acts : List Act) : Vigil := acts.foldl step v

@[simp] theorem run_nil : v.run [] = v := rfl

@[simp] theorem run_cons (a : Act) (acts : List Act) : v.run (a :: acts) = (v.step a).run acts := rfl

theorem run_append (acts more : List Act) : v.run (acts ++ more) = (v.run acts).run more :=
  List.foldl_append

/-- A bell that can still ring. -/
def Sounds (b : Nat) : Prop := b ∈ v.owed ∨ ∃ uid, v.room.queue.bell? uid = some b

/-- A waiter sleeps, and the bell at which it registered has not rung since. -/
structure Sleeps (k : Nat) (uid : Uid) (b : Nat) : Prop where
  parked : v.room.waiters[k]? = some (uid,some .parked)
  registered : (k,b) ∈ v.room.queue.registered

/-! ### The bells -/

/-- What an act does to the bells: it changes nothing about them, or it opens a slot, answers one, gives
one up or makes up for one that was. -/
inductive Turn (v v' : Vigil) : Prop
  | rests (hbell : ∀ u, v'.room.queue.bell? u = v.room.queue.bell? u) (howed : v'.owed = v.owed)
      (hsends : v'.sends = v.sends) (hnext : v'.room.queue.nextBell = v.room.queue.nextBell)
  | opens (uid : Uid) (hfree : v.room.queue.bell? uid = none)
      (hbell : ∀ u, v'.room.queue.bell? u =
        if u = uid then some v.room.queue.nextBell else v.room.queue.bell? u)
      (howed : v'.owed = v.owed) (hsends : v'.sends = v.sends ++ [uid])
      (hnext : v'.room.queue.nextBell = v.room.queue.nextBell + 1)
  | answers (uid : Uid)
      (hrung : ∀ b, v.room.queue.bell? uid = some b → ∀ k, (k,b) ∉ v'.room.queue.registered)
      (hbell : ∀ u, v'.room.queue.bell? u = if u = uid then none else v.room.queue.bell? u)
      (howed : v'.owed = v.owed) (hsends : v'.sends = v.sends)
      (hnext : v'.room.queue.nextBell = v.room.queue.nextBell)
  | drops (uid : Uid) (hbell : ∀ u, v'.room.queue.bell? u = if u = uid then none else v.room.queue.bell? u)
      (howed : v'.owed = (v.room.queue.bell? uid).toList ++ v.owed) (hsends : v'.sends = v.sends)
      (hnext : v'.room.queue.nextBell = v.room.queue.nextBell)
  | rings (b : Nat) (hrung : ∀ k, (k,b) ∉ v'.room.queue.registered)
      (hbell : ∀ u, v'.room.queue.bell? u = v.room.queue.bell? u)
      (howed : v'.owed = v.owed.filter (· != b)) (hsends : v'.sends = v.sends)
      (hnext : v'.room.queue.nextBell = v.room.queue.nextBell)

variable {v} {v' : Vigil}

theorem turn_enter (k : Nat) : v.Turn (v.step (.enter k)) := by
  simp only [step,Mailroom.step,Mailroom.enter,Senders.enter]
  split
  · rename_i e hk
    split
    · exact .rests (fun _ => rfl) rfl (by simp [sends]) rfl
    · rename_i hslot
      have hfree : v.room.queue.slot? e.uid = none := by simpa using hslot
      refine .opens e.uid ?_ (EventQueue.bell?_openSlot hfree) rfl ?_ rfl
      · rw [EventQueue.bell?,hfree]
      · simp [sends,SlotEntry.sent?]
  · exact .rests (fun _ => rfl) rfl (by simp [sends]) rfl

theorem sent?_given (uid : Uid) (value? : Option Json) :
    (value?.toList.map (SlotEntry.given uid)).filterMap SlotEntry.sent? = [] := by
  cases value? <;> rfl

theorem wait_bells (q : EventQueue) (uid : Uid) (k : Nat) (stage : WaitStage) :
    (∀ u, (stage.step uid k q).1.bell? u = q.bell? u) ∧ (stage.step uid k q).1.nextBell = q.nextBell := by
  have hbell := q.bell?_look uid
  have hnext := q.nextBell_look uid
  cases stage with
  | looking =>
    simp only [WaitStage.step]
    rcases hs : q.look uid with ⟨q',_ | value | bell⟩ <;> rw [hs] at hbell hnext <;> exact ⟨hbell,hnext⟩
  | checking =>
    simp only [WaitStage.step]
    rcases hs : q.look uid with ⟨q',_ | value | bell⟩ <;> rw [hs] at hbell hnext <;> exact ⟨hbell,hnext⟩
  | parked =>
    simp only [WaitStage.step]
    split <;> exact ⟨fun _ => rfl,rfl⟩
  | _ => exact ⟨fun _ => rfl,rfl⟩

theorem turn_poll (k : Nat) : v.Turn (v.step (.poll k)) := by
  simp only [step,Mailroom.step,Mailroom.poll]
  split
  · rename_i uid stage hk
    obtain ⟨hbell,hnext⟩ := wait_bells v.room.queue uid k stage
    refine .rests hbell rfl ?_ hnext
    simp only [sends,List.filterMap_append,WaitStage.entries]
    split
    · simp
    · rw [sent?_given,List.append_nil]
  · exact .rests (fun _ => rfl) rfl rfl rfl

theorem turn (v : Vigil) (a : Act) : v.Turn (v.step a) := by
  cases a with
  | enter k => exact turn_enter k
  | poll k => exact turn_poll k
  | answer e =>
    refine .answers e.uid (fun b hb k => ?_) (v.room.queue.bell?_answer e) rfl ?_
      (v.room.queue.nextBell_answer e)
    · simp [step,Mailroom.step,Mailroom.answer,EventQueue.mem_registered_answer,hb]
    · simp [step,Mailroom.step,Mailroom.answer,sends,SlotEntry.sent?]
  | collect uid =>
    refine .rests (fun u => ?_) rfl ?_ ?_
    · simp [step,Mailroom.step,Mailroom.collect,EventQueue.collect_fst,EventQueue.bell?_look]
    · simp only [step,Mailroom.step,Mailroom.collect,sends,List.filterMap_append]
      rw [sent?_given,List.append_nil]
    · simp [step,Mailroom.step,Mailroom.collect,EventQueue.collect_fst]
  | drop uid =>
    refine .drops uid (v.room.queue.bell?_eraseSlot uid) rfl ?_ rfl
    simp [step,Mailroom.step,Mailroom.drop,sends,SlotEntry.sent?]
  | ring b =>
    simp only [step]
    split
    · refine .rings b (fun k => ?_) (fun _ => rfl) rfl rfl rfl
      simp [Mailroom.step,EventQueue.ring]
    · exact .rests (fun _ => rfl) rfl rfl rfl
  | push k =>
    simp only [step,Mailroom.step,Mailroom.push,Senders.push]
    split <;> exact .rests (fun _ => rfl) rfl rfl rfl
  | take =>
    simp only [step,Mailroom.step,Mailroom.take,EventQueue.take]
    split <;> exact .rests (fun _ => rfl) rfl rfl rfl
  | cancel k =>
    simp only [step,Mailroom.step,Mailroom.cancel]
    split <;> exact .rests (fun _ => rfl) rfl rfl rfl
  | _ => exact .rests (fun _ => rfl) rfl rfl rfl

/-- The bells are numbered by the sends, and a slot shows the bell of the last send of its identifier. -/
structure Numbered (v : Vigil) : Prop where
  next : v.room.queue.nextBell = v.sends.length
  shown : ∀ {uid b}, v.room.queue.bell? uid = some b → v.sends[b]? = some uid
  last : ∀ {uid b b'}, v.room.queue.bell? uid = some b → v.sends[b']? = some uid → b' ≤ b

theorem numbered_empty : ({} : Vigil).Numbered := by
  have hnone : ∀ u, ({} : Vigil).room.queue.bell? u = none := fun _ => rfl
  exact ⟨rfl,by simp [hnone],by simp [hnone]⟩

theorem Turn.sends_prefix (h : v.Turn v') : v.sends <+: v'.sends := by
  cases h with
  | opens uid _ _ _ hsends _ => exact ⟨[uid],hsends.symm⟩
  | rests _ _ hsends _ | answers _ _ _ _ hsends _ | drops _ _ _ hsends _ | rings _ _ _ _ hsends _ =>
    exact hsends ▸ List.prefix_rfl

theorem Turn.sends_getElem? (h : v.Turn v') {b : Nat} {uid : Uid} (hb : v.sends[b]? = some uid) :
    v'.sends[b]? = some uid := by
  obtain ⟨new,hnew⟩ := h.sends_prefix
  rw [← hnew,List.getElem?_append_left (List.getElem?_eq_some_iff.mp hb).1,hb]

theorem Numbered.congr (h : v.Numbered)
    (hbell : ∀ {u b}, v'.room.queue.bell? u = some b → v.room.queue.bell? u = some b)
    (hsends : v'.sends = v.sends) (hnext : v'.room.queue.nextBell = v.room.queue.nextBell) :
    v'.Numbered :=
  ⟨by rw [hnext,hsends,h.next],fun hb => hsends ▸ h.shown (hbell hb),
    fun hb hb' => h.last (hbell hb) (hsends ▸ hb')⟩

theorem Numbered.turn (h : v.Numbered) (ht : v.Turn v') : v'.Numbered := by
  have hgrows : ∀ {b uid}, v.sends[b]? = some uid → v'.sends[b]? = some uid := ht.sends_getElem?
  cases ht with
  | rests hbell _ hsends hnext => exact h.congr (fun hb => hbell _ ▸ hb) hsends hnext
  | rings _ _ hbell _ hsends hnext => exact h.congr (fun hb => hbell _ ▸ hb) hsends hnext
  | answers uid _ hbell _ hsends hnext =>
    refine h.congr (fun {u b} hb => ?_) hsends hnext
    rw [hbell] at hb
    split at hb
    · cases hb
    · exact hb
  | drops uid hbell _ hsends hnext =>
    refine h.congr (fun {u b} hb => ?_) hsends hnext
    rw [hbell] at hb
    split at hb
    · cases hb
    · exact hb
  | opens uid hfree hbell _ hsends hnext =>
    refine ⟨?_,fun {u b} hb => ?_,fun {u b b'} hb hb' => ?_⟩
    · rw [hnext,hsends,h.next,List.length_append,List.length_singleton]
    · rw [hbell] at hb
      split at hb
      · rename_i hu
        obtain rfl := Option.some.inj hb
        rw [hsends,h.next,hu]
        exact List.getElem?_concat_length
      · exact hgrows (h.shown hb)
    · have hle : b' ≤ v.sends.length := by
        have hlt := (List.getElem?_eq_some_iff.mp hb').1
        rw [hsends,List.length_append,List.length_singleton] at hlt
        omega
      rw [hbell] at hb
      split at hb
      · obtain rfl := Option.some.inj hb
        rwa [h.next]
      · rename_i hu
        -- the new send is one of another identifier
        rcases Nat.lt_or_eq_of_le hle with hlt | rfl
        · rw [hsends,List.getElem?_append_left hlt] at hb'
          exact h.last hb hb'
        · rw [hsends,List.getElem?_concat_length] at hb'
          exact absurd (Option.some.inj hb').symm hu

/-- A bell that has fallen silent stays so. -/
theorem Turn.not_sounds (h : v.Turn v') (hnum : v.Numbered) {b : Nat} (hb : b < v.sends.length)
    (hs : ¬ v.Sounds b) : ¬ v'.Sounds b := by
  rintro hs'
  refine hs ?_
  cases h with
  | rests hbell howed _ _ => exact hs'.imp (howed ▸ ·) fun ⟨u,hu⟩ => ⟨u,hbell u ▸ hu⟩
  | opens uid _ hbell howed _ _ =>
    refine hs'.imp (howed ▸ ·) fun ⟨u,hu⟩ => ?_
    rw [hbell] at hu
    split at hu
    · have := Option.some.inj hu
      rw [hnum.next] at this
      omega
    · exact ⟨u,hu⟩
  | answers uid _ hbell howed _ _ =>
    refine hs'.imp (howed ▸ ·) fun ⟨u,hu⟩ => ?_
    rw [hbell] at hu
    split at hu
    · cases hu
    · exact ⟨u,hu⟩
  | drops uid hbell howed _ _ =>
    rcases hs' with hs' | ⟨u,hu⟩
    · rw [howed,List.mem_append,Option.mem_toList] at hs'
      exact hs'.symm.imp id fun hu => ⟨uid,hu⟩
    · rw [hbell] at hu
      split at hu
      · cases hu
      · exact .inr ⟨u,hu⟩
  | rings _ _ hbell howed _ _ =>
    refine hs'.imp (fun hmem => ?_) fun ⟨u,hu⟩ => ⟨u,hbell u ▸ hu⟩
    exact (List.mem_filter.mp (howed ▸ hmem)).1

/-- A bell falls silent by ringing, and nobody is registered at it then. -/
theorem Turn.not_registered (h : v.Turn v') {b : Nat} (hs : v.Sounds b) (hs' : ¬ v'.Sounds b) (k : Nat) :
    (k,b) ∉ v'.room.queue.registered := by
  cases h with
  | rests hbell howed _ _ =>
    exact absurd (hs.imp (howed ▸ ·) fun ⟨u,hu⟩ => ⟨u,(hbell u).trans hu⟩) hs'
  | opens uid hfree hbell howed _ _ =>
    refine absurd (hs.imp (howed ▸ ·) fun ⟨u,hu⟩ => ⟨u,?_⟩) hs'
    rw [hbell,if_neg (by rintro rfl; simp [hfree] at hu),hu]
  | answers uid hrung hbell howed _ _ =>
    rcases hs with hs | ⟨u,hu⟩
    · exact absurd (.inl (howed ▸ hs)) hs'
    · by_cases heq : u = uid
      · exact hrung b (heq ▸ hu) k
      · exact absurd (.inr ⟨u,by rw [hbell,if_neg heq,hu]⟩) hs'
  | drops uid hbell howed _ _ =>
    refine absurd ?_ hs'
    rcases hs with hs | ⟨u,hu⟩
    · exact .inl (by simp [howed,hs])
    · by_cases heq : u = uid
      · exact .inl (by simp [howed,← heq,hu])
      · exact .inr ⟨u,by rw [hbell,if_neg heq,hu]⟩
  | rings b' hrung hbell howed _ _ =>
    rcases hs with hs | ⟨u,hu⟩
    · by_cases heq : b = b'
      · exact heq ▸ hrung k
      · exact absurd (.inl (by simp [howed,hs,heq])) hs'
    · exact absurd (.inr ⟨u,(hbell u).trans hu⟩) hs'

end Vigil
end Tether
