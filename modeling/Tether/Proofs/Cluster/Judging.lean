import Mathlib.Data.List.Perm.Basic
import Tether.Cluster.Work

/-! What the echo workloads make of the answers that they get. A workload is run turn by turn, in whatever
world each turn finds; the outcomes that its requests come to are collected on the way. Rounds end well just
if every answer was as long as what was sent, and otherwise with the first one that was not. Of requests at
once, all are heard, in any order, before one lost link ends the count or the failures are told. -/
namespace Tether

namespace Diagnostics

/-- An answer that is as long as what was sent. -/
def Fitting (size : Nat) (outcome : Outcome) : Prop :=
  ∃ tag reply, outcome = .ok (tag,reply) ∧ reply.length = size

/-- What is wrong with an answer of another length, or with none. -/
inductive Misfit (size : Nat) : Outcome → LinkError → Prop
  | failed (e : LinkError) : Misfit size (.error e) e
  | length (tag : Tag) (reply : List UInt8) : reply.length ≠ size →
    Misfit size (.ok (tag,reply)) (.application s!"echo returned {reply.length} bytes, sent {size}")

theorem judgeLength_eq_ok_iff {size : Nat} {outcome : Outcome} :
    judgeLength size outcome = .ok () ↔ Fitting size outcome := by
  rcases outcome with e | ⟨tag,reply⟩
  · simp [judgeLength,Fitting]
  · by_cases h : reply.length = size <;> simp [judgeLength,Fitting,h]

theorem judgeLength_eq_error_iff {size : Nat} {outcome : Outcome} {e : LinkError} :
    judgeLength size outcome = .error e ↔ Misfit size outcome e := by
  constructor
  · intro h
    rcases outcome with e' | ⟨tag,reply⟩
    · obtain rfl : e' = e := by simpa [judgeLength] using h
      exact .failed e'
    · simp only [judgeLength] at h
      split at h
      · cases h
      · rename_i hne
        rw [← Except.error.inj h]
        exact .length tag reply hne
  · rintro (_ | ⟨tag,reply,hne⟩)
    · rfl
    · exact if_neg hne

theorem Misfit.not_fitting {size : Nat} {outcome : Outcome} {e : LinkError} (h : Misfit size outcome e) :
    ¬Fitting size outcome := by
  rintro hfit
  have hok := judgeLength_eq_ok_iff.mpr hfit
  rw [judgeLength_eq_error_iff.mpr h] at hok
  cases hok

theorem Misfit.unique {size : Nat} {outcome : Outcome} {e e' : LinkError} (h : Misfit size outcome e)
    (h' : Misfit size outcome e') : e = e' := by
  have hsame := (judgeLength_eq_error_iff.mpr h).symm.trans (judgeLength_eq_error_iff.mpr h')
  exact Except.error.inj hsame

/-- An answer that is the own body of a request. -/
def isOwn (i : Nat) : Outcome → Bool
  | .error _ => false
  | .ok (_,reply) => reply == body i

def isLost : Outcome → Bool
  | .error e => e.isLost
  | .ok _ => false

/-- What is said of the requests whose outcomes are given, the first of them with this number. -/
def judgeAll (i : Nat) (outcomes : List Outcome) : List (Except LinkError Unit) :=
  (outcomes.zipIdx i).map fun p => judgeBody p.2 p.1

theorem judgeAll_cons (i : Nat) (outcome : Outcome) (outcomes : List Outcome) :
    judgeAll i (outcome :: outcomes) = judgeBody i outcome :: judgeAll (i + 1) outcomes := rfl

/-- How many requests were not answered with their own body. -/
def failures (i : Nat) (outcomes : List Outcome) : Nat := (outcomes.zipIdx i).countP fun p => !isOwn p.2 p.1

theorem failures_le (i : Nat) (outcomes : List Outcome) : failures i outcomes ≤ outcomes.length := by
  simpa [failures] using (outcomes.zipIdx i).countP_le_length (p := fun p => !isOwn p.2 p.1)

theorem judgeBody_cases (i : Nat) (outcome : Outcome) :
    (isOwn i outcome = true ∧ isLost outcome = false ∧ judgeBody i outcome = .ok ()) ∨
    (isOwn i outcome = false ∧ isLost outcome = false ∧ ∃ e, judgeBody i outcome = .error e ∧ e.isLost = false) ∨
    (isLost outcome = true ∧ ∃ e, outcome = .error e ∧ judgeBody i outcome = .error e ∧ e.isLost = true) := by
  rcases outcome with e | ⟨tag,reply⟩
  · cases he : e.isLost with
    | true => exact .inr (.inr ⟨he,e,rfl,rfl,he⟩)
    | false => exact .inr (.inl ⟨rfl,he,e,rfl,he⟩)
  · by_cases h : reply = body i
    · exact .inl ⟨by simp [isOwn,h],rfl,if_pos h⟩
    · exact .inr (.inl ⟨by simp [isOwn,h],rfl,_,if_neg h,rfl⟩)

/-- The first request that lost its link ends the count. -/
inductive FirstLost (e : LinkError) : List Outcome → Prop
  | here (outcomes : List Outcome) : e.isLost = true → FirstLost e (.error e :: outcomes)
  | later (outcome : Outcome) (outcomes : List Outcome) : isLost outcome = false → FirstLost e outcomes →
    FirstLost e (outcome :: outcomes)

theorem countFailures_judgeAll (i : Nat) (outcomes : List Outcome) :
    (∃ e, countFailures (judgeAll i outcomes) = .error e ∧ FirstLost e outcomes) ∨
    (countFailures (judgeAll i outcomes) = .ok (UInt32.ofNat (failures i outcomes)) ∧
      ∀ outcome ∈ outcomes, isLost outcome = false) := by
  induction outcomes generalizing i with
  | nil => exact .inr ⟨rfl,by simp⟩
  | cons outcome outcomes ih =>
    rw [judgeAll_cons]
    have hcount : failures i (outcome :: outcomes) =
        failures (i + 1) outcomes + if isOwn i outcome then 0 else 1 := by
      cases h : isOwn i outcome <;> simp [failures,List.zipIdx_cons,h]
    rcases judgeBody_cases i outcome with ⟨hown,hlost,hj⟩ | ⟨hown,hlost,e,hj,he⟩ | ⟨hlost,e,rfl,hj,he⟩
    · rw [hj,hcount,hown]
      rcases ih (i + 1) with ⟨e,hcf,hfirst⟩ | ⟨hcf,hall⟩
      · exact .inl ⟨e,hcf,.later _ _ hlost hfirst⟩
      · exact .inr ⟨hcf,List.forall_mem_cons.mpr ⟨hlost,hall⟩⟩
    · rw [hj,hcount,hown]
      simp only [countFailures,he]
      rcases ih (i + 1) with ⟨e',hcf,hfirst⟩ | ⟨hcf,hall⟩
      · exact .inl ⟨e',by rw [hcf]; rfl,.later _ _ hlost hfirst⟩
      · refine .inr ⟨?_,List.forall_mem_cons.mpr ⟨hlost,hall⟩⟩
        rw [hcf]
        simp [Except.map]
    · rw [hj]
      exact .inl ⟨e,by simp [countFailures,he],.here _ he⟩

theorem FirstLost.exists_mem {e : LinkError} {outcomes : List Outcome} (h : FirstLost e outcomes) :
    ∃ outcome ∈ outcomes, isLost outcome = true := by
  induction h with
  | here outcomes he => exact ⟨_,List.mem_cons_self,he⟩
  | later outcome outcomes _ _ ih =>
    obtain ⟨o,ho,hlost⟩ := ih
    exact ⟨o,List.mem_cons_of_mem _ ho,hlost⟩

theorem FirstLost.unique {e e' : LinkError} {outcomes : List Outcome} (h : FirstLost e outcomes)
    (h' : FirstLost e' outcomes) : e = e' := by
  induction h with
  | here outcomes he =>
    cases h' with
    | here => rfl
    | later _ _ hlost => simp [isLost,he] at hlost
  | later outcome outcomes hlost _ ih =>
    cases h' with
    | here _ he => simp [isLost,he] at hlost
    | later _ _ _ h' => exact ih h'

/-- What a reply of the peer is worth to a workload: it is no lost link, and it counts unless it is an error. -/
structure Judges (m : Message) : Prop where
  answered : isLost (Connection.outcomeOf m) = false
  fitting_iff : ∀ size, Fitting size (Connection.outcomeOf m) ↔ m.tag.isError = false ∧ m.payload.length = size
  own_iff : ∀ i, isOwn i (Connection.outcomeOf m) = true ↔ m.tag.isError = false ∧ m.payload = body i

theorem judges_reply (m : Message) : Judges m := by
  cases h : m.tag.isError with
  | true => exact ⟨by simp [Connection.outcomeOf,h,isLost,LinkError.isLost],
      by simp [Connection.outcomeOf,h,Fitting],by simp [Connection.outcomeOf,h,isOwn]⟩
  | false => exact ⟨by simp [Connection.outcomeOf,h,isLost],
      by simp [Connection.outcomeOf,h,Fitting],by simp [Connection.outcomeOf,h,isOwn]⟩

end Diagnostics

namespace Cluster.Work

open Diagnostics

/-! ### Turns -/

/-- A workload that is run once in each world of a list, with what is heard on the way. -/
def follow {α : Type} (hear : World → Work → List α) (s : Turn Work Result × List α) (w : World) :
    Turn Work Result × List α :=
  match s.1 with
  | .waits work => ((work.run w).2,s.2 ++ hear w work)
  | .ends _ => s

def turns {α : Type} (hear : World → Work → List α) (work : Work) (worlds : List World) :
    Turn Work Result × List α :=
  worlds.foldl (follow hear) (.waits work,[])

/-! ### Rounds -/

def hearRound (link size : Nat) : Nat → World × Turn Exchange Outcome → List Outcome
  | _, (_, .waits _) => []
  | left, (w, .ends outcome) => outcome :: match judgeLength size outcome, left with
    | .ok (), left + 2 => hearRound link size (left + 1) ((echo link (filler size)).run w)
    | _, _ => []

def hearRounds (w : World) : Work → List Outcome
  | .rounds link size _ left x => if left = 0 then [] else hearRound link size left (x.run w)
  | _ => []

/-- How rounds stand with the outcomes heard so far. -/
inductive Rounds (link size : Nat) (iterations : UInt32) : List Outcome → Turn Work Result → Prop
  | waiting (heard : List Outcome) (left : Nat) (x : Exchange) : (∀ o ∈ heard, Fitting size o) →
    heard.length + left = iterations.toNat → 0 < left →
    Rounds link size iterations heard (.waits (.rounds link size iterations left x))
  | passed (heard : List Outcome) : (∀ o ∈ heard, Fitting size o) → heard.length = iterations.toNat →
    Rounds link size iterations heard (.ends (.ok (some (.performance size iterations))))
  | failed (heard : List Outcome) (last : Outcome) (e : LinkError) : (∀ o ∈ heard, Fitting size o) →
    heard.length < iterations.toNat → Misfit size last e →
    Rounds link size iterations (heard ++ [last]) (.ends (.error e))

variable {link size : Nat} {iterations requests : UInt32} {heard : List Outcome} {left : Nat}

theorem fitting_append {outcome : Outcome} (h : ∀ o ∈ heard, Fitting size o)
    (hgood : judgeLength size outcome = .ok ()) : ∀ o ∈ heard ++ [outcome], Fitting size o := by
  intro o ho
  rcases List.mem_append.mp ho with ho | ho
  · exact h o ho
  · exact List.mem_singleton.mp ho ▸ judgeLength_eq_ok_iff.mp hgood

theorem rounds_nextRound (left : Nat) (ran : World × Turn Exchange Outcome)
    (hfit : ∀ o ∈ heard, Fitting size o) (hcount : heard.length + left = iterations.toNat) (hleft : 0 < left) :
    Rounds link size iterations (heard ++ hearRound link size left ran)
      (nextRound link size iterations left ran).2 := by
  induction left, ran using nextRound.induct link size generalizing heard with
  | case1 left w x =>
    rw [nextRound.eq_def,hearRound.eq_def,List.append_nil]
    exact .waiting heard left x hfit hcount hleft
  | case2 left w outcome e hbad =>
    rw [nextRound.eq_def,hearRound.eq_def]
    simp only [hbad]
    exact .failed heard outcome e hfit (by omega) (judgeLength_eq_error_iff.mp hbad)
  | case3 w outcome left hgood ih =>
    rw [nextRound.eq_def,hearRound.eq_def]
    simp only [hgood]
    have hnext := ih (fitting_append hfit hgood) (by simp; omega) (Nat.succ_pos left)
    rwa [List.append_assoc] at hnext
  | case4 left w outcome hgood hlast =>
    obtain rfl : left = 1 := by
      rcases left with _ | _ | left
      · cases hleft
      · rfl
      · exact absurd rfl (hlast left)
    rw [nextRound.eq_def,hearRound.eq_def]
    simp only [hgood]
    exact .passed _ (fitting_append hfit hgood) (by simpa using hcount)

theorem Rounds.step {s : Turn Work Result × List Outcome} (h : Rounds link size iterations s.2 s.1)
    (w : World) : Rounds link size iterations (follow hearRounds s w).2 (follow hearRounds s w).1 := by
  obtain ⟨turn,heard⟩ := s
  cases h with
  | waiting heard left x hfit hcount hleft =>
    have hne : left ≠ 0 := Nat.ne_of_gt hleft
    simp only [follow,Work.run,hearRounds,hne,if_false]
    exact rounds_nextRound left (x.run w) hfit hcount hleft
  | passed heard hfit hcount => exact .passed heard hfit hcount
  | failed heard last e hfit hlt hbad => exact .failed heard last e hfit hlt hbad

theorem Rounds.foldl {s : Turn Work Result × List Outcome} (h : Rounds link size iterations s.2 s.1)
    (worlds : List World) : Rounds link size iterations (worlds.foldl (follow hearRounds) s).2
      (worlds.foldl (follow hearRounds) s).1 := by
  induction worlds generalizing s with
  | nil => exact h
  | cons w worlds ih => exact ih (h.step w)

theorem rounds_turns (link size : Nat) (iterations : UInt32) (w : World) (worlds : List World) :
    let s := turns hearRounds (start link (.performance size iterations)) (w :: worlds)
    Rounds link size iterations s.2 s.1 := by
  refine Rounds.foldl ?_ worlds
  simp only [follow,start,Work.run,hearRounds]
  by_cases hzero : iterations.toNat = 0
  · simp only [hzero,if_true]
    exact .passed [] (by simp) hzero.symm
  · simp only [hzero,if_false]
    exact rounds_nextRound _ _ (by simp) (by simp) (Nat.pos_of_ne_zero hzero)

theorem Rounds.ok_iff {turn : Turn Work Result} (h : Rounds link size iterations heard turn)
    (report : Option Report) : turn = .ends (.ok report) ↔ report = some (.performance size iterations) ∧
      heard.length = iterations.toNat ∧ ∀ o ∈ heard, Fitting size o := by
  cases h with
  | waiting heard left x hfit hcount hleft => simp; omega
  | passed heard hfit hcount => simpa [eq_comm,hcount] using fun _ => hfit
  | failed heard last e hfit hlt hbad =>
    simp only [reduceCtorEq,Turn.ends.injEq,false_iff,not_and]
    exact fun _ _ hall => hbad.not_fitting (hall last (by simp))

theorem Rounds.error_iff {turn : Turn Work Result} (h : Rounds link size iterations heard turn)
    (e : LinkError) : turn = .ends (.error e) ↔ ∃ before last, heard = before ++ [last] ∧
      (∀ o ∈ before, Fitting size o) ∧ Misfit size last e := by
  constructor
  · rintro rfl
    cases h with
    | failed heard last _ hfit _ hbad => exact ⟨heard,last,rfl,hfit,hbad⟩
  · rintro ⟨before,last,heard_eq,-,hbad⟩
    have hmem : last ∈ heard := by simp [heard_eq]
    cases h with
    | waiting _ left x hfit => exact absurd (hfit last hmem) hbad.not_fitting
    | passed _ hfit => exact absurd (hfit last hmem) hbad.not_fitting
    | failed heard last' e' hfit hlt hbad' =>
      obtain rfl : last' = last := by simpa using (List.append_inj_right' heard_eq rfl)
      rw [hbad.unique hbad']

/-! ### Requests at once -/

/-- The outcomes that requests at once come to in one turn, each with the number of its request. -/
def hearCrowdFrom (w : World) (i : Nat) : List (Turn Exchange Judged) → List (Outcome × Nat)
  | [] => []
  | .ends _ :: rest => hearCrowdFrom w (i + 1) rest
  | .waits x :: rest => match x.run w with
    | (w, .waits _) => hearCrowdFrom w (i + 1) rest
    | (w, .ends outcome) => (outcome,i) :: hearCrowdFrom w (i + 1) rest

def hearCrowd (w : World) : Work → List (Outcome × Nat)
  | .crowd _ turns => hearCrowdFrom w 0 turns
  | _ => []

/-- Requests that wait, and requests that have been judged by what has come to them. -/
inductive Seated : Nat → List (Option Outcome) → List (Turn Exchange Judged) → Prop
  | nil (i : Nat) : Seated i [] []
  | waits {i : Nat} {found : List (Option Outcome)} {rest : List (Turn Exchange Judged)} (x : Exchange) :
    Seated (i + 1) found rest → Seated i (none :: found) (.waits x :: rest)
  | ends {i : Nat} {found : List (Option Outcome)} {rest : List (Turn Exchange Judged)} (outcome : Outcome) :
    Seated (i + 1) found rest → Seated i (some outcome :: found) (.ends (judgeBody i outcome) :: rest)

theorem length_runCrowd (w : World) (i : Nat) (ts : List (Turn Exchange Judged)) :
    (runCrowd w i ts).2.length = ts.length := by
  induction ts generalizing w i with
  | nil => rfl
  | cons t ts ih => cases t <;> simp [runCrowd,ih]

/-- What has been found, each with the number of its request. -/
def numbered (i : Nat) : List (Option Outcome) → List (Outcome × Nat)
  | [] => []
  | none :: rest => numbered (i + 1) rest
  | some outcome :: rest => (outcome,i) :: numbered (i + 1) rest

theorem Seated.runCrowd {i : Nat} {found : List (Option Outcome)} {ts : List (Turn Exchange Judged)}
    (h : Seated i found ts) (w : World) : ∃ found', Seated i found' (runCrowd w i ts).2 ∧
      (numbered i found').Perm (numbered i found ++ hearCrowdFrom w i ts) := by
  induction h generalizing w with
  | nil i => exact ⟨[],.nil i,.refl _⟩
  | @ends i found rest outcome h ih =>
    obtain ⟨found',hs,hp⟩ := ih w
    exact ⟨some outcome :: found',.ends outcome hs,hp.cons _⟩
  | @waits i found rest x h ih =>
    rcases hx : x.run w with ⟨w',x' | outcome⟩
    · obtain ⟨found',hs,hp⟩ := ih w'
      refine ⟨none :: found',?_,?_⟩
      · simp only [Work.runCrowd,hx]
        exact .waits x' hs
      · simpa only [numbered,hearCrowdFrom,hx] using hp
    · obtain ⟨found',hs,hp⟩ := ih w'
      refine ⟨some outcome :: found',?_,?_⟩
      · simp only [Work.runCrowd,hx]
        exact .ends outcome hs
      · simp only [numbered,hearCrowdFrom,hx]
        exact (hp.cons _).trans List.perm_middle.symm

theorem Seated.length {i : Nat} {found : List (Option Outcome)} {ts : List (Turn Exchange Judged)}
    (h : Seated i found ts) : found.length = ts.length := by
  induction h with
  | nil i => rfl
  | waits x _ ih => simp [ih]
  | ends outcome _ ih => simp [ih]

theorem length_numbered_le (i : Nat) (found : List (Option Outcome)) :
    (numbered i found).length ≤ found.length := by
  induction found generalizing i with
  | nil => exact Nat.le_refl 0
  | cons o found ih =>
    cases o with
    | none => exact Nat.le_succ_of_le (ih _)
    | some outcome => exact Nat.succ_le_succ (ih _)

theorem length_numbered_lt (i : Nat) {found : List (Option Outcome)} (h : none ∈ found) :
    (numbered i found).length < found.length := by
  induction found generalizing i with
  | nil => cases h
  | cons o found ih =>
    cases o with
    | none => exact Nat.lt_succ_of_le (length_numbered_le _ found)
    | some outcome => exact Nat.succ_lt_succ (ih (i + 1) (by simpa using h))

theorem numbered_map_some (i : Nat) (outcomes : List Outcome) :
    numbered i (outcomes.map some) = outcomes.zipIdx i := by
  induction outcomes generalizing i with
  | nil => rfl
  | cons outcome outcomes ih => simp [numbered,List.zipIdx_cons,ih]

theorem Seated.allJudged {i : Nat} {found : List (Option Outcome)} {ts : List (Turn Exchange Judged)}
    (h : Seated i found ts) : (none ∈ found ∧ allJudged ts = none) ∨
    ∃ outcomes, found = outcomes.map some ∧ allJudged ts = some (judgeAll i outcomes) := by
  induction h with
  | nil i => exact .inr ⟨[],rfl,rfl⟩
  | waits x _ _ => exact .inl ⟨List.mem_cons_self,rfl⟩
  | ends outcome _ ih =>
    rcases ih with ⟨hmem,hnone⟩ | ⟨outcomes,rfl,hall⟩
    · exact .inl ⟨List.mem_cons_of_mem _ hmem,by rw [Work.allJudged,hnone]; rfl⟩
    · exact .inr ⟨outcome :: outcomes,rfl,by rw [Work.allJudged,hall]; rfl⟩

/-- Each request has come to one outcome, in any order. -/
structure Answered (requests : UInt32) (heard : List (Outcome × Nat)) (outcomes : List Outcome) : Prop where
  length : outcomes.length = requests.toNat
  perm : heard.Perm outcomes.zipIdx

theorem Answered.unique {heard : List (Outcome × Nat)} {outcomes outcomes' : List Outcome}
    (h : Answered requests heard outcomes) (h' : Answered requests heard outcomes') : outcomes = outcomes' := by
  refine List.ext_getElem? fun k => Option.ext fun outcome => ?_
  rw [← List.mk_mem_zipIdx_iff_getElem?,← List.mk_mem_zipIdx_iff_getElem?,← h.perm.mem_iff,h'.perm.mem_iff]

/-- How requests at once stand with the outcomes heard so far. -/
inductive Crowd (requests : UInt32) (heard : List (Outcome × Nat)) : Turn Work Result → Prop
  | waiting (found : List (Option Outcome)) (ts : List (Turn Exchange Judged)) : Seated 0 found ts →
    found.length = requests.toNat → heard.Perm (numbered 0 found) → none ∈ found →
    Crowd requests heard (.waits (.crowd requests ts))
  | counted (outcomes : List Outcome) : Answered requests heard outcomes →
    (∀ outcome ∈ outcomes, isLost outcome = false) →
    Crowd requests heard (.ends (.ok (some (.concurrency requests (UInt32.ofNat (failures 0 outcomes))))))
  | lost (outcomes : List Outcome) (e : LinkError) : Answered requests heard outcomes → FirstLost e outcomes →
    Crowd requests heard (.ends (.error e))

theorem not_answered_of_mem {heard : List (Outcome × Nat)} {found : List (Option Outcome)}
    (hlength : found.length = requests.toNat) (hheard : heard.Perm (numbered 0 found)) (hmem : none ∈ found)
    (outcomes : List Outcome) : ¬Answered requests heard outcomes := by
  intro h
  have hlt := length_numbered_lt 0 hmem
  have heq := hheard.length_eq.symm.trans h.perm.length_eq
  rw [heq,List.length_zipIdx,h.length,hlength] at hlt
  exact Nat.lt_irrefl _ hlt

theorem crowd_run {heard : List (Outcome × Nat)} {found : List (Option Outcome)}
    {ts : List (Turn Exchange Judged)} (hseated : Seated 0 found ts) (hlength : found.length = requests.toNat)
    (hheard : heard.Perm (numbered 0 found)) (w : World) :
    Crowd requests (heard ++ hearCrowdFrom w 0 ts) (Work.run w (.crowd requests ts)).2 := by
  obtain ⟨found',hseated',hperm⟩ := hseated.runCrowd w
  have hheard' : (heard ++ hearCrowdFrom w 0 ts).Perm (numbered 0 found') :=
    (hheard.append_right _).trans hperm.symm
  have hlength' : found'.length = requests.toNat := by
    rw [hseated'.length,length_runCrowd,← hseated.length,hlength]
  simp only [Work.run]
  rcases hseated'.allJudged with ⟨hmem,hnone⟩ | ⟨outcomes,rfl,hall⟩
  · rw [hnone]
    exact .waiting found' _ hseated' hlength' hheard' hmem
  · rw [hall]
    dsimp only
    have hanswered : Answered requests (heard ++ hearCrowdFrom w 0 ts) outcomes :=
      ⟨by simpa using hlength',by rwa [numbered_map_some] at hheard'⟩
    rcases countFailures_judgeAll 0 outcomes with ⟨e,hcount,hfirst⟩ | ⟨hcount,hnone⟩
    · rw [hcount]
      exact .lost outcomes e hanswered hfirst
    · rw [hcount]
      exact .counted outcomes hanswered hnone

theorem Crowd.step {s : Turn Work Result × List (Outcome × Nat)} (h : Crowd requests s.2 s.1) (w : World) :
    Crowd requests (follow hearCrowd s w).2 (follow hearCrowd s w).1 := by
  obtain ⟨turn,heard⟩ := s
  cases h with
  | waiting found ts hseated hlength hheard _ => exact crowd_run hseated hlength hheard w
  | counted outcomes ha hnone => exact .counted outcomes ha hnone
  | lost outcomes e ha hfirst => exact .lost outcomes e ha hfirst

theorem Crowd.foldl {s : Turn Work Result × List (Outcome × Nat)} (h : Crowd requests s.2 s.1)
    (worlds : List World) :
    Crowd requests (worlds.foldl (follow hearCrowd) s).2 (worlds.foldl (follow hearCrowd) s).1 := by
  induction worlds generalizing s with
  | nil => exact h
  | cons w worlds ih => exact ih (h.step w)

theorem seated_start (link i : Nat) (bodies : List Nat) : Seated i (bodies.map fun _ => none)
    (bodies.map fun k => .waits (echo link (body k))) ∧ numbered i (bodies.map fun _ => none) = [] := by
  induction bodies generalizing i with
  | nil => exact ⟨.nil i,rfl⟩
  | cons k bodies ih => exact ⟨.waits _ (ih (i + 1)).1,(ih (i + 1)).2⟩

theorem crowd_turns (link : Nat) (requests : UInt32) (w : World) (worlds : List World) :
    let s := turns hearCrowd (start link (.concurrency requests)) (w :: worlds)
    Crowd requests s.2 s.1 := by
  obtain ⟨hseated,hnumbered⟩ := seated_start link 0 (List.range requests.toNat)
  exact Crowd.foldl (crowd_run hseated (by simp) (by rw [hnumbered]) w) worlds

theorem Crowd.ok_iff {heard : List (Outcome × Nat)} {turn : Turn Work Result} (h : Crowd requests heard turn)
    (report : Option Report) : turn = .ends (.ok report) ↔ ∃ outcomes, Answered requests heard outcomes ∧
      (∀ outcome ∈ outcomes, isLost outcome = false) ∧ ∃ n : UInt32, n.toNat = failures 0 outcomes ∧
        report = some (.concurrency requests n) := by
  constructor
  · rintro rfl
    cases h with
    | counted outcomes ha hnone =>
      refine ⟨outcomes,ha,hnone,_,UInt32.toNat_ofNat_of_lt' ?_,rfl⟩
      exact Nat.lt_of_le_of_lt (ha.length ▸ failures_le 0 outcomes) requests.toNat_lt
  · rintro ⟨outcomes,ha,hnone,n,hn,rfl⟩
    cases h with
    | waiting found ts _ hlength hheard hmem => exact absurd ha (not_answered_of_mem hlength hheard hmem _)
    | counted outcomes' ha' =>
      rw [ha'.unique ha,← hn,UInt32.ofNat_toNat]
    | lost outcomes' e ha' hfirst =>
      obtain ⟨outcome,hmem,hlost⟩ := (ha'.unique ha ▸ hfirst).exists_mem
      rw [hnone outcome hmem] at hlost
      cases hlost

theorem Crowd.error_iff {heard : List (Outcome × Nat)} {turn : Turn Work Result} (h : Crowd requests heard turn)
    (e : LinkError) : turn = .ends (.error e) ↔
      ∃ outcomes, Answered requests heard outcomes ∧ FirstLost e outcomes := by
  constructor
  · rintro rfl
    cases h with
    | lost outcomes _ ha hfirst => exact ⟨outcomes,ha,hfirst⟩
  · rintro ⟨outcomes,ha,hfirst⟩
    cases h with
    | waiting found ts _ hlength hheard hmem => exact absurd ha (not_answered_of_mem hlength hheard hmem _)
    | counted outcomes' ha' hnone =>
      obtain ⟨outcome,hmem,hlost⟩ := hfirst.exists_mem
      rw [hnone outcome (ha'.unique ha ▸ hmem)] at hlost
      cases hlost
    | lost outcomes' e' ha' hfirst' =>
      obtain rfl := ha'.unique ha
      rw [hfirst'.unique hfirst]

/-- Whatever the worlds do in between: rounds end well just if each of them got an answer as long as what was
sent, and with an error just if some answer was not, which is then the last one and tells the error. Requests
at once end with a lost link just if one of them lost it, and the first such request tells how; else they end
when all have been answered, in whatever order, and those that did not get their own body are counted. -/
theorem judged_of_turns (link : Nat) (w : World) (worlds : List World) :
    (∀ size iterations,
      let s := turns hearRounds (start link (.performance size iterations)) (w :: worlds)
      (∀ report, s.1 = .ends (.ok report) ↔ report = some (.performance size iterations) ∧
        s.2.length = iterations.toNat ∧ ∀ o ∈ s.2, Fitting size o) ∧
      ∀ e, s.1 = .ends (.error e) ↔ ∃ before last, s.2 = before ++ [last] ∧
        (∀ o ∈ before, Fitting size o) ∧ Misfit size last e) ∧
    (∀ requests,
      let s := turns hearCrowd (start link (.concurrency requests)) (w :: worlds)
      (∀ e, s.1 = .ends (.error e) ↔ ∃ outcomes, Answered requests s.2 outcomes ∧ FirstLost e outcomes) ∧
      ∀ report, s.1 = .ends (.ok report) ↔ ∃ outcomes, Answered requests s.2 outcomes ∧
        (∀ outcome ∈ outcomes, isLost outcome = false) ∧ ∃ n : UInt32, n.toNat = failures 0 outcomes ∧
          report = some (.concurrency requests n)) ∧
    ∀ m, Judges m := by
  refine ⟨fun size iterations => ?_,fun requests => ?_,judges_reply⟩
  · have hrounds := rounds_turns link size iterations w worlds
    exact ⟨hrounds.ok_iff,hrounds.error_iff⟩
  · have hcrowd := crowd_turns link requests w worlds
    exact ⟨hcrowd.error_iff,hcrowd.ok_iff⟩

/-- A round that is answered with another letter. -/
theorem passed_of_altered :
    let w : World :=
      { links := [{ Connection.establish "worker" .initiator "master" 7 with phase := .ready }]
        streams := [{ codec := {}, source := 0, sink := 0, traffic := 0, registry := 0 }]
        pipes := [{}]
        traffics := [{}] }
    let work := start 0 (.performance 1 1)
    let reply : Message := ⟨7,.ok,true,[0x62]⟩
    let answered := (work.run w).1.onLink 0 fun c => (c.processResponse reply).1
    turns hearRounds work [w,answered] =
      (.ends (.ok (some (.performance 1 1))),[.ok (.ok,reply.payload)]) ∧ reply.payload ≠ filler 1 := by
  refine ⟨rfl,by decide⟩

end Cluster.Work
end Tether
