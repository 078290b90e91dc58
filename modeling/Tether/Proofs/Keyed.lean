import Mathlib.Data.List.Nodup
import Mathlib.Data.List.Perm.Basic

/-! Lists whose members are told apart by a key: the members under one key, and what is known of a list
when they are known for each key. And lists of which one member, told by its place, is exchanged. -/
namespace Tether

section Key

variable {α κ : Type} [BEq κ] [LawfulBEq κ] (key : α → κ)

theorem filter_key_of_mem {l : List α} (h : (l.map key).Nodup) {a : α} (ha : a ∈ l) :
    l.filter (key · == key a) = [a] := by
  induction l with
  | nil => simp at ha
  | cons b l ih =>
    rw [List.map_cons,List.nodup_cons] at h
    rcases List.mem_cons.mp ha with rfl | ha
    · have hnone : l.filter (key · == key a) = [] := by
        rw [List.filter_eq_nil_iff]
        intro b hb he
        exact h.1 (List.mem_map.mpr ⟨b,hb,by simpa using he⟩)
      simp [hnone]
    · have hne : key b ≠ key a := fun he => h.1 (he ▸ List.mem_map_of_mem ha)
      simp [hne,ih h.2 ha]

theorem perm_of_filter_key {l l' : List α}
    (h : ∀ k, l.filter (key · == k) = l'.filter (key · == k)) : l.Perm l' := by
  classical
  rw [List.perm_iff_count]
  intro a
  have hself : ∀ m : List α, (m.filter (key · == key a)).count a = m.count a :=
    fun m => List.count_filter (by simp)
  rw [← hself l,h,hself l']

end Key

theorem exists_split_of_getElem? {α : Type} {l : List α} {k : Nat} {a : α} (hk : l[k]? = some a) :
    ∃ before after, l = before ++ a :: after ∧ ∀ a', l.set k a' = before ++ a' :: after := by
  obtain ⟨hlt,rfl⟩ := List.getElem?_eq_some_iff.mp hk
  refine ⟨l.take k,l.drop (k+1),by simp,fun a' => ?_⟩
  rw [List.set_eq_take_append_cons_drop,if_pos hlt]

theorem modify_eq_set {α : Type} {l : List α} {k : Nat} {a : α} (hk : l[k]? = some a) (f : α → α) :
    l.modify k f = l.set k (f a) := by
  rw [List.modify_eq_set_getElem?,hk]
  rfl

theorem flatMap_set_perm {α β : Type} {l : List α} {k : Nat} {a : α} (hk : l[k]? = some a) (a' : α)
    (f : α → List β) : (f a ++ (l.set k a').flatMap f).Perm (f a' ++ l.flatMap f) := by
  obtain ⟨before,after,hl,hset⟩ := exists_split_of_getElem? hk
  rw [hset,hl]
  simp only [List.flatMap_append,List.flatMap_cons]
  calc (f a ++ (before.flatMap f ++ (f a' ++ after.flatMap f))).Perm
        (f a ++ (f a' ++ (before.flatMap f ++ after.flatMap f))) :=
        (List.perm_append_comm_assoc ..).append_left _
    _ |>.Perm (f a' ++ (f a ++ (before.flatMap f ++ after.flatMap f))) := List.perm_append_comm_assoc ..
    _ |>.Perm (f a' ++ (before.flatMap f ++ (f a ++ after.flatMap f))) :=
        (List.perm_append_comm_assoc ..).append_left _

end Tether
