import Std.Data.TreeMap.Lemmas
import Mathlib.Data.List.Perm.Basic
import Mathlib.Data.List.Sort
import Mathlib.Data.List.Induction
import Mathlib.Algebra.BigOperators.Group.List.Basic
import Mathlib.Algebra.GroupWithZero.Nat

/-! Grouping a stream of elements by key in an ordered map. The group of a key is the subsequence of the
    elements with that key, so the groups depend on the order of arrival only inside themselves, and
    together they hold every element once. -/

namespace Foundation.Groups
open Std

/-- `m[k].push_back(a)`: a missing key starts with no elements. -/
def pushAt {κ α : Type*} [Ord κ] (m : TreeMap κ (List α)) (k : κ) (a : α) : TreeMap κ (List α) :=
  m.alter k fun s => some (s.getD [] ++ [a])

def group {κ α : Type*} [Ord κ] (key : α → κ) (l : List α) : TreeMap κ (List α) :=
  l.foldl (fun m a => pushAt m (key a) a) ∅

def fiber {κ α : Type*} [DecidableEq κ] (key : α → κ) (l : List α) (k : κ) : List α := l.filter fun a => key a = k

section Fiber
variable {κ α : Type*} [DecidableEq κ] {key : α → κ} {l l' : List α} {k : κ}

theorem mem_fiber {a : α} : a ∈ fiber key l k ↔ a ∈ l ∧ key a = k := by simp [fiber]

theorem fiber_ne_nil : fiber key l k ≠ [] ↔ ∃ a ∈ l, key a = k := by
  constructor
  · intro h
    obtain ⟨a, ha⟩ := List.exists_mem_of_ne_nil _ h
    exact ⟨a, mem_fiber.mp ha⟩
  · rintro ⟨a, ha⟩
    exact List.ne_nil_of_mem (mem_fiber.mpr ha)

theorem fiber_append_singleton (a : α) :
    fiber key (l ++ [a]) k = if key a = k then fiber key l k ++ [a] else fiber key l k := by
  by_cases h : key a = k <;> simp [fiber, h]

theorem fiber_perm (h : l.Perm l') : (fiber key l k).Perm (fiber key l' k) := h.filter _

theorem fiber_sublist (h : l.Sublist l') : (fiber key l k).Sublist (fiber key l' k) := h.filter _

/-- Over distinct keys that cover `l`, the groups hold each element once. -/
theorem sum_length_fiber {ks : List κ} (hn : ks.Nodup) :
    ∀ {l : List α}, (∀ a ∈ l, key a ∈ ks) → (ks.map fun k => (fiber key l k).length).sum = l.length
  | [], _ => by simp [fiber]
  | a :: l, hc => by
    have ih := sum_length_fiber hn fun b hb => hc b (List.mem_cons_of_mem a hb)
    have hsplit : ∀ k, (fiber key (a :: l) k).length = (if k = key a then 1 else 0) + (fiber key l k).length := by
      intro k
      by_cases h : key a = k
      · subst h
        simp [fiber, Nat.add_comm]
      · simp [fiber, h, Ne.symm h]
    have hone : (ks.map fun k => if k = key a then 1 else 0).sum = 1 := by
      rw [List.sum_map_eq_nsmul_single (key a) _ fun k hk _ => if_neg hk,
        List.count_eq_one_of_mem hn (hc a List.mem_cons_self)]
      simp
    simp only [hsplit, List.sum_map_add, hone, ih, List.length_cons]
    omega

end Fiber

section Map
variable {κ α : Type*} [Ord κ] [TransOrd κ]

theorem getElem?_pushAt (m : TreeMap κ (List α)) (k k' : κ) (a : α) :
    (pushAt m k a)[k']? = if compare k k' = .eq then some (m[k]?.getD [] ++ [a]) else m[k']? := by
  rw [pushAt, TreeMap.getElem?_alter]

theorem size_le_pushAt (m : TreeMap κ (List α)) (k : κ) (a : α) : m.size ≤ (pushAt m k a).size := by
  rw [pushAt]
  by_cases h : k ∈ m
  · rw [TreeMap.size_alter_eq_self_of_mem h rfl]
  · rw [TreeMap.size_alter_eq_add_one h rfl]
    exact Nat.le_succ _

theorem size_le_foldl_pushAt (key : α → κ) (m : TreeMap κ (List α)) (l : List α) :
    m.size ≤ (l.foldl (fun m a => pushAt m (key a) a) m).size := by
  induction l generalizing m with
  | nil => exact Nat.le_refl _
  | cons a l ih => exact Nat.le_trans (size_le_pushAt m (key a) a) (ih _)

omit [TransOrd κ] in
theorem group_append (key : α → κ) (l l' : List α) :
    group key (l ++ l') = l'.foldl (fun m a => pushAt m (key a) a) (group key l) := List.foldl_append

theorem nodup_keys (m : TreeMap κ α) : m.keys.Nodup := by
  refine TreeMap.ordered_keys.imp fun {a b} hlt he => ?_
  rw [he] at hlt
  exact absurd hlt (by simp)

end Map

section Group
variable {κ α : Type*} [Ord κ] [TransOrd κ] [LawfulEqOrd κ] [DecidableEq κ] {key : α → κ} {l l' : List α}

/-- The group of a key is its fiber; a key without elements is absent. -/
theorem getElem?_group (key : α → κ) (l : List α) (k : κ) :
    (group key l)[k]? = if fiber key l k = [] then none else some (fiber key l k) := by
  induction l using List.reverseRecOn with
  | nil => simp [group, fiber]
  | append_singleton l a ih =>
    rw [group_append, List.foldl_cons, List.foldl_nil, getElem?_pushAt, fiber_append_singleton]
    by_cases h : key a = k
    · subst h
      rw [ih]
      by_cases hnil : fiber key l (key a) = [] <;> simp [hnil]
    · have hne : compare (key a) k ≠ .eq := fun he => h (compare_eq_iff_eq.mp he)
      rw [if_neg hne, if_neg h, ih]

theorem mem_toList_group {k : κ} {s : List α} :
    (k, s) ∈ (group key l).toList ↔ s = fiber key l k ∧ s ≠ [] := by
  rw [TreeMap.mem_toList_iff_getElem?_eq_some, getElem?_group]
  by_cases hnil : fiber key l k = []
  · rw [if_pos hnil, hnil]
    simp
  · rw [if_neg hnil, Option.some_inj]
    constructor
    · rintro rfl
      exact ⟨rfl, hnil⟩
    · exact fun h => h.1.symm

theorem mem_group {k : κ} : k ∈ group key l ↔ ∃ a ∈ l, key a = k := by
  rw [← fiber_ne_nil, ← TreeMap.isSome_getElem?_iff_mem, getElem?_group]
  by_cases hnil : fiber key l k = [] <;> simp [hnil]

theorem toList_group (key : α → κ) (l : List α) :
    (group key l).toList = (group key l).keys.map fun k => (k, fiber key l k) := by
  rw [← TreeMap.map_fst_toList_eq_keys, List.map_map]
  refine (List.map_id _).symm.trans (List.map_congr_left fun e he => ?_)
  exact Prod.ext rfl (mem_toList_group.mp he).1

/-- The keys present depend only on which elements arrived, not on their order. -/
theorem keys_group_congr (h : ∀ a, a ∈ l ↔ a ∈ l') : (group key l).keys = (group key l').keys := by
  have hmem : ∀ k, k ∈ (group key l).keys ↔ k ∈ (group key l').keys := fun k => by
    rw [TreeMap.mem_keys, TreeMap.mem_keys, mem_group, mem_group]
    exact exists_congr fun a => and_congr_left fun _ => h a
  refine List.Perm.eq_of_pairwise (fun a b _ _ h1 h2 => ?_) TreeMap.ordered_keys TreeMap.ordered_keys
    ((List.perm_ext_iff_of_nodup (nodup_keys _) (nodup_keys _)).mpr hmem)
  rw [OrientedCmp.gt_of_lt h1] at h2
  cases h2

/-- Of fewer elements no more keys are present, in the same order. -/
theorem keys_group_sublist (h : l.Sublist l') : (group key l).keys.Sublist (group key l').keys := by
  have : Antisymm fun a b : κ => compare a b = .lt :=
    ⟨fun a b h1 h2 => by rw [OrientedCmp.gt_of_lt h1] at h2; cases h2⟩
  refine List.sublist_of_subperm_of_pairwise (List.subperm_of_subset (nodup_keys _) fun k hk => ?_)
    TreeMap.ordered_keys TreeMap.ordered_keys
  obtain ⟨a, ha, rfl⟩ := mem_group.mp (TreeMap.mem_keys.mp hk)
  exact TreeMap.mem_keys.mpr (mem_group.mpr ⟨a, h.subset ha, rfl⟩)

theorem sum_length_group (key : α → κ) (l : List α) :
    ((group key l).toList.map fun e => e.2.length).sum = l.length := by
  rw [toList_group, List.map_map]
  exact sum_length_fiber (nodup_keys _) fun a ha => TreeMap.mem_keys.mpr (mem_group.mpr ⟨a, ha, rfl⟩)

end Group

end Foundation.Groups
