import Mathlib.Data.List.Induction
import Mathlib.Data.List.Sort
import Mathlib.Data.List.Perm.Basic
import Mathlib.Order.Bounds.Basic
import Mathlib.Order.Lattice
import Mathlib.Logic.Function.Basic

/-! Choosing elements from a list: sorting, the element in the middle of the sorted list, and the scan for
    a smallest element under a comparator. Sorting and the median do not see the order of the list; a bound
    of more than half of the elements bounds the median, and repeating every element equally often keeps it.
    The scan returns a member whatever the comparator is; which members it can return, and when it returns the
    same one in every order, is read off the comparator.
    A running minimum or maximum that starts at a bound of the elements is the extreme one of them.
    The last section reads an array that a loop fills slot by slot. -/

namespace Foundation.Select

section Sorting
variable {α : Type*} [LinearOrder α] {l l' : List α}

/-- `std::sort` of values under their own order, where every sorting has the same result. -/
def sort (l : List α) : List α := l.insertionSort (· ≤ ·)

theorem sort_perm (l : List α) : (sort l).Perm l := List.perm_insertionSort _ _

@[simp] theorem length_sort (l : List α) : (sort l).length = l.length := (sort_perm l).length_eq

theorem sort_pairwise (l : List α) : (sort l).Pairwise (· ≤ ·) := List.pairwise_insertionSort _ l

theorem sort_getElem_le {i j : Nat} (hij : i ≤ j) (hj : j < (sort l).length) : (sort l)[i] ≤ (sort l)[j] := by
  rcases hij.eq_or_lt with rfl | hlt
  · exact le_rfl
  · exact List.pairwise_iff_getElem.mp (sort_pairwise l) i j (by omega) hj hlt

theorem sort_eq_of_perm (h : l.Perm l') : sort l = sort l' :=
  List.Perm.eq_of_pairwise' (sort_pairwise l) (sort_pairwise l')
    ((sort_perm l).trans (h.trans (sort_perm l').symm))

/-- The element at index `size / 2` of the sorted list. -/
def median (l : List α) (h : l ≠ []) : α :=
  (sort l).get ⟨l.length / 2, by
    have := List.length_pos_iff.mpr h
    rw [length_sort]
    omega⟩

theorem median_mem (l : List α) (h : l ≠ []) : median l h ∈ l := (sort_perm l).mem_iff.mp (List.get_mem _ _)

theorem median_eq_of_perm (h : l.Perm l') (hl : l ≠ []) (hl' : l' ≠ []) : median l hl = median l' hl' := by
  simp only [median, List.get_eq_getElem, sort_eq_of_perm h, h.length_eq]

section Majority
variable (h : l ≠ [])
include h

theorem half_lt : l.length / 2 < (sort l).length := by
  have := List.length_pos_iff.mpr h
  rw [length_sort]
  omega

/-- A bound below more than half of the elements is below the median. -/
theorem le_median {a : α} (hmost : l.length < 2 * l.countP (a ≤ ·)) : a ≤ median l h := by
  have hhalf := half_lt h
  by_contra hlt
  have hlow : ((sort l).take (l.length / 2 + 1)).countP (a ≤ ·) = 0 := by
    rw [List.countP_eq_zero]
    intro x hx hax
    obtain ⟨i, hi, rfl⟩ := List.mem_take_iff_getElem.mp hx
    have hle : (sort l)[i] ≤ (sort l)[l.length / 2] := sort_getElem_le (by omega) _
    exact hlt ((of_decide_eq_true hax).trans hle)
  have hrest := List.countP_le_length (p := (a ≤ ·)) (l := (sort l).drop (l.length / 2 + 1))
  have hsplit := @List.countP_append α (a ≤ ·) ((sort l).take (l.length / 2 + 1)) ((sort l).drop (l.length / 2 + 1))
  rw [List.take_append_drop, (sort_perm l).countP_eq, hlow] at hsplit
  rw [List.length_drop, length_sort] at hrest
  omega

/-- A bound above more than half of the elements is above the median. -/
theorem median_le {a : α} (hmost : l.length < 2 * l.countP (· ≤ a)) : median l h ≤ a := by
  have hhalf := half_lt h
  by_contra hlt
  have hhigh : ((sort l).drop (l.length / 2)).countP (· ≤ a) = 0 := by
    rw [List.countP_eq_zero]
    intro x hx hxa
    obtain ⟨i, hi, rfl⟩ := List.mem_drop_iff_getElem.mp hx
    have hle : (sort l)[l.length / 2] ≤ (sort l)[l.length / 2 + i] := sort_getElem_le (by omega) _
    exact hlt (hle.trans (of_decide_eq_true hxa))
  have hrest := List.countP_le_length (p := (· ≤ a)) (l := (sort l).take (l.length / 2))
  have hsplit := @List.countP_append α (· ≤ a) ((sort l).take (l.length / 2)) ((sort l).drop (l.length / 2))
  rw [List.take_append_drop, (sort_perm l).countP_eq, hhigh] at hsplit
  have hlen := List.length_take_le (l.length / 2) (sort l)
  omega

end Majority

section Repeat
variable {k : Nat}

omit [LinearOrder α] in
theorem flatten_replicate_perm (k : Nat) (l : List α) :
    ((List.replicate k l).flatten).Perm (l.flatMap (List.replicate k)) := by
  induction k with
  | zero =>
    have hnil : l.flatMap (List.replicate 0) = [] := List.flatMap_eq_nil_iff.mpr fun _ _ => rfl
    rw [hnil]
    exact List.Perm.refl []
  | succ k ih =>
    have hfront : l.flatMap (fun x => [x]) = l := List.flatMap_singleton' l
    have hsplit := List.flatMap_append_perm l (fun x => [x]) (List.replicate k)
    rw [hfront] at hsplit
    exact (ih.append_left l).trans hsplit

omit [LinearOrder α] in
theorem getElem?_flatMap_replicate (hk : 0 < k) (l : List α) (j : Nat) :
    (l.flatMap (List.replicate k))[j]? = l[j / k]? := by
  induction l generalizing j with
  | nil => rfl
  | cons a l ih =>
    rw [List.flatMap_cons]
    rcases Nat.lt_or_ge j k with hj | hj
    · rw [List.getElem?_append_left (by rwa [List.length_replicate]), List.getElem?_replicate_of_lt hj,
        Nat.div_eq_of_lt hj, List.getElem?_cons_zero]
    · have hdiv : j / k = (j - k) / k + 1 := by
        rw [← Nat.add_div_right _ hk, Nat.sub_add_cancel hj]
      rw [List.getElem?_append_right (by rwa [List.length_replicate]), List.length_replicate, ih, hdiv,
        List.getElem?_cons_succ]

/-- Sorting `k` copies of a list repeats every element of the sorted list in its place. -/
theorem sort_flatten_replicate (k : Nat) (l : List α) :
    sort (List.replicate k l).flatten = (sort l).flatMap (List.replicate k) := by
  refine List.Perm.eq_of_pairwise' (sort_pairwise _) ?_ ?_
  · refine List.pairwise_flatMap.mpr ⟨fun a _ => List.pairwise_replicate.mpr (Or.inr le_rfl), ?_⟩
    refine (sort_pairwise l).imp fun {a b} hab x hx y hy => ?_
    rw [List.eq_of_mem_replicate hx, List.eq_of_mem_replicate hy]
    exact hab
  · exact (sort_perm _).trans ((flatten_replicate_perm k l).trans ((sort_perm l).symm.flatMap_right _))

/-- The median does not change when every element is repeated equally often. -/
theorem median_flatten_replicate (hk : 0 < k) (h : l ≠ []) (h' : (List.replicate k l).flatten ≠ []) :
    median (List.replicate k l).flatten h' = median l h := by
  have hlen : (List.replicate k l).flatten.length = k * l.length := by
    rw [List.length_flatten, List.map_replicate, List.sum_replicate_nat]
  have hmiddle : k * l.length / 2 / k = l.length / 2 := by
    rw [Nat.div_div_eq_div_mul, Nat.mul_comm 2 k, Nat.mul_div_mul_left _ _ hk]
  have hget := getElem?_flatMap_replicate hk (sort l) (k * l.length / 2)
  rw [hmiddle, ← sort_flatten_replicate, ← hlen, List.getElem?_eq_getElem (half_lt h'),
    List.getElem?_eq_getElem (half_lt h)] at hget
  exact Option.some.inj hget

end Repeat

end Sorting

section Extremes
variable {α : Type*} [LinearOrder α]

/-- A running minimum that starts at `a`. -/
theorem isLeast_foldl_min (l : List α) (a : α) : IsLeast {x | x ∈ a :: l} (l.foldl min a) := by
  induction l generalizing a with
  | nil => exact ⟨List.mem_cons_self, fun x hx => (List.mem_singleton.mp hx).ge⟩
  | cons b l ih =>
    obtain ⟨hmem, hle⟩ := ih (min a b)
    have hstart : l.foldl min (min a b) ≤ min a b := hle List.mem_cons_self
    constructor
    · rcases List.mem_cons.mp hmem with he | hl
      · rcases le_total a b with hab | hba
        · exact List.mem_cons.mpr (Or.inl (he.trans (min_eq_left hab)))
        · exact List.mem_cons_of_mem a (List.mem_cons.mpr (Or.inl (he.trans (min_eq_right hba))))
      · exact List.mem_cons_of_mem a (List.mem_cons_of_mem b hl)
    · intro x hx
      rcases List.mem_cons.mp hx with rfl | hx
      · exact hstart.trans (min_le_left _ _)
      · rcases List.mem_cons.mp hx with rfl | hx
        · exact hstart.trans (min_le_right _ _)
        · exact hle (List.mem_cons_of_mem _ hx)

/-- Started at a bound of the elements, it is the least of them. -/
theorem isLeast_foldl_min_of_le {l : List α} (hne : l ≠ []) {a : α} (h : ∀ x ∈ l, x ≤ a) :
    IsLeast {x | x ∈ l} (l.foldl min a) := by
  obtain ⟨hmem, hle⟩ := isLeast_foldl_min l a
  refine ⟨?_, fun x hx => hle (List.mem_cons_of_mem a hx)⟩
  rcases List.mem_cons.mp hmem with he | hl
  · -- The start is not below the elements, so one of them equals it.
    obtain ⟨x, hx⟩ := List.exists_mem_of_ne_nil l hne
    have hax : a ≤ x := he ▸ hle (List.mem_cons_of_mem a hx)
    have hxa : l.foldl min a = x := he.trans (le_antisymm hax (h x hx))
    exact hxa ▸ hx
  · exact hl

theorem isGreatest_foldl_max_of_le {l : List α} (hne : l ≠ []) {a : α} (h : ∀ x ∈ l, a ≤ x) :
    IsGreatest {x | x ∈ l} (l.foldl max a) :=
  isLeast_foldl_min_of_le (α := αᵒᵈ) hne h

end Extremes

section Scan
variable {α : Type*} (lt : α → α → Bool)

/-- `*std::min_element` over the non-empty range `x :: xs`: the first element that no element seen before
    it beats, scanning left to right and keeping the current one on ties. -/
def minElement (x : α) (xs : List α) : α := xs.foldl (fun best y => if lt y best then y else best) x

theorem minElement_mem (x : α) (xs : List α) : minElement lt x xs ∈ x :: xs := by
  induction xs generalizing x with
  | nil => exact List.mem_cons_self
  | cons y ys ih =>
    have h := ih (if lt y x then y else x)
    rw [minElement, List.foldl_cons]
    rcases List.mem_cons.mp h with heq | hmem
    · rw [minElement] at heq
      rw [heq]
      split <;> simp
    · exact List.mem_cons_of_mem _ (List.mem_cons_of_mem _ hmem)

theorem minElement_cons (x y : α) (ys : List α) :
    minElement lt x (y :: ys) = minElement lt (if lt y x then y else x) ys := rfl

theorem minElement_append (x : α) (xs ys : List α) :
    minElement lt x (xs ++ ys) = minElement lt (minElement lt x xs) ys := List.foldl_append

/-- An element that nothing after it beats stays. -/
theorem minElement_eq_self {x : α} {xs : List α} (h : ∀ y ∈ xs, lt y x = false) : minElement lt x xs = x := by
  induction xs with
  | nil => rfl
  | cons y ys ih =>
    rw [minElement_cons, h y List.mem_cons_self]
    exact ih fun z hz => h z (List.mem_cons_of_mem y hz)

/-- The elements that some order of the list ends with: `a` stands on a ladder of elements each of which beats
    the next, and every other element fails to beat one of `a` and the ladder. -/
def CanWin (l : List α) (a : α) : Prop :=
  ∃ ladder rest, (a :: ladder ++ rest).Perm l ∧ (a :: ladder).IsChain (fun x y => lt x y = true) ∧
    ∀ y ∈ rest, ∃ x ∈ a :: ladder, lt y x = false

theorem CanWin.perm {l l' : List α} {a : α} (h : CanWin lt l a) (hperm : l.Perm l') : CanWin lt l' a := by
  obtain ⟨ladder, rest, hladder, hrest⟩ := h
  exact ⟨ladder, rest, hladder.trans hperm, hrest⟩

theorem CanWin.mem {l : List α} {a : α} (h : CanWin lt l a) : a ∈ l := by
  obtain ⟨ladder, rest, hperm, -, -⟩ := h
  exact hperm.subset (by simp)

theorem canWin_minElement (x : α) (xs : List α) : CanWin lt (x :: xs) (minElement lt x xs) := by
  induction xs using List.reverseRecOn with
  | nil => exact ⟨[], [], List.Perm.refl _, List.IsChain.singleton x, by simp⟩
  | append_singleton xs y ih =>
    obtain ⟨ladder, rest, hperm, hchain, hrest⟩ := ih
    rw [minElement_append, minElement_cons]
    cases hy : lt y (minElement lt x xs) with
    | true =>
      refine ⟨minElement lt x xs :: ladder, rest, ?_, List.isChain_cons_cons.mpr ⟨hy, hchain⟩, fun z hz => ?_⟩
      · exact (hperm.cons y).trans (List.perm_append_singleton y (x :: xs)).symm
      · obtain ⟨u, hu, hzu⟩ := hrest z hz
        exact ⟨u, List.mem_cons_of_mem y hu, hzu⟩
    | false =>
      refine ⟨ladder, y :: rest, ?_, hchain, fun z hz => ?_⟩
      · exact List.perm_middle.trans ((hperm.cons y).trans (List.perm_append_singleton y (x :: xs)).symm)
      · rcases List.mem_cons.mp hz with rfl | hz
        · exact ⟨_, List.mem_cons_self, hy⟩
        · exact hrest z hz

/-- Climbing the ladder, and letting each of the other elements fail where it does, ends with `a`. -/
theorem exists_order_of_ladder {ladder : List α} : ∀ {a : α} {rest : List α},
    (a :: ladder).IsChain (fun x y => lt x y = true) → (∀ y ∈ rest, ∃ x ∈ a :: ladder, lt y x = false) →
    ∃ x xs, (x :: xs).Perm (a :: ladder ++ rest) ∧ minElement lt x xs = a := by
  induction ladder with
  | nil =>
    intro a rest _ hrest
    refine ⟨a, rest, List.Perm.refl _, minElement_eq_self lt fun y hy => ?_⟩
    obtain ⟨x, hx, hyx⟩ := hrest y hy
    rwa [← List.mem_singleton.mp hx]
  | cons b ladder ih =>
    intro a rest hchain hrest
    obtain ⟨hab, hchain⟩ := List.isChain_cons_cons.mp hchain
    obtain ⟨x, xs, hperm, hmin⟩ := @ih b (rest.filter fun y => lt y a) hchain fun y hy => by
      obtain ⟨hy, hya⟩ := List.mem_filter.mp hy
      obtain ⟨u, hu, hyu⟩ := hrest y hy
      rcases List.mem_cons.mp hu with rfl | hu
      · rw [hya] at hyu
        cases hyu
      · exact ⟨u, hu, hyu⟩
    refine ⟨x, xs ++ a :: rest.filter (fun y => !lt y a), ?_, ?_⟩
    · have hsplit := List.filter_append_perm (fun y => lt y a) rest
      calc x :: (xs ++ a :: rest.filter (fun y => !lt y a))
          = x :: xs ++ a :: rest.filter (fun y => !lt y a) := rfl
        _ |>.Perm (a :: (x :: xs ++ rest.filter (fun y => !lt y a))) := List.perm_middle
        _ |>.Perm (a :: (b :: ladder ++ rest.filter (fun y => lt y a) ++ rest.filter (fun y => !lt y a))) :=
            (hperm.append_right _).cons a
        _ |>.Perm (a :: (b :: ladder) ++ rest) := by
            rw [List.append_assoc]
            exact (hsplit.append_left (b :: ladder)).cons a
    · rw [minElement_append, hmin, minElement_cons, hab]
      refine minElement_eq_self lt fun y hy => ?_
      simpa using (List.mem_filter.mp hy).2

theorem canWin_iff {l : List α} {a : α} : CanWin lt l a ↔ ∃ x xs, (x :: xs).Perm l ∧ minElement lt x xs = a := by
  constructor
  · rintro ⟨ladder, rest, hperm, hchain, hrest⟩
    obtain ⟨x, xs, horder, hmin⟩ := exists_order_of_ladder lt hchain hrest
    exact ⟨x, xs, horder.trans hperm, hmin⟩
  · rintro ⟨x, xs, hperm, rfl⟩
    exact (canWin_minElement lt x xs).perm lt hperm

section Winner
variable {κ : Type*} {key : α → κ} (hirrefl : ∀ a, lt a a = false) (hasymm : ∀ a b, lt a b = true → lt b a = false)
  (hkey : ∀ a b c d, key a = key b → key c = key d → lt a c = lt b d)
include hirrefl hasymm hkey

theorem not_lt_winner {w s : α} (h : key s = key w ∨ lt w s = true) : lt s w = false := by
  rcases h with h | h
  · rw [hkey s w w w h rfl, hirrefl]
  · exact hasymm w s h

/-- An element that beats every other one wins whatever the order, up to elements with its key. -/
theorem key_minElement {x w : α} {xs : List α} (hw : w ∈ x :: xs)
    (h : ∀ s ∈ x :: xs, key s = key w ∨ lt w s = true) : key (minElement lt x xs) = key w := by
  have hstay : ∀ s ∈ x :: xs, ∀ v, key v = key w → lt s v = false := fun s hs v hv => by
    rw [hkey s s v w rfl hv]
    exact not_lt_winner lt hirrefl hasymm hkey (h s hs)
  rcases List.mem_cons.mp hw with rfl | hw
  · rw [minElement_eq_self lt fun y hy => hstay y (List.mem_cons_of_mem _ hy) w rfl]
  · obtain ⟨xs, ys, rfl⟩ := List.append_of_mem hw
    have hys : ∀ v, key v = key w → ∀ y ∈ ys, lt y v = false := fun v hv y hy => hstay y (by simp [hy]) v hv
    have hbest : minElement lt x xs ∈ x :: (xs ++ w :: ys) := by
      have hmem := minElement_mem lt x xs
      exact List.mem_append_left (w :: ys) hmem
    rw [minElement_append, minElement_cons]
    rcases h _ hbest with he | hlt
    · rw [hstay w (by simp) _ he, if_neg Bool.false_ne_true, minElement_eq_self lt (hys _ he), he]
    · rw [if_pos hlt, minElement_eq_self lt (hys w rfl)]

/-- The scan returns an unbeaten element with the same key in every order of the list exactly when some element
    beats every element with another key. -/
theorem unbeaten_and_stable_iff (x : α) (xs : List α) :
    ((∀ s ∈ x :: xs, lt s (minElement lt x xs) = false) ∧
      ∀ y ys, (y :: ys).Perm (x :: xs) → key (minElement lt y ys) = key (minElement lt x xs)) ↔
    ∃ w ∈ x :: xs, ∀ s ∈ x :: xs, key s = key w ∨ lt w s = true := by
  classical
  constructor
  · rintro ⟨hunbeaten, hstable⟩
    refine ⟨_, minElement_mem lt x xs, fun s hs => ?_⟩
    by_contra hne
    obtain ⟨hks, htie⟩ := not_or.mp hne
    rw [Bool.not_eq_true] at htie
    -- With `s` first, no element with the key of the result replaces it, and the others have other keys.
    have hs' : s ∈ (x :: xs).filter fun v => !decide (key v = key (minElement lt x xs)) := by
      simpa [hks] using hs
    obtain ⟨us, vs, hothers⟩ := List.append_of_mem hs'
    have hperm : (s :: ((x :: xs).filter (fun v => key v = key (minElement lt x xs)) ++ (us ++ vs))).Perm
        (x :: xs) := by
      refine List.Perm.trans ?_ (List.filter_append_perm (fun v => key v = key (minElement lt x xs)) (x :: xs))
      rw [hothers]
      exact List.perm_middle.symm.trans (List.perm_middle.symm.append_left _)
    have hstay : minElement lt s ((x :: xs).filter fun v => key v = key (minElement lt x xs)) = s := by
      refine minElement_eq_self lt fun v hv => ?_
      rw [hkey v _ s s (of_decide_eq_true (List.mem_filter.mp hv).2) rfl, htie]
    have hothers' : ∀ v ∈ s :: (us ++ vs), key v ≠ key (minElement lt x xs) := fun v hv => by
      have hmem : v ∈ us ++ s :: vs := List.perm_middle.mem_iff.mpr hv
      rw [← hothers] at hmem
      simpa using (List.mem_filter.mp hmem).2
    have hresult := hstable _ _ hperm
    rw [minElement_append, hstay] at hresult
    exact hothers' _ (minElement_mem lt s _) hresult
  · rintro ⟨w, hw, h⟩
    refine ⟨fun s hs => ?_, fun y ys hperm => ?_⟩
    · rw [hkey s s _ w rfl (key_minElement lt hirrefl hasymm hkey hw h)]
      exact not_lt_winner lt hirrefl hasymm hkey (h s hs)
    · rw [key_minElement lt hirrefl hasymm hkey hw h]
      exact key_minElement lt hirrefl hasymm hkey (hperm.mem_iff.mpr hw) fun s hs => h s (hperm.mem_iff.mp hs)

end Winner

end Scan

section Fill
variable {ι κ α : Type*} [DecidableEq κ] {slot : ι → κ} {value : ι → α}

/-- A loop that writes `value i` to `slot i` for each `i` of a list leaves every other slot alone. -/
theorem foldl_update_of_notMem (l : List ι) (a : κ → α) {j : κ} (h : ∀ i ∈ l, slot i ≠ j) :
    l.foldl (fun a i => Function.update a (slot i) (value i)) a j = a j := by
  induction l generalizing a with
  | nil => rfl
  | cons i l ih =>
    rw [List.foldl_cons, ih _ fun i' hi' => h i' (List.mem_cons_of_mem i hi')]
    exact Function.update_of_ne (h i List.mem_cons_self).symm _ _

theorem foldl_update_of_mem {l : List ι} (hn : (l.map slot).Nodup) (a : κ → α) {i : ι} (hi : i ∈ l) :
    l.foldl (fun a i => Function.update a (slot i) (value i)) a (slot i) = value i := by
  induction l generalizing a with
  | nil => cases hi
  | cons i' l ih =>
    rw [List.map_cons, List.nodup_cons, List.mem_map] at hn
    rw [List.foldl_cons]
    rcases List.mem_cons.mp hi with rfl | hi
    · rw [foldl_update_of_notMem l _ fun i' hi' he => hn.1 ⟨i', hi', he⟩]
      exact Function.update_self _ _ _
    · exact ih hn.2 _ hi

end Fill

end Foundation.Select
