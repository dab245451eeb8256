import LidarInterface.Reader2.Visualizer
import Mathlib.Algebra.Order.Field.Basic
import Mathlib.Data.Rat.Cast.Order

/-! The selection loop of the visualizer. Each bin is kept with one of its samples or counted as filtered, and
    which of the two happens does not depend on the order of its samples. -/

namespace LidarInterface.Reader2
open Foundation Arithmetic

variable [Arithmetic]

/-! ### One bin -/

theorem positive_of_isSample {p : LidarPoint} (h : isSample p = true) : 0 < p.distance := by
  have hnonneg : 0 ≤ float (1 / 10) := lawful_float.nonneg (by norm_num)
  simp only [isSample, Bool.and_eq_true, decide_eq_true_eq] at h
  exact hnonneg.trans_lt h.1.1.2

def keep : List LidarPoint → Option LidarPoint
  | sample0 :: sample1 :: sample2 :: rest =>
    selectMulti (sample0 :: sample1 :: sample2 :: rest) three_ne_nil
  | [sample0, sample1] => selectTwo sample0 sample1
  | [sample0] => selectSingle sample0
  | [] => none

omit [Arithmetic] in
theorem ne_nil_of_three {samples : List LidarPoint} (h : 3 ≤ samples.length) : samples ≠ [] :=
  List.ne_nil_of_length_pos (Nat.lt_of_lt_of_le (by decide) h)

theorem keep_of_three {samples : List LidarPoint} (hlen : 3 ≤ samples.length) (h : samples ≠ []) :
    keep samples = selectMulti samples h := by
  match samples, hlen with
  | _ :: _ :: _ :: _, _ => rfl

/-- What the filter of a bin asks of a sample, given the medians. -/
def Passes (medianDistance medianRssi : ℚ) (sample : LidarPoint) : Prop :=
  float (|float (sample.distance - medianDistance)| / medianDistance) ≤ 1 / 2 ∧
    (sample.rssi.toNat : ℚ) ≥ float (medianRssi * float (7 / 10))

instance (d r : ℚ) : DecidablePred (Passes d r) := fun _ => inferInstanceAs (Decidable (_ ∧ _))

theorem filteredSamples_eq (samples : List LidarPoint) (h : samples ≠ []) : filteredSamples samples h =
    samples.filter fun sample => Passes (medianDistance samples h) (medianRssi samples h) sample := by
  refine List.filter_congr fun sample _ => ?_
  rw [Bool.eq_iff_iff, Bool.and_eq_true, decide_eq_true_iff, decide_eq_true_iff, decide_eq_true_iff]
  rfl

theorem mem_filteredSamples {samples : List LidarPoint} {h : samples ≠ []} {p : LidarPoint} :
    p ∈ filteredSamples samples h ↔ p ∈ samples ∧ Passes (medianDistance samples h) (medianRssi samples h) p := by
  rw [filteredSamples_eq, List.mem_filter, decide_eq_true_iff]

theorem selectMulti_eq_some {samples : List LidarPoint} {h : samples ≠ []} {p : LidarPoint} :
    selectMulti samples h = some p ↔ medianRssi samples h > 20 ∧ ∃ first rest,
      filteredSamples samples h = first :: rest ∧
      Select.minElement (closer (medianDistance samples h)) first rest = p := by
  unfold selectMulti
  split
  · next hnil => simp [hnil]
  · next first rest heq =>
    rw [heq]
    split
    · next hr => simp [hr]
    · next hr => simp [hr]

theorem selectMulti_mem {samples : List LidarPoint} {h : samples ≠ []} {p : LidarPoint}
    (hp : selectMulti samples h = some p) : p ∈ filteredSamples samples h := by
  obtain ⟨-, first, rest, heq, rfl⟩ := selectMulti_eq_some.mp hp
  rw [heq]
  exact Select.minElement_mem _ first rest

theorem selectTwo_mem {sample0 sample1 p : LidarPoint} (hp : selectTwo sample0 sample1 = some p) :
    p = sample0 ∨ p = sample1 := by
  simp only [selectTwo] at hp
  split at hp
  · obtain rfl := Option.some.inj hp
    split
    · exact Or.inl rfl
    · exact Or.inr rfl
  · cases hp

theorem keep_mem {samples : List LidarPoint} {p : LidarPoint} (hp : keep samples = some p) : p ∈ samples := by
  match samples, hp with
  | _ :: _ :: _ :: _, hp => exact (mem_filteredSamples.mp (selectMulti_mem hp)).1
  | [_, _], hp =>
    rcases selectTwo_mem hp with rfl | rfl
    · exact List.mem_cons_self
    · exact List.mem_cons_of_mem _ List.mem_cons_self
  | [sample0], hp =>
    simp only [keep, selectSingle] at hp
    split at hp
    · exact List.mem_singleton.mpr (Option.some.inj hp).symm
    · cases hp

/-! ### Order of the samples -/

section Perm
variable {samples samples' : List LidarPoint} (hperm : samples.Perm samples')
include hperm

omit [Arithmetic] in
theorem medianDistance_perm (h : samples ≠ []) (h' : samples' ≠ []) :
    medianDistance samples h = medianDistance samples' h' := Select.median_eq_of_perm (hperm.map _) _ _

omit [Arithmetic] in
theorem medianRssi_perm (h : samples ≠ []) (h' : samples' ≠ []) : medianRssi samples h = medianRssi samples' h' :=
  Select.median_eq_of_perm (hperm.map _) _ _

/-- The filter sees the other samples of the bin only through the medians. -/
theorem filteredSamples_perm (h : samples ≠ []) (h' : samples' ≠ []) :
    (filteredSamples samples h).Perm (filteredSamples samples' h') := by
  unfold filteredSamples
  rw [medianDistance_perm hperm h h', medianRssi_perm hperm h h']
  exact hperm.filter _

end Perm

theorem isSome_selectMulti {samples : List LidarPoint} (h : samples ≠ []) :
    (selectMulti samples h).isSome = true ↔ filteredSamples samples h ≠ [] ∧ medianRssi samples h > 20 := by
  unfold selectMulti
  split
  · next heq => simp [heq]
  · next heq =>
    rw [heq]
    split
    · next hr => simp [hr]
    · next hr => simp [hr]

theorem isSome_selectMulti_perm {samples samples' : List LidarPoint} (hperm : samples.Perm samples')
    (h : samples ≠ []) (h' : samples' ≠ []) : (selectMulti samples h).isSome = (selectMulti samples' h').isSome := by
  have hnil : filteredSamples samples h ≠ [] ↔ filteredSamples samples' h' ≠ [] := by
    rw [← List.length_pos_iff, ← List.length_pos_iff, (filteredSamples_perm hperm h h').length_eq]
  rw [Bool.eq_iff_iff, isSome_selectMulti, isSome_selectMulti, hnil, medianRssi_perm hperm h h']

omit [Arithmetic] in
theorem lt_min_iff {a b c : UInt8} : c < min a b ↔ c < a ∧ c < b := by
  have hmin : min a b = if a ≤ b then a else b := rfl
  rw [hmin]
  split
  · next h => exact ⟨fun hc => ⟨hc, UInt8.lt_of_lt_of_le hc h⟩, And.left⟩
  · next h => exact ⟨fun hc => ⟨UInt8.lt_trans hc (UInt8.not_le.mp h), hc⟩, And.right⟩

theorem isSome_selectTwo (a b : LidarPoint) : (selectTwo a b).isSome = true ↔
    float (|float (a.distance - b.distance)| / float (float (a.distance + b.distance) / 2)) ≤ float (3 / 10) ∧
      20 < a.rssi ∧ 20 < b.rssi := by
  rw [← lt_min_iff, selectTwo]
  split
  · next h => exact iff_of_true rfl h
  · next h => exact iff_of_false Bool.false_ne_true h

theorem isSome_selectTwo_swap (a b : LidarPoint) : (selectTwo a b).isSome = (selectTwo b a).isSome := by
  rw [Bool.eq_iff_iff, isSome_selectTwo, isSome_selectTwo, lawful_float.abs_sub_comm, add_comm a.distance,
    @and_comm (20 < a.rssi)]

omit [Arithmetic] in
theorem perm_two {a b c d : LidarPoint} (h : [a, b].Perm [c, d]) : a = c ∧ b = d ∨ a = d ∧ b = c := by
  rcases List.mem_pair.mp (h.subset List.mem_cons_self) with rfl | rfl
  · exact Or.inl ⟨rfl, List.singleton_perm_singleton.mp ((List.perm_cons a).mp h)⟩
  · have hcons := (h.trans (List.Perm.swap a c []))
    exact Or.inr ⟨rfl, List.singleton_perm_singleton.mp ((List.perm_cons a).mp hcons)⟩

theorem isSome_keep_perm {samples samples' : List LidarPoint} (h : samples.Perm samples') :
    (keep samples).isSome = (keep samples').isSome := by
  have hlen := h.length_eq
  match samples, samples' with
  | [], [] => rfl
  | [a], [b] => rw [List.singleton_perm_singleton.mp h]
  | [a, b], [c, d] =>
    rcases perm_two h with ⟨rfl, rfl⟩ | ⟨rfl, rfl⟩
    · rfl
    · exact isSome_selectTwo_swap a b
  | _ :: _ :: _ :: _, _ :: _ :: _ :: _ => exact isSome_selectMulti_perm h _ _

/-! ### The loop over the bins -/

theorem step_eq (sel : Selection) {samples : List LidarPoint} (h : samples ≠ []) :
    sel.step samples = { sel with totalSamples := sel.totalSamples + samples.length }.settle (keep samples) := by
  match samples, h with
  | _ :: _ :: _ :: _, _ => rfl
  | [_, _], _ => rfl
  | [_], _ => rfl

/-- The loop keeps the points of the kept bins in key order, and counts the other bins and all samples. -/
theorem foldl_step (bins : List (Int × List LidarPoint)) (h : ∀ bin ∈ bins, bin.2 ≠ []) (sel : Selection) :
    bins.foldl (fun sel bin => sel.step bin.2) sel =
      { uniquePoints := sel.uniquePoints ++ bins.filterMap fun bin => keep bin.2
        filteredBins := sel.filteredBins + bins.countP fun bin => (keep bin.2).isNone
        totalSamples := sel.totalSamples + (bins.map fun bin => bin.2.length).sum } := by
  induction bins generalizing sel with
  | nil => simp
  | cons bin bins ih =>
    rw [List.foldl_cons, ih (fun b hb => h b (List.mem_cons_of_mem _ hb)), step_eq sel (h bin List.mem_cons_self)]
    cases hk : keep bin.2 with
    | none => simp [Selection.settle, hk, Nat.add_assoc, Nat.add_comm]
    | some p => simp [Selection.settle, hk, Nat.add_assoc]

theorem length_keep_add_filtered (bins : List (Int × List LidarPoint)) :
    (bins.filterMap fun bin => keep bin.2).length + bins.countP (fun bin => (keep bin.2).isNone) = bins.length := by
  have hnone : ∀ bin : Int × List LidarPoint, decide ¬(keep bin.2).isSome = true = (keep bin.2).isNone := fun bin => by
    cases keep bin.2 <;> rfl
  rw [List.length_filterMap_eq_countP, List.length_eq_countP_add_countP fun bin => (keep bin.2).isSome]
  simp only [hnone]

end LidarInterface.Reader2
