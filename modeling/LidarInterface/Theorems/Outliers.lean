import LidarInterface.Theorems.Selection
import Mathlib.Tactic.Linarith
import Mathlib.Tactic.NormNum

/-! Bins of three samples or more in which more than half of the samples agree. The medians then lie among these
    samples, the filters let all of them pass, and the bin is kept with a sample not far from them, whatever the
    other samples are. -/

namespace LidarInterface.Reader2
open Foundation Exact

/-- The sample lies within the bounds of the majority. -/
def Inlier (L H R1 R2 : ℚ) (s : LidarPoint) : Prop :=
  (L ≤ s.distance ∧ s.distance ≤ H) ∧ R1 ≤ (s.rssi.toNat : ℚ) ∧ (s.rssi.toNat : ℚ) ≤ R2

instance (L H R1 R2 : ℚ) : DecidablePred (Inlier L H R1 R2) := fun _ => inferInstanceAs (Decidable ((_ ∧ _) ∧ _ ∧ _))

section Majority
variable {samples : List LidarPoint} {L H R1 R2 : ℚ}
  (hmost : samples.length < 2 * samples.countP fun s => Inlier L H R1 R2 s)
include hmost

/-- A property that the inliers' values have is had by more than half of the values. -/
theorem most_of_inliers (f : LidarPoint → ℚ) (q : ℚ → Prop) [DecidablePred q]
    (hq : ∀ s, Inlier L H R1 R2 s → q (f s)) : (samples.map f).length < 2 * (samples.map f).countP fun x => q x := by
  have hle : (samples.countP fun s => Inlier L H R1 R2 s) ≤ samples.countP ((fun x => decide (q x)) ∘ f) :=
    List.countP_mono_left fun s _ hs => decide_eq_true (hq s (of_decide_eq_true hs))
  rw [List.length_map, List.countP_map]
  omega

theorem medianDistance_mem (h : samples ≠ []) : L ≤ medianDistance samples h ∧ medianDistance samples h ≤ H :=
  ⟨Select.le_median _ (most_of_inliers hmost _ _ fun _ hs => hs.1.1),
    Select.median_le _ (most_of_inliers hmost _ _ fun _ hs => hs.1.2)⟩

theorem medianRssi_mem (h : samples ≠ []) : R1 ≤ medianRssi samples h ∧ medianRssi samples h ≤ R2 :=
  ⟨Select.le_median _ (most_of_inliers hmost _ _ fun _ hs => hs.2.1),
    Select.median_le _ (most_of_inliers hmost _ _ fun _ hs => hs.2.2)⟩

theorem exists_inlier : ∃ s ∈ samples, Inlier L H R1 R2 s := by
  have hpos : 0 < samples.countP fun s => Inlier L H R1 R2 s := by omega
  obtain ⟨s, hs, hin⟩ := List.countP_pos_iff.mp hpos
  exact ⟨s, hs, of_decide_eq_true hin⟩

end Majority

section Filters
variable {d r L H R1 R2 : ℚ} (hd : L ≤ d ∧ d ≤ H) (hr : R1 ≤ r ∧ r ≤ R2) (hL : 0 < L) {s : LidarPoint}
include hd hr hL

omit hd hr hL in
theorem passes_iff (hpos : 0 < d) : Passes d r s ↔
    |s.distance - d| ≤ 1 / 2 * d ∧ r * (7 / 10) ≤ (s.rssi.toNat : ℚ) := by
  simp only [Passes, Exact.float_eq, div_le_iff₀ hpos, ge_iff_le]

/-- Medians among the inliers let every inlier pass. -/
theorem passes_of_inlier (hspread : 2 * H ≤ 3 * L) (hsignal : 7 * R2 ≤ 10 * R1) (hs : Inlier L H R1 R2 s) :
    Passes d r s := by
  obtain ⟨⟨hlow, hhigh⟩, hweak, -⟩ := hs
  exact (passes_iff (by linarith)).mpr ⟨abs_le.mpr ⟨by linarith, by linarith⟩, by linarith⟩

/-- What passes deviates by half of the median distance at most, and has 0.7 of the median strength. -/
theorem bounds_of_passes (hs : Passes d r s) :
    L / 2 ≤ s.distance ∧ s.distance ≤ 3 * H / 2 ∧ 7 / 10 * R1 ≤ (s.rssi.toNat : ℚ) := by
  obtain ⟨hdev, hsignal⟩ := (passes_iff (by linarith)).mp hs
  have hd' := abs_le.mp hdev
  exact ⟨by linarith, by linarith, by linarith⟩

end Filters

/-- A bin with such a majority is kept with a sample near the bounds. -/
theorem exists_keep_of_most {samples : List LidarPoint} {L H R1 R2 : ℚ} (hlen : 3 ≤ samples.length)
    (hpos : ∀ s ∈ samples, 0 < s.distance) (hmost : samples.length < 2 * samples.countP fun s => Inlier L H R1 R2 s)
    (hspread : 2 * H ≤ 3 * L) (hstrong : 20 < R1) (hsignal : 7 * R2 ≤ 10 * R1) :
    ∃ p ∈ samples, keep samples = some p ∧ L / 2 ≤ p.distance ∧ p.distance ≤ 3 * H / 2 ∧
      7 / 10 * R1 ≤ (p.rssi.toNat : ℚ) := by
  have h := ne_nil_of_three hlen
  have hd := medianDistance_mem hmost h
  have hr := medianRssi_mem hmost h
  obtain ⟨s, hs, hin⟩ := exists_inlier hmost
  have hL : 0 < L := by linarith [hpos s hs, hin.1.2]
  have hfiltered : s ∈ filteredSamples samples h :=
    mem_filteredSamples.mpr ⟨hs, passes_of_inlier hd hr hL hspread hsignal hin⟩
  obtain ⟨p, hp⟩ := Option.isSome_iff_exists.mp
    ((isSome_selectMulti h).mpr ⟨List.ne_nil_of_mem hfiltered, by linarith⟩)
  obtain ⟨hp', hpass⟩ := mem_filteredSamples.mp (selectMulti_mem hp)
  exact ⟨p, hp', (keep_of_three hlen h).trans hp, bounds_of_passes hd hr hL hpass⟩

/-- More than half of the samples of a bin lie in `[L, H]` and have signal strengths in `[R1, R2]`. Then the
    medians lie there too, and the bin is not counted as filtered, but kept with a sample near these bounds. -/
theorem majority_kept {samples : List LidarPoint} {L H R1 R2 : ℚ} (hlen : 3 ≤ samples.length)
    (hsample : ∀ s ∈ samples, isSample s = true)
    (hmost : samples.length < 2 * samples.countP fun s => Inlier L H R1 R2 s) (hspread : 2 * H ≤ 3 * L)
    (hstrong : 20 < R1) (hsignal : 7 * R2 ≤ 10 * R1) :
    (L ≤ medianDistance samples (ne_nil_of_three hlen) ∧ medianDistance samples (ne_nil_of_three hlen) ≤ H) ∧
    (R1 ≤ medianRssi samples (ne_nil_of_three hlen) ∧ medianRssi samples (ne_nil_of_three hlen) ≤ R2) ∧
    ∃ p ∈ samples, (∀ sel : Selection, sel.step samples = { sel with
        uniquePoints := sel.uniquePoints ++ [p], totalSamples := sel.totalSamples + samples.length }) ∧
      L / 2 ≤ p.distance ∧ p.distance ≤ 3 * H / 2 ∧ 7 / 10 * R1 ≤ (p.rssi.toNat : ℚ) := by
  have h := ne_nil_of_three hlen
  obtain ⟨p, hp, hkeep, hbounds⟩ :=
    exists_keep_of_most hlen (fun s hs => positive_of_isSample (hsample s hs)) hmost hspread hstrong hsignal
  refine ⟨medianDistance_mem hmost h, medianRssi_mem hmost h, p, hp, fun sel => ?_, hbounds⟩
  rw [step_eq sel h, hkeep]
  rfl

/-- Two samples at 1 m outweigh a strong third one at 10 m. -/
theorem majority_kept_two_of_three :
    ∃ p ∈ [(⟨0, 1, 30, true, true⟩ : LidarPoint), ⟨0, 10, 200, true, true⟩, ⟨0, 1, 30, true, false⟩],
      p.distance ≤ 3 * 1 / 2 := by
  obtain ⟨-, -, p, hp, -, -, hfar, -⟩ := @majority_kept
    [(⟨0, 1, 30, true, true⟩ : LidarPoint), ⟨0, 10, 200, true, true⟩, ⟨0, 1, 30, true, false⟩] 1 1 30 30
    (by decide) (by decide +kernel) (by decide +kernel) (by norm_num) (by norm_num) (by norm_num)
  exact ⟨p, hp, hfar⟩

end LidarInterface.Reader2
