import LidarInterface.Theorems.Selection
import Mathlib.Tactic.NormNum

/-! The choice of one sample among the filtered samples of a bin. The comparator lets the signal strength decide
    between two samples whose deviations from the median are less than 100 mm apart, so it is not transitive:
    the sample that the scan ends with can be beaten by another one, it depends on the order of arrival, and it
    can lie farther from the median than the tolerance allows. -/

namespace LidarInterface.Reader2
open Foundation Exact

/-! ### The comparator -/

def deviation (median : ℚ) (p : LidarPoint) : ℚ := |p.distance - median|

/-- What the comparator reads of a sample. -/
def rank (median : ℚ) (p : LidarPoint) : ℚ × UInt8 := (deviation median p, p.rssi)

section Comparator
variable {median : ℚ} {a b c d : LidarPoint}

theorem closer_iff : closer median a b = true ↔
    if |deviation median a - deviation median b| < 1 / 10 then a.rssi > b.rssi
    else deviation median a < deviation median b := by
  unfold closer deviation
  simp only [Exact.float_eq]
  split <;> rw [decide_eq_true_iff]

theorem closer_of_near (h : |deviation median a - deviation median b| < 1 / 10) (hr : a.rssi > b.rssi) :
    closer median a b = true := by
  rw [closer_iff, if_pos h]
  exact hr

theorem closer_of_far (h : deviation median a + 1 / 10 ≤ deviation median b) : closer median a b = true := by
  have hfar : ¬|deviation median a - deviation median b| < 1 / 10 := fun hnear => by
    linarith [(abs_lt.mp hnear).1]
  rw [closer_iff, if_neg hfar]
  linarith

theorem closer_irrefl (a : LidarPoint) : closer median a a = false := by
  rw [← Bool.not_eq_true, closer_iff, sub_self, abs_zero, if_pos (by norm_num)]
  exact UInt8.lt_irrefl _

theorem closer_asymm (a b : LidarPoint) (h : closer median a b = true) : closer median b a = false := by
  rw [← Bool.not_eq_true]
  intro h'
  rw [closer_iff] at h h'
  rw [abs_sub_comm] at h'
  split at h
  · next hnear =>
    rw [if_pos hnear] at h'
    exact UInt8.lt_asymm h h'
  · next hfar =>
    rw [if_neg hfar] at h'
    exact lt_asymm h h'

theorem closer_congr (a b c d : LidarPoint) (hab : rank median a = rank median b)
    (hcd : rank median c = rank median d) : closer median a c = closer median b d := by
  obtain ⟨hda, hra⟩ := Prod.ext_iff.mp hab
  obtain ⟨hdc, hrc⟩ := Prod.ext_iff.mp hcd
  simp only [rank] at hda hra hdc hrc
  rw [Bool.eq_iff_iff, closer_iff, closer_iff, hda, hra, hdc, hrc]

end Comparator

/-- Three samples 60 mm apart, the farther ones with the stronger signals, beat each other in a circle. -/
theorem not_strictWeakOrder (median : ℚ) :
    ¬IsStrictWeakOrder LidarPoint fun a b => closer median a b = true := by
  intro h
  let sample := fun (d : ℚ) (r : UInt8) => (⟨0, median + d, r, true, true⟩ : LidarPoint)
  have hdev : ∀ d : ℚ, 0 ≤ d → ∀ r, deviation median (sample d r) = d := fun d hd r => by
    simp only [sample, deviation, add_sub_cancel_left, abs_of_nonneg hd]
  have hstep : ∀ (d : ℚ) (r r' : UInt8), 0 ≤ d → r' > r →
      closer median (sample (d + 6 / 100) r') (sample d r) = true := fun d r r' hd hr => by
    refine closer_of_near ?_ hr
    rw [hdev _ (by linarith), hdev _ hd, add_sub_cancel_left]
    norm_num
  have hback : closer median (sample 0 30) (sample (0 + 6 / 100 + 6 / 100) 50) = true := by
    refine closer_of_far ?_
    rw [hdev _ le_rfl, hdev _ (by norm_num)]
    norm_num
  have htrans := h.toIsStrictOrder.toIsTrans.trans _ _ _ (hstep (0 + 6 / 100) 40 50 (by norm_num) (by decide))
    (hstep 0 30 40 le_rfl (by decide))
  rw [closer_asymm _ _ hback] at htrans
  cases htrans

/-! ### The result of the scan -/

/-- The result of the scan is beaten by no sample, and every order of the samples leads to the same deviation and
    signal strength. -/
structure GenuineMinimum (median : ℚ) (first : LidarPoint) (rest : List LidarPoint) : Prop where
  unbeaten : ∀ s ∈ first :: rest, closer median s (Select.minElement (closer median) first rest) = false
  stable : ∀ first' rest', (first' :: rest').Perm (first :: rest) →
    rank median (Select.minElement (closer median) first' rest') =
      rank median (Select.minElement (closer median) first rest)

/-- The scan finds a genuine minimum exactly when one of the samples beats all that differ from it in deviation
    or signal strength. The comparator is a strict weak ordering for no median. -/
theorem genuineMinimum_iff (median : ℚ) : (∀ (first : LidarPoint) (rest : List LidarPoint),
    GenuineMinimum median first rest ↔
      ∃ w ∈ first :: rest, ∀ s ∈ first :: rest, rank median s = rank median w ∨ closer median w s = true) ∧
    ¬IsStrictWeakOrder LidarPoint fun a b => closer median a b = true := by
  refine ⟨fun first rest => ?_, not_strictWeakOrder median⟩
  rw [← Select.unbeaten_and_stable_iff (closer median) closer_irrefl closer_asymm closer_congr]
  exact ⟨fun h => ⟨h.unbeaten, h.stable⟩, fun h => ⟨h.1, h.2⟩⟩

/-! ### A circle of samples -/

def sampleAt (distance : ℚ) (rssi : UInt8) : LidarPoint := ⟨0, distance, rssi, true, true⟩

/-- Samples at 1000, 940 and 1120 mm, in this order of arrival: the second is stronger than the first, and the
    third than the second. -/
def circleBin : List LidarPoint := [sampleAt 1 30, sampleAt (94 / 100) 40, sampleAt (112 / 100) 50]

theorem circleBin_ne_nil : circleBin ≠ [] := List.cons_ne_nil _ _

theorem medianDistance_circleBin : medianDistance circleBin circleBin_ne_nil = 1 :=
  le_antisymm (Select.median_le _ (by decide +kernel)) (Select.le_median _ (by decide +kernel))

theorem medianRssi_circleBin : medianRssi circleBin circleBin_ne_nil = 40 :=
  le_antisymm (Select.median_le _ (by decide +kernel)) (Select.le_median _ (by decide +kernel))

theorem filteredSamples_circleBin : filteredSamples circleBin circleBin_ne_nil = circleBin := by
  rw [filteredSamples_eq, medianDistance_circleBin, medianRssi_circleBin]
  decide +kernel

/-- All three samples of the circle pass the filters of their bin, and none of them is a minimum. -/
theorem not_genuineMinimum_circleBin :
    filteredSamples circleBin circleBin_ne_nil = sampleAt 1 30 :: [sampleAt (94 / 100) 40, sampleAt (112 / 100) 50] ∧
    ¬GenuineMinimum (medianDistance circleBin circleBin_ne_nil) (sampleAt 1 30)
      [sampleAt (94 / 100) 40, sampleAt (112 / 100) 50] := by
  refine ⟨filteredSamples_circleBin, fun h => ?_⟩
  have hbeaten := h.unbeaten (sampleAt 1 30) List.mem_cons_self
  rw [medianDistance_circleBin] at hbeaten
  exact absurd hbeaten (by decide +kernel)

/-! ### Distance to the median -/

/-- The sample that a bin is kept with deviates from the median less than 100 mm more than any filtered one. -/
def CloseToMedian (samples : List LidarPoint) : Prop :=
  ∀ (h : samples ≠ []) (p : LidarPoint), keep samples = some p → ∀ q ∈ filteredSamples samples h,
    deviation (medianDistance samples h) p < deviation (medianDistance samples h) q + 1 / 10

/-- No ladder of filtered samples, each beating the next, with every other one failing to beat one of them, has
    a top that deviates 100 mm more than another filtered sample. -/
def NoFarLadder (samples : List LidarPoint) : Prop :=
  ∀ (h : samples ≠ []) (p : LidarPoint),
    Select.CanWin (closer (medianDistance samples h)) (filteredSamples samples h) p →
      ∀ q ∈ filteredSamples samples h,
        deviation (medianDistance samples h) p < deviation (medianDistance samples h) q + 1 / 10

section Orders
variable [Arithmetic] {samples : List LidarPoint} {p : LidarPoint} (hlen : 3 ≤ samples.length) (h : samples ≠ [])
include hlen

theorem canWin_of_keep (hp : keep samples = some p) : medianRssi samples h > 20 ∧
    Select.CanWin (closer (medianDistance samples h)) (filteredSamples samples h) p := by
  rw [keep_of_three hlen h] at hp
  obtain ⟨hr, first, rest, heq, rfl⟩ := selectMulti_eq_some.mp hp
  rw [heq]
  exact ⟨hr, Select.canWin_minElement _ first rest⟩

/-- What can win among the filtered samples is kept in some order of arrival: the filtered samples in the order
    that it wins in, and then the others. -/
theorem exists_perm_keep (hr : medianRssi samples h > 20)
    (hp : Select.CanWin (closer (medianDistance samples h)) (filteredSamples samples h) p) :
    ∃ samples', samples'.Perm samples ∧ keep samples' = some p := by
  obtain ⟨first, rest, hperm, hmin⟩ := (Select.canWin_iff _).mp hp
  have hsplit := List.filter_append_perm
    (fun s => decide (Passes (medianDistance samples h) (medianRssi samples h) s)) samples
  rw [← filteredSamples_eq] at hsplit
  have horder := (hperm.append_right _).trans hsplit
  refine ⟨_, horder, ?_⟩
  have h' := ne_nil_of_three (horder.length_eq ▸ hlen)
  rw [keep_of_three (horder.length_eq ▸ hlen) h', selectMulti_eq_some, medianRssi_perm horder h' h,
    medianDistance_perm horder h' h]
  refine ⟨hr, first, rest, ?_, hmin⟩
  rw [filteredSamples_eq, medianDistance_perm horder h' h, medianRssi_perm horder h' h, List.filter_append]
  have hpass : (first :: rest).filter (fun s => Passes (medianDistance samples h) (medianRssi samples h) s) =
      first :: rest := by
    refine List.filter_eq_self.mpr fun s hs => ?_
    exact decide_eq_true (mem_filteredSamples.mp (hperm.mem_iff.mp hs)).2
  rw [hpass, List.append_right_eq_self, List.filter_eq_nil_iff]
  intro s hs
  simpa using (List.mem_filter.mp hs).2

/-- Over all orders of arrival, a bin is kept with the samples that can win among its filtered ones. -/
theorem forall_perm_keep_iff (P : LidarPoint → Prop) :
    (∀ samples', samples'.Perm samples → ∀ p, keep samples' = some p → P p) ↔ (medianRssi samples h > 20 →
      ∀ p, Select.CanWin (closer (medianDistance samples h)) (filteredSamples samples h) p → P p) := by
  constructor
  · intro hall hr p hp
    obtain ⟨samples', hperm, hkeep⟩ := exists_perm_keep hlen h hr hp
    exact hall samples' hperm p hkeep
  · intro hall samples' hperm p hp
    have h' := ne_nil_of_three (hperm.length_eq ▸ hlen)
    obtain ⟨hr, hwin⟩ := canWin_of_keep (hperm.length_eq ▸ hlen) h' hp
    rw [medianRssi_perm hperm h' h] at hr
    rw [medianDistance_perm hperm h' h] at hwin
    exact hall hr p (hwin.perm _ (filteredSamples_perm hperm h' h))

end Orders

theorem closeToMedian_perm {samples samples' : List LidarPoint} (hperm : samples'.Perm samples) (h : samples ≠ []) :
    CloseToMedian samples' ↔ ∀ p, keep samples' = some p → ∀ q ∈ filteredSamples samples h,
      deviation (medianDistance samples h) p < deviation (medianDistance samples h) q + 1 / 10 := by
  have h' : samples' ≠ [] := fun hnil => h (List.nil_perm.mp (hnil ▸ hperm))
  have hmem : ∀ q, q ∈ filteredSamples samples' h' ↔ q ∈ filteredSamples samples h := fun q =>
    (filteredSamples_perm hperm h' h).mem_iff
  constructor
  · intro hclose p hp q hq
    have hnear := hclose h' p hp q ((hmem q).mpr hq)
    rwa [medianDistance_perm hperm h' h] at hnear
  · intro hclose _ p hp q hq
    rw [medianDistance_perm hperm h' h]
    exact hclose p hp q ((hmem q).mp hq)

/-- A kept bin of three samples or more yields a sample close to the median in every order of arrival exactly
    when no ladder of its filtered samples ends 100 mm farther from the median than another of them. -/
theorem closeToMedian_iff {samples : List LidarPoint} (hlen : 3 ≤ samples.length)
    (hkept : (keep samples).isSome = true) :
    (∀ samples', samples'.Perm samples → CloseToMedian samples') ↔ NoFarLadder samples := by
  have h := ne_nil_of_three hlen
  have hr : medianRssi samples h > 20 := by
    rw [keep_of_three hlen h, isSome_selectMulti] at hkept
    exact hkept.2
  calc (∀ samples', samples'.Perm samples → CloseToMedian samples')
      ↔ ∀ samples', samples'.Perm samples → ∀ p, keep samples' = some p → ∀ q ∈ filteredSamples samples h,
          deviation (medianDistance samples h) p < deviation (medianDistance samples h) q + 1 / 10 :=
        forall₂_congr fun _ hperm => closeToMedian_perm hperm h
    _ ↔ NoFarLadder samples := by
        rw [forall_perm_keep_iff hlen h]
        exact ⟨fun hall _ => hall hr, fun hall _ => hall h⟩

theorem keep_circleBin : keep circleBin = some (sampleAt (112 / 100) 50) := by
  rw [keep_of_three (by decide) circleBin_ne_nil, selectMulti_eq_some, medianRssi_circleBin, medianDistance_circleBin]
  exact ⟨by norm_num, _, _, filteredSamples_circleBin, by decide +kernel⟩

theorem not_close_circleBin : ¬CloseToMedian circleBin := by
  intro h
  have hmem : sampleAt 1 30 ∈ filteredSamples circleBin circleBin_ne_nil := by
    rw [filteredSamples_circleBin]
    exact List.mem_cons_self
  have hnear := h circleBin_ne_nil _ keep_circleBin _ hmem
  rw [medianDistance_circleBin] at hnear
  exact absurd hnear (by decide +kernel)

theorem not_noFarLadder_circleBin : ¬NoFarLadder circleBin := fun h =>
  not_close_circleBin ((closeToMedian_iff (by decide) (by rw [keep_circleBin]; rfl)).mpr h _ (List.Perm.refl _))

/-- The circle is kept with its third sample, 120 mm off the median, where the first one lies on it. -/
theorem not_closeToMedian_circleBin :
    3 ≤ circleBin.length ∧ (keep circleBin).isSome = true ∧ ¬CloseToMedian circleBin :=
  ⟨by decide, by rw [keep_circleBin]; rfl, not_close_circleBin⟩

end LidarInterface.Reader2
