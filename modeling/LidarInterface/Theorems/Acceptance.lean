import LidarInterface.Theorems.Closest
import LidarInterface.Theorems.Visualizer

/-! What the acceptance rules of the bins promise about the output of a run: how weak a point can be, and whether
    enough points are left for the statistics that are printed last. Both hold for the `float` of any machine. -/

namespace LidarInterface.Reader2
open Foundation Format Arithmetic

/-! ### Signal strength -/

section Rounded
variable [Arithmetic]

/-- No ladder of the filtered samples of a bin of three samples or more, whose median signal strength is accepted,
    ends in a sample with a signal strength of 20 or less. -/
def StrongBin (samples : List LidarPoint) : Prop :=
  3 ≤ samples.length → ∀ h : samples ≠ [], medianRssi samples h > 20 → ∀ p,
    Select.CanWin (closer (medianDistance samples h)) (filteredSamples samples h) p → 20 < p.rssi

/-- Of one or two samples, only strong ones are kept. -/
theorem rssi_of_keep_few {samples : List LidarPoint} {p : LidarPoint} (hlen : samples.length < 3)
    (hp : keep samples = some p) : 20 < p.rssi := by
  match samples, hp with
  | [s], hp =>
    simp only [keep, selectSingle] at hp
    split at hp
    · next hr =>
      obtain rfl := Option.some.inj hp
      exact UInt8.lt_trans (by decide) hr
    · cases hp
  | [s, s'], hp =>
    obtain ⟨-, hs, hs'⟩ := (isSome_selectTwo s s').mp (Option.isSome_iff_exists.mpr ⟨p, hp⟩)
    rcases selectTwo_mem hp with rfl | rfl
    · exact hs
    · exact hs'

theorem strongBin_iff (samples : List LidarPoint) :
    (∀ samples', samples'.Perm samples → ∀ p, keep samples' = some p → 20 < p.rssi) ↔ StrongBin samples := by
  rcases Nat.lt_or_ge samples.length 3 with hlen | hlen
  · refine iff_of_true (fun samples' hperm p hp => ?_) fun hlen' => absurd hlen' (by omega)
    exact rssi_of_keep_few (hperm.length_eq ▸ hlen) hp
  · have h := ne_nil_of_three hlen
    rw [forall_perm_keep_iff hlen h]
    exact ⟨fun hall _ _ => hall, fun hall => hall hlen h⟩

theorem rssi_of_row {points : List LidarPoint} (h : ∀ p ∈ points, 20 < p.rssi) :
    ∀ row ∈ csvRows points, 20 < row.rssi := by
  intro row hrow
  obtain ⟨p, hp, rfl⟩ := List.mem_map.mp hrow
  exact UInt8.lt_iff_toNat_lt.mp (h p (List.mem_of_mem_filter hp))

/-- Every point that a run outputs has a signal strength above 20, and so has every row of the file, if no bin of
    the run has a ladder that ends in a weak sample. For a single bin and all orders of arrival of its samples
    this is exactly what keeps a weak sample from being output. -/
theorem output_strong {host : ByteOrder} {rs : List Recv} {st : Collector} (h : Collects host rs st) :
    ((∀ bin ∈ st.angleMap.toList, StrongBin bin.2) →
      (∀ p ∈ (select st.angleMap).uniquePoints, 20 < p.rssi) ∧
      ∀ rep, report st.angleMap = some rep → ∀ row ∈ rep.rows, 20 < row.rssi) ∧
    ∀ bin ∈ st.angleMap.toList,
      ((∀ samples', samples'.Perm bin.2 → ∀ p, keep samples' = some p → 20 < p.rssi) ↔ StrongBin bin.2) := by
  refine ⟨fun hbins => ?_, fun bin _ => strongBin_iff bin.2⟩
  have hunique : ∀ p ∈ (select st.angleMap).uniquePoints, 20 < p.rssi := fun p hp => by
    rw [h.angleMap_eq, select_group, ← h.angleMap_eq] at hp
    obtain ⟨bin, hbin, hk⟩ := List.mem_filterMap.mp hp
    exact (strongBin_iff bin.2).mpr (hbins bin hbin) bin.2 (List.Perm.refl _) p hk
  refine ⟨hunique, fun rep hrep => ?_⟩
  obtain ⟨hpoints, hrows⟩ := uniquePoints_report h hrep
  rw [hrows, hpoints]
  exact rssi_of_row hunique

/-- A ladder ends in a filtered sample. -/
theorem strongBin_of_filtered {samples : List LidarPoint}
    (hstrong : ∀ h : samples ≠ [], ∀ p ∈ filteredSamples samples h, 20 < p.rssi) : StrongBin samples :=
  fun _ h _ p hp => hstrong h p (hp.mem _)

end Rounded

open Ieee in
/-- The weak sample at 0 degrees is filtered out, and the one at 24 degrees is alone in its bin. -/
theorem output_strong_scene :
    let points := (select (collect .little (fun _ => 0) (returnRun scene)).angleMap).uniquePoints
    points.map (·.rssi) = [50, 60, 40] ∧ ∀ p ∈ points, 20 < p.rssi := by
  intro points
  have hrun := @collects_returnRun scene _ (fun _ => 0) (by decide) .little
  have hmap := @angleMap_returnRun scene _ (fun _ => 0) (by decide) (by decide)
  have hrssi : points.map (·.rssi) = [50, 60, 40] := by
    simp only [points, hmap]
    decide +kernel
  refine ⟨hrssi, ((output_strong hrun).1 ?_).1⟩
  rw [hmap]
  have hfiltered : ∀ bin ∈ (Groups.group angleBin (scene.map Return.sample)).toList, 3 ≤ bin.2.length →
      ∀ h : bin.2 ≠ [], ∀ p ∈ filteredSamples bin.2 h, 20 < p.rssi := by decide +kernel
  exact fun bin hbin hlen => strongBin_of_filtered (hfiltered bin hbin hlen) hlen

/-- Samples of strength 22 at 800 and 1200 mm around one of strength 16 at 1000 mm, which lies on the median. -/
def weakReturns : List Return := [.inBlock 0 1000 16, .inBlock 0 800 22, .inBlock 0 1200 22]

open Ieee in
/-- The weak sample of this run is output. -/
theorem not_output_strong :
    let st := collect .little (fun _ => 0) (returnRun weakReturns)
    Collects .little (returnRun weakReturns) st ∧ st.packetCount = maxPackets ∧
      ∃ p ∈ (select st.angleMap).uniquePoints, ¬20 < p.rssi := by
  intro st
  refine ⟨collects_returnRun _ (by decide) .little, packetCount_returnRun _ (by decide) _, ?_⟩
  have hmap : st.angleMap = Groups.group angleBin (weakReturns.map Return.sample) :=
    angleMap_returnRun _ (by decide) (by decide)
  rw [hmap]
  decide +kernel

/-! ### The statistics printed last -/

section Rounded
variable [Arithmetic]

/-- A bin is kept: one sample is strong; of two both are, and they agree; of more the median is strong, and some
    sample passes the filters. -/
def Acceptable : List LidarPoint → Prop
  | [] => False
  | [s] => 25 < s.rssi
  | [s, s'] => float (|float (s.distance - s'.distance)| / float (float (s.distance + s'.distance) / 2)) ≤
      float (3 / 10) ∧ 20 < s.rssi ∧ 20 < s'.rssi
  | s :: s' :: s'' :: rest => medianRssi (s :: s' :: s'' :: rest) three_ne_nil > 20 ∧
      ∃ p ∈ s :: s' :: s'' :: rest, Passes (medianDistance (s :: s' :: s'' :: rest) three_ne_nil)
        (medianRssi (s :: s' :: s'' :: rest) three_ne_nil) p

theorem isSome_keep_iff (samples : List LidarPoint) : (keep samples).isSome = true ↔ Acceptable samples := by
  match samples with
  | [] => exact iff_of_false Bool.false_ne_true id
  | [s] =>
    simp only [keep, selectSingle, Acceptable]
    split
    · next hr => exact iff_of_true rfl hr
    · next hr => exact iff_of_false Bool.false_ne_true hr
  | [s, s'] => exact isSome_selectTwo s s'
  | s :: s' :: s'' :: rest =>
    have hfiltered : filteredSamples (s :: s' :: s'' :: rest) three_ne_nil ≠ [] ↔ ∃ p ∈ s :: s' :: s'' :: rest,
        Passes (medianDistance (s :: s' :: s'' :: rest) three_ne_nil)
          (medianRssi (s :: s' :: s'' :: rest) three_ne_nil) p := by
      constructor
      · intro hne
        obtain ⟨p, hp⟩ := List.exists_mem_of_ne_nil _ hne
        exact ⟨p, mem_filteredSamples.mp hp⟩
      · rintro ⟨p, hp⟩
        exact List.ne_nil_of_mem (mem_filteredSamples.mpr hp)
    exact (isSome_selectMulti three_ne_nil).trans (by rw [hfiltered, and_comm]; rfl)

instance : DecidablePred Acceptable := fun samples => decidable_of_iff _ (isSome_keep_iff samples)

/-- The first and the last point exist, and the span is divided by 1 at least. -/
def SafeTail (uniquePoints : List LidarPoint) : Prop := ∃ c, coverage uniquePoints = some c ∧ 1 ≤ c.divisor

theorem coverage_ne_none_iff (points : List LidarPoint) : coverage points ≠ none ↔ 1 ≤ points.length := by
  cases points with
  | nil => exact iff_of_false (fun h => h rfl) (by decide)
  | cons p ps => exact iff_of_true (by simp [coverage, List.getLast?_cons]) (Nat.le_add_left 1 ps.length)

theorem safeTail_iff {points : List LidarPoint} (hlen : points.length ≤ 720) : SafeTail points ↔ 2 ≤ points.length := by
  cases points with
  | nil => exact iff_of_false (fun ⟨_, hc, _⟩ => by cases hc) (by decide)
  | cons p ps =>
    have hdivisor : (1 : UInt64) ≤ .ofNat (p :: ps).length - 1 ↔ 2 ≤ (p :: ps).length := by
      have hone : (1 : UInt64).toNat = 1 := rfl
      rw [UInt64.le_iff_toNat_le, UInt64.toNat_sub, UInt64.toNat_ofNat', hone]
      rw [List.length_cons] at hlen ⊢
      omega
    rw [SafeTail, coverage, List.head?_cons, List.getLast?_cons, ← hdivisor]
    simp

/-- After a run that has collected samples, the first and last point exist exactly when some bin is acceptable, and
    the statistics are safe exactly when two bins are. -/
theorem report_tail_iff {host : ByteOrder} {rs : List Recv} {st : Collector} (h : Collects host rs st)
    (hne : st.angleMap.isEmpty = false) :
    ∃ rep, report st.angleMap = some rep ∧
      (coverage rep.uniquePoints ≠ none ↔ ∃ bin ∈ st.angleMap.toList, Acceptable bin.2) ∧
      (SafeTail rep.uniquePoints ↔ 2 ≤ st.angleMap.toList.countP fun bin => Acceptable bin.2) := by
  have hlen : (select st.angleMap).uniquePoints.length = st.angleMap.toList.countP fun bin => Acceptable bin.2 := by
    rw [h.angleMap_eq, select_group, List.length_filterMap_eq_countP]
    refine List.countP_congr fun bin _ => ?_
    rw [isSome_keep_iff, decide_eq_true_iff]
  refine ⟨_, report_of_nonempty h hne, ?_, ?_⟩
  · rw [coverage_ne_none_iff, hlen, Nat.succ_le_iff, List.countP_pos_iff]
    simp only [decide_eq_true_iff]
  · rw [safeTail_iff h.length_uniquePoints_le, hlen]

end Rounded

open Ieee in
/-- Three of the four bins are acceptable, and the statistics are safe. -/
theorem report_tail_scene :
    ∃ rep, report (collect .little (fun _ => 0) (returnRun scene)).angleMap = some rep ∧
      coverage rep.uniquePoints ≠ none ∧ SafeTail rep.uniquePoints := by
  have hmap := @angleMap_returnRun scene _ (fun _ => 0) (by decide) (by decide)
  have hrun := @collects_returnRun scene _ (fun _ => 0) (by decide) .little
  obtain ⟨rep, hrep, hcoverage, hsafe⟩ := report_tail_iff hrun (by
    rw [hmap]
    decide +kernel)
  rw [hmap] at hcoverage hsafe
  exact ⟨rep, hrep, hcoverage.mpr (by decide +kernel), hsafe.mpr (by decide +kernel)⟩

open Ieee in
/-- A run of one sample of strength 20: its bin is rejected, and `front()` is called on an empty vector. -/
theorem not_report_tail :
    let st := collect .little (fun _ => 0) (returnRun [⟨0, 1000, 20⟩])
    Collects .little (returnRun [⟨0, 1000, 20⟩]) st ∧ st.packetCount = maxPackets ∧ st.angleMap.isEmpty = false ∧
      ∃ rep, report st.angleMap = some rep ∧ coverage rep.uniquePoints = none := by
  intro st
  have hrun : Collects .little (returnRun [⟨0, 1000, 20⟩]) st := collects_returnRun _ (by decide) _
  have hmap : st.angleMap = Groups.group angleBin ([⟨0, 1000, 20⟩].map Return.sample) :=
    angleMap_returnRun _ (by decide) (by decide)
  have hne : st.angleMap.isEmpty = false := by
    rw [hmap]
    decide +kernel
  refine ⟨hrun, packetCount_returnRun _ (by decide) _, hne, _, report_of_nonempty hrun hne, ?_⟩
  rw [hmap]
  decide +kernel

end LidarInterface.Reader2
