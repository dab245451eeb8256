import LidarInterface.Theorems.Returns
import LidarInterface.Theorems.Selection
import Mathlib.Data.Int.Interval

/-! Runs of the visualizer, from the datagrams to the report: what a report counts, what it lists, and that it
    does not depend on the order of arrival. -/

namespace LidarInterface.Reader2
open Foundation Format Arithmetic

/-! ### Emitted points -/

section Rounded
variable [Arithmetic]

/-- The azimuth is a `float` of one turn. -/
structure OneTurn (p : LidarPoint) : Prop where
  nonneg : 0 ≤ p.azimuth
  lt : p.azimuth < 360
  float : float p.azimuth = p.azimuth

theorem mem_emitted {host : ByteOrder} {q : List UInt8} {p : LidarPoint} (h : p ∈ emitted host q) :
    p.isValid = true ∧ OneTurn p := by
  rw [emitted, parsePacket_of_size, decode] at h
  obtain ⟨s, -, rfl⟩ := List.mem_map.mp h
  exact ⟨rfl, calculateAzimuth_nonneg _ _ _, calculateAzimuth_lt _ _ _, float_calculateAzimuth _ _ _⟩

theorem mem_samples {host : ByteOrder} {rs : List Recv} {p : LidarPoint} (h : p ∈ samples host rs) :
    p ∈ (payloads rs).flatMap (emitted host) ∧ isSample p = true ∧ OneTurn p := by
  obtain ⟨hp, hs⟩ := List.mem_filter.mp h
  obtain ⟨q, -, hq⟩ := List.mem_flatMap.mp hp
  exact ⟨hp, hs, (mem_emitted hq).2⟩

/-- A distance is a `float`. -/
theorem float_distance {host : ByteOrder} {rs : List Recv} {p : LidarPoint} (h : p ∈ samples host rs) :
    float p.distance = p.distance := by
  obtain ⟨q, -, hq⟩ := List.mem_flatMap.mp (mem_samples h).1
  rw [emitted, parsePacket_of_size, decode] at hq
  obtain ⟨s, -, rfl⟩ := List.mem_map.mp hq
  exact lawful_float.idem _

theorem angleBin_eq {p : LidarPoint} (h : OneTurn p) : angleBin p = ⌊2 * p.azimuth⌋ := by
  have hnonneg : 0 ≤ 2 * p.azimuth := mul_nonneg (by norm_num) h.nonneg
  rw [angleBin, lawful_float.two_mul_self h.float, Rounding.trunc, if_neg (not_lt.mpr hnonneg)]

theorem angleBin_mem {p : LidarPoint} (h : OneTurn p) : 0 ≤ angleBin p ∧ angleBin p ≤ 719 := by
  have h0 := h.nonneg
  have h1 := h.lt
  have hlt : ⌊2 * p.azimuth⌋ < 720 := Int.floor_lt.mpr (by push_cast; linarith)
  rw [angleBin_eq h]
  exact ⟨Int.floor_nonneg.mpr (by linarith), by omega⟩

/-- The filter of the CSV writer accepts every sample. -/
theorem csv_of_sample {p : LidarPoint} (h : isSample p = true) :
    p.isValid = true ∧ float (1 / 10) < p.distance ∧ p.distance < 15 := by
  simp only [isSample, Bool.and_eq_true, decide_eq_true_eq] at h
  obtain ⟨⟨⟨hvalid, hlow⟩, hhigh⟩, -⟩ := h
  exact ⟨hvalid, hlow, by linarith⟩

/-! ### Selection from the bins of a list of samples -/

section Group
variable (l : List LidarPoint)

theorem select_group : select (Groups.group angleBin l) =
    { uniquePoints := (Groups.group angleBin l).toList.filterMap fun bin => keep bin.2
      filteredBins := (Groups.group angleBin l).toList.countP fun bin => (keep bin.2).isNone
      totalSamples := l.length } := by
  rw [select, foldl_step _ fun bin hbin => (Groups.mem_toList_group.mp hbin).2, Groups.sum_length_group]
  simp

theorem map_angleBin_uniquePoints : (select (Groups.group angleBin l)).uniquePoints.map angleBin =
    (Groups.group angleBin l).keys.filter fun k => (keep (Groups.fiber angleBin l k)).isSome := by
  have hbin : ∀ k, (keep (Groups.fiber angleBin l k)).map angleBin =
      if (keep (Groups.fiber angleBin l k)).isSome then some k else none := by
    intro k
    cases hk : keep (Groups.fiber angleBin l k) with
    | none => rfl
    | some p => exact congrArg some (Groups.mem_fiber.mp (keep_mem hk)).2
  rw [select_group, Groups.toList_group, List.filterMap_map, List.map_filterMap, ← List.filterMap_eq_filter]
  refine List.filterMap_congr fun k _ => ?_
  exact hbin k

theorem filteredBins_eq : (select (Groups.group angleBin l)).filteredBins =
    (Groups.group angleBin l).keys.countP fun k => (keep (Groups.fiber angleBin l k)).isNone := by
  rw [select_group, Groups.toList_group, List.countP_map]
  rfl

theorem mem_uniquePoints {p : LidarPoint} (h : p ∈ (select (Groups.group angleBin l)).uniquePoints) :
    p ∈ l ∧ ∃ bin, (angleBin p, bin) ∈ (Groups.group angleBin l).toList ∧ p ∈ bin := by
  rw [select_group] at h
  obtain ⟨⟨k, bin⟩, hmem, hk⟩ := List.mem_filterMap.mp h
  obtain ⟨rfl, -⟩ := Groups.mem_toList_group.mp hmem
  have hp := keep_mem hk
  obtain ⟨hl, rfl⟩ := Groups.mem_fiber.mp hp
  exact ⟨hl, _, hmem, hp⟩

theorem bins_increasing : ((select (Groups.group angleBin l)).uniquePoints.map angleBin).Pairwise (· < ·) := by
  rw [map_angleBin_uniquePoints]
  exact (Std.TreeMap.ordered_keys.imp fun {a b} h => compare_lt_iff_lt.mp h).filter _

end Group

theorem size_group_le {l : List LidarPoint} (h : ∀ p ∈ l, OneTurn p) : (Groups.group angleBin l).size ≤ 720 := by
  have hsub : (Groups.group angleBin l).keys.toFinset ⊆ Finset.Icc 0 719 := by
    intro k hk
    obtain ⟨p, hp, rfl⟩ := Groups.mem_group.mp (Std.TreeMap.mem_keys.mp (List.mem_toFinset.mp hk))
    exact Finset.mem_Icc.mpr (angleBin_mem (h p hp))
  have hcard := Finset.card_le_card hsub
  rwa [List.toFinset_card_of_nodup (Groups.nodup_keys _), Std.TreeMap.length_keys, Int.card_Icc] at hcard

/-! ### The points that a run keeps -/

section Run
variable {host : ByteOrder} {rs : List Recv} {st : Collector} (h : Collects host rs st)
include h

/-- The bins of one turn are 720. -/
theorem Collects.size_le : st.angleMap.size ≤ 720 := by
  rw [h.angleMap_eq]
  exact size_group_le fun p hp => (mem_samples hp).2.2

theorem Collects.length_uniquePoints_le : (select st.angleMap).uniquePoints.length ≤ 720 := by
  refine le_trans ?_ h.size_le
  rw [h.angleMap_eq, select_group, ← Std.TreeMap.length_toList]
  exact List.length_filterMap_le _ _

/-- Every point kept passed the filter of the collection, at an azimuth of one turn. -/
theorem sample_of_unique {p : LidarPoint} (hp : p ∈ (select st.angleMap).uniquePoints) :
    isSample p = true ∧ OneTurn p := by
  rw [h.angleMap_eq] at hp
  exact (mem_samples (mem_uniquePoints _ hp).1).2

/-- The bins of the points kept increase, and so do their azimuths. -/
theorem azimuths_increasing : (select st.angleMap).uniquePoints.Pairwise fun p q => p.azimuth < q.azimuth := by
  have hbins : ((select st.angleMap).uniquePoints.map angleBin).Pairwise (· < ·) := by
    rw [h.angleMap_eq]
    exact bins_increasing _
  refine (List.pairwise_map.mp hbins).imp_of_mem fun {p q} hp hq hlt => ?_
  rw [angleBin_eq (sample_of_unique h hp).2, angleBin_eq (sample_of_unique h hq).2] at hlt
  by_contra hge
  exact absurd (Int.floor_le_floor (by linarith : 2 * q.azimuth ≤ 2 * p.azimuth)) (not_le.mpr hlt)

theorem sortByAzimuth_uniquePoints :
    sortByAzimuth (select st.angleMap).uniquePoints = (select st.angleMap).uniquePoints := by
  refine List.mergeSort_of_pairwise ((azimuths_increasing h).imp fun {p q} hlt => ?_)
  simpa using hlt.le

theorem report_of_nonempty (hne : st.angleMap.isEmpty = false) : report st.angleMap =
    some ⟨select st.angleMap, (select st.angleMap).uniquePoints, csvRows (select st.angleMap).uniquePoints⟩ := by
  simp only [report, hne, sortByAzimuth_uniquePoints h, Bool.false_eq_true, if_false]

theorem uniquePoints_report {rep : Report} (hrep : report st.angleMap = some rep) :
    rep.uniquePoints = (select st.angleMap).uniquePoints ∧ rep.rows = csvRows rep.uniquePoints := by
  cases hne : st.angleMap.isEmpty with
  | true =>
    rw [report, hne] at hrep
    cases hrep
  | false =>
    obtain rfl := Option.some.inj ((report_of_nonempty h hne).symm.trans hrep)
    exact ⟨rfl, rfl⟩

/-- The writer drops no point of a run. -/
theorem filter_csv_uniquePoints : ((select st.angleMap).uniquePoints.filter fun point =>
    point.isValid && decide (point.distance > float (1 / 10)) && decide (point.distance < 15)) =
      (select st.angleMap).uniquePoints := by
  refine List.filter_eq_self.mpr fun p hp => ?_
  obtain ⟨hvalid, hlow, hhigh⟩ := csv_of_sample (sample_of_unique h hp).1
  rw [hvalid, decide_eq_true hlow, decide_eq_true hhigh]
  rfl

end Run

/-! ### Order of arrival -/

/-- The result of a run does not depend on the order in which its payloads arrive, nor on their framing. -/
theorem collection_order (host : ByteOrder) {rs rs' : List Recv} {st st' : Collector} (h : Collects host rs st)
    (h' : Collects host rs' st') (hperm : (payloads rs).Perm (payloads rs')) :
    st.angleMap.keys = st'.angleMap.keys ∧
    (∀ k : Int, (st.angleMap[k]?.getD []).Perm (st'.angleMap[k]?.getD [])) ∧
    (select st.angleMap).uniquePoints.map angleBin = (select st'.angleMap).uniquePoints.map angleBin ∧
    (select st.angleMap).filteredBins = (select st'.angleMap).filteredBins ∧
    (select st.angleMap).totalSamples = (select st'.angleMap).totalSamples := by
  have hsamples : (samples host rs).Perm (samples host rs') := (hperm.flatMap_right _).filter _
  have hfiber : ∀ k, (Groups.fiber angleBin (samples host rs) k).Perm (Groups.fiber angleBin (samples host rs') k) :=
    fun k => Groups.fiber_perm hsamples
  have hkeep : ∀ k, (keep (Groups.fiber angleBin (samples host rs) k)).isSome =
      (keep (Groups.fiber angleBin (samples host rs') k)).isSome := fun k => isSome_keep_perm (hfiber k)
  have hkeys : (Groups.group angleBin (samples host rs)).keys = (Groups.group angleBin (samples host rs')).keys :=
    Groups.keys_group_congr fun _ => hsamples.mem_iff
  have hget : ∀ l : List LidarPoint, ∀ k, (Groups.group angleBin l)[k]?.getD [] = Groups.fiber angleBin l k := by
    intro l k
    rw [Groups.getElem?_group]
    split
    · next hnil => exact hnil.symm
    · rfl
  rw [h.angleMap_eq, h'.angleMap_eq]
  refine ⟨hkeys, fun k => ?_, ?_, ?_, ?_⟩
  · rw [hget, hget]
    exact hfiber k
  · simp only [map_angleBin_uniquePoints, hkeys, hkeep]
  · simp only [filteredBins_eq, hkeys, ← Option.not_isSome, hkeep]
  · rw [select_group, select_group]
    exact hsamples.length_eq

end Rounded

theorem payloads_framed (header : List UInt8) (hheader : header.length = 42) (returns : List Return) :
    payloads (returns.map fun x => .datagram (header ++ x.packet.bytes 1206)) =
      returns.map fun x => x.packet.bytes 1206 := by
  induction returns with
  | nil => rfl
  | cons x returns ih =>
    have hcons : payloads (List.map (fun x => .datagram (header ++ x.packet.bytes 1206)) (x :: returns)) =
      payloads [.datagram (header ++ x.packet.bytes 1206)] ++
        payloads (returns.map fun x => .datagram (header ++ x.packet.bytes 1206)) := payloads_append [_] _
    rw [hcons, ih, payloads_datagram, payload_append_bytes _ hheader]
    rfl

open Ieee in
/-- Eight packets, received bare, and the other way round with headers. -/
theorem collection_order_framing :
    let bare := collect .little (fun _ => 0) (returnDatagrams scene)
    let framed := collect .little (fun _ => 0)
      (scene.reverse.map fun x => .datagram (List.replicate 42 0 ++ x.packet.bytes 1206))
    bare.angleMap.keys = framed.angleMap.keys ∧
      (select bare.angleMap).uniquePoints.map angleBin = (select framed.angleMap).uniquePoints.map angleBin ∧
      (select bare.angleMap).uniquePoints.map angleBin = [0, 16, 32] ∧ (select framed.angleMap).filteredBins = 1 := by
  intro bare framed
  have hbare : Collects .little (returnDatagrams scene) bare := collects_collect .little _ (by decide)
  have hframed := @collects_collect _ .little (fun _ => 0)
    (scene.reverse.map fun x => .datagram (List.replicate 42 0 ++ x.packet.bytes 1206)) (by decide)
  have hpayloads : (payloads (returnDatagrams scene)).Perm
      (payloads (scene.reverse.map fun x => .datagram (List.replicate 42 0 ++ x.packet.bytes 1206))) := by
    rw [payloads_returnDatagrams, payloads_framed _ List.length_replicate]
    exact (List.reverse_perm scene).symm.map _
  have hmap : bare.angleMap = Groups.group angleBin (scene.map Return.sample) := by
    rw [hbare.angleMap_eq, samples_of_payloads (payloads_returnDatagrams scene) (by decide)]
  obtain ⟨hkeys, -, hkept, hfiltered, -⟩ := collection_order .little hbare hframed hpayloads
  refine ⟨hkeys, hkept, ?_, hfiltered.symm.trans ?_⟩
  · rw [hmap]
    decide +kernel
  · rw [hmap]
    decide +kernel

/-! ### Counts of a report -/

section Exact
open Exact

def InCollectionRange (p : LidarPoint) : Prop := 100 < p.distance * 1000 ∧ p.distance * 1000 < 14000 ∧ 15 < p.rssi

instance : DecidablePred InCollectionRange := fun _ => inferInstanceAs (Decidable (_ ∧ _ ∧ _))

theorem isSample_iff {p : LidarPoint} (h : p.isValid = true) : isSample p = true ↔ InCollectionRange p := by
  have hlow : p.distance > 1 / 10 ↔ 100 < p.distance * 1000 := by constructor <;> intro h <;> linarith
  have hhigh : p.distance < 14 ↔ p.distance * 1000 < 14000 := by constructor <;> intro h <;> linarith
  simp only [isSample, h, Exact.float_eq, Bool.true_and, Bool.and_eq_true, decide_eq_true_eq, hlow, hhigh,
    InCollectionRange, and_assoc, gt_iff_lt]

theorem length_samples (host : ByteOrder) (rs : List Recv) :
    (samples host rs).length = ((payloads rs).flatMap (emitted host)).countP fun p => InCollectionRange p := by
  rw [samples, ← List.countP_eq_length_filter]
  refine List.countP_congr fun p hp => ?_
  obtain ⟨q, -, hq⟩ := List.mem_flatMap.mp hp
  rw [isSample_iff (mem_emitted hq).1, decide_eq_true_iff]

/-- What a report counts after a run: no bin is empty, every emitted point in range is counted once, every bin
    is kept or filtered once, and every point kept has a row. -/
theorem report_accounting {host : ByteOrder} {rs : List Recv} {st : Collector} (h : Collects host rs st)
    (hne : st.angleMap.isEmpty = false) :
    ∃ rep, report st.angleMap = some rep ∧ (∀ bin ∈ st.angleMap.toList, bin.2 ≠ []) ∧
      rep.selection.totalSamples = ((payloads rs).flatMap (emitted host)).countP (fun p => InCollectionRange p) ∧
      rep.selection.uniquePoints = st.angleMap.toList.filterMap (fun bin => keep bin.2) ∧
      rep.selection.filteredBins = st.angleMap.toList.countP (fun bin => (keep bin.2).isNone) ∧
      rep.selection.uniquePoints.length + rep.selection.filteredBins = st.angleMap.size ∧
      rep.uniquePoints.Perm rep.selection.uniquePoints ∧ rep.rows.length = rep.uniquePoints.length := by
  have hselect : select st.angleMap =
      { uniquePoints := st.angleMap.toList.filterMap fun bin => keep bin.2
        filteredBins := st.angleMap.toList.countP fun bin => (keep bin.2).isNone
        totalSamples := (samples host rs).length } := by
    rw [h.angleMap_eq]
    exact select_group _
  refine ⟨_, report_of_nonempty h hne, fun bin hbin => ?_, ?_, ?_, ?_, ?_, List.Perm.refl _, ?_⟩
  · rw [h.angleMap_eq] at hbin
    exact (Groups.mem_toList_group.mp hbin).2
  · rw [hselect]
    exact length_samples host rs
  · rw [hselect]
  · rw [hselect]
  · rw [hselect, ← Std.TreeMap.length_toList]
    exact length_keep_add_filtered _
  · rw [csvRows, List.length_map, filter_csv_uniquePoints h]

/-- Eight samples in four bins, of which one is filtered. -/
theorem report_accounting_scene :
    ∃ rep, report (collect .little (fun _ => 0) (returnRun scene)).angleMap = some rep ∧
      rep.selection.uniquePoints.length + rep.selection.filteredBins = 4 ∧ rep.selection.filteredBins = 1 ∧
      rep.rows.length = rep.uniquePoints.length := by
  have hrun := @collects_returnRun scene _ (fun _ => 0) (by decide) .little
  have hmap := @angleMap_returnRun scene _ (fun _ => 0) (by decide) (by decide)
  have hne : (collect .little (fun _ => 0) (returnRun scene)).angleMap.isEmpty = false := by
    rw [hmap]
    decide +kernel
  obtain ⟨rep, hrep, -, -, -, hfiltered, hcount, -, hrows⟩ := report_accounting hrun hne
  rw [hmap] at hfiltered hcount
  exact ⟨rep, hrep, hcount.trans (by decide +kernel), hfiltered.trans (by decide +kernel), hrows⟩

end Exact

/-! ### The scan line -/

/-- The points kept after a run are emitted points that stand for their bins, at most one for each of 720 bins,
    in the order of their azimuths, so that sorting them changes nothing. -/
theorem scan_line [Arithmetic] {host : ByteOrder} {rs : List Recv} {st : Collector} (h : Collects host rs st) :
    let unique := (select st.angleMap).uniquePoints
    (∀ p ∈ unique, p ∈ (payloads rs).flatMap (emitted host) ∧
      (∃ bin, (angleBin p, bin) ∈ st.angleMap.toList ∧ p ∈ bin) ∧
      angleBin p = ⌊2 * p.azimuth⌋ ∧ 0 ≤ angleBin p ∧ angleBin p ≤ 719) ∧
    (unique.map angleBin).Pairwise (· < ·) ∧ unique.length ≤ 720 ∧
    unique.Pairwise (fun p q => p.azimuth < q.azimuth) ∧ sortByAzimuth unique = unique ∧
    ∀ sorted : List LidarPoint, sorted.Perm unique → sorted.Pairwise (fun p q => p.azimuth ≤ q.azimuth) →
      sorted = unique := by
  intro unique
  have hunique : unique = (select (Groups.group angleBin (samples host rs))).uniquePoints := by rw [← h.angleMap_eq]
  have hazimuth : unique.Pairwise fun p q => p.azimuth < q.azimuth := azimuths_increasing h
  refine ⟨fun p hp => ?_, ?_, h.length_uniquePoints_le, hazimuth, sortByAzimuth_uniquePoints h,
    fun sorted hperm hsorted => ?_⟩
  · rw [hunique] at hp
    obtain ⟨hl, hbin⟩ := mem_uniquePoints _ hp
    obtain ⟨hemitted, -, hturn⟩ := mem_samples hl
    rw [h.angleMap_eq]
    exact ⟨hemitted, hbin, angleBin_eq hturn, angleBin_mem hturn⟩
  · rw [hunique]
    exact bins_increasing _
  · have hnodup : (unique.map (·.azimuth)).Nodup := List.pairwise_map.mpr (hazimuth.imp fun h => h.ne)
    refine List.Perm.eq_of_pairwise (fun p q hp hq h1 h2 => ?_) hsorted (hazimuth.imp fun h => h.le) hperm
    exact List.inj_on_of_nodup_map hnodup (hperm.mem_iff.mp hp) hq (le_antisymm h1 h2)

open Ieee in
/-- Three points in three bins. -/
theorem scan_line_scene :
    let unique := (select (collect .little (fun _ => 0) (returnRun scene)).angleMap).uniquePoints
    unique.map angleBin = [0, 16, 32] ∧ unique.Pairwise (fun p q => p.azimuth < q.azimuth) ∧
      sortByAzimuth unique = unique := by
  intro unique
  have hbins : unique.map angleBin = [0, 16, 32] := by
    simp only [unique, @angleMap_returnRun scene _ (fun _ => 0) (by decide) (by decide)]
    decide +kernel
  obtain ⟨-, -, -, hazimuth, hsort, -⟩ := scan_line (@collects_returnRun scene _ (fun _ => 0) (by decide) .little)
  exact ⟨hbins, hazimuth, hsort⟩

end LidarInterface.Reader2
