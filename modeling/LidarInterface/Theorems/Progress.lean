import LidarInterface.Reader2.Output
import LidarInterface.Theorems.Visualizer

/-! The collection loop as it runs: it stops at the datagram that fills the last round, its progress lines number the
    datagrams through the rounds, and the counts that it and the report print stay far inside the range of `int`. -/

namespace LidarInterface.Reader2
open Foundation Format

section Rounded
variable [Arithmetic]

/-! ### The end of the collection -/

theorem Collects.packetCount_eq {host : ByteOrder} {rs : List Recv} {st : Collector} (h : Collects host rs st) :
    st.packetCount = (rs.filterMap Recv.datagram?).length ∧ st.packetCount ≤ maxPackets := by
  induction h with
  | start buffer => exact ⟨rfl, Nat.zero_le _⟩
  | @step rs st _ hloop r ih =>
    obtain ⟨hcount, hle⟩ := ih
    rw [List.filterMap_append, List.length_append, ← hcount]
    cases r with
    | error => exact ⟨rfl, hle⟩
    | datagram bytes =>
      rw [packetCount_step]
      exact ⟨rfl, hloop⟩

/-- The loop is a collection of a prefix of what arrives: of all of it, unless the last round was filled. -/
theorem collects_collection (host : ByteOrder) (buffer : Memory) (rs : List Recv) :
    ∃ read rest, rs = read ++ rest ∧ Collects host read ((collection host).state { buffer } rs) ∧
      (rest = [] ∨ ((collection host).state { buffer } rs).packetCount = maxPackets) := by
  induction rs using List.reverseRecOn with
  | nil => exact ⟨[], [], rfl, .start buffer, Or.inl rfl⟩
  | append_singleton rs r ih =>
    obtain ⟨read, rest, hrs, hrun, hend⟩ := ih
    have hstep : (collection host).state { buffer } (rs ++ [r]) =
        if ((collection host).state { buffer } rs).packetCount < maxPackets
        then ((collection host).state { buffer } rs).step host r else (collection host).state { buffer } rs :=
      (collection host).state_append { buffer } rs [r]
    rw [hstep]
    by_cases hloop : ((collection host).state { buffer } rs).packetCount < maxPackets
    · have hread : rest = [] := hend.resolve_right hloop.ne
      rw [if_pos hloop]
      refine ⟨read ++ [r], [], ?_, .step hrun hloop r, Or.inl rfl⟩
      rw [hrs, hread, List.append_nil, List.append_nil]
    · have hfull := le_antisymm hrun.packetCount_eq.2 (not_lt.mp hloop)
      rw [if_neg hloop]
      exact ⟨read, rest ++ [r], by rw [hrs, List.append_assoc], hrun, Or.inr hfull⟩

/-! ### Progress lines -/

/-- The place of datagram number `n`, counted from 0: its round, and its number in the round. -/
def place (n : Nat) : Nat × Nat := (n / packetsPerRound + 1, n % packetsPerRound + 1)

section Step
variable (host : ByteOrder) (st : Collector)

omit [Arithmetic] in
theorem print_datagram (bytes : List UInt8) : st.print (.datagram bytes) =
    [⟨(place st.packetCount).1, (place st.packetCount).2, st.angleMap.size⟩] := by
  rw [Collector.print, receivePacket_datagram]
  rfl

theorem size_le_step (r : Recv) : st.angleMap.size ≤ (st.step host r).angleMap.size := by
  cases r with
  | error => exact Nat.le_refl _
  | datagram bytes =>
    rw [step_datagram]
    cases payload bytes with
    | none => exact Nat.le_refl _
    | some p => exact Groups.size_le_foldl_pushAt angleBin _ _

theorem places_log (rs : List Recv) : ((collection host).log st rs).map (fun l => (l.currentRound, l.packetInRound)) =
    (List.range' st.packetCount (min (rs.filterMap Recv.datagram?).length (maxPackets - st.packetCount))).map place := by
  induction rs generalizing st with
  | nil => rfl
  | cons r rs ih =>
    have hlog : (collection host).log st (r :: rs) = (if st.packetCount < maxPackets then st.print r else []) ++
        (collection host).log (if st.packetCount < maxPackets then st.step host r else st) rs := rfl
    rw [hlog]
    by_cases hloop : st.packetCount < maxPackets
    · rw [if_pos hloop, if_pos hloop, List.map_append, ih]
      cases r with
      | error => rfl
      | datagram bytes =>
        have hmin : min ((Recv.datagram bytes :: rs).filterMap Recv.datagram?).length (maxPackets - st.packetCount) =
            min (rs.filterMap Recv.datagram?).length (maxPackets - (st.packetCount + 1)) + 1 := by
          have hcons : (Recv.datagram bytes :: rs).filterMap Recv.datagram? = bytes :: rs.filterMap Recv.datagram? := rfl
          rw [hcons, List.length_cons]
          omega
        rw [packetCount_step, print_datagram, hmin, List.range'_succ]
        rfl
    · have hnone : maxPackets - st.packetCount = 0 := by omega
      rw [if_neg hloop, if_neg hloop, List.nil_append, ih, hnone, Nat.min_zero, Nat.min_zero]

/-- No line shows fewer angles than the line before it. -/
theorem angles_log (rs : List Recv) : (∀ l ∈ (collection host).log st rs, st.angleMap.size ≤ l.angles) ∧
    (((collection host).log st rs).map (·.angles)).Pairwise (· ≤ ·) := by
  induction rs generalizing st with
  | nil => exact ⟨List.forall_mem_nil _, List.Pairwise.nil⟩
  | cons r rs ih =>
    have hlog : (collection host).log st (r :: rs) = (if st.packetCount < maxPackets then st.print r else []) ++
        (collection host).log (if st.packetCount < maxPackets then st.step host r else st) rs := rfl
    rw [hlog]
    by_cases hloop : st.packetCount < maxPackets
    · obtain ⟨hlater, hsorted⟩ := ih (st.step host r)
      have hlater' : ∀ l ∈ (collection host).log (st.step host r) rs, st.angleMap.size ≤ l.angles :=
        fun l hl => (size_le_step host st r).trans (hlater l hl)
      rw [if_pos hloop, if_pos hloop]
      cases r with
      | error => exact ⟨hlater', hsorted⟩
      | datagram bytes =>
        rw [print_datagram, List.singleton_append, List.map_cons, List.pairwise_cons]
        refine ⟨fun l hl => ?_, List.forall_mem_map.mpr hlater', hsorted⟩
        rcases List.mem_cons.mp hl with rfl | hl
        · exact Nat.le_refl _
        · exact hlater' l hl
    · rw [if_neg hloop, if_neg hloop, List.nil_append]
      exact ih st

end Step

theorem packetCount_collection (host : ByteOrder) (buffer : Memory) (rs : List Recv) :
    ((collection host).state { buffer } rs).packetCount = min (rs.filterMap Recv.datagram?).length maxPackets := by
  obtain ⟨read, rest, hrs, hrun, hend⟩ := collects_collection host buffer rs
  obtain ⟨hcount, hle⟩ := hrun.packetCount_eq
  have hlen : (rs.filterMap Recv.datagram?).length =
      ((collection host).state { buffer } rs).packetCount + (rest.filterMap Recv.datagram?).length := by
    rw [hcount, ← List.length_append, ← List.filterMap_append, ← hrs]
  rcases hend with hrest | hfull
  · rw [hrest, List.filterMap_nil, List.length_nil, Nat.add_zero] at hlen
    omega
  · omega

/-- The collection reads up to the datagram that fills the third round and nothing after it. Its lines number the
    datagrams 1 to 50 in each of three rounds, without a gap or a repetition, and the angles that they show never
    decrease nor exceed 720. -/
theorem progress_lines (host : ByteOrder) (buffer : Memory) (rs : List Recv) :
    let lines := (collection host).log { buffer } rs
    let n := min (rs.filterMap Recv.datagram?).length maxPackets
    (∃ read rest, rs = read ++ rest ∧ Collects host read ((collection host).state { buffer } rs) ∧
      (read.filterMap Recv.datagram?).length = n ∧ (rest ≠ [] → n = maxPackets)) ∧
    lines.map (fun l => (l.currentRound, l.packetInRound)) = (List.range n).map (fun i => (i / 50 + 1, i % 50 + 1)) ∧
    (∀ l ∈ lines, l.currentRound ≤ 3 ∧ l.packetInRound ≤ 50 ∧ l.angles ≤ 720) ∧
    (lines.map (·.angles)).Pairwise (· ≤ ·) := by
  intro lines n
  have hplaces : lines.map (fun l => (l.currentRound, l.packetInRound)) = (List.range n).map place := by
    rw [List.range_eq_range']
    exact places_log host { buffer } rs
  refine ⟨?_, hplaces, fun l hl => ?_, (angles_log host { buffer } rs).2⟩
  · obtain ⟨read, rest, hrs, hrun, hend⟩ := collects_collection host buffer rs
    have hcount := packetCount_collection host buffer rs
    refine ⟨read, rest, hrs, hrun, hrun.packetCount_eq.1.symm.trans hcount, fun hrest => ?_⟩
    exact hcount.symm.trans (hend.resolve_left hrest)
  · obtain ⟨i, hi, hplace⟩ := List.mem_map.mp (hplaces ▸ List.mem_map_of_mem hl)
    have hlt : i < 150 := (List.mem_range.mp hi).trans_le (Nat.min_le_right _ _)
    obtain ⟨hround, hnumber⟩ := Prod.ext_iff.mp hplace
    simp only [place, packetsPerRound] at hround hnumber
    refine ⟨by omega, by omega, ?_⟩
    obtain ⟨before, r, after, -, hout⟩ := (collection host).mem_log.mp hl
    obtain ⟨read, rest, -, hrun, -⟩ := collects_collection host buffer before
    have hangles : l.angles = ((collection host).state { buffer } before).angleMap.size := by
      have hprint : l ∈ if ((collection host).state { buffer } before).packetCount < maxPackets
          then ((collection host).state { buffer } before).print r else [] := hout
      split at hprint
      · cases r with
        | error => cases hprint
        | datagram bytes =>
          rw [print_datagram] at hprint
          rw [List.mem_singleton.mp hprint]
      · cases hprint
    rw [hangles]
    exact hrun.size_le

/-! ### Counts of the report -/

omit [Arithmetic] in
theorem foldl_distribution (bins : List (Int × List LidarPoint)) (h : ∀ bin ∈ bins, bin.2 ≠ []) (dist : Distribution) :
    let dist' := bins.foldl (fun dist bin => dist.step bin.2) dist
    dist'.multiSampleBins + dist'.twoSampleBins + dist'.singleSampleBins =
      dist.multiSampleBins + dist.twoSampleBins + dist.singleSampleBins + bins.length ∧
    3 * dist'.multiSampleBins + 2 * dist'.twoSampleBins + dist'.singleSampleBins ≤
      3 * dist.multiSampleBins + 2 * dist.twoSampleBins + dist.singleSampleBins +
        (bins.map fun bin => bin.2.length).sum := by
  induction bins generalizing dist with
  | nil => exact ⟨rfl, Nat.le_refl _⟩
  | cons bin bins ih =>
    obtain ⟨hbins, hsamples⟩ := ih (fun b hb => h b (List.mem_cons_of_mem _ hb)) (dist.step bin.2)
    have hpos := List.length_pos_iff.mpr (h bin List.mem_cons_self)
    have hstep : (dist.step bin.2).multiSampleBins + (dist.step bin.2).twoSampleBins +
        (dist.step bin.2).singleSampleBins =
          dist.multiSampleBins + dist.twoSampleBins + dist.singleSampleBins + 1 ∧
        3 * (dist.step bin.2).multiSampleBins + 2 * (dist.step bin.2).twoSampleBins +
          (dist.step bin.2).singleSampleBins ≤
            3 * dist.multiSampleBins + 2 * dist.twoSampleBins + dist.singleSampleBins + bin.2.length := by
      unfold Distribution.step
      split
      · next hlen => exact ⟨by simp only; omega, by simp only; omega⟩
      · split
        · next hlen => exact ⟨by simp only; omega, by simp only; omega⟩
        · exact ⟨by simp only; omega, by simp only; omega⟩
    rw [List.foldl_cons, List.map_cons, List.sum_cons, List.length_cons]
    exact ⟨by omega, by omega⟩

theorem length_emitted_le (host : ByteOrder) (p : List UInt8) : (emitted host p).length ≤ 384 := by
  have hall : Slot.all.length = 384 := by decide +kernel
  rw [emitted, parsePacket_of_size, decode, List.length_map, ← hall]
  exact List.length_filter_le _ _

theorem length_flatMap_emitted_le (host : ByteOrder) (ps : List (List UInt8)) :
    (ps.flatMap (emitted host)).length ≤ 384 * ps.length := by
  induction ps with
  | nil => exact Nat.le_refl _
  | cons p ps ih =>
    have hp := length_emitted_le host p
    rw [List.flatMap_cons, List.length_append, List.length_cons]
    omega

/-- After a run every bin is counted once by its number of samples and once as kept or filtered; there are as many
    samples as the distribution needs, and at most 384 for each datagram, so that no count leaves the range of `int`. -/
theorem report_counts {host : ByteOrder} {rs : List Recv} {st : Collector} (h : Collects host rs st) :
    let dist := distribution st.angleMap
    let sel := select st.angleMap
    dist.multiSampleBins + dist.twoSampleBins + dist.singleSampleBins = st.angleMap.size ∧
    sel.uniquePoints.length + sel.filteredBins = st.angleMap.size ∧ st.angleMap.size ≤ 720 ∧
    3 * dist.multiSampleBins + 2 * dist.twoSampleBins + dist.singleSampleBins ≤ sel.totalSamples ∧
    sel.totalSamples ≤ 384 * st.packetCount ∧ 384 * st.packetCount ≤ 57600 := by
  intro dist sel
  have hne : ∀ bin ∈ st.angleMap.toList, bin.2 ≠ [] := fun bin hbin => by
    rw [h.angleMap_eq] at hbin
    exact (Groups.mem_toList_group.mp hbin).2
  have hsel : sel = _ := foldl_step st.angleMap.toList hne {}
  obtain ⟨hbins, hsamples⟩ := foldl_distribution st.angleMap.toList hne {}
  obtain ⟨hcount, hle⟩ := h.packetCount_eq
  have htotal : sel.totalSamples = (samples host rs).length := by
    rw [hsel, h.angleMap_eq, Groups.sum_length_group]
    exact Nat.zero_add _
  have hpayloads : (payloads rs).length ≤ st.packetCount := hcount ▸ List.length_filterMap_le _ _
  have hemitted := length_flatMap_emitted_le host (payloads rs)
  have hfiltered : (samples host rs).length ≤ ((payloads rs).flatMap (emitted host)).length :=
    List.length_filter_le _ _
  refine ⟨?_, ?_, h.size_le, ?_, ?_, ?_⟩
  · rw [← Std.TreeMap.length_toList]
    exact hbins.trans (Nat.zero_add _)
  · rw [hsel, ← Std.TreeMap.length_toList]
    simpa using length_keep_add_filtered st.angleMap.toList
  · rw [hsel]
    exact hsamples
  · rw [htotal]
    omega
  · rw [maxPackets] at hle
    omega

end Rounded

open Ieee in
/-- Eight samples in four bins: one of them holds four, another two. -/
theorem report_counts_scene :
    let st := collect .little (fun _ => 0) (returnRun scene)
    (distribution st.angleMap).multiSampleBins = 1 ∧ (distribution st.angleMap).twoSampleBins = 1 ∧
      (distribution st.angleMap).multiSampleBins + (distribution st.angleMap).twoSampleBins +
        (distribution st.angleMap).singleSampleBins = 4 ∧
      3 * (distribution st.angleMap).multiSampleBins + 2 * (distribution st.angleMap).twoSampleBins +
        (distribution st.angleMap).singleSampleBins ≤ (select st.angleMap).totalSamples := by
  intro st
  have hmap : st.angleMap = Groups.group angleBin (scene.map Return.sample) :=
    angleMap_returnRun _ (by decide) (by decide)
  obtain ⟨hbins, -, -, hsamples, -⟩ := report_counts (@collects_returnRun scene _ (fun _ => 0) (by decide) .little)
  refine ⟨?_, ?_, hbins.trans ?_, hsamples⟩
  · rw [hmap]
    decide +kernel
  · rw [hmap]
    decide +kernel
  · rw [hmap]
    decide +kernel

end LidarInterface.Reader2
