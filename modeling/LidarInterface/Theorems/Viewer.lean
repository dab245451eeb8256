import LidarInterface.Foundation.Footprint
import LidarInterface.Foundation.Select
import LidarInterface.Reader2.Viewer
import LidarInterface.Theorems.Visualizer

/-! What `reader2.0/main.cpp` prints over a run: for each call in order, its number and what its own bytes say. The
    reliable points that it counts are among the samples that the visualizer collects from the same datagrams, and the
    ranges that it shows are those of a packet. -/

namespace LidarInterface.Reader2
open Foundation Format Arithmetic

section Rounded
variable [Arithmetic]

/-! ### Runs -/

/-- What `printPacketInfo` says of a payload. -/
def payloadInfo (p : List UInt8) : PacketInfo :=
  printPacketInfo (decode (.ofList p)) (timestamp (.ofList p)) (factoryInfo (.ofList p))

def payloadRanges (number : Nat) (p : List UInt8) : List Shown :=
  if number ≤ 5 ∧ decode (.ofList p) ≠ [] then [Shown.rangeStats ((decode (.ofList p)).foldl RangeStats.step {})] else []

/-- What is shown for datagram number `number`, from its bytes. -/
def described (number : Nat) (bytes : List UInt8) : List Shown :=
  Shown.packet number (min bytes.length bufferSize) ::
    match payload bytes with
    | none => [Shown.unexpectedSize (min bytes.length bufferSize) (bytes.take 16)]
    | some p =>
      if bytes.length = 1206 then Shown.msopPacket :: Shown.info (payloadInfo p) :: payloadRanges number p
      else [Shown.msopPacketWithHeader, Shown.info (payloadInfo p)]

/-- What is shown for a call that counts as datagram number `number` if it succeeds. -/
def shown (number : Nat) : Recv → List Shown
  | .error => [Shown.receiveError]
  | .datagram bytes => described number bytes

section Step
variable (host : ByteOrder) (st : Receiver)

theorem emitted_eq (p : List UInt8) : emitted host p = decode (.ofList p) := by rw [emitted, parsePacket_of_size]

theorem out_viewer (bytes : List UInt8) :
    (viewer host).out st (.datagram bytes) = described (st.packetCount + 1) bytes := by
  show st.print host (.datagram bytes) = _
  rw [Receiver.print, receivePacket_datagram, described, bufferSize]
  by_cases h6 : bytes.length = 1206
  · have hmin : min bytes.length 2048 = 1206 := by omega
    rw [hmin, payload_whole h6]
    simp only [if_true, if_pos h6, parsePacket_payload (bytes_whole st.buffer h6), emitted_eq]
    rfl
  · by_cases h8 : bytes.length = 1248
    · have hmin : min bytes.length 2048 = 1248 := by omega
      have hskip : ¬(1248 : Nat) = 1206 := by decide
      rw [hmin, payload_header h8]
      simp only [hskip, if_false, if_true, if_neg h6, parsePacket_payload (bytes_header st.buffer h8), emitted_eq]
      rfl
    · have hskip6 : min bytes.length 2048 ≠ 1206 := by omega
      have hskip8 : min bytes.length 2048 ≠ 1248 := by omega
      have htake : bytes.take (min (min bytes.length 2048) 16) = bytes.take 16 := by
        rw [List.take_eq_take_iff]
        omega
      have hbytes := Memory.bytes_write_of_le (Nat.min_le_left bytes.length 2048) (Nat.min_le_left _ 16) st.buffer
      rw [payload_other h6 h8]
      simp only [hskip6, hskip8, if_false, hbytes, htake]

theorem packetCount_viewer (r : Recv) :
    ((viewer host).step st r).packetCount + 1 = st.packetCount + 1 + r.datagram?.toList.length := by
  cases r with
  | error => rfl
  | datagram bytes => exact congrArg (· + 1) (Receiver.step_datagram host st bytes).1

end Step

/-- The program remembers only how many datagrams it received. -/
theorem simulates_shown (host : ByteOrder) :
    Loop.Simulates (viewer host) (Loop.numbering Recv.datagram? shown) fun st number => number = st.packetCount + 1 where
  step {st number} r hnumber := by
    rw [packetCount_viewer, ← hnumber]
    rfl
  out {st number} r hnumber := by
    cases r with
    | error => rfl
    | datagram bytes => exact (out_viewer host st bytes).trans (hnumber ▸ rfl)

/-- On every host and from any buffer, a run prints for each call its number, counted over the datagrams before it, and
    what its own bytes say: nothing of an earlier datagram, of the buffer behind it, or of the order of the bytes in
    memory. -/
theorem log_viewer (host : ByteOrder) (buffer : Memory) (rs : List Recv) : (viewer host).log { buffer } rs =
    rs.zipIdx.flatMap fun call => shown (1 + ((rs.take call.2).filterMap Recv.datagram?).length) call.1 := by
  rw [(simulates_shown host).log (t := 1) rfl, Loop.log_numbering]

/-- A part of what is printed that shows no failed call is printed for the datagrams. -/
theorem log_project_viewer {α : Type} (host : ByteOrder) (buffer : Memory) (rs : List Recv) {f : Shown → Option α}
    (herror : f .receiveError = none) : ((viewer host).log { buffer } rs).filterMap f =
      ((rs.filterMap Recv.datagram?).zipIdx 1).flatMap fun a => (described a.2 a.1).filterMap f := by
  have hsimulates : Loop.Simulates ((viewer host).project f)
      (Loop.counting Recv.datagram? fun number bytes => (described number bytes).filterMap f)
      fun st number => number = st.packetCount + 1 :=
    { step := fun r hnumber => (simulates_shown host).step r hnumber
      out := fun {st number} r hnumber => by
        have hout := congrArg (List.filterMap f) ((simulates_shown host).out r hnumber)
        refine hout.trans ?_
        cases r with
        | error => simp [Loop.numbering, Loop.counting, shown, Recv.datagram?, herror]
        | datagram bytes => simp [Loop.numbering, Loop.counting, shown, Recv.datagram?] }
  rw [← Loop.log_project, hsimulates.log (t := 1) rfl, Loop.log_counting]

/-! ### Reliable points -/

namespace Shown

def info? : Shown → Option PacketInfo
  | info i => some i
  | _ => none

def rangeStats? : Shown → Option RangeStats
  | rangeStats s => some s
  | _ => none

end Shown

theorem foldl_reliable (points : List LidarPoint) (acc : Reliable) : points.foldl Reliable.step acc =
    { reliablePoints := acc.reliablePoints + points.countP isReliable
      filteredPoints := acc.filteredPoints ++ (points.filter isReliable).take (5 - acc.filteredPoints.length) } := by
  induction points generalizing acc with
  | nil => simp
  | cons p points ih =>
    rw [List.foldl_cons, ih, Reliable.step]
    by_cases hp : isReliable p = true
    · rw [if_pos hp, List.countP_cons_of_pos hp, List.filter_cons_of_pos hp, Nat.add_comm (points.countP isReliable),
        ← Nat.add_assoc]
      by_cases hfew : acc.filteredPoints.length < 5
      · have hroom : 5 - acc.filteredPoints.length = 5 - (acc.filteredPoints.length + 1) + 1 := by omega
        simp only [if_pos hfew, List.length_append, List.length_singleton, hroom, List.take_succ_cons, List.append_assoc,
          List.singleton_append]
      · have hfull : 5 - acc.filteredPoints.length = 0 := by omega
        simp only [if_neg hfew, hfull, List.take_zero]
    · rw [if_neg hp, List.countP_cons_of_neg hp, List.filter_cons_of_neg hp]

theorem printPacketInfo_eq (points : List LidarPoint) (timestamp : UInt32) (factoryInfo : UInt16) :
    printPacketInfo points timestamp factoryInfo =
      { timestamp, factoryInfo
        pointCount := points.length
        reliablePoints := points.countP isReliable
        examples := (points.filter isReliable).take 5
        more := if points.countP isReliable > 5 then some (points.countP isReliable - 5) else none } := by
  simp only [printPacketInfo, foldl_reliable, Nat.zero_add, List.nil_append, List.length_nil, Nat.sub_zero]

theorem isSample_of_isReliable {p : LidarPoint} (h : isReliable p = true) : isSample p = true := by
  simp only [isReliable, Bool.and_eq_true, decide_eq_true_eq] at h
  obtain ⟨⟨⟨hvalid, hlow⟩, hhigh⟩, hrssi⟩ := h
  have hrssi' : p.rssi > 15 := UInt8.lt_trans (by decide) hrssi
  simp only [isSample, Bool.and_eq_true, decide_eq_true_eq]
  exact ⟨⟨⟨hvalid, hlow⟩, by linarith⟩, hrssi'⟩

theorem filter_isReliable_isSample (points : List LidarPoint) :
    (points.filter isSample).filter isReliable = points.filter isReliable := by
  rw [List.filter_filter]
  refine List.filter_congr fun p _ => ?_
  rw [Bool.eq_iff_iff, Bool.and_eq_true]
  exact and_iff_left_of_imp isSample_of_isReliable

theorem infos_described (number : Nat) (bytes : List UInt8) :
    (described number bytes).filterMap Shown.info? = ((payload bytes).map payloadInfo).toList := by
  rw [described]
  cases payload bytes with
  | none => rfl
  | some p =>
    have hranges : (payloadRanges number p).filterMap Shown.info? = [] := by
      rw [payloadRanges]
      split <;> rfl
    by_cases h6 : bytes.length = 1206
    · simp only [if_pos h6, List.filterMap_cons, Shown.info?, hranges, Option.map_some, Option.toList_some]
    · simp only [if_neg h6, List.filterMap_cons, Shown.info?, List.filterMap_nil, Option.map_some, Option.toList_some]

theorem infos_eq (host : ByteOrder) (buffer : Memory) (rs : List Recv) :
    ((viewer host).log { buffer } rs).filterMap Shown.info? = (payloads rs).map payloadInfo := by
  rw [log_project_viewer host buffer rs rfl]
  simp only [infos_described]
  rw [← List.flatMap_map (f := Prod.fst) (g := fun bytes => ((payload bytes).map payloadInfo).toList),
    List.zipIdx_map_fst, payloads, List.map_filterMap]
  exact (List.filterMap_eq_flatMap_toList ..).symm

/-- Over a run, one summary is printed for each payload. Its counts add up to the points emitted, and to the reliable
    ones among the samples that the visualizer takes from the same run; the points listed as examples are such samples,
    and together with those said to be left they are all reliable points of the packet. -/
theorem reliable_accounting (host : ByteOrder) (buffer : Memory) (rs : List Recv) :
    let infos := ((viewer host).log { buffer } rs).filterMap Shown.info?
    infos.length = (payloads rs).length ∧
    (infos.map (·.pointCount)).sum = ((payloads rs).flatMap (emitted host)).length ∧
    (infos.map (·.reliablePoints)).sum = (samples host rs).countP isReliable ∧
    ∀ i ∈ infos, i.examples.length = min 5 i.reliablePoints ∧
      i.examples.length + i.more.getD 0 = i.reliablePoints ∧
      ∀ p ∈ i.examples, p ∈ samples host rs ∧ isReliable p = true := by
  intro infos
  have hinfos : infos = (payloads rs).map payloadInfo := infos_eq host buffer rs
  have hemitted : emitted host = fun p => decode (.ofList p) := funext (emitted_eq host)
  rw [hinfos]
  refine ⟨List.length_map _, ?_, ?_, fun i hi => ?_⟩
  · rw [List.map_map, List.length_flatMap, hemitted]
    refine congrArg List.sum (List.map_congr_left fun p _ => ?_)
    rw [Function.comp_apply, payloadInfo, printPacketInfo_eq]
  · rw [samples, List.countP_eq_length_filter, filter_isReliable_isSample, ← List.countP_eq_length_filter,
      List.countP_flatMap, List.map_map, hemitted]
    refine congrArg List.sum (List.map_congr_left fun p _ => ?_)
    rw [Function.comp_apply, Function.comp_apply, payloadInfo, printPacketInfo_eq]
  · obtain ⟨p, hp, rfl⟩ := List.mem_map.mp hi
    rw [payloadInfo, printPacketInfo_eq]
    simp only [List.length_take, ← List.countP_eq_length_filter]
    refine ⟨trivial, ?_, fun q hq => ?_⟩
    · split
      · simp only [Option.getD_some]
        omega
      · simp only [Option.getD_none]
        omega
    · obtain ⟨hq, hreliable⟩ := List.mem_filter.mp (List.mem_of_mem_take hq)
      rw [← emitted_eq host] at hq
      have hflat : q ∈ (payloads rs).flatMap (emitted host) := List.mem_flatMap.mpr ⟨p, hp, hq⟩
      exact ⟨List.mem_filter.mpr ⟨hflat, isSample_of_isReliable hreliable⟩, hreliable⟩

/-! ### Ranges -/

omit [Arithmetic] in
theorem foldl_rangeStats (points : List LidarPoint) (stats : RangeStats) : points.foldl RangeStats.step stats =
    { minDist := (points.map (·.distance)).foldl min stats.minDist
      maxDist := (points.map (·.distance)).foldl max stats.maxDist
      minAzim := (points.map (·.azimuth)).foldl min stats.minAzim
      maxAzim := (points.map (·.azimuth)).foldl max stats.maxAzim } := by
  induction points generalizing stats with
  | nil => rfl
  | cons p points ih => rw [List.foldl_cons, ih, RangeStats.step]; rfl

theorem bounds_of_mem_decode {data : Memory} {p : LidarPoint} (h : p ∈ decode data) :
    float (1 / 10) ≤ p.distance ∧ p.distance ≤ 15 ∧ 0 ≤ p.azimuth ∧ p.azimuth < 360 := by
  rw [decode] at h
  obtain ⟨s, hs, rfl⟩ := List.mem_map.mp h
  have hrange : isValidDistance (point data s).distance = true := by
    rw [point, isValidDistance_eq]
    exact decide_eq_true (mem_slots.mp hs).2.1
  simp only [isValidDistance, Bool.and_eq_true, decide_eq_true_eq] at hrange
  exact ⟨hrange.1, hrange.2, calculateAzimuth_nonneg _ _ _, calculateAzimuth_lt _ _ _⟩

/-- The extreme distances and azimuths of some points. -/
structure Ranges (points : List LidarPoint) (stats : RangeStats) : Prop where
  minDist : IsLeast {d | d ∈ points.map (·.distance)} stats.minDist
  maxDist : IsGreatest {d | d ∈ points.map (·.distance)} stats.maxDist
  minAzim : IsLeast {a | a ∈ points.map (·.azimuth)} stats.minAzim
  maxAzim : IsGreatest {a | a ∈ points.map (·.azimuth)} stats.maxAzim

/-- The sentinels 999 and 0 that the loop starts from are never shown for the points of a packet. -/
theorem ranges_decode {data : Memory} (hne : decode data ≠ []) :
    Ranges (decode data) ((decode data).foldl RangeStats.step {}) := by
  have hbounds : ∀ p ∈ decode data, 0 ≤ p.distance ∧ p.distance ≤ 999 ∧ 0 ≤ p.azimuth ∧ p.azimuth ≤ 999 := by
    intro p hp
    obtain ⟨hlow, hhigh, hnonneg, hlt⟩ := bounds_of_mem_decode hp
    exact ⟨(lawful_float.nonneg (by norm_num)).trans hlow, by linarith, hnonneg, by linarith⟩
  have hdist : (decode data).map (·.distance) ≠ [] := by simpa using hne
  have hazim : (decode data).map (·.azimuth) ≠ [] := by simpa using hne
  rw [foldl_rangeStats]
  exact
    { minDist := Select.isLeast_foldl_min_of_le hdist (List.forall_mem_map.mpr fun p hp => (hbounds p hp).2.1)
      maxDist := Select.isGreatest_foldl_max_of_le hdist (List.forall_mem_map.mpr fun p hp => (hbounds p hp).1)
      minAzim := Select.isLeast_foldl_min_of_le hazim (List.forall_mem_map.mpr fun p hp => (hbounds p hp).2.2.2)
      maxAzim := Select.isGreatest_foldl_max_of_le hazim (List.forall_mem_map.mpr fun p hp => (hbounds p hp).2.2.1) }

/-- The ranges shown for a datagram while ranges are shown: of a packet without a header that has points. -/
def shownRanges (bytes : List UInt8) : Option RangeStats :=
  if bytes.length = 1206 ∧ decode (.ofList bytes) ≠ [] then some ((decode (.ofList bytes)).foldl RangeStats.step {})
  else none

theorem ranges_described (number : Nat) (bytes : List UInt8) :
    (described number bytes).filterMap Shown.rangeStats? =
      if number < 1 + 5 then (shownRanges bytes).toList else [] := by
  have hnumber : number ≤ 5 ↔ number < 1 + 5 := by omega
  rw [described, shownRanges]
  by_cases h6 : bytes.length = 1206
  · rw [payload_whole h6]
    simp only [if_pos h6, List.filterMap_cons, Shown.rangeStats?, payloadRanges, hnumber]
    by_cases hfirst : number < 1 + 5
    · by_cases hpoints : decode (.ofList bytes) ≠ []
      · rw [if_pos ⟨hfirst, hpoints⟩, if_pos hfirst, if_pos ⟨h6, hpoints⟩]
        rfl
      · rw [if_neg fun h => hpoints h.2, if_pos hfirst, if_neg fun h => hpoints h.2]
        rfl
    · rw [if_neg fun h => hfirst h.1, if_neg hfirst]
      rfl
  · have hskip : ¬(bytes.length = 1206 ∧ decode (.ofList bytes) ≠ []) := fun h => h6 h.1
    rw [if_neg hskip, Option.toList_none, ite_self]
    cases payload bytes with
    | none => rfl
    | some p => simp only [if_neg h6, List.filterMap_cons, Shown.rangeStats?, List.filterMap_nil]

/-- Ranges are shown for the first five datagrams only, and there for each packet without a header that has points.
    They are the extreme distances and azimuths of its points. -/
theorem range_statistics (host : ByteOrder) (buffer : Memory) (rs : List Recv) :
    ((viewer host).log { buffer } rs).filterMap Shown.rangeStats? =
      ((rs.filterMap Recv.datagram?).take 5).filterMap shownRanges ∧
    ∀ bytes stats, shownRanges bytes = some stats → Ranges (emitted host bytes) stats ∧
      float (1 / 10) ≤ stats.minDist ∧ stats.minDist ≤ stats.maxDist ∧ stats.maxDist ≤ 15 ∧
      0 ≤ stats.minAzim ∧ stats.minAzim ≤ stats.maxAzim ∧ stats.maxAzim < 360 := by
  constructor
  · rw [log_project_viewer host buffer rs rfl, List.filterMap_eq_flatMap_toList shownRanges,
      ← Loop.flatMap_zipIdx_lt _ _ 1 5]
    exact List.flatMap_congr fun datagram _ => ranges_described datagram.2 datagram.1
  · intro bytes stats hstats
    obtain ⟨⟨-, hne⟩, hsome⟩ := Option.ite_none_right_eq_some.mp hstats
    obtain rfl := Option.some.inj hsome
    have hranges := ranges_decode hne
    obtain ⟨p, hp, hmin⟩ := List.mem_map.mp hranges.minDist.1
    obtain ⟨q, hq, hmax⟩ := List.mem_map.mp hranges.maxDist.1
    obtain ⟨a, ha, hmin'⟩ := List.mem_map.mp hranges.minAzim.1
    obtain ⟨c, hc, hmax'⟩ := List.mem_map.mp hranges.maxAzim.1
    rw [emitted_eq]
    refine ⟨hranges, ?_, hranges.maxDist.2 hranges.minDist.1, ?_, ?_, hranges.maxAzim.2 hranges.minAzim.1, ?_⟩
    · exact hmin ▸ (bounds_of_mem_decode hp).1
    · exact hmax ▸ (bounds_of_mem_decode hq).2.1
    · exact hmin' ▸ (bounds_of_mem_decode ha).2.2.1
    · exact hmax' ▸ (bounds_of_mem_decode hc).2.2.2

end Rounded

end LidarInterface.Reader2
