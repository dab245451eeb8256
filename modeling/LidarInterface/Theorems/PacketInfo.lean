import LidarInterface.Theorems.HostOrder

/-! What `slam_lidar_cpp`'s `printPacketInfo` says of a packet, against what the other functions of the parser make of
    it: the blocks that it lists are those that the points come from, and they decide whether the packet is accepted
    and whether it ends a rotation. -/

namespace LidarInterface.Slam
open Foundation Format Exact

variable {host : ByteOrder} {data : Memory}

/-- The blocks listed, with their azimuths. -/
def listed (host : ByteOrder) (data : Memory) : List (Fin 12 × ℚ) :=
  ((List.finRange 12).filter fun b => Valid host data b).map fun b => (b, degrees data b)

theorem mem_listed {v : Fin 12 × ℚ} : v ∈ listed host data ↔ Valid host data v.1 ∧ v.2 = degrees data v.1 := by
  simp only [listed, List.mem_map, List.mem_filter, List.mem_finRange, true_and, decide_eq_true_eq]
  constructor
  · rintro ⟨b, hb, rfl⟩
    exact ⟨hb, rfl⟩
  · rintro ⟨hb, he⟩
    exact ⟨v.1, hb, Prod.ext rfl he.symm⟩

theorem printPacketInfo_of_size (host : ByteOrder) (data : Memory) : printPacketInfo host data 1206 =
    .ok { timestamp := timestamp data, factory := factoryInfo data, isLast := isLastPacket host data 1206,
          validBlocks := listed host data, totalPoints := (parsePacket host data 1206).length } := by
  have hlisted : (((List.finRange 12).filter fun i => isValidBlock ((MSOPPacket.load host data).blocks i)).map fun i =>
      (i, getAzimuthDegrees host ((MSOPPacket.load host data).blocks i))) = listed host data := by
    rw [listed]
    refine congrArg₂ List.map (funext fun b => congrArg (Prod.mk b) (getAzimuthDegrees_load host data b)) ?_
    exact List.filter_congr fun b _ => Bool.decide_eq_true.symm
  rw [printPacketInfo, if_neg (by decide), getTimestamp_load, getFactoryInfo_load]
  simp only [hlisted]

theorem validatePacket_iff : validatePacket host data 1206 = true ↔ listed host data ≠ [] := by
  rw [validatePacket, if_neg (by decide), List.any_eq_true]
  constructor
  · rintro ⟨b, -, hb⟩
    exact List.ne_nil_of_mem (mem_listed.mpr ⟨hb, rfl⟩ : (b, degrees data b) ∈ listed host data)
  · intro hne
    obtain ⟨v, hv⟩ := List.exists_mem_of_ne_nil _ hne
    exact ⟨v.1, List.mem_finRange _, (mem_listed.mp hv).1⟩

/-- The blocks 6 to 11 are listed or counted as invalid. -/
theorem countP_listed (host : ByteOrder) (data : Memory) :
    (listed host data).countP (fun v => 6 ≤ v.1.val) + unflagged (hostFlag host) data = 6 := by
  have hupper : (listed host data).countP (fun v => 6 ≤ v.1.val) =
      ((List.finRange 12).filter fun b => 6 ≤ b.val).countP fun b => decide (Valid host data b) := by
    rw [listed, List.countP_map, List.countP_filter, List.countP_filter]
    exact List.countP_congr fun b _ => by
      rw [Bool.and_comm]
      rfl
  have hrest : unflagged (hostFlag host) data =
      ((List.finRange 12).filter fun b => 6 ≤ b.val).countP fun b => !decide (Valid host data b) := by
    rw [unflagged, List.countP_filter]
    refine List.countP_congr fun b _ => ?_
    rw [Bool.and_comm]
    simp only [valid_iff_hostFlag, ne_eq, decide_not]
  have hall := @List.length_eq_countP_add_countP _ (fun b => decide (Valid host data b))
    ((List.finRange 12).filter fun b => 6 ≤ b.val)
  simp only [Bool.decide_eq_true, decide_not] at hall
  rw [hupper, hrest, ← hall]
  rfl

theorem isLast_iff : isLastPacket host data 1206 = true ↔
    (listed host data).countP (fun v => 6 ≤ v.1.val) ≤ 3 := by
  have hsum := countP_listed host data
  rw [isLastPacket_load, decide_eq_true_eq]
  omega

/-- Each listed block gives as many points as it has returns. -/
theorem length_parsePacket (host : ByteOrder) (data : Memory) : (parsePacket host data 1206).length =
    ((listed host data).map fun v => (Slot.ofBlock v.1).countP fun s => Present data s).sum := by
  have hblock : ∀ b, ((Slot.ofBlock b).filter fun s => EmitsOn host data s).length =
      if Valid host data b then (Slot.ofBlock b).countP fun s => Present data s else 0 := by
    intro b
    rw [← List.countP_eq_length_filter]
    split
    · next hv =>
      refine List.countP_congr fun s hs => ?_
      obtain rfl := Slot.mem_ofBlock.mp hs
      rw [decide_eq_true_eq, decide_eq_true_eq]
      exact and_iff_right hv
    · next hv =>
      refine List.countP_eq_zero.mpr fun s hs hemits => hv ?_
      obtain rfl := Slot.mem_ofBlock.mp hs
      exact (of_decide_eq_true hemits).1
  rw [parsePacket_slots, Slot.map_filter_all, List.length_flatMap, listed, List.map_map]
  simp only [List.length_map, hblock]
  rw [List.sum_map_ite, List.map_const', List.sum_replicate, smul_zero, add_zero]
  rfl

/-- The points of a packet, block by block as listed. -/
theorem parsePacket_listed (host : ByteOrder) (data : Memory) : parsePacket host data 1206 =
    (listed host data).flatMap fun v => (List.finRange 16).flatMap fun i => pointsOf host data v.1 i := by
  have hskip : ∀ b, ¬Valid host data b → ((List.finRange 16).flatMap fun i => pointsOf host data b i) = [] := by
    intro b hb
    refine List.flatMap_eq_nil_iff.mpr fun i _ => ?_
    by_contra hne
    exact hb (pointsOf_ne_nil_iff.mp hne).1
  rw [parsePacket_pointsOf, listed, List.flatMap_map]
  generalize List.finRange 12 = blocks
  induction blocks with
  | nil => rfl
  | cons b blocks ih =>
    by_cases hb : Valid host data b
    · rw [List.filter_cons, if_pos (decide_eq_true hb), List.flatMap_cons, List.flatMap_cons, ih]
    · rw [List.filter_cons, if_neg (by simpa using hb), List.flatMap_cons, ih, hskip b hb, List.nil_append]

theorem azimuth_first {b : Fin 12} {p : ParsedPoint} (hp : p ∈ pointsOf host data b 0) :
    p.azimuthDegrees = toIcoMod turn_pos 0 (degrees data b) := by
  have hstart := calculatePointAzimuth_eq (degrees data b) (nextAzimuth host (.load host data) b) 0
  simp only [Fin.val_zero, Nat.cast_zero, mul_zero, add_zero] at hstart
  exact (azimuth_of_mem hp).2.trans hstart

theorem length_parsePacket_le (host : ByteOrder) (data : Memory) :
    (parsePacket host data 1206).length ≤ 32 * (listed host data).length := by
  rw [length_parsePacket, mul_comm, ← smul_eq_mul, ← List.length_map (fun v : Fin 12 × ℚ =>
    (Slot.ofBlock v.1).countP fun s => Present data s)]
  refine List.sum_le_card_nsmul _ _ fun n hn => ?_
  obtain ⟨v, -, rfl⟩ := List.mem_map.mp hn
  exact List.countP_le_length.trans_eq (Slot.length_ofBlock v.1)

/-- At most six blocks are listed of the first half. -/
theorem length_listed_le (host : ByteOrder) (data : Memory) :
    (listed host data).length ≤ 6 + (listed host data).countP fun v => 6 ≤ v.1.val := by
  have hlower : (listed host data).countP (fun v => !decide (6 ≤ v.1.val)) ≤ 6 := by
    rw [listed, List.countP_map]
    calc _ ≤ (List.finRange 12).countP fun b => !decide (6 ≤ b.val) := List.filter_sublist.countP_le
      _ = 6 := rfl
  have hall := @List.length_eq_countP_add_countP _ (fun v : Fin 12 × ℚ => decide (6 ≤ v.1.val)) (listed host data)
  simp only [decide_eq_true_eq, decide_not] at hall
  omega

/-- Neither spelling of the flag is `FF FF`. -/
theorem lt_of_reader2_isLastPacket (h : Reader2.isLastPacket host (.load host data) = true) {v : Fin 12 × ℚ}
    (hv : v ∈ listed host data) : v.1.val < 6 := by
  rw [Reader2.isLastPacket_load, List.all_eq_true] at h
  have hflag := valid_iff_hostFlag.mp (mem_listed.mp hv).1
  have hne : hostFlag host ≠ 0xFFFF := by
    cases host
    · decide
    · decide
  rcases Bool.or_eq_true_iff.mp (h v.1 (List.mem_finRange _)) with hlt | hend
  · exact of_decide_eq_true hlt
  · exact absurd (hflag.symm.trans (beq_iff_eq.mp hend)) hne

/-- The blocks that are listed for a packet give its points, one for each return, the first at the azimuth listed.
    The packet is accepted if one is listed, and ends a rotation if at most three of the blocks 6 to 11 are; when
    `reader2.0` takes it for the end of a rotation, none of these is. -/
theorem packet_report (host : ByteOrder) (data : Memory) : ∃ info, printPacketInfo host data 1206 = .ok info ∧
    (parsePacket host data 1206 = info.validBlocks.flatMap fun v =>
      (List.finRange 16).flatMap fun i => pointsOf host data v.1 i) ∧
    (∀ v ∈ info.validBlocks, ∀ p ∈ pointsOf host data v.1 0, p.azimuthDegrees = toIcoMod turn_pos 0 v.2) ∧
    info.totalPoints = (info.validBlocks.map fun v => (Slot.ofBlock v.1).countP fun s => Present data s).sum ∧
    (validatePacket host data 1206 = true ↔ info.validBlocks ≠ []) ∧
    ((exampleUsage host data).toOption.map fun e => e.size) =
      (if info.validBlocks = [] then none else some info.totalPoints) ∧
    (info.isLast = true ↔ info.validBlocks.countP (fun v => 6 ≤ v.1.val) ≤ 3) ∧
    (info.isLast = true → info.totalPoints ≤ 288) ∧
    (Reader2.isLastPacket host (.load host data) = true →
      info.isLast = true ∧ (∀ v ∈ info.validBlocks, v.1.val < 6) ∧ info.totalPoints ≤ 192) := by
  have hlength := length_parsePacket_le host data
  have hlisted := length_listed_le host data
  refine ⟨_, printPacketInfo_of_size host data, parsePacket_listed host data, fun v hv p hp => ?_,
    length_parsePacket host data, validatePacket_iff, ?_, isLast_iff, fun hlast => ?_, fun hend => ?_⟩
  · rw [(mem_listed.mp hv).2]
    exact azimuth_first hp
  · have hsize : sizeofMSOPPacket = 1206 := rfl
    rw [exampleUsage, hsize]
    by_cases hv : validatePacket host data 1206 = true
    · rw [if_neg (by simp [hv]), if_neg (validatePacket_iff.mp hv)]
      rfl
    · rw [if_pos (by simpa using hv), if_pos (not_not.mp fun hne => hv (validatePacket_iff.mpr hne))]
      rfl
  · have hupper := isLast_iff.mp hlast
    exact hlength.trans (by omega)
  · have hnone : (listed host data).countP (fun v => 6 ≤ v.1.val) = 0 :=
      List.countP_eq_zero.mpr fun v hv hle =>
        absurd (of_decide_eq_true hle) (Nat.not_le.mpr (lt_of_reader2_isLastPacket hend hv))
    exact ⟨isLast_iff.mpr (by omega), fun v => lt_of_reader2_isLastPacket hend, hlength.trans (by omega)⟩

end LidarInterface.Slam
