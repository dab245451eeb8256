import LidarInterface.Format
import LidarInterface.Slam.MSOPParser

/-! What `slam_lidar_cpp`'s `parsePacket` decodes: one point for each slot of the format whose return is present, in
    packet order, whatever the arithmetic. In exact arithmetic its azimuths are interpolated along the short arc to the
    next block. -/

namespace LidarInterface.Slam
open Foundation Format Arithmetic Exact

/-! ### Fields -/

def Valid (host : ByteOrder) (data : Memory) (b : Fin 12) : Prop :=
  isValidBlock ((MSOPPacket.load host data).blocks b) = true

instance (host : ByteOrder) (data : Memory) (b : Fin 12) : Decidable (Valid host data b) :=
  inferInstanceAs (Decidable (_ = true))

/-- The flag of a valid block reads `VALID_FLAG` in the byte order of the host. -/
theorem valid_iff {host : ByteOrder} {data : Memory} {b : Fin 12} :
    Valid host data b ↔ flag data b = host.ntohs validFlag := by
  have hload : host.ntohs ((MSOPPacket.load host data).blocks b).flag = flag data b := host.ntohs_load16 _ _
  rw [Valid, isValidBlock, beq_iff_eq, ← hload]
  exact host.ntohs_inj.symm

def degrees (data : Memory) (b : Fin 12) : ℚ := ((azimuth data b).toNat : ℚ) / 100

theorem degrees_sub (data : Memory) (b b' : Fin 12) : degrees data b' - degrees data b =
    (((azimuth data b').toNat - (azimuth data b).toNat : ℤ) : ℚ) / 100 := by
  rw [degrees, degrees]
  push_cast
  ring

/-- A rotated azimuth is the turned one up to whole turns. -/
theorem degrees_of_rotated {data data' : Memory} {b : Fin 12} {t : Int}
    (h : ((azimuth data' b).toNat : Int) = ((azimuth data b).toNat + t) % 36000) :
    ∃ n : ℤ, degrees data' b = degrees data b + t / 100 + n • (360 : ℚ) := by
  have hdiv := Int.emod_add_mul_ediv ((azimuth data b).toNat + t) 36000
  rw [← h] at hdiv
  have hcast : ((azimuth data' b).toNat : ℚ) + 36000 * (((azimuth data b).toNat + t) / 36000 : ℤ) =
      (azimuth data b).toNat + t := by exact_mod_cast hdiv
  refine ⟨-(((azimuth data b).toNat + t) / 36000), ?_⟩
  rw [degrees, degrees, neg_zsmul, zsmul_eq_mul]
  linarith

/-- A distance in metres, where a missing return stands as 0. -/
def meters [Arithmetic] (d : UInt16) : ℚ := if d = 0 ∨ d = 0xFFFF then 0 else double ((d.toNat : ℚ) / 1000)

section Load
variable (host : ByteOrder) (data : Memory) (b : Fin 12) (i : Fin 16)

theorem getAzimuthDegrees_load [Arithmetic] :
    getAzimuthDegrees host ((MSOPPacket.load host data).blocks b) = double (degrees data b) := by
  have hload : ntoh16 host ((MSOPPacket.load host data).blocks b).azimuth = azimuth data b :=
    (host.ntohs_load16 _ _).trans (Memory.be16_shift ..)
  rw [getAzimuthDegrees, hload, degrees]

theorem getDistanceMeters_strongest [Arithmetic] :
    getDistanceMeters host (((MSOPPacket.load host data).blocks b).results i).strongestReturn =
      meters (distance data ⟨b, i, .strongest⟩) := by
  have hload : ntoh16 host (((MSOPPacket.load host data).blocks b).results i).strongestReturn.distance =
      distance data ⟨b, i, .strongest⟩ := by
    refine (host.ntohs_load16 _ _).trans ?_
    simp only [Memory.be16_shift, distance, Slot.offset, Nat.add_zero]
  rw [getDistanceMeters, hload, meters]

theorem getDistanceMeters_last [Arithmetic] :
    getDistanceMeters host (((MSOPPacket.load host data).blocks b).results i).lastReturn =
      meters (distance data ⟨b, i, .last⟩) := by
  have hload : ntoh16 host (((MSOPPacket.load host data).blocks b).results i).lastReturn.distance =
      distance data ⟨b, i, .last⟩ := by
    refine (host.ntohs_load16 _ _).trans ?_
    simp only [Memory.be16_shift, distance, Slot.offset, Nat.add_assoc, Nat.add_zero]
  rw [getDistanceMeters, hload, meters]

theorem rssi_strongest :
    (((MSOPPacket.load host data).blocks b).results i).strongestReturn.rssi = rssi data ⟨b, i, .strongest⟩ := by
  simp only [MSOPPacket.load, DataBlock.load, MeasuringResult.load, ReturnData.load, Memory.shift_apply, rssi,
    Slot.offset, Nat.add_assoc, Nat.zero_add]

theorem rssi_last : (((MSOPPacket.load host data).blocks b).results i).lastReturn.rssi = rssi data ⟨b, i, .last⟩ := by
  simp only [MSOPPacket.load, DataBlock.load, MeasuringResult.load, ReturnData.load, Memory.shift_apply, rssi,
    Slot.offset, Nat.add_assoc]

end Load

/-- A block is interpolated with its own azimuth and, where they are valid, those of its neighbours. -/
theorem nextAzimuth_congr_of [Arithmetic] {host : ByteOrder} {data data' : Memory} {b : Fin 12}
    (hb : degrees data b = degrees data' b)
    (hnear : ∀ b' : Fin 12, b.val + 1 = b'.val ∨ b'.val = 10 ∧ b.val = 11 →
      (Valid host data b' ↔ Valid host data' b') ∧ (Valid host data b' → degrees data b' = degrees data' b')) :
    nextAzimuth host (.load host data) b = nextAzimuth host (.load host data') b := by
  unfold nextAzimuth
  simp only [getAzimuthDegrees_load, hb]
  split
  · next hlt =>
    obtain ⟨hiff, hdegrees⟩ := hnear ⟨b + 1, succ_lt hlt⟩ (Or.inl rfl)
    exact ite_congr (propext hiff) (fun hv => by rw [hdegrees (hiff.mpr hv)]) fun _ => rfl
  · next hge =>
    obtain ⟨hiff, hdegrees⟩ := hnear ⟨b - 1, pred_lt b⟩ (Or.inr ⟨by simp only; omega, by omega⟩)
    exact ite_congr rfl (fun _ => ite_congr (propext hiff) (fun hv => by rw [hdegrees (hiff.mpr hv)]) fun _ => rfl)
      fun _ => rfl

/-! ### Exact azimuths -/

/-- The azimuth that a block is interpolated towards, in degrees: the last block repeats the short arc from a
    valid predecessor. -/
def towards (data : Memory) (b : Fin 12) : ℚ :=
  if h : b.val < 11 then
    if flag data ⟨b + 1, succ_lt h⟩ = dataFlag then degrees data ⟨b + 1, succ_lt h⟩ else degrees data b
  else if flag data ⟨b - 1, pred_lt b⟩ = dataFlag then
    degrees data b + Wrap.shortArc 360 (degrees data b - degrees data ⟨b - 1, pred_lt b⟩)
  else
    degrees data b

theorem half_turn : (360 : ℚ) / 2 = 180 := by norm_num

theorem nextAzimuth_eq (host : ByteOrder) (data : Memory) (b : Fin 12) : nextAzimuth host (.load host data) b =
    if h : b.val < 11 then
      if Valid host data ⟨b + 1, succ_lt h⟩ then degrees data ⟨b + 1, succ_lt h⟩ else degrees data b
    else if Valid host data ⟨b - 1, pred_lt b⟩ then
      degrees data b + Wrap.shortArc 360 (degrees data b - degrees data ⟨b - 1, pred_lt b⟩)
    else
      degrees data b := by
  unfold nextAzimuth
  by_cases hb : b.val < 11
  · simp only [hb, dif_pos, getAzimuthDegrees_load, Exact.double_eq]
    rfl
  · have hpos : b.val > 0 := by omega
    simp only [hb, dif_neg, not_false_iff, if_pos hpos, getAzimuthDegrees_load, Exact.double_eq, Wrap.shortArc,
      half_turn, gt_iff_lt]
    rfl

theorem nextAzimuth_load (data : Memory) (b : Fin 12) :
    nextAzimuth .little (.load .little data) b = towards data b := by
  rw [nextAzimuth_eq, towards]
  split
  · exact if_congr valid_iff rfl rfl
  · exact if_congr valid_iff rfl rfl

theorem calculatePointAzimuth_eq (a n : ℚ) (i : Fin 16) : calculatePointAzimuth a n (i.val : Int) =
    toIcoMod turn_pos 0 (a + Wrap.shortArc 360 (n - a) / 16 * i.val) := by
  rw [calculatePointAzimuth, if_neg (by omega), double_id, Wrap.normalize_eq]
  simp only [id_eq, Wrap.shortArc, half_turn, gt_iff_lt, Int.cast_natCast]

/-! ### Slots -/

/-- The return is present, and a last return differs from the strongest one of the same measurement. -/
def Present (data : Memory) (s : Slot) : Prop :=
  (distance data s ≠ 0 ∧ distance data s ≠ 0xFFFF) ∧ (s.kind = .last → distance data s ≠ distance data s.strongest)

instance (data : Memory) : DecidablePred (Present data) := fun _ => inferInstanceAs (Decidable (_ ∧ (_ → _)))

def EmitsOn (host : ByteOrder) (data : Memory) (s : Slot) : Prop := Valid host data s.block ∧ Present data s

instance (host : ByteOrder) (data : Memory) : DecidablePred (EmitsOn host data) :=
  fun _ => inferInstanceAs (Decidable (_ ∧ _))

def pointOn [Arithmetic] (host : ByteOrder) (data : Memory) (s : Slot) : ParsedPoint where
  azimuthDegrees :=
    calculatePointAzimuth (double (degrees data s.block)) (nextAzimuth host (.load host data) s.block) s.index
  distanceMeters := double (((distance data s).toNat : ℚ) / 1000)
  rssi := rssi data s
  isValid := true
  useStrongestReturn := s.kind = .strongest

section Rounded
variable [Arithmetic]

theorem meters_pos {d : UInt16} : 0 < meters d ↔ d ≠ 0 ∧ d ≠ 0xFFFF := by
  rw [← not_or, meters]
  split
  · next h => simp [h]
  · next h =>
    have hpos : 0 < d.toNat := by
      rcases Nat.eq_zero_or_pos d.toNat with h0 | h0
      · exact absurd (Or.inl (UInt16.toNat_inj.mp h0)) h
      · exact h0
    have hround : double ((0 : ℕ) / 1000) < double ((d.toNat : ℚ) / 1000) :=
      (lawful_double.div_lt_div_iff (by norm_num) d.toNat_lt).mpr hpos
    rw [Nat.cast_zero, zero_div, lawful_double.zero] at hround
    simp [h, hround]

theorem meters_of_pos {d : UInt16} (h : 0 < meters d) : meters d = double ((d.toNat : ℚ) / 1000) :=
  if_neg (not_or.mpr (meters_pos.mp h))

theorem meters_inj {d d' : UInt16} (h : 0 < meters d) : meters d = meters d' ↔ d = d' := by
  refine ⟨fun he => ?_, fun he => he ▸ rfl⟩
  have h' : 0 < meters d' := he ▸ h
  rw [meters_of_pos h, meters_of_pos h', lawful_double.div_inj (by norm_num) d.toNat_lt d'.toNat_lt] at he
  exact UInt16.toNat_inj.mp he

theorem parsePoint_present (host : ByteOrder) (data : Memory) (b : Fin 12) (i : Fin 16) (a n : ℚ)
    (points : List ParsedPoint) :
    parsePoint host a n (((MSOPPacket.load host data).blocks b).results i) i points =
    points ++ ((if Present data ⟨b, i, .strongest⟩ then
        [⟨calculatePointAzimuth a n i, double (((distance data ⟨b, i, .strongest⟩).toNat : ℚ) / 1000),
          rssi data ⟨b, i, .strongest⟩, true, true⟩] else []) ++
      if Present data ⟨b, i, .last⟩ then
        [⟨calculatePointAzimuth a n i, double (((distance data ⟨b, i, .last⟩).toNat : ℚ) / 1000),
          rssi data ⟨b, i, .last⟩, true, false⟩] else []) := by
  have hstrongest : Present data ⟨b, i, .strongest⟩ ↔ 0 < meters (distance data ⟨b, i, .strongest⟩) := by
    simp [Present, meters_pos]
  have hlast : Present data ⟨b, i, .last⟩ ↔ 0 < meters (distance data ⟨b, i, .last⟩) ∧
      meters (distance data ⟨b, i, .last⟩) ≠ meters (distance data ⟨b, i, .strongest⟩) := by
    rw [Present, ← meters_pos]
    refine ⟨fun h => ⟨h.1, ?_⟩, fun h => ⟨h.1, fun _ => ?_⟩⟩
    · rw [ne_eq, meters_inj h.1]
      exact h.2 rfl
    · exact fun he => h.2 ((meters_inj h.1).mpr he)
  simp only [parsePoint, getDistanceMeters_strongest, getDistanceMeters_last, rssi_strongest, rssi_last, gt_iff_lt,
    hstrongest, hlast]
  by_cases h1 : 0 < meters (distance data ⟨b, i, .strongest⟩) <;>
    by_cases h2 : 0 < meters (distance data ⟨b, i, .last⟩) ∧
      meters (distance data ⟨b, i, .last⟩) ≠ meters (distance data ⟨b, i, .strongest⟩)
  · rw [if_pos h1, if_pos h2, if_pos h1, if_pos h2, meters_of_pos h1, meters_of_pos h2.1, List.append_assoc]
  · rw [if_pos h1, if_neg h2, if_pos h1, if_neg h2, meters_of_pos h1, List.append_nil]
  · rw [if_neg h1, if_pos h2, if_neg h1, if_pos h2, meters_of_pos h2.1, List.nil_append]
  · rw [if_neg h1, if_neg h2, if_neg h1, if_neg h2, List.append_nil, List.append_nil]

theorem parseBlock_slots (host : ByteOrder) (data : Memory) (points : List ParsedPoint) (b : Fin 12) :
    parseBlock host (.load host data) points b =
      points ++ ((Slot.ofBlock b).filter fun s => EmitsOn host data s).map (pointOn host data) := by
  unfold parseBlock
  by_cases hv : Valid host data b
  · have hflag : isValidBlock ((MSOPPacket.load host data).blocks b) = true := hv
    have hemits : ∀ i k, EmitsOn host data ⟨b, i, k⟩ ↔ Present data ⟨b, i, k⟩ := fun i k => and_iff_right hv
    simp only [hflag, Bool.not_true, Bool.false_eq_true, if_false, getAzimuthDegrees_load, parsePoint_present,
      List.foldl_append_eq_append, Slot.map_filter_ofBlock, List.flatMap_def, hemits]
    rfl
  · have hflag : isValidBlock ((MSOPPacket.load host data).blocks b) = false := Bool.eq_false_of_not_eq_true hv
    have hnone : ∀ i k, ¬EmitsOn host data ⟨b, i, k⟩ := fun i k h => hv h.1
    simp [hflag, Slot.map_filter_ofBlock, hnone]

/-- On either host there is one point for each slot that emits, in packet order. -/
theorem parsePacket_slots (host : ByteOrder) (data : Memory) : parsePacket host data 1206 =
    (Slot.all.filter fun s => EmitsOn host data s).map (pointOn host data) := by
  rw [parsePacket, if_neg (by decide), funext₂ (parseBlock_slots host data), List.foldl_append_eq_append,
    Slot.map_filter_all, List.nil_append, List.flatMap_def]

/-! ### Azimuths -/

/-- A difference of two azimuths, taken along the short arc. -/
theorem abs_shortArc_le {d c : ℚ} (hd : |d| ≤ c) :
    |if d < -180 then double (d + 360) else if d > 180 then double (d - 360) else d| ≤ 2 * (c + 360) := by
  have hturn : |(360 : ℚ)| = 360 := abs_of_pos (by norm_num)
  have hplus := abs_add_le d 360
  have hminus := abs_sub d 360
  split
  · exact (lawful_double.abs_le_two_mul _).trans (by linarith)
  · split
    · exact (lawful_double.abs_le_two_mul _).trans (by linarith)
    · linarith [abs_nonneg d]

theorem abs_degrees_le (data : Memory) (b : Fin 12) : |double (degrees data b)| ≤ 1312 := by
  have hlt : ((azimuth data b).toNat : ℚ) ≤ 65535 := by exact_mod_cast Nat.le_of_lt_succ (azimuth data b).toNat_lt
  have hnonneg : 0 ≤ degrees data b := by
    rw [degrees]
    positivity
  have hround := lawful_double.abs_le_two_mul (degrees data b)
  rw [abs_of_nonneg hnonneg] at hround
  exact hround.trans (by rw [degrees]; linarith)

theorem abs_nextAzimuth_le (host : ByteOrder) (data : Memory) (b : Fin 12) :
    |nextAzimuth host (.load host data) b| ≤ 26000 := by
  have hdegrees : ∀ b, |double (degrees data b)| ≤ 26000 := fun b => (abs_degrees_le data b).trans (by norm_num)
  simp only [nextAzimuth, getAzimuthDegrees_load]
  split
  · split
    · exact hdegrees _
    · exact hdegrees _
  · split
    · split
      · have hsub := (abs_sub _ _).trans (add_le_add (abs_degrees_le data b) (abs_degrees_le data ⟨b - 1, pred_lt b⟩))
        have harc := abs_shortArc_le ((lawful_double.abs_le_two_mul _).trans (mul_le_mul_of_nonneg_left hsub two_pos.le))
        have hsum := (abs_add_le _ _).trans (add_le_add (abs_degrees_le data b) harc)
        exact ((lawful_double.abs_le_two_mul _).trans (mul_le_mul_of_nonneg_left hsum two_pos.le)).trans (by norm_num)
      · exact hdegrees _
    · exact hdegrees _

/-- Both loops run as they are written, and end between 0 and 360 degrees. -/
theorem calculatePointAzimuth_mem {a n : ℚ} (ha : |a| ≤ 1312) (hn : |n| ≤ 26000) (i : Fin 16) :
    0 ≤ calculatePointAzimuth a n (i.val : Int) ∧ calculatePointAzimuth a n (i.val : Int) < 360 := by
  have hi : ¬((i.val : Int) < 0 ∨ (i.val : Int) ≥ 16) := by omega
  rw [calculatePointAzimuth, if_neg hi]
  dsimp only
  have hsub : |n - a| ≤ 27312 := (abs_sub n a).trans (by linarith)
  have harc := abs_shortArc_le ((lawful_double.abs_le_two_mul (n - a)).trans (mul_le_mul_of_nonneg_left hsub two_pos.le))
  generalize (if double (n - a) < -180 then double (double (n - a) + 360)
    else if double (n - a) > 180 then double (double (n - a) - 360) else double (n - a)) = arc at harc ⊢
  have hincrement : |double (arc / 16)| ≤ 20000 := by
    refine (lawful_double.abs_le_two_mul _).trans ?_
    rw [abs_div, abs_of_pos (by norm_num : (0 : ℚ) < 16)]
    linarith
  have hindex : |((i.val : Int) : ℚ)| ≤ 16 := by
    rw [Int.cast_natCast, Nat.abs_cast]
    exact_mod_cast i.isLt.le
  have hstep : |double (double (arc / 16) * ((i.val : Int) : ℚ))| ≤ 2 * (20000 * 16) := by
    refine (lawful_double.abs_le_two_mul _).trans ?_
    rw [abs_mul]
    exact mul_le_mul_of_nonneg_left (mul_le_mul hincrement hindex (abs_nonneg _) (by norm_num)) two_pos.le
  have hsum := (abs_add_le _ _).trans (add_le_add ha hstep)
  have hbound : |double (a + double (double (arc / 16) * ((i.val : Int) : ℚ)))| ≤ 2 ^ 20 * 360 := by
    linarith [lawful_double.abs_le_two_mul (a + double (double (arc / 16) * ((i.val : Int) : ℚ)))]
  exact Wrap.normalize_mem turn_pos lawful_double hbound

/-- In every arithmetic the azimuths that are emitted lie within one turn. -/
theorem azimuth_mem_parsePacket (host : ByteOrder) (data : Memory) :
    ∀ p ∈ parsePacket host data 1206, 0 ≤ p.azimuthDegrees ∧ p.azimuthDegrees < 360 := by
  rw [parsePacket_slots]
  refine List.forall_mem_map.mpr fun s _ => ?_
  exact calculatePointAzimuth_mem (abs_degrees_le data s.block) (abs_nextAzimuth_le host data s.block) s.index

/-! ### Measurements -/

section Measurements
variable (host : ByteOrder) (data : Memory) (b : Fin 12) (i : Fin 16)

/-- The points that the iteration for measurement `i` of block `b` appends. -/
def pointsOf : List ParsedPoint :=
  let packet := MSOPPacket.load host data
  if isValidBlock (packet.blocks b) then
    parsePoint host (getAzimuthDegrees host (packet.blocks b)) (nextAzimuth host packet b)
      ((packet.blocks b).results i) i []
  else
    []

variable {host data b i}

theorem pointsOf_eq (host : ByteOrder) (data : Memory) (b : Fin 12) (i : Fin 16) : pointsOf host data b i =
    (if EmitsOn host data ⟨b, i, .strongest⟩ then [pointOn host data ⟨b, i, .strongest⟩] else []) ++
      if EmitsOn host data ⟨b, i, .last⟩ then [pointOn host data ⟨b, i, .last⟩] else [] := by
  by_cases hv : Valid host data b
  · have hemits : ∀ k, EmitsOn host data ⟨b, i, k⟩ ↔ Present data ⟨b, i, k⟩ := fun k => and_iff_right hv
    refine (if_pos hv).trans ?_
    rw [getAzimuthDegrees_load, parsePoint_present, List.nil_append]
    simp only [hemits]
    rfl
  · have hnone : ∀ k, ¬EmitsOn host data ⟨b, i, k⟩ := fun k h => hv h.1
    rw [if_neg (hnone _), if_neg (hnone _), List.append_nil]
    exact if_neg hv

theorem parsePacket_pointsOf (host : ByteOrder) (data : Memory) : parsePacket host data 1206 =
    (List.finRange 12).flatMap fun b => (List.finRange 16).flatMap fun i => pointsOf host data b i := by
  simp only [parsePacket_slots, Slot.map_filter_all, Slot.map_filter_ofBlock, pointsOf_eq]

theorem mem_pointsOf {p : ParsedPoint} :
    p ∈ pointsOf host data b i ↔ ∃ k, EmitsOn host data ⟨b, i, k⟩ ∧ p = pointOn host data ⟨b, i, k⟩ := by
  rw [pointsOf_eq, List.mem_append]
  constructor
  · rintro (hp | hp)
    · split at hp
      · next h => exact ⟨_, h, List.mem_singleton.mp hp⟩
      · cases hp
    · split at hp
      · next h => exact ⟨_, h, List.mem_singleton.mp hp⟩
      · cases hp
  · rintro ⟨_ | _, h, rfl⟩
    · exact Or.inl (by rw [if_pos h]; exact List.mem_singleton_self _)
    · exact Or.inr (by rw [if_pos h]; exact List.mem_singleton_self _)

theorem azimuth_of_mem {p : ParsedPoint} (hp : p ∈ pointsOf host data b i) : Valid host data b ∧
    p.azimuthDegrees = calculatePointAzimuth (double (degrees data b)) (nextAzimuth host (.load host data) b) i := by
  obtain ⟨k, hemits, rfl⟩ := mem_pointsOf.mp hp
  exact ⟨hemits.1, rfl⟩

theorem pointsOf_ne_nil_iff : pointsOf host data b i ≠ [] ↔
    Valid host data b ∧ ∃ k, distance data ⟨b, i, k⟩ ≠ 0 ∧ distance data ⟨b, i, k⟩ ≠ 0xFFFF := by
  constructor
  · intro hne
    obtain ⟨p, hp⟩ := List.exists_mem_of_ne_nil _ hne
    obtain ⟨k, hemits, -⟩ := mem_pointsOf.mp hp
    exact ⟨hemits.1, k, hemits.2.1⟩
  · rintro ⟨hv, k, hpresent⟩
    -- A last return that equals the strongest one is not emitted, but then the strongest one is.
    by_cases hsame : distance data ⟨b, i, k⟩ = distance data ⟨b, i, .strongest⟩
    · rw [hsame] at hpresent
      have hemits : EmitsOn host data ⟨b, i, .strongest⟩ := ⟨hv, hpresent, fun hlast => by cases hlast⟩
      exact List.ne_nil_of_mem (mem_pointsOf.mpr ⟨_, hemits, rfl⟩)
    · have hemits : EmitsOn host data ⟨b, i, k⟩ := ⟨hv, hpresent, fun _ => hsame⟩
      exact List.ne_nil_of_mem (mem_pointsOf.mpr ⟨_, hemits, rfl⟩)

end Measurements

end Rounded

/-! ### A little-endian host -/

def Emits (data : Memory) (s : Slot) : Prop :=
  flag data s.block = dataFlag ∧ (distance data s ≠ 0 ∧ distance data s ≠ 0xFFFF) ∧
    (s.kind = .last → distance data s ≠ distance data s.strongest)

instance (data : Memory) : DecidablePred (Emits data) := fun _ => inferInstanceAs (Decidable (_ ∧ _ ∧ (_ → _)))

def point (data : Memory) (s : Slot) : ParsedPoint where
  azimuthDegrees := calculatePointAzimuth (degrees data s.block) (towards data s.block) s.index
  distanceMeters := ((distance data s).toNat : ℚ) / 1000
  rssi := rssi data s
  isValid := true
  useStrongestReturn := s.kind = .strongest

def decode (data : Memory) : List ParsedPoint := (Slot.all.filter fun s => Emits data s).map (point data)

theorem emitsOn_little {data : Memory} {s : Slot} : EmitsOn .little data s ↔ Emits data s := and_congr_left' valid_iff

theorem pointOn_little (data : Memory) (s : Slot) : pointOn .little data s = point data s := by
  rw [pointOn, nextAzimuth_load, point, Exact.double_eq, Exact.double_eq]

theorem filter_little (data : Memory) (slots : List Slot) :
    (slots.filter fun s => EmitsOn .little data s).map (pointOn .little data) =
      (slots.filter fun s => Emits data s).map (point data) :=
  Slot.map_filter_congr (fun _ => emitsOn_little) fun s _ => pointOn_little data s

theorem parseBlock_eq (data : Memory) (points : List ParsedPoint) (b : Fin 12) :
    parseBlock .little (.load .little data) points b =
      points ++ ((Slot.ofBlock b).filter fun s => Emits data s).map (point data) := by
  rw [parseBlock_slots, filter_little]

theorem parsePacket_of_size (data : Memory) : parsePacket .little data 1206 = decode data := by
  rw [parsePacket_slots, filter_little, decode]

end LidarInterface.Slam
