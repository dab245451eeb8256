import LidarInterface.Theorems.Reader2Sweep
import LidarInterface.Theorems.SlamDecode

/-! The two packet parsers of the repository on one packet. `reader2.0` emits the returns of
    `slam_lidar_cpp` that lie in its range of distances, and its truncated azimuths stay just below the
    exact ones. -/

namespace LidarInterface
open Foundation Format Exact

def AzimuthsInTurn (data : Memory) : Prop := ∀ b, flag data b = dataFlag → (azimuth data b).toNat < 36000

def Slam.ParsedPoint.InRange (p : Slam.ParsedPoint) : Prop :=
  100 ≤ p.distanceMeters * 1000 ∧ p.distanceMeters * 1000 ≤ 15000

instance : DecidablePred Slam.ParsedPoint.InRange := fun _ => inferInstanceAs (Decidable (_ ∧ _))

/-- The azimuth of the first point is that of the second, or less than 0.15 degrees below it. -/
def JustBelow (p : Reader2.LidarPoint) (q : Slam.ParsedPoint) : Prop :=
  p.azimuth ≤ q.azimuthDegrees ∧ q.azimuthDegrees < p.azimuth + 15 / 100

theorem millimetres (n : Nat) : (n : ℚ) / 1000 * 1000 = n := div_mul_cancel₀ _ (by norm_num)

section Azimuth
variable {a n : UInt16}

/-- Towards a successor within half a turn ahead, the exact azimuth exceeds the truncated one by the remainder
    of the division by 16, times the measurement index. -/
theorem calculateAzimuth_justBelow (hn : n.toNat < 36000) (hlt : a.toNat < n.toNat) (hhalf : n.toNat ≤ a.toNat + 18000)
    (i : Fin 16) :
    Reader2.calculateAzimuth a n i ≤ Slam.calculatePointAzimuth (a.toNat / 100) (n.toNat / 100) (i.val : Int) ∧
    Slam.calculatePointAzimuth (a.toNat / 100) (n.toNat / 100) (i.val : Int) <
      Reader2.calculateAzimuth a n i + 15 / 100 := by
  obtain ⟨q, r, hr, hq⟩ : ∃ q r, r < 16 ∧ n.toNat = a.toNat + (16 * q + r) :=
    ⟨(n.toNat - a.toNat) / 16, (n.toNat - a.toNat) % 16, by omega, by omega⟩
  have hqi : q * i.val ≤ q * 15 := Nat.mul_le_mul_left q (by omega)
  have hri : r * i.val ≤ 15 * 15 := Nat.mul_le_mul (by omega) (by omega)
  have hres : Reader2.resolution a n = q := by
    rw [Reader2.resolution_of_lt hlt]
    omega
  have hturn : ((a.toNat : ℤ) + q * i.val) % 36000 = (a.toNat + q * i.val : ℕ) := by
    push_cast
    exact Int.emod_eq_of_lt (by positivity) (by exact_mod_cast (by omega : a.toNat + q * i.val < 36000))
  have htruncated : Reader2.calculateAzimuth a n i = (a.toNat + q * i.val) / 100 := by
    rw [Reader2.calculateAzimuth_of_mem (hlt.trans hn) i.isLt, hres, hturn]
    push_cast
    rfl
  have hdiff : ((n.toNat : ℚ) / 100 - a.toNat / 100) = (16 * q + r) / 100 := by
    rw [hq]
    push_cast
    ring
  have harc : Wrap.shortArc 360 ((16 * q + r : ℚ) / 100) = (16 * q + r) / 100 := by
    refine Wrap.shortArc_of_abs_le (abs_le.mpr ⟨?_, ?_⟩)
    · have : (0 : ℚ) ≤ (16 * q + r) / 100 := by positivity
      linarith
    · have : (16 * q + r : ℚ) ≤ 18000 := by exact_mod_cast (by omega : 16 * q + r ≤ 18000)
      linarith
  have hvalue : (a.toNat : ℚ) / 100 + (16 * q + r) / 100 / 16 * i.val =
      (a.toNat + q * i.val) / 100 + r * i.val / 1600 := by ring
  have hrem : (0 : ℚ) ≤ r * i.val ∧ (r * i.val : ℚ) ≤ 225 := ⟨by positivity, by exact_mod_cast hri⟩
  have hsweep : (16 * (a.toNat + q * i.val) + r * i.val : ℚ) < 576000 := by
    have hri' : r * i.val ≤ r * 15 := Nat.mul_le_mul_left r (by omega)
    exact_mod_cast (by omega : 16 * (a.toNat + q * i.val) + r * i.val < 576000)
  have hexact : Slam.calculatePointAzimuth (a.toNat / 100) (n.toNat / 100) (i.val : Int) =
      (a.toNat + q * i.val) / 100 + r * i.val / 1600 := by
    rw [Slam.calculatePointAzimuth_eq, hdiff, harc, hvalue]
    exact Wrap.toIcoMod_of_mem _ (by positivity) (by linarith)
  rw [htruncated, hexact]
  exact ⟨by linarith [hrem.1], by linarith [hrem.2]⟩

end Azimuth

section Blocks
variable {data : Memory} (hlow : AzimuthsInTurn data)

theorem inRange_point (s : Slot) : (Slam.point data s).InRange ↔ Reader2.InRange (distance data s) := by
  rw [Slam.ParsedPoint.InRange, Slam.point, millimetres, Reader2.InRange]
  norm_cast

theorem filter_inRange (slots : List Slot) :
    (((slots.filter fun s => Slam.Emits data s).map (Slam.point data)).filter fun p => p.InRange) =
      (slots.filter fun s => Reader2.InRange (distance data s) ∧ Slam.Emits data s).map (Slam.point data) :=
  Slot.filter_map_filter _ _ fun s => by rw [decide_eq_true_iff, inRange_point]

include hlow

theorem valid_iff_flag (b : Fin 12) : Reader2.Valid data b ↔ flag data b = dataFlag :=
  ⟨fun hv => hv.1, fun hflag => Reader2.valid_of_lt hflag (hlow b hflag)⟩

theorem emits_iff (s : Slot) : Reader2.Emits data s ↔ Reader2.InRange (distance data s) ∧ Slam.Emits data s := by
  rw [Reader2.Emits, Slam.Emits, valid_iff_flag hlow]
  constructor
  · rintro ⟨hflag, hin, hdup⟩
    exact ⟨hin, hflag, hin.ne_sentinel, hdup⟩
  · rintro ⟨hin, hflag, -, hdup⟩
    exact ⟨hflag, hin, hdup⟩

theorem filter_emits (slots : List Slot) :
    (((slots.filter fun s => Slam.Emits data s).map (Slam.point data)).filter fun p => p.InRange) =
      (slots.filter fun s => Reader2.Emits data s).map (Slam.point data) := by
  rw [filter_inRange]
  simp only [emits_iff hlow]

theorem point_justBelow {b b' : Fin 12} (hb' : b'.val = b.val + 1) (hnext : flag data b' = dataFlag)
    (hlt : (azimuth data b).toNat < (azimuth data b').toNat)
    (hhalf : (azimuth data b').toNat ≤ (azimuth data b).toNat + 18000) {s : Slot} (hs : s.block = b) :
    JustBelow (Reader2.point data s) (Slam.point data s) := by
  have hb : b.val < 11 := by omega
  have he : (⟨b + 1, by omega⟩ : Fin 12) = b' := Fin.ext hb'.symm
  have hreader2 : Reader2.towards data b = azimuth data b' := by
    rw [Reader2.towards, dif_pos hb, he, if_pos ((valid_iff_flag hlow _).mpr hnext)]
  have hslam : Slam.towards data b = Slam.degrees data b' := by
    rw [Slam.towards, dif_pos hb, he, if_pos hnext]
  rw [JustBelow, Reader2.point, Slam.point, hs, hreader2, hslam]
  exact calculateAzimuth_justBelow (hlow _ hnext) hlt hhalf s.index

end Blocks

/-- The returns that `reader2.0` emits are the ones of `slam_lidar_cpp` in its range, in the same order, and
    the azimuths of a block with a valid successor at most half a turn ahead are just below the exact ones. The
    points of a block are those that the iteration for this block appends. -/
theorem parsers_agree {data : Memory} (hlow : AzimuthsInTurn data) :
    let points := (({} : Reader2.MSOPParser).parsePacket .little data 1206 []).points
    let exact := (Slam.parsePacket .little data 1206).filter fun q => q.InRange
    let blockPoints := fun b => Reader2.parseBlock .little (.load .little data) [] b
    let blockExact := fun b => (Slam.parseBlock .little (.load .little data) [] b).filter fun q => q.InRange
    points.map (fun p => (p.distance * 1000, p.rssi, p.isStrongest)) =
      exact.map (fun q => (q.distanceMeters * 1000, q.rssi, q.useStrongestReturn)) ∧
    points = (List.finRange 12).flatMap blockPoints ∧ exact = (List.finRange 12).flatMap blockExact ∧
    ∀ b b' : Fin 12, b'.val = b.val + 1 → flag data b' = dataFlag →
      (azimuth data b).toNat < (azimuth data b').toNat → (azimuth data b').toNat ≤ (azimuth data b).toNat + 18000 →
      List.Forall₂ JustBelow (blockPoints b) (blockExact b) := by
  intro points exact blockPoints blockExact
  have hpoints : points = (Slot.all.filter fun s => Reader2.Emits data s).map (Reader2.point data) :=
    congrArg Reader2.ParseResult.points Reader2.parsePacket_of_size
  have hexact : exact = (Slot.all.filter fun s => Reader2.Emits data s).map (Slam.point data) := by
    rw [← filter_emits hlow, ← Slam.decode, ← Slam.parsePacket_of_size]
  have hblockPoints : blockPoints = fun b =>
      ((Slot.ofBlock b).filter fun s => Reader2.Emits data s).map (Reader2.point data) :=
    funext fun b => by rw [← List.nil_append (List.map _ _), ← Reader2.parseBlock_eq .little data [] b]
  have hblockExact : blockExact = fun b =>
      ((Slot.ofBlock b).filter fun s => Reader2.Emits data s).map (Slam.point data) :=
    funext fun b => by rw [← filter_emits hlow, ← List.nil_append (List.map _ _), ← Slam.parseBlock_eq data [] b]
  rw [hpoints, hexact, hblockPoints, hblockExact]
  refine ⟨?_, Slot.map_filter_all .., Slot.map_filter_all .., fun b b' hb' hnext hlt hhalf => ?_⟩
  · rw [List.map_map, List.map_map]
    rfl
  · rw [List.forall₂_map_left_iff, List.forall₂_map_right_iff, List.forall₂_same]
    intro s hs
    exact point_justBelow hlow hb' hnext hlt hhalf (Slot.mem_ofBlock.mp (List.mem_of_mem_filter hs))

theorem parsers_agree_lonePacket :
    let data := Reader2.lonePacket 400 ⟨3, 7, .strongest⟩
    List.Forall₂ JustBelow (Reader2.parseBlock .little (.load .little data) [] 3)
      ((Slam.parseBlock .little (.load .little data) [] 3).filter fun q => q.InRange) := by
  intro data
  have hstream := Reader2.lonePacket_default ⟨3, 7, .strongest⟩
  have hlow : AzimuthsInTurn data := fun b _ => hstream.azimuth_lt Nat.zero_lt_one b
  exact (parsers_agree hlow).2.2.2 3 4 rfl (by decide) (by decide) (by decide)

end LidarInterface
