import LidarInterface.Contents
import LidarInterface.Theorems.ScanDecode
import LidarInterface.Theorems.SlamSweep

/-! The scan of `LiDARReader` and the strongest returns of the packet parser, on one packet. In every arithmetic
    they tell measurements from missing returns alike, except that the scan keeps the distance 0xFFFF as a range.
    In exact arithmetic they place the points of a uniform sweep at the same angles. -/

namespace LidarInterface.Slam
open Foundation Format

/-! ### Strongest returns -/

section Strongest
variable {host : ByteOrder} {data : Memory} {b : Fin 12} {i : Fin 16}

theorem strongest_parsePacket [Arithmetic] (host : ByteOrder) (data : Memory) :
    (parsePacket host data 1206).filter (·.useStrongestReturn) =
      (Slot.all.filter fun s => s.kind = .strongest ∧ EmitsOn host data s).map (pointOn host data) := by
  rw [parsePacket_slots]
  exact Slot.filter_map_filter _ _ fun s => by simp [pointOn]

theorem mem_pointsOf_strongest [Arithmetic] {p : ParsedPoint} :
    (p ∈ pointsOf host data b i ∧ p.useStrongestReturn = true) ↔
      EmitsOn host data ⟨b, i, .strongest⟩ ∧ p = pointOn host data ⟨b, i, .strongest⟩ := by
  rw [mem_pointsOf]
  constructor
  · rintro ⟨⟨_ | _, hemits, rfl⟩, hs⟩
    · exact ⟨hemits, rfl⟩
    · cases hs
  · rintro ⟨hemits, rfl⟩
    exact ⟨⟨.strongest, hemits, rfl⟩, rfl⟩

theorem emits_strongest_iff {s : Slot} (hs : s.kind = .strongest) :
    EmitsOn .little data s ↔ HasBeam data s ∧ distance data s ≠ 0xFFFF := by
  rw [emitsOn_little, Emits, HasBeam, hs]
  constructor
  · rintro ⟨hflag, ⟨h0, h1⟩, -⟩
    exact ⟨⟨hflag, h0⟩, h1⟩
  · rintro ⟨⟨hflag, h0⟩, h1⟩
    exact ⟨hflag, ⟨h0, h1⟩, fun h => by cases h⟩

end Strongest

/-! ### Uniform sweeps -/

section Exact
open Exact

/-- All blocks are valid, their azimuths start at `a0` and grow by `g` modulo a turn, and no strongest
    distance is 0xFFFF. -/
structure Uniform (data : Memory) (a0 g : Nat) : Prop where
  start_lt : a0 < 36000
  gap_lt : g < 18000
  flag : ∀ b, flag data b = dataFlag
  azimuth : ∀ b : Fin 12, (azimuth data b).toNat = (a0 + b * g) % 36000
  distance : ∀ b i, distance data ⟨b, i, .strongest⟩ ≠ 0xFFFF

namespace Uniform
variable {data : Memory} {a0 g : Nat} (h : Uniform data a0 g)
include h

theorem shortArc_towards (b : Fin 12) : Wrap.shortArc 360 (towards data b - degrees data b) = (g : ℚ) / 100 := by
  have hvalid : ∀ b, Valid .little data b := fun b => valid_iff.mpr (h.flag b)
  rw [← nextAzimuth_load]
  by_cases hb : b.val < 11
  · have hnext : (⟨b.val + 1, succ_lt hb⟩ : Fin 12).val = b.val + 1 := rfl
    exact (sweep_of_even h.gap_lt hnext (h.azimuth _) (h.azimuth _)).1 (hvalid _)
  · have hprev := val_pred (b := b) (by omega)
    exact (sweep_of_even h.gap_lt hprev (h.azimuth _) (h.azimuth _)).2 (by omega) (hvalid _)

theorem azimuth_point (s : Slot) : (pointOn .little data s).azimuthDegrees = uniformAngle a0 g s := by
  rw [pointOn_little, point, calculatePointAzimuth_eq, h.shortArc_towards, sweep_of_azimuth (h.azimuth _)]

theorem step_eq : step data = (g : ℚ) / 100 / 16 := by
  have hstart := h.start_lt
  have hg := h.gap_lt
  have h0 := h.azimuth 0
  have h1 := h.azimuth 1
  have hdiff : increment (Format.azimuth data 0) (Format.azimuth data 1) = g := by
    rw [increment, h0, h1, Int.tmod_eq_emod_of_nonneg (by omega)]
    simp only [Fin.val_zero, Fin.val_one, zero_mul, one_mul]
    omega
  rw [step_exact, hdiff, Int.cast_natCast]

theorem angle_eq (s : Slot) : angle {} data s = uniformAngle a0 g s := by
  rw [angle_exact, h.step_eq, Int.cast_zero, add_zero, sweep_of_azimuth (h.azimuth _)]

theorem emits_iff {s : Slot} (hs : s.kind = .strongest) : EmitsOn .little data s ↔ Format.distance data s ≠ 0 := by
  have hpresent : Format.distance data s ≠ 0xFFFF := by
    obtain ⟨b, i, k⟩ := s
    subst hs
    exact h.distance b i
  rw [emits_strongest_iff hs, HasBeam]
  exact ⟨fun hd => hd.1.2, fun hd => ⟨⟨h.flag _, hd⟩, hpresent⟩⟩

end Uniform

/-- On a uniform sweep the finite slots of the scan and the strongest points of the parser are the same, and
    each lies at the angle of its block and measurement, the last block included. -/
theorem scan_uniform (buf : Memory) {data : Memory} {a0 g : Nat} (h : Uniform data a0 g) :
    ∃ scan, ({} : LiDARReader).readScan .little buf (.datagram (data.bytes 1206)) = .ok scan ∧
      let strongest := (parsePacket .little data 1206).filter (·.useStrongestReturn)
      scan.readings.map (fun r => (r.angle, r.range, r.intensity)) =
        strongest.map (fun p => (p.azimuthDegrees, p.distanceMeters, (p.rssi.toNat : ℚ))) ∧
      scan.readings.map (fun r => (r.angle, r.range, r.intensity)) =
        (Slot.all.filter fun s => s.kind = .strongest ∧ distance data s ≠ 0).map fun s =>
          (uniformAngle a0 g s, ((distance data s).toNat : ℚ) / 1000, ((rssi data s).toNat : ℚ)) := by
  refine ⟨_, readScan_bytes {} .little buf data, ?_⟩
  have hbeams : (Slot.all.filter fun s => s.kind = .strongest ∧ HasBeam data s) =
      Slot.all.filter fun s => s.kind = .strongest ∧ distance data s ≠ 0 :=
    List.filter_congr fun s _ => by simp [HasBeam, h.flag]
  have hpoints : (Slot.all.filter fun s => s.kind = .strongest ∧ EmitsOn .little data s) =
      Slot.all.filter fun s => s.kind = .strongest ∧ distance data s ≠ 0 :=
    List.filter_congr fun s _ => decide_eq_decide.mpr (and_congr_right h.emits_iff)
  have hreadings : (({} : LiDARReader).decodeScan .little (.load .little data)).readings = _ :=
    readings_decodeScan rfl .little data
  simp only [hreadings, strongest_parsePacket, hbeams, hpoints, List.map_map, List.map_inj_left,
    Function.comp_apply]
  refine ⟨fun s _ => ?_, fun s _ => ?_⟩
  · rw [reading, h.angle_eq, h.azimuth_point]
    rfl
  · rw [reading, h.angle_eq]
    rfl

theorem scan_uniform_across_seam :
    let data := ({ flag := fun _ => dataFlag, azimuth := fun b => .ofNat ((35500 + b * 400) % 36000),
                   distance := fun _ => 1000, rssi := fun _ => 50, timestamp := 0, factoryInfo := 0 } : Contents).encode
    ∃ scan, ({} : LiDARReader).readScan .little data (.datagram (data.bytes 1206)) = .ok scan ∧
      scan.readings.map (fun r => (r.angle, r.range, r.intensity)) =
        ((parsePacket .little data 1206).filter (·.useStrongestReturn)).map
          (fun p => (p.azimuthDegrees, p.distanceMeters, (p.rssi.toNat : ℚ))) := by
  intro data
  have h : Uniform data 35500 400 := {
    start_lt := by decide
    gap_lt := by decide
    flag := Contents.flag_encode _
    azimuth := fun b => by
      rw [Contents.azimuth_encode, UInt16.toNat_ofNat']
      omega
    distance := fun b i => by
      rw [Contents.distance_encode]
      exact show (1000 : UInt16) ≠ 0xFFFF by decide }
  obtain ⟨scan, hscan, hsame, -⟩ := scan_uniform data h
  exact ⟨scan, hscan, hsame⟩

end Exact

/-! ### Measurements and missing returns -/

def NoSentinel (data : Memory) : Prop := ∀ b i, flag data b = dataFlag → distance data ⟨b, i, .strongest⟩ ≠ 0xFFFF

theorem emits_iff_hasBeam {data : Memory} (h : NoSentinel data) (b : Fin 12) (i : Fin 16) :
    EmitsOn .little data ⟨b, i, .strongest⟩ ↔ HasBeam data ⟨b, i, .strongest⟩ := by
  rw [emits_strongest_iff rfl]
  exact ⟨fun he => he.1, fun hb => ⟨hb, h b i hb.1⟩⟩

section Rounded
variable [Arithmetic]

/-- The scan has a finite range exactly where the parser emits a strongest point, with its distance and
    signal strength. -/
structure Agrees (scan : Scan) (data : Memory) : Prop where
  finite_iff : ∀ b i, (scan (({} : LiDARReader).slot b i)).range ≠ ⊤ ↔
    ∃ p ∈ pointsOf .little data b i, p.useStrongestReturn = true
  measured : ∀ b i, ∀ p ∈ pointsOf .little data b i, p.useStrongestReturn = true →
    (scan (({} : LiDARReader).slot b i)).range = (p.distanceMeters : ℚ) ∧
      (scan (({} : LiDARReader).slot b i)).intensity = p.rssi.toNat
  missing : ∀ b i, (∀ p ∈ pointsOf .little data b i, p.useStrongestReturn ≠ true) →
    (scan (({} : LiDARReader).slot b i)).range = ⊤ ∧ (scan (({} : LiDARReader).slot b i)).intensity = 0
  points : scan.readings.map (fun r => (r.range, r.intensity)) =
    ((parsePacket .little data 1206).filter (·.useStrongestReturn)).map fun p => (p.distanceMeters, (p.rssi.toNat : ℚ))

section Decode
variable {data : Memory} {b : Fin 12} {i : Fin 16}

theorem decodeScan_of_hasBeam (h : HasBeam data ⟨b, i, .strongest⟩) :
    ({} : LiDARReader).decodeScan .little (.load .little data) (({} : LiDARReader).slot b i) =
      (reading {} data ⟨b, i, .strongest⟩).toScanPoint := by
  rw [decodeScan_slot, beam_swapped, if_pos h]

theorem decodeScan_of_not_hasBeam (h : ¬HasBeam data ⟨b, i, .strongest⟩) :
    ({} : LiDARReader).decodeScan .little (.load .little data) (({} : LiDARReader).slot b i) =
      { angle := angle {} data ⟨b, i, .strongest⟩, range := ⊤, intensity := 0 } := by
  rw [decodeScan_slot, beam_swapped, if_neg h]

end Decode

theorem agrees_of_noSentinel {data : Memory} (h : NoSentinel data) :
    Agrees (({} : LiDARReader).decodeScan .little (.load .little data)) data where
  finite_iff b i := by
    by_cases hb : HasBeam data ⟨b, i, .strongest⟩
    · rw [decodeScan_of_hasBeam hb]
      exact iff_of_true (WithTop.coe_ne_top) ⟨_, mem_pointsOf_strongest.mpr ⟨(emits_iff_hasBeam h b i).mpr hb, rfl⟩⟩
    · rw [decodeScan_of_not_hasBeam hb]
      refine iff_of_false (fun hne => hne rfl) ?_
      rintro ⟨p, hp⟩
      exact hb ((emits_iff_hasBeam h b i).mp (mem_pointsOf_strongest.mp hp).1)
  measured b i p hp hs := by
    obtain ⟨he, rfl⟩ := mem_pointsOf_strongest.mp ⟨hp, hs⟩
    rw [decodeScan_of_hasBeam ((emits_iff_hasBeam h b i).mp he)]
    exact ⟨rfl, rfl⟩
  missing b i hnone := by
    have hb : ¬HasBeam data ⟨b, i, .strongest⟩ := fun hb => by
      obtain ⟨hp, hs⟩ := mem_pointsOf_strongest.mpr ⟨(emits_iff_hasBeam h b i).mpr hb, rfl⟩
      exact hnone _ hp hs
    rw [decodeScan_of_not_hasBeam hb]
    exact ⟨rfl, rfl⟩
  points := by
    have hslots : (Slot.all.filter fun s => s.kind = .strongest ∧ HasBeam data s) =
        Slot.all.filter fun s => s.kind = .strongest ∧ EmitsOn .little data s :=
      List.filter_congr fun s _ => decide_eq_decide.mpr (and_congr_right fun hs => by
        obtain ⟨b, i, k⟩ := s
        subst hs
        exact (emits_iff_hasBeam h b i).symm)
    rw [readings_decodeScan rfl, strongest_parsePacket, hslots, List.map_map, List.map_map]
    rfl

/-- A distance of 0xFFFF in a valid block makes a beam, but no point. -/
theorem noSentinel_of_finite_iff {data : Memory}
    (h : ∀ b i, (({} : LiDARReader).decodeScan .little (.load .little data) (({} : LiDARReader).slot b i)).range ≠ ⊤ ↔
      ∃ p ∈ pointsOf .little data b i, p.useStrongestReturn = true) : NoSentinel data := by
  intro b i hflag he
  have hb : HasBeam data ⟨b, i, .strongest⟩ := ⟨hflag, by rw [he]; decide⟩
  have hfinite := (h b i).mp (by rw [decodeScan_of_hasBeam hb]; exact WithTop.coe_ne_top)
  obtain ⟨p, hp⟩ := hfinite
  exact ((emits_strongest_iff rfl).mp (mem_pointsOf_strongest.mp hp).1).2 he

/-- The scan and the parser agree on the measurements of a packet exactly when no valid block of it holds
    the strongest distance 0xFFFF. -/
theorem scan_agrees_iff (buf data : Memory) :
    ∃ scan, ({} : LiDARReader).readScan .little buf (.datagram (data.bytes 1206)) = .ok scan ∧
      (parsePacket .little data 1206 =
        (List.finRange 12).flatMap fun b => (List.finRange 16).flatMap fun i => pointsOf .little data b i) ∧
      (Agrees scan data ↔ NoSentinel data) :=
  ⟨_, readScan_bytes {} .little buf data, parsePacket_pointsOf .little data,
    fun h => noSentinel_of_finite_iff h.finite_iff, agrees_of_noSentinel⟩

end Rounded

/-- A packet of valid blocks whose returns all hold 0xFFFF: the parser emits nothing, and the scan has 192
    ranges of 65.535 metres. -/
def sentinelPacket : Memory :=
  ({ flag := fun _ => dataFlag, azimuth := fun b => .ofNat (b * 400), distance := fun _ => 0xFFFF,
     rssi := fun _ => 50, timestamp := 0, factoryInfo := 0 } : Contents).encode

open Ieee in
theorem scan_disagrees :
    ∃ scan, ({} : LiDARReader).readScan .little (fun _ => 0) (.datagram (sentinelPacket.bytes 1206)) = .ok scan ∧
      ¬Agrees scan sentinelPacket := by
  refine ⟨_, readScan_bytes {} .little _ _, fun h => ?_⟩
  exact noSentinel_of_finite_iff h.finite_iff 0 0 (Contents.flag_encode ..) (Contents.distance_encode ..)

end LidarInterface.Slam
