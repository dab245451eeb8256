import LidarInterface.Theorems.InvalidBlocks

/-! What a scan keeps of its packet. Two packets give the same scan exactly when their azimuths are the same up to whole
    turns, the step between the beams is the same, and the same blocks and strongest returns are there; the last
    returns, the tail, and what a missing beam holds otherwise are lost. -/

namespace LidarInterface.Slam
open Foundation Format Exact

variable {data data' : Memory}

/-- Slot `s` of both packets holds the same beam up to its angle, or none. -/
structure SameBeam (data data' : Memory) (s : Slot) : Prop where
  hasBeam_iff : HasBeam data s ↔ HasBeam data' s
  distance : HasBeam data s → distance data s = distance data' s
  rssi : HasBeam data s → rssi data s = rssi data' s

theorem beam_eq_iff (self : LiDARReader) (host : ByteOrder) (data data' : Memory) (b : Fin 12) (i : Fin 16) :
    self.beam (swapped host data) b i = self.beam (swapped host data') b i ↔
      angle self data ⟨b, i, .strongest⟩ = angle self data' ⟨b, i, .strongest⟩ ∧
        SameBeam data data' ⟨b, i, .strongest⟩ := by
  constructor
  · intro h
    have hangle := congrArg ScanPoint.angle h
    rw [angle_beam, angle_beam] at hangle
    have hreading := congrArg ScanPoint.reading? h
    rw [reading?_beam, reading?_beam] at hreading
    by_cases hb : HasBeam data ⟨b, i, .strongest⟩
    · by_cases hb' : HasBeam data' ⟨b, i, .strongest⟩
      · rw [if_pos hb, if_pos hb'] at hreading
        have hsame := Option.some.inj hreading
        have hrange := congrArg Reading.range hsame
        have hintensity := congrArg Reading.intensity hsame
        simp only [reading, double_eq, div_left_inj' (by norm_num : (1000 : ℚ) ≠ 0), Nat.cast_inj] at hrange hintensity
        exact ⟨hangle, iff_of_true hb hb', fun _ => UInt16.toNat_inj.mp hrange, fun _ => UInt8.toNat_inj.mp hintensity⟩
      · rw [if_pos hb, if_neg hb'] at hreading
        cases hreading
    · by_cases hb' : HasBeam data' ⟨b, i, .strongest⟩
      · rw [if_neg hb, if_pos hb'] at hreading
        cases hreading
      · exact ⟨hangle, iff_of_false hb hb', fun h => absurd h hb, fun h => absurd h hb⟩
  · rintro ⟨hangle, hsame⟩
    rw [beam_swapped, beam_swapped, hangle]
    by_cases hb : HasBeam data ⟨b, i, .strongest⟩
    · rw [if_pos hb, if_pos (hsame.hasBeam_iff.mp hb), reading, reading, hangle, hsame.distance hb, hsame.rssi hb]
    · rw [if_neg hb, if_neg fun h => hb (hsame.hasBeam_iff.mpr h)]

/-- The first beam of a block tells its azimuth up to whole turns. -/
theorem angle_first_eq_iff (self : LiDARReader) (data data' : Memory) (b : Fin 12) :
    angle self data ⟨b, 0, .strongest⟩ = angle self data' ⟨b, 0, .strongest⟩ ↔
      (azimuth data b).toNat % 36000 = (azimuth data' b).toNat % 36000 := by
  have hturns : ∀ n : ℤ, degrees data' b + self.angleOffset + step data' * ((0 : Fin 16).val : ℚ) -
      (degrees data b + self.angleOffset + step data * ((0 : Fin 16).val : ℚ)) = n • (360 : ℚ) ↔
        ((azimuth data' b).toNat : ℤ) - (azimuth data b).toNat = n * 36000 := by
    intro n
    rw [Fin.val_zero, Nat.cast_zero, mul_zero, mul_zero, add_zero, add_zero, add_sub_add_right_eq_sub, degrees, degrees,
      ← sub_div, div_eq_iff (by norm_num), zsmul_eq_mul, ← @Int.cast_inj ℚ]
    push_cast
    constructor
    · intro h
      linarith
    · intro h
      linarith
  rw [angle_exact, angle_exact, toIcoMod_eq_toIcoMod]
  constructor
  · rintro ⟨n, hn⟩
    have hdiff := (hturns n).mp hn
    omega
  · intro h
    refine ⟨((azimuth data' b).toNat : ℤ) / 36000 - ((azimuth data b).toNat : ℤ) / 36000, (hturns _).mpr ?_⟩
    omega

theorem step_eq_iff : step data = step data' ↔
    increment (azimuth data 0) (azimuth data 1) = increment (azimuth data' 0) (azimuth data' 1) := by
  rw [step_exact, step_exact, div_left_inj' (by norm_num), div_left_inj' (by norm_num), Int.cast_inj]

theorem abs_step_lt (data : Memory) : |step data| < 180 := by
  obtain ⟨hlow, hhigh⟩ := abs_lt.mp (abs_increment_lt (azimuth data 0) (azimuth data 1))
  rw [step_exact]
  exact abs_lt.mpr ⟨by linarith, by linarith⟩

/-- The second beam of block 0 tells the step. -/
theorem angles_eq_iff_of_first (self : LiDARReader) (data data' : Memory) :
    (∀ b i, angle self data ⟨b, i, .strongest⟩ = angle self data' ⟨b, i, .strongest⟩) ↔
      (∀ b, (azimuth data b).toNat % 36000 = (azimuth data' b).toNat % 36000) ∧
        increment (azimuth data 0) (azimuth data 1) = increment (azimuth data' 0) (azimuth data' 1) := by
  constructor
  · intro h
    have hfirst : ∀ b, (azimuth data b).toNat % 36000 = (azimuth data' b).toNat % 36000 :=
      fun b => (angle_first_eq_iff self data data' b).mp (h b 0)
    refine ⟨hfirst, ?_⟩
    have hangle := h 0
    simp only [angle_exact] at hangle
    obtain ⟨n, hn⟩ := (toIcoMod_eq_toIcoMod turn_pos).mp (hangle 0)
    obtain ⟨n', hn'⟩ := (toIcoMod_eq_toIcoMod turn_pos).mp (hangle 1)
    have hclose : |step data' - step data| < 360 := by
      calc |step data' - step data| ≤ |step data'| + |step data| := abs_sub _ _
        _ < 180 + 180 := add_lt_add (abs_step_lt data') (abs_step_lt data)
        _ = 360 := by norm_num
    refine step_eq_iff.mp (Wrap.eq_of_abs_sub_lt turn_pos hclose ⟨n' - n, ?_⟩).symm
    rw [sub_zsmul, ← hn, ← hn', Fin.val_zero, Fin.val_one, Nat.cast_zero, Nat.cast_one]
    ring
  · rintro ⟨hfirst, hinc⟩ b i
    have hstep := step_eq_iff.mpr hinc
    have hangle := (angle_first_eq_iff self data data' b).mpr (hfirst b)
    rw [angle_exact, angle_exact] at hangle ⊢
    obtain ⟨n, hn⟩ := (toIcoMod_eq_toIcoMod turn_pos).mp hangle
    rw [toIcoMod_eq_toIcoMod]
    refine ⟨n, ?_⟩
    rw [← hn, hstep]
    ring

theorem decodeScan_eq_iff (self : LiDARReader) (host : ByteOrder) (data data' : Memory) :
    self.decodeScan host (.load host data) = self.decodeScan host (.load host data') ↔
      ((∀ b, (azimuth data b).toNat % 36000 = (azimuth data' b).toNat % 36000) ∧
        increment (azimuth data 0) (azimuth data 1) = increment (azimuth data' 0) (azimuth data' 1)) ∧
      ∀ b i, SameBeam data data' ⟨b, i, .strongest⟩ := by
  rw [← angles_eq_iff_of_first self]
  constructor
  · intro h
    have hbeam : ∀ b i, self.beam (swapped host data) b i = self.beam (swapped host data') b i := fun b i => by
      rw [← decodeScan_slot, ← decodeScan_slot, h]
    exact ⟨fun b i => ((beam_eq_iff self host data data' b i).mp (hbeam b i)).1,
      fun b i => ((beam_eq_iff self host data data' b i).mp (hbeam b i)).2⟩
  · rintro ⟨hangle, hsame⟩
    exact decodeScan_eq_of_beam rfl fun b i => (beam_eq_iff self host data data' b i).mpr ⟨hangle b i, hsame b i⟩

/-- Which packets give the same scan, for every mounting and host: their azimuths are the same up to whole turns, the
    first two leave the same remainder, and the strongest returns of the flagged blocks are the same where one has a
    distance. For azimuths of one turn this determines every azimuth. -/
theorem scan_eq_iff (self : LiDARReader) (host : ByteOrder) (buf buf' data data' : Memory) :
    (self.readScan host buf (.datagram (data.bytes 1206)) = self.readScan host buf' (.datagram (data'.bytes 1206)) ↔
      ((∀ b, (azimuth data b).toNat % 36000 = (azimuth data' b).toNat % 36000) ∧
        increment (azimuth data 0) (azimuth data 1) = increment (azimuth data' 0) (azimuth data' 1)) ∧
      ∀ b i, SameBeam data data' ⟨b, i, .strongest⟩) ∧
    ((∀ b, (azimuth data b).toNat < 36000 ∧ (azimuth data' b).toNat < 36000) →
      (self.readScan host buf (.datagram (data.bytes 1206)) = self.readScan host buf' (.datagram (data'.bytes 1206)) ↔
        ∀ b, azimuth data b = azimuth data' b ∧ ∀ i, SameBeam data data' ⟨b, i, .strongest⟩)) := by
  have hscan : self.readScan host buf (.datagram (data.bytes 1206)) =
      self.readScan host buf' (.datagram (data'.bytes 1206)) ↔
        self.decodeScan host (.load host data) = self.decodeScan host (.load host data') := by
    rw [readScan_bytes, readScan_bytes, Except.ok.injEq]
  rw [hscan, decodeScan_eq_iff]
  refine ⟨Iff.rfl, fun hturn => ⟨?_, ?_⟩⟩
  · rintro ⟨⟨hmod, -⟩, hsame⟩ b
    have hb := hmod b
    rw [Nat.mod_eq_of_lt (hturn b).1, Nat.mod_eq_of_lt (hturn b).2] at hb
    exact ⟨UInt16.toNat_inj.mp hb, hsame b⟩
  · intro h
    exact ⟨⟨fun b => by rw [(h b).1], by rw [(h 0).1, (h 1).1]⟩, fun b => (h b).2⟩

end LidarInterface.Slam
