import LidarInterface.Theorems.Reader2Decode
import LidarInterface.Theorems.ScanDecode
import LidarInterface.Theorems.SlamSweep

/-! What the decoders make of the bytes in invalid blocks. The packet parsers ignore them: each looks at a neighbour
    of a block only when the neighbour is valid. `LiDARReader` takes the increment between its beams from blocks 0 and
    1 without such a test, so these blocks must be valid for the others to be read as they are. -/

namespace LidarInterface
open Foundation Format Arithmetic

/-! ### Changing one block -/

/-- The packet with the low byte of the azimuth of block `j` increased by one. -/
def bump (j : Fin 12) (data : Memory) : Memory := Function.update data (100 * j + 3) (data (100 * j + 3) + 1)

section Bump
variable {data : Memory} {j b : Fin 12}

theorem bump_of_ne {n : Nat} (hn : n ≠ 100 * j + 3) : bump j data n = data n := Function.update_of_ne hn _ _

theorem sameBlock_bump (hb : b ≠ j) : SameBlock data (bump j data) b := by
  intro r hr
  refine (bump_of_ne fun he => hb (Fin.ext ?_)).symm
  omega

theorem flag_bump (b : Fin 12) : flag (bump j data) b = flag data b :=
  Memory.be16_congr (bump_of_ne (by omega)) (bump_of_ne (by omega))

/-- The azimuth moves by 1, or back by 255 when the low byte wraps around. -/
theorem azimuth_bump : ((azimuth (bump j data) j).toNat : Int) - (azimuth data j).toNat = 1 ∨
    ((azimuth (bump j data) j).toNat : Int) - (azimuth data j).toNat = -255 := by
  have hhigh : bump j data (100 * j + 2) = data (100 * j + 2) := bump_of_ne (by omega)
  have hlow : (bump j data (100 * j + 2 + 1)).toNat = ((data (100 * j + 2 + 1)).toNat + 1) % 256 := by
    have hbyte : bump j data (100 * j + 2 + 1) = data (100 * j + 2 + 1) + 1 := Function.update_self ..
    rw [hbyte, UInt8.toNat_add]
    rfl
  have hlt := (data (100 * j + 2 + 1)).toNat_lt
  rw [azimuth, azimuth, Memory.be16_toNat, Memory.be16_toNat, hhigh, hlow]
  omega

theorem sameValid_bump {valid : Memory → Fin 12 → Prop}
    (hlocal : ∀ b, SameBlock data (bump j data) b → (valid data b ↔ valid (bump j data) b))
    (hj : ¬valid data j) (hj' : ¬valid (bump j data) j) : SameValid valid data (bump j data) where
  valid_iff b := by
    by_cases hb : b = j
    · subst hb
      exact iff_of_false hj hj'
    · exact hlocal b (sameBlock_bump hb)
  same b hv := sameBlock_bump fun hb => hj (hb ▸ hv)

end Bump

/-! ### Packet parsers -/

namespace Slam
variable {host : ByteOrder} {data data' : Memory}

section SameValid
variable (h : SameValid (Valid host) data data') {b : Fin 12}
include h

theorem degrees_congr (hv : Valid host data b) : degrees data b = degrees data' b := by
  rw [degrees, degrees, (h.same b hv).azimuth]

theorem nextAzimuth_congr [Arithmetic] (hv : Valid host data b) :
    nextAzimuth host (.load host data) b = nextAzimuth host (.load host data') b :=
  nextAzimuth_congr_of (degrees_congr h hv) fun b' _ => ⟨h.valid_iff b', degrees_congr h⟩

theorem emitsOn_congr (s : Slot) : EmitsOn host data s ↔ EmitsOn host data' s := by
  rw [EmitsOn, EmitsOn, ← h.valid_iff]
  refine and_congr_right fun hv => ?_
  rw [Present, Present, (h.same _ hv).distance s, SameBlock.distance s.strongest (h.same _ hv)]

theorem pointOn_congr [Arithmetic] {s : Slot} (hv : Valid host data s.block) :
    pointOn host data s = pointOn host data' s := by
  rw [pointOn, pointOn, degrees_congr h hv, nextAzimuth_congr h hv, (h.same _ hv).distance s, (h.same _ hv).rssi s]

theorem parsePacket_congr [Arithmetic] : parsePacket host data 1206 = parsePacket host data' 1206 := by
  rw [parsePacket_slots, parsePacket_slots]
  exact Slot.map_filter_congr (emitsOn_congr h) fun s hemits => pointOn_congr h hemits.1

end SameValid

/-- On a little-endian host the flag bytes of a valid block are `FF EE`. -/
theorem valid_little : Valid .little = fun data b => flag data b = dataFlag := by
  funext data b
  exact propext valid_iff

end Slam

/-- Packets with the same valid blocks have the same points, for either parser and its own test of a block. -/
theorem points_of_valid_blocks [Arithmetic] (host : ByteOrder) (data data' : Memory) :
    (SameValid Reader2.Valid data data' → ∀ (parser parser' : Reader2.MSOPParser) (points points' : List _),
      (parser.parsePacket host data 1206 points).points = (parser'.parsePacket host data' 1206 points').points) ∧
    (SameValid (Slam.Valid host) data data' → Slam.parsePacket host data 1206 = Slam.parsePacket host data' 1206) ∧
    (SameValid (fun data b => flag data b = dataFlag) data data' →
      Slam.parsePacket .little data 1206 = Slam.parsePacket .little data' 1206) := by
  refine ⟨fun h parser parser' points points' => ?_, fun h => Slam.parsePacket_congr h, fun h => ?_⟩
  · rw [Reader2.parsePacket_of_size, Reader2.parsePacket_of_size]
    exact Reader2.decode_congr h
  · rw [← Slam.valid_little] at h
    exact Slam.parsePacket_congr h

open Ieee in
/-- Block 6 of a packet that ends with block 5 has another azimuth. -/
theorem points_of_valid_blocks_endPacket :
    (({} : Reader2.MSOPParser).parsePacket .little (Slam.endPacket 6) 1206 []).points =
      (({} : Reader2.MSOPParser).parsePacket .little (bump 6 (Slam.endPacket 6)) 1206 []).points ∧
    Slam.parsePacket .little (Slam.endPacket 6) 1206 = Slam.parsePacket .little (bump 6 (Slam.endPacket 6)) 1206 := by
  have hflag : flag (Slam.endPacket 6) 6 ≠ dataFlag := by
    rw [Slam.flag_endPacket]
    decide
  have hflag' : flag (bump 6 (Slam.endPacket 6)) 6 ≠ dataFlag := by rwa [flag_bump]
  have hreader : SameValid Reader2.Valid (Slam.endPacket 6) (bump 6 (Slam.endPacket 6)) :=
    sameValid_bump (fun b h => Reader2.valid_congr h) (fun hv => hflag hv.1) fun hv => hflag' hv.1
  have hslam : SameValid (fun data b => flag data b = dataFlag) (Slam.endPacket 6) (bump 6 (Slam.endPacket 6)) :=
    sameValid_bump (fun b h => by rw [h.flag]) hflag hflag'
  have hpoints := points_of_valid_blocks .little (Slam.endPacket 6) (bump 6 (Slam.endPacket 6))
  exact ⟨hpoints.1 hreader {} {} [] [], hpoints.2.2 hslam⟩

/-! ### Scans -/

namespace Slam

/-- Two packets with the same flags, and the same bytes in the valid blocks. -/
structure SameFlagged (data data' : Memory) : Prop where
  flag_eq : ∀ b, flag data b = flag data' b
  same : ∀ b, flag data b = dataFlag → SameBlock data data' b

section Rounded
variable [A : Arithmetic]

/-- The scans of two packets hold the same beam in every slot of a valid block. -/
def SameBeams (self : LiDARReader) (host : ByteOrder) (data data' : Memory) : Prop :=
  ∀ buf buf', ∃ scan scan', self.readScan host buf (.datagram (data.bytes 1206)) = .ok scan ∧
    self.readScan host buf' (.datagram (data'.bytes 1206)) = .ok scan' ∧
    ∀ b, flag data b = dataFlag → ∀ i, scan (self.slot b i) = scan' (self.slot b i)

section Increment
variable {data data' : Memory}

omit A in
theorem abs_increment_lt (azimuth0 azimuth1 : UInt16) : |(increment azimuth0 azimuth1 : ℚ)| < 36000 := by
  have hlow : (-36000 : Int) < increment azimuth0 azimuth1 := Int.lt_tmod_of_pos _ (by decide)
  have hhigh : increment azimuth0 azimuth1 < 36000 := Int.tmod_lt_of_pos _ (by decide)
  exact abs_lt.mpr ⟨by exact_mod_cast hlow, by exact_mod_cast hhigh⟩

theorem abs_step_sub_le (data : Memory) :
    |step data - (increment (azimuth data 0) (azimuth data 1) : ℚ) / 1600| ≤ 1 / 10 ^ 5 := by
  obtain ⟨hlow, hhigh⟩ := abs_lt.mp (abs_increment_lt (azimuth data 0) (azimuth data 1))
  rw [step_eq_increment]
  generalize (increment (azimuth data 0) (azimuth data 1) : ℚ) = inc at hlow hhigh ⊢
  have hinc : |inc / 100| ≤ 360 := abs_le.mpr ⟨by linarith, by linarith⟩
  obtain ⟨hfirst, hfirst'⟩ := abs_le.mp
    ((lawful_double.error (inc / 100)).trans (div_le_div_of_nonneg_right hinc (by norm_num)))
  have hsixteenth : |double (inc / 100) / 16| ≤ 23 := abs_le.mpr ⟨by linarith, by linarith⟩
  obtain ⟨hsecond, hsecond'⟩ := abs_le.mp
    ((lawful_double.error (double (inc / 100) / 16)).trans (div_le_div_of_nonneg_right hsixteenth (by norm_num)))
  exact abs_le.mpr ⟨by linarith, by linarith⟩

/-- The arithmetic resolves a hundred-thousandth of a degree in every sum with the offset. -/
def Resolves (self : LiDARReader) : Prop := ∀ x : ℚ, |x| ≤ |(self.angleOffset : ℚ)| + 2000 → |double x - x| ≤ 1 / 10 ^ 5

/-- Exact arithmetic does for every offset, and `double` for every `int`. -/
theorem resolves_of_offset {self : LiDARReader} (h : A = Exact.arithmetic ∨ |self.angleOffset| ≤ 2 ^ 31) :
    Resolves self := by
  intro x hx
  rcases h with rfl | hint
  · rw [Exact.double_eq, sub_self, abs_zero]
    norm_num
  · have hoffset : |(self.angleOffset : ℚ)| ≤ 2 ^ 31 := by exact_mod_cast hint
    have herror := Arithmetic.error_double x
    linarith

/-- The angle before the reduction is that of the block, moved on by the increment. -/
theorem abs_rawAngle_sub_le {self : LiDARReader} (hself : Resolves self) (data : Memory) (b : Fin 12) :
    |rawAngle self data ⟨b, 1, .strongest⟩ -
      (double (double (degrees data b) + self.angleOffset) + step data)| ≤ 1 / 10 ^ 5 := by
  have hone : double (step data * ((1 : Fin 16).val : ℚ)) = step data := by
    rw [Fin.val_one, Nat.cast_one, mul_one]
    exact lawful_double.idem _
  have hsum : |double (degrees data b) + (self.angleOffset : ℚ)| ≤ |(self.angleOffset : ℚ)| + 1312 :=
    (abs_add_le _ _).trans (by linarith [abs_degrees_le data b])
  have hbase : |double (double (degrees data b) + self.angleOffset)| ≤ |(self.angleOffset : ℚ)| + 1313 := by
    have hclose := abs_le.mp (hself _ (hsum.trans (by linarith)))
    obtain ⟨hlow, hhigh⟩ := abs_le.mp hsum
    exact abs_le.mpr ⟨by linarith [hclose.1], by linarith [hclose.2]⟩
  have hstep : |step data| ≤ 23 := by
    obtain ⟨hlow, hhigh⟩ := abs_le.mp (abs_step_sub_le data)
    obtain ⟨hlow', hhigh'⟩ := abs_lt.mp (abs_increment_lt (azimuth data 0) (azimuth data 1))
    exact abs_le.mpr ⟨by linarith, by linarith⟩
  rw [rawAngle, hone]
  exact hself _ ((abs_add_le _ _).trans (by linarith))

/-- An angle is reduced by whole turns, up to the rounding of the last sum. -/
theorem abs_wrapAngle_sub_le (x : ℚ) : ∃ n : ℤ, |wrapAngle x - (x + n • (360 : ℚ))| ≤ 1 / 10 ^ 4 := by
  obtain ⟨n, hn⟩ := Wrap.fmod_eq_add_zsmul x 360
  rw [wrapAngle]
  split
  · next hneg =>
    have hx : x < 0 := by
      by_contra hx
      exact absurd (Wrap.fmod_of_nonneg Slam.turn_pos (not_lt.mp hx)).1 (not_le.mpr hneg)
    have hlow := (Wrap.fmod_of_neg Slam.turn_pos hx).1
    have hturn : |Wrap.fmod x 360 + 360| ≤ 360 := abs_le.mpr ⟨by linarith, by linarith⟩
    have herror := (lawful_double.error (Wrap.fmod x 360 + 360)).trans (div_le_div_of_nonneg_right hturn (by norm_num))
    refine ⟨n + 1, ?_⟩
    have hsum : x + (n + 1) • (360 : ℚ) = Wrap.fmod x 360 + 360 := by
      rw [add_zsmul, one_zsmul, hn, add_assoc]
    rw [hsum]
    exact herror.trans (by norm_num)
  · refine ⟨n, ?_⟩
    rw [hn, sub_self, abs_zero]
    norm_num

/-- Measurement 1 of a block lies a sixteenth of the increment from the start of the block. -/
theorem abs_angle_sub_le {self : LiDARReader} (hself : Resolves self) (data : Memory) (b : Fin 12) :
    ∃ n : ℤ, |angle self data ⟨b, 1, .strongest⟩ - (double (double (degrees data b) + self.angleOffset) +
      (increment (azimuth data 0) (azimuth data 1) : ℚ) / 1600 + n * 360)| ≤ 2 / 10 ^ 4 := by
  obtain ⟨n, hwrap⟩ := abs_wrapAngle_sub_le (rawAngle self data ⟨b, 1, .strongest⟩)
  obtain ⟨hraw, hraw'⟩ := abs_le.mp (abs_rawAngle_sub_le hself data b)
  obtain ⟨hstep, hstep'⟩ := abs_le.mp (abs_step_sub_le data)
  rw [zsmul_eq_mul] at hwrap
  obtain ⟨hwrap, hwrap'⟩ := abs_le.mp hwrap
  rw [angle]
  exact ⟨n, abs_le.mpr ⟨by linarith, by linarith⟩⟩

/-- Measurement 1 of any block tells two increments apart. -/
theorem angles_eq_iff {self : LiDARReader} (hself : Resolves self) {b : Fin 12} (h : SameBlock data data' b) :
    (∀ i, angle self data ⟨b, i, .strongest⟩ = angle self data' ⟨b, i, .strongest⟩) ↔
      increment (azimuth data 0) (azimuth data 1) = increment (azimuth data' 0) (azimuth data' 1) := by
  have hdegrees : degrees data b = degrees data' b := by rw [degrees, degrees, h.azimuth]
  constructor
  · intro hall
    obtain ⟨n, hn⟩ := abs_angle_sub_le hself data b
    obtain ⟨n', hn'⟩ := abs_angle_sub_le hself data' b
    rw [hall 1] at hn
    rw [← hdegrees] at hn'
    have hinc : |increment (azimuth data 0) (azimuth data 1)| < 36000 := by exact_mod_cast abs_increment_lt _ _
    have hinc' : |increment (azimuth data' 0) (azimuth data' 1)| < 36000 := by exact_mod_cast abs_increment_lt _ _
    generalize increment (azimuth data 0) (azimuth data 1) = inc at hn hinc ⊢
    generalize increment (azimuth data' 0) (azimuth data' 1) = inc' at hn' hinc' ⊢
    obtain ⟨hlow, hhigh⟩ := abs_le.mp hn
    obtain ⟨hlow', hhigh'⟩ := abs_le.mp hn'
    -- In sixteenths of a hundredth of a degree the increments differ by whole turns, up to less than 1.
    have hclose : |((inc - inc' + 576000 * (n - n') : ℤ) : ℚ)| < 1 := by
      push_cast
      exact abs_lt.mpr ⟨by linarith, by linarith⟩
    have hturns : inc - inc' + 576000 * (n - n') = 0 := Int.abs_lt_one_iff.mp (by exact_mod_cast hclose)
    rw [abs_lt] at hinc hinc'
    omega
  · intro hinc i
    rw [angle, angle, rawAngle, rawAngle, hdegrees, step_eq_increment, step_eq_increment, hinc]

theorem sameBeams_iff {self : LiDARReader} (hself : Resolves self) (host : ByteOrder) (h : SameFlagged data data') :
    SameBeams self host data data' ↔ (∀ b, flag data b ≠ dataFlag) ∨
      increment (azimuth data 0) (azimuth data 1) = increment (azimuth data' 0) (azimuth data' 1) := by
  constructor
  · intro hsame
    by_cases hnone : ∀ b, flag data b ≠ dataFlag
    · exact Or.inl hnone
    · obtain ⟨b, hb⟩ := not_forall.mp hnone
      have hv : flag data b = dataFlag := not_not.mp hb
      obtain ⟨scan, scan', hscan, hscan', hslots⟩ := hsame data data'
      rw [readScan_bytes] at hscan hscan'
      cases hscan
      cases hscan'
      refine Or.inr ((angles_eq_iff hself (h.same b hv)).mp fun i => ?_)
      have hbeam := hslots b hv i
      rw [decodeScan_slot, decodeScan_slot] at hbeam
      rw [← angle_beam self host, ← angle_beam self host, hbeam]
  · intro hcond buf buf'
    refine ⟨_, _, readScan_bytes self host buf data, readScan_bytes self host buf' data', fun b hv i => ?_⟩
    have hinc := hcond.resolve_left fun hnone => hnone b hv
    have hsame := h.same b hv
    rw [decodeScan_slot, decodeScan_slot]
    exact beam_eq_of_angle host ((angles_eq_iff hself hsame).mpr hinc i) hsame.flag (hsame.distance _) (hsame.rssi _)

end Increment

section Bump
variable {data : Memory} {j : Fin 12}

omit A in
theorem sameFlagged_bump (hj : flag data j ≠ dataFlag) : SameFlagged data (bump j data) where
  flag_eq b := (flag_bump b).symm
  same _ hv := sameBlock_bump fun hb => hj (hb ▸ hv)

omit A in
/-- The azimuths of blocks 0 and 1 both count. -/
theorem increment_bump_ne (hj : j = 0 ∨ j = 1) : increment (azimuth data 0) (azimuth data 1) ≠
    increment (azimuth (bump j data) 0) (azimuth (bump j data) 1) := by
  intro he
  have hdiv := Int.mul_tdiv_add_tmod ((azimuth data 1).toNat - (azimuth data 0).toNat + 36000) 36000
  have hdiv' := Int.mul_tdiv_add_tmod
    ((azimuth (bump j data) 1).toNat - (azimuth (bump j data) 0).toNat + 36000) 36000
  rw [increment, increment] at he
  rcases hj with rfl | rfl
  · have hmoved := @azimuth_bump data 0
    have hkept : azimuth (bump 0 data) 1 = azimuth data 1 := (sameBlock_bump (by decide)).azimuth.symm
    rw [hkept] at he hdiv'
    omega
  · have hmoved := @azimuth_bump data 1
    have hkept : azimuth (bump 1 data) 0 = azimuth data 0 := (sameBlock_bump (by decide)).azimuth.symm
    rw [hkept] at he hdiv'
    omega

end Bump

/-- The bytes of invalid blocks leave the beams of the valid ones alone exactly when blocks 0 and 1 are valid, or no
    block is. For two given packets, the beams are the same exactly when the first two azimuths leave the same
    remainder, or no block is valid. Both hold in exact arithmetic, and for every `int` offset in that of a machine. -/
theorem scan_noninterference_iff (self : LiDARReader) (hself : A = Exact.arithmetic ∨ |self.angleOffset| ≤ 2 ^ 31)
    (host : ByteOrder) (data : Memory) :
    ((∀ data', SameFlagged data data' → SameBeams self host data data') ↔
      (flag data 0 = dataFlag ∧ flag data 1 = dataFlag) ∨ ∀ b, flag data b ≠ dataFlag) ∧
    ∀ data', SameFlagged data data' →
      (SameBeams self host data data' ↔ (∀ b, flag data b ≠ dataFlag) ∨
        increment (azimuth data 0) (azimuth data 1) = increment (azimuth data' 0) (azimuth data' 1)) := by
  have hresolves := resolves_of_offset hself
  refine ⟨⟨fun hall => ?_, ?_⟩, fun data' h => sameBeams_iff hresolves host h⟩
  · by_contra hcond
    obtain ⟨hfirst, hsome⟩ := not_or.mp hcond
    obtain ⟨j, hj, hinvalid⟩ : ∃ j, (j = 0 ∨ j = 1) ∧ flag data j ≠ dataFlag := by
      rcases not_and_or.mp hfirst with h0 | h1
      · exact ⟨0, Or.inl rfl, h0⟩
      · exact ⟨1, Or.inr rfl, h1⟩
    have hflagged := sameFlagged_bump hinvalid
    exact increment_bump_ne hj (((sameBeams_iff hresolves host hflagged).mp (hall _ hflagged)).resolve_left hsome)
  · rintro (⟨h0, h1⟩ | hnone) data' h
    · refine (sameBeams_iff hresolves host h).mpr (Or.inr ?_)
      rw [(h.same 0 h0).azimuth, (h.same 1 h1).azimuth]
    · exact (sameBeams_iff hresolves host h).mpr (Or.inl hnone)

end Rounded

section Ieee
open Ieee

/-- With blocks 0 and 1 valid, another azimuth in block 2 changes no beam of theirs. -/
theorem scan_noninterference_two : SameBeams {} .little (endPacket 2) (bump 2 (endPacket 2)) := by
  have h0 : flag (endPacket 2) 0 = dataFlag := flag_endPacket 2 0
  have h1 : flag (endPacket 2) 1 = dataFlag := flag_endPacket 2 1
  have h2 : flag (endPacket 2) 2 ≠ dataFlag := by
    rw [flag_endPacket]
    decide
  have hiff := scan_noninterference_iff {} (Or.inr (by decide)) .little (endPacket 2)
  exact hiff.1.mpr (Or.inl ⟨h0, h1⟩) _ (sameFlagged_bump h2)

/-- With only block 0 valid, another azimuth in block 1 changes the angles of the beams of block 0. -/
theorem not_noninterference_one :
    SameFlagged (endPacket 1) (bump 1 (endPacket 1)) ∧ ¬SameBeams {} .little (endPacket 1) (bump 1 (endPacket 1)) := by
  have hinvalid : flag (endPacket 1) 1 ≠ dataFlag := by
    rw [flag_endPacket]
    decide
  have hvalid : flag (endPacket 1) 0 = dataFlag := flag_endPacket 1 0
  have hflagged := sameFlagged_bump hinvalid
  refine ⟨hflagged, fun hsame => ?_⟩
  rcases (sameBeams_iff (resolves_of_offset (Or.inr (by decide))) .little hflagged).mp hsame with hnone | hinc
  · exact hnone 0 hvalid
  · exact increment_bump_ne (Or.inr rfl) hinc

end Ieee

end Slam

end LidarInterface
