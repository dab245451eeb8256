import LidarInterface.Theorems.ScanDecode
import LidarInterface.Theorems.SlamSweep
import Mathlib.Data.Fintype.Prod
import Mathlib.Data.Fintype.Card

/-! The mounting parameters of `LiDARReader`. The offset turns the scan as rotating the azimuths of the packet would,
    whole turns of it change nothing, and the inverted scan is the scan in reverse. -/

namespace LidarInterface.Slam
open Foundation Format Exact

/-! ### Assignments -/

/-- What is assigned to the scan and where, in the order of the loops. -/
def LiDARReader.writes (self : LiDARReader) (host : ByteOrder) (data : Memory) : List (Fin 192 × ScanPoint) :=
  (List.finRange 12 ×ˢ List.finRange 16).map fun bi => (self.slot bi.1 bi.2, self.beam (swapped host data) bi.1 bi.2)

theorem slot_surjective (self : LiDARReader) : Function.Surjective fun bi : Fin 12 × Fin 16 => self.slot bi.1 bi.2 :=
  ((Fintype.bijective_iff_injective_and_card _).mpr ⟨slot_injective self, by simp⟩).2

theorem decodeScan_writes (self : LiDARReader) (host : ByteOrder) (data : Memory) :
    self.decodeScan host (.load host data) = (self.writes host data).foldl
      (fun scan w => Function.update scan w.1 w.2) (fun _ => { angle := 0, range := (0 : ℚ), intensity := 0 }) := by
  rw [decodeScan_loop, LiDARReader.writes, List.foldl_map]

/-- Every slot is assigned once. -/
theorem count_writes (self : LiDARReader) (host : ByteOrder) (data : Memory) (j : Fin 192) :
    ((self.writes host data).map Prod.fst).count j = 1 := by
  have hslots : (self.writes host data).map Prod.fst =
      (List.finRange 12 ×ˢ List.finRange 16).map fun bi => self.slot bi.1 bi.2 := by
    rw [LiDARReader.writes, List.map_map]
    rfl
  have hnodup := ((List.nodup_finRange 12).product (List.nodup_finRange 16)).map (slot_injective self)
  obtain ⟨bi, rfl⟩ := slot_surjective self j
  rw [hslots]
  refine List.count_eq_one_of_mem hnodup (List.mem_map.mpr ⟨bi, ?_, rfl⟩)
  exact List.mem_product.mpr ⟨List.mem_finRange _, List.mem_finRange _⟩

/-! ### Reversal -/

theorem slot_rev (o : Int) (b : Fin 12) (i : Fin 16) :
    ({ angleOffset := o, inverted := true } : LiDARReader).slot b i =
      (({ angleOffset := o, inverted := false } : LiDARReader).slot b i).rev := by
  apply Fin.ext
  rw [Fin.val_rev, slot_val, slot_val]
  show 191 - (b.val * 16 + i.val) = 192 - (b.val * 16 + i.val + 1)
  omega

theorem decodeScan_inverted (o : Int) (host : ByteOrder) (data : Memory) (j : Fin 192) :
    ({ angleOffset := o, inverted := true } : LiDARReader).decodeScan host (.load host data) j =
      ({ angleOffset := o, inverted := false } : LiDARReader).decodeScan host (.load host data) j.rev := by
  obtain ⟨⟨b, i⟩, rfl⟩ := slot_surjective { angleOffset := o, inverted := true } j
  show _ = LiDARReader.decodeScan _ _ _ (LiDARReader.slot _ b i).rev
  rw [decodeScan_slot, slot_rev, Fin.rev_rev, decodeScan_slot]
  rfl

/-! ### Rotation -/

/-- The packet with `k` degrees added to the azimuth of every block. -/
def rotateBlocks (k : Int) (data : Memory) : Memory :=
  replaceAzimuths data fun b => .ofNat (((azimuth data b).toNat + 100 * k) % 36000).toNat

section Angles
variable {data : Memory} {k : Int}

theorem azimuth_rotateBlocks (k : Int) (data : Memory) (b : Fin 12) :
    ((azimuth (rotateBlocks k data) b).toNat : Int) = ((azimuth data b).toNat + 100 * k) % 36000 := by
  rw [rotateBlocks, azimuth_replaceAzimuths, toNat_ofNat_turn]

theorem degrees_rotateBlocks (k : Int) (data : Memory) (b : Fin 12) :
    ∃ n : ℤ, degrees (rotateBlocks k data) b = degrees data b + k + n • (360 : ℚ) := by
  obtain ⟨n, hn⟩ := degrees_of_rotated (azimuth_rotateBlocks k data b)
  have hdegrees : ((100 * k : ℤ) : ℚ) / 100 = k := by
    push_cast
    ring
  exact ⟨n, by rw [hn, hdegrees]⟩

theorem step_rotateBlocks (h : ∀ b, (azimuth data b).toNat < 36000) (k : Int) :
    step (rotateBlocks k data) = step data := by
  have h0 := h 0
  have h1 := h 1
  have hdiff : ((azimuth (rotateBlocks k data) 1).toNat - (azimuth (rotateBlocks k data) 0).toNat + 36000 : Int).tmod
      36000 = ((azimuth data 1).toNat - (azimuth data 0).toNat + 36000 : Int).tmod 36000 := by
    rw [azimuth_rotateBlocks, azimuth_rotateBlocks, Int.tmod_eq_emod_of_nonneg (by omega),
      Int.tmod_eq_emod_of_nonneg (by omega)]
    omega
  rw [step_exact, step_exact, increment, increment, hdiff]

theorem angle_rotateBlocks (h : ∀ b, (azimuth data b).toNat < 36000) (o k : Int) (inverted : Bool) (s : Slot) :
    angle { angleOffset := o, inverted } (rotateBlocks k data) s = angle { angleOffset := o + k, inverted } data s := by
  obtain ⟨n, hn⟩ := degrees_rotateBlocks k data s.block
  rw [angle_exact, angle_exact, step_rotateBlocks h, toIcoMod_eq_toIcoMod]
  refine ⟨-n, ?_⟩
  rw [hn, neg_zsmul]
  push_cast
  ring

/-- Whole turns of the offset leave every angle where it is. -/
theorem angle_turns (o n : Int) (inverted : Bool) (data : Memory) (s : Slot) :
    angle { angleOffset := o + 360 * n, inverted } data s = angle { angleOffset := o, inverted } data s := by
  rw [angle_exact, angle_exact, toIcoMod_eq_toIcoMod]
  refine ⟨-n, ?_⟩
  rw [neg_zsmul, zsmul_eq_mul]
  push_cast
  ring

end Angles

theorem decodeScan_rotateBlocks {data : Memory} (h : ∀ b, (azimuth data b).toNat < 36000) (host : ByteOrder)
    (o k : Int) (inverted : Bool) :
    ({ angleOffset := o, inverted } : LiDARReader).decodeScan host (.load host (rotateBlocks k data)) =
      ({ angleOffset := o + k, inverted } : LiDARReader).decodeScan host (.load host data) := by
  apply decodeScan_eq_of_beam
  · rfl
  · intro b i
    apply beam_eq_of_angle
    · exact angle_rotateBlocks h o k inverted _
    · rw [rotateBlocks, flag_replaceAzimuths]
    · rw [rotateBlocks, distance_replaceAzimuths]
    · rw [rotateBlocks, rssi_replaceAzimuths]

theorem decodeScan_turns (host : ByteOrder) (o n : Int) (inverted : Bool) (data : Memory) :
    ({ angleOffset := o + 360 * n, inverted } : LiDARReader).decodeScan host (.load host data) =
      ({ angleOffset := o, inverted } : LiDARReader).decodeScan host (.load host data) := by
  apply decodeScan_eq_of_beam
  · rfl
  · intro b i
    exact beam_eq_of_angle host (angle_turns o n inverted data _) rfl rfl rfl

theorem angle_mem_turn (self : LiDARReader) (host : ByteOrder) (data : Memory) (j : Fin 192) :
    0 ≤ (self.decodeScan host (.load host data) j).angle ∧ (self.decodeScan host (.load host data) j).angle < 360 := by
  obtain ⟨⟨b, i⟩, rfl⟩ := slot_surjective self j
  rw [decodeScan_slot, angle_beam, angle_exact]
  exact toIcoMod_mem_Ico' turn_pos _

/-- The scan of a packet under the offset `o`. Every slot is assigned once and holds an angle of one turn, inverting
    the scan reverses it, and the offset turns it: degrees added to every azimuth of the packet are degrees added to
    the offset, which only counts modulo a turn. What the local held before the call plays no part. -/
theorem scan_mounting (host : ByteOrder) (buf buf' : Memory) {data : Memory}
    (h : ∀ b, (azimuth data b).toNat < 36000) (o k : Int) (inverted : Bool) :
    let self : LiDARReader := { angleOffset := o, inverted }
    let received : Recv := .datagram (data.bytes 1206)
    (∃ scan, self.readScan host buf received = .ok scan ∧
      scan = (self.writes host data).foldl (fun scan w => Function.update scan w.1 w.2)
        (fun _ => { angle := 0, range := (0 : ℚ), intensity := 0 }) ∧
      (∀ j, ((self.writes host data).map Prod.fst).count j = 1) ∧
      (∀ j, 0 ≤ (scan j).angle ∧ (scan j).angle < 360) ∧
      ∀ b i, (scan (self.slot b i)).angle = toIcoMod turn_pos 0 (degrees data b + o + step data * i.val)) ∧
    ({ angleOffset := o, inverted := true } : LiDARReader).readScan host buf received =
      (({ angleOffset := o, inverted := false } : LiDARReader).readScan host buf' received).map
        (fun scan j => scan j.rev) ∧
    self.readScan host buf (.datagram ((rotateBlocks k data).bytes 1206)) =
      ({ angleOffset := o + k, inverted } : LiDARReader).readScan host buf' received ∧
    ∀ n, ({ angleOffset := o + 360 * n, inverted } : LiDARReader).readScan host buf received =
      self.readScan host buf' received := by
  intro self received
  refine ⟨⟨_, readScan_bytes self host buf data, decodeScan_writes self host data, count_writes self host data,
    angle_mem_turn self host data, fun b i => ?_⟩, ?_, ?_, fun n => ?_⟩
  · rw [decodeScan_slot, angle_beam, angle_exact]
  · rw [readScan_bytes, readScan_bytes]
    exact congrArg Except.ok (funext fun j => decodeScan_inverted o host data j)
  · rw [readScan_bytes, readScan_bytes, decodeScan_rotateBlocks h]
  · rw [readScan_bytes, readScan_bytes, decodeScan_turns]

theorem scan_mounting_endPacket :
    ({ angleOffset := -90 } : LiDARReader).readScan .little (endPacket 12)
      (.datagram ((rotateBlocks 450 (endPacket 12)).bytes 1206)) =
    ({ angleOffset := 360 } : LiDARReader).readScan .little (endPacket 12) (.datagram ((endPacket 12).bytes 1206)) := by
  have hlt : ∀ b, (azimuth (endPacket 12) b).toNat < 36000 := by
    intro b
    rw [azimuth_endPacket]
    omega
  exact (scan_mounting .little (endPacket 12) (endPacket 12) hlt (-90) 450 false).2.2.1

end LidarInterface.Slam
