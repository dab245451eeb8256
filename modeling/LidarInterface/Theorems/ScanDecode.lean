import LidarInterface.Foundation.Select
import LidarInterface.Slam.LiDARReader
import LidarInterface.Theorems.SlamDecode
import Mathlib.Data.List.ProdSigma

/-! The scan that `LiDARReader` fills from a packet, whatever the arithmetic: each beam has a slot of its own, and the
    beams with a finite range, read in the order of the slots, are the strongest returns in packet order. In exact
    arithmetic an angle is the sum of azimuth, offset and increments, reduced to one turn. -/

namespace LidarInterface.Slam
open Foundation Format Arithmetic

/-! ### Beams -/

section Load
variable (host : ByteOrder) (data : Memory) (b : Fin 12) (i : Fin 16)

def swapped : Fin 12 → DataBlock := fun b => swapBlock host ((MSOPPacket.load host data).blocks b)

theorem flag_swapped : (swapped host data b).flag = flag data b := host.ntohs_load16 _ _

theorem azimuth_swapped : (swapped host data b).azimuth = azimuth data b :=
  (host.ntohs_load16 _ _).trans (Memory.be16_shift ..)

theorem distance_swapped :
    ((swapped host data b).results i).strongestReturn.distance = distance data ⟨b, i, .strongest⟩ := by
  refine (host.ntohs_load16 _ _).trans ?_
  simp only [Memory.be16_shift, distance, Slot.offset, Nat.add_zero]

theorem rssi_swapped : ((swapped host data b).results i).strongestReturn.rssi = rssi data ⟨b, i, .strongest⟩ :=
  rssi_strongest host data b i

end Load

section Rounded
variable [Arithmetic]

/-- A beam is read from its own block, and the increment from blocks 0 and 1. -/
theorem beam_congr (self : LiDARReader) (host : ByteOrder) {data data' : Memory} {b : Fin 12}
    (h : SameBlock data data' b) (i : Fin 16) :
    (self.beam (swapped host data) b i).range = (self.beam (swapped host data') b i).range ∧
    (self.beam (swapped host data) b i).intensity = (self.beam (swapped host data') b i).intensity ∧
    (stepDeg (swapped host data) = stepDeg (swapped host data') →
      self.beam (swapped host data) b i = self.beam (swapped host data') b i) := by
  have hdist := SameBlock.distance ⟨b, i, .strongest⟩ h
  have hrssi := SameBlock.rssi ⟨b, i, .strongest⟩ h
  simp only [LiDARReader.beam, flag_swapped, azimuth_swapped, distance_swapped, rssi_swapped, h.flag, h.azimuth, hdist,
    hrssi]
  refine ⟨?_, ?_, fun hstep => by rw [hstep]⟩
  · split <;> rfl
  · split <;> rfl

/-- The remainder that the increment is computed from, in hundredths of a degree. -/
def increment (azimuth0 azimuth1 : UInt16) : Int := (azimuth1.toNat - azimuth0.toNat + 36000 : Int).tmod 36000

/-- The increment between two beams in degrees, the same for all blocks. -/
def step (data : Memory) : ℚ := stepDeg (swapped .little data)

theorem stepDeg_swapped (host : ByteOrder) (data : Memory) : stepDeg (swapped host data) =
    double (double ((increment (azimuth data 0) (azimuth data 1) : ℚ) / 100) / 16) := by
  simp only [stepDeg, azimuth_swapped, increment]

theorem step_eq_increment (data : Memory) :
    step data = double (double ((increment (azimuth data 0) (azimuth data 1) : ℚ) / 100) / 16) :=
  stepDeg_swapped .little data

theorem stepDeg_eq_step (host : ByteOrder) (data : Memory) : stepDeg (swapped host data) = step data := by
  rw [stepDeg_swapped, step_eq_increment]

theorem stepDeg_congr (host : ByteOrder) {data data' : Memory} (h0 : SameBlock data data' 0)
    (h1 : SameBlock data data' 1) : stepDeg (swapped host data) = stepDeg (swapped host data') := by
  rw [stepDeg_swapped, stepDeg_swapped, h0.azimuth, h1.azimuth]

/-- The angle before it is reduced to one turn. -/
def rawAngle (self : LiDARReader) (data : Memory) (s : Slot) : ℚ :=
  double (double (double (degrees data s.block) + self.angleOffset) + double (step data * s.index))

/-- `fmod`, with a turn added to what is negative. -/
def wrapAngle (x : ℚ) : ℚ := if Wrap.fmod x 360 < 0 then double (Wrap.fmod x 360 + 360) else Wrap.fmod x 360

def angle (self : LiDARReader) (data : Memory) (s : Slot) : ℚ := wrapAngle (rawAngle self data s)

def HasBeam (data : Memory) (s : Slot) : Prop := flag data s.block = dataFlag ∧ distance data s ≠ 0

instance (data : Memory) : DecidablePred (HasBeam data) := fun _ => inferInstanceAs (Decidable (_ ∧ _))

structure Reading where
  angle : ℚ
  range : ℚ
  intensity : ℚ

def reading (self : LiDARReader) (data : Memory) (s : Slot) : Reading where
  angle := angle self data s
  range := double (((distance data s).toNat : ℚ) / 1000)
  intensity := (rssi data s).toNat

def Reading.toScanPoint (r : Reading) : ScanPoint :=
  { angle := r.angle, range := (r.range : WithTop ℚ), intensity := r.intensity }

theorem beam_swapped (self : LiDARReader) (host : ByteOrder) (data : Memory) (b : Fin 12) (i : Fin 16) :
    self.beam (swapped host data) b i = if HasBeam data ⟨b, i, .strongest⟩
      then (reading self data ⟨b, i, .strongest⟩).toScanPoint
      else { angle := angle self data ⟨b, i, .strongest⟩, range := ⊤, intensity := 0 } := by
  have hzero : double (((distance data ⟨b, i, .strongest⟩).toNat : ℚ) / 1000) ≤ 0 ↔
      distance data ⟨b, i, .strongest⟩ = 0 := by
    have hround := lawful_double.div_lt_div_iff (c := 1000) (m := 0) (by norm_num)
      (distance data ⟨b, i, .strongest⟩).toNat_lt
    rw [Nat.cast_zero, zero_div, lawful_double.zero] at hround
    rw [← not_lt, hround, not_lt, Nat.le_zero, ← UInt16.toNat_inj]
    rfl
  simp only [LiDARReader.beam, stepDeg_eq_step, flag_swapped, azimuth_swapped, distance_swapped, rssi_swapped, hzero]
  have hinvalid : (flag data b ≠ 0xFFEE ∨ distance data ⟨b, i, .strongest⟩ = 0) ↔ ¬HasBeam data ⟨b, i, .strongest⟩ := by
    rw [HasBeam, not_and_or, not_not]
    rfl
  simp only [hinvalid, ite_not]
  rfl

theorem angle_beam (self : LiDARReader) (host : ByteOrder) (data : Memory) (b : Fin 12) (i : Fin 16) :
    (self.beam (swapped host data) b i).angle = angle self data ⟨b, i, .strongest⟩ := by
  rw [beam_swapped]
  split <;> rfl

theorem beam_eq_of_angle {self self' : LiDARReader} {data data' : Memory} (host : ByteOrder) {b : Fin 12} {i : Fin 16}
    (hangle : angle self data ⟨b, i, .strongest⟩ = angle self' data' ⟨b, i, .strongest⟩)
    (hflag : flag data b = flag data' b)
    (hdist : distance data ⟨b, i, .strongest⟩ = distance data' ⟨b, i, .strongest⟩)
    (hrssi : rssi data ⟨b, i, .strongest⟩ = rssi data' ⟨b, i, .strongest⟩) :
    self.beam (swapped host data) b i = self'.beam (swapped host data') b i := by
  have hiff : HasBeam data ⟨b, i, .strongest⟩ ↔ HasBeam data' ⟨b, i, .strongest⟩ := by
    rw [HasBeam, HasBeam, hflag, hdist]
  rw [beam_swapped, beam_swapped, hangle]
  by_cases hb : HasBeam data ⟨b, i, .strongest⟩
  · rw [if_pos hb, if_pos (hiff.mp hb), reading, reading, hangle, hdist, hrssi]
  · rw [if_neg hb, if_neg fun hb' => hb (hiff.mpr hb')]

end Rounded

section Exact
open Exact

theorem step_exact (data : Memory) : step data = (increment (azimuth data 0) (azimuth data 1) : ℚ) / 100 / 16 :=
  step_eq_increment data

theorem angle_exact (self : LiDARReader) (data : Memory) (s : Slot) :
    angle self data s = toIcoMod turn_pos 0 (degrees data s.block + self.angleOffset + step data * s.index) :=
  Wrap.fmod_corrected turn_pos _

end Exact

/-! ### Slots of the scan -/

section Fill
variable (self : LiDARReader) (host : ByteOrder) (data : Memory)

theorem slot_val (b : Fin 12) (i : Fin 16) :
    (self.slot b i).val = if self.inverted then 191 - (b.val * 16 + i.val) else b.val * 16 + i.val := by
  simp only [LiDARReader.slot]
  split <;> rfl

theorem slot_injective : Function.Injective fun bi : Fin 12 × Fin 16 => self.slot bi.1 bi.2 := by
  rintro ⟨b, i⟩ ⟨b', i'⟩ h
  have hval := congrArg Fin.val h
  simp only [slot_val] at hval
  have hidx : b.val * 16 + i.val = b'.val * 16 + i'.val := by
    split at hval
    · omega
    · exact hval
  have hb : b = b' := Fin.ext (by omega)
  have hi : i = i' := Fin.ext (by omega)
  rw [hb, hi]

theorem decodeScan_loop [Arithmetic] : self.decodeScan host (.load host data) =
    (List.finRange 12 ×ˢ List.finRange 16).foldl
      (fun scan bi => Function.update scan (self.slot bi.1 bi.2) (self.beam (swapped host data) bi.1 bi.2))
      (fun _ => { angle := 0, range := (0 : ℚ), intensity := 0 }) := by
  simp only [SProd.sprod, List.product, List.foldl_flatMap, List.foldl_map, LiDARReader.decodeScan]
  unfold swapped
  rfl

/-- Every beam keeps the slot it is written to. -/
theorem decodeScan_slot [Arithmetic] (b : Fin 12) (i : Fin 16) :
    self.decodeScan host (.load host data) (self.slot b i) = self.beam (swapped host data) b i := by
  have hnodup : ((List.finRange 12 ×ˢ List.finRange 16).map fun bi => self.slot bi.1 bi.2).Nodup :=
    ((List.nodup_finRange 12).product (List.nodup_finRange 16)).map (slot_injective self)
  have hmem : (b, i) ∈ List.finRange 12 ×ˢ List.finRange 16 :=
    List.mem_product.mpr ⟨List.mem_finRange b, List.mem_finRange i⟩
  have hslot := @Select.foldl_update_of_mem _ _ ScanPoint _ (fun bi : Fin 12 × Fin 16 => self.slot bi.1 bi.2)
    (fun bi => self.beam (swapped host data) bi.1 bi.2) _ hnodup
    (fun _ => { angle := 0, range := (0 : ℚ), intensity := 0 }) (b, i) hmem
  rw [decodeScan_loop]
  exact hslot

end Fill

/-- Scans whose beams agree slot by slot are equal. -/
theorem decodeScan_eq_of_beam [Arithmetic] {self self' : LiDARReader} {host : ByteOrder} {data data' : Memory}
    (hinverted : self.inverted = self'.inverted)
    (hbeam : ∀ b i, self.beam (swapped host data) b i = self'.beam (swapped host data') b i) :
    self.decodeScan host (.load host data) = self'.decodeScan host (.load host data') := by
  have hslot : ∀ b i, self.slot b i = self'.slot b i := by
    intro b i
    apply Fin.ext
    rw [slot_val, slot_val, hinverted]
  rw [decodeScan_loop, decodeScan_loop]
  simp only [hslot, hbeam]

/-! ### Finite slots -/

def ScanPoint.reading? (p : ScanPoint) : Option Reading :=
  if h : p.range = ⊤ then none else some { angle := p.angle, range := p.range.untop h, intensity := p.intensity }

def Scan.readings (scan : Scan) : List Reading := (List.finRange 192).filterMap fun j => (scan j).reading?

/-- Not inverted, the slots are filled in the order of the loops. -/
theorem finRange_slots {self : LiDARReader} (h : self.inverted = false) :
    List.finRange 192 = (List.finRange 12 ×ˢ List.finRange 16).map fun bi => self.slot bi.1 bi.2 := by
  have hslot : (fun bi : Fin 12 × Fin 16 => self.slot bi.1 bi.2) =
      fun bi => ({} : LiDARReader).slot bi.1 bi.2 := by
    funext bi
    apply Fin.ext
    simp [slot_val, h]
  rw [hslot]
  decide +kernel

theorem reading?_toScanPoint (r : Reading) : r.toScanPoint.reading? = some r := by
  simp [ScanPoint.reading?, Reading.toScanPoint]

theorem reading?_beam [Arithmetic] (self : LiDARReader) (host : ByteOrder) (data : Memory) (b : Fin 12) (i : Fin 16) :
    (self.beam (swapped host data) b i).reading? =
      if HasBeam data ⟨b, i, .strongest⟩ then some (reading self data ⟨b, i, .strongest⟩) else none := by
  rw [beam_swapped]
  split
  · rw [reading?_toScanPoint]
  · simp [ScanPoint.reading?]

/-- The finite slots hold the beams of the strongest returns, in packet order. -/
theorem readings_decodeScan [Arithmetic] {self : LiDARReader} (h : self.inverted = false) (host : ByteOrder)
    (data : Memory) : (self.decodeScan host (.load host data)).readings =
      (Slot.all.filter fun s => s.kind = .strongest ∧ HasBeam data s).map (reading self data) := by
  have hfilter : (Slot.all.filter fun s => s.kind = .strongest ∧ HasBeam data s) =
      (Slot.all.filter fun s => s.kind = .strongest).filter fun s => HasBeam data s := by
    simp only [List.filter_filter, Bool.and_comm, Bool.decide_and]
  rw [Scan.readings, finRange_slots h, List.filterMap_map, hfilter, Slot.filter_strongest, ← List.filterMap_eq_map',
    List.filterMap_filter, List.filterMap_map]
  simp only [Function.comp_def, decodeScan_slot, reading?_beam, decide_eq_true_eq]

/-! ### Receiving -/

/-- Whatever follows the first 1206 bytes of a datagram is dropped before its length is tested. -/
theorem recvPacket_datagram (buf : Memory) (bytes : List UInt8) : recvPacket buf (.datagram bytes) =
    if 1206 ≤ bytes.length then .ok (buf.write bytes 1206) else .error "recvfrom error or incomplete packet" := by
  have hcall : recvPacket buf (.datagram bytes) =
      if (min bytes.length 1206 : Int) < 0 ∨ (min bytes.length 1206 : Int) ≠ 1206
      then .error "recvfrom error or incomplete packet" else .ok (buf.write bytes (min bytes.length 1206)) := rfl
  rw [hcall]
  by_cases h : 1206 ≤ bytes.length
  · rw [if_neg (by omega), if_pos h, Nat.min_eq_right h]
  · rw [if_pos (by omega), if_neg h]

theorem readScan_datagram [Arithmetic] (self : LiDARReader) (host : ByteOrder) (buf : Memory) (bytes : List UInt8) :
    self.readScan host buf (.datagram bytes) =
      if 1206 ≤ bytes.length then .ok (self.decodeScan host (.load host (buf.write bytes 1206)))
      else .error "recvfrom error or incomplete packet" := by
  rw [LiDARReader.readScan, recvPacket_datagram]
  split <;> rfl

theorem samePacket_write (buf data : Memory) : SamePacket (buf.write (data.bytes 1206) 1206) data := by
  apply Memory.bytes_congr.mp
  rw [packetSize, Memory.bytes_write _ _ _ (by rw [Memory.length_bytes]), List.take_of_length_le (by simp)]

theorem decodeScan_congr [Arithmetic] {data data' : Memory} (h : SamePacket data data') (self : LiDARReader)
    (host : ByteOrder) : self.decodeScan host (.load host data) = self.decodeScan host (.load host data') :=
  decodeScan_eq_of_beam rfl fun b i => (beam_congr self host (h.sameBlock b) i).2.2
    (stepDeg_congr host (h.sameBlock 0) (h.sameBlock 1))

theorem readScan_bytes [Arithmetic] (self : LiDARReader) (host : ByteOrder) (buf data : Memory) :
    self.readScan host buf (.datagram (data.bytes 1206)) = .ok (self.decodeScan host (.load host data)) := by
  rw [readScan_datagram, if_pos (by rw [Memory.length_bytes]), decodeScan_congr (samePacket_write buf data)]

end LidarInterface.Slam
