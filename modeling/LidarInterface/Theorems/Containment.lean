import LidarInterface.Theorems.Reader2Decode
import LidarInterface.Theorems.ScanDecode
import LidarInterface.Theorems.InvalidBlocks

/-! How far the damage to one block of a packet reaches. In the lists of points it stays among the points of the block
    itself, and of the neighbours that are interpolated with its azimuth, whose returns stay the same. In a scan the
    other blocks keep their ranges and intensities, and, unless the block is one of the two that give the step between
    beams, their angles too. -/

namespace LidarInterface
open Foundation Format

/-! ### Blocks of a packet -/

/-- Two buffers with the same packet bytes outside block `j`. -/
def SameOutside (j : Fin 12) (data data' : Memory) : Prop := ∀ b, b ≠ j → SameBlock data data' b

/-- Block `b` is interpolated with the azimuth of block `j`: the one before it, and, when `last` says so, block 11 with
    that of block 10. -/
def Reads (last : Bool) (b j : Fin 12) : Prop := b.val + 1 = j.val ∨ last = true ∧ j.val = 10 ∧ b.val = 11

/-- What the iterations of a parser append for each block, for two packets that differ in block `j`: other blocks give
    the returns that `same` relates, and those that do not read block `j` the same points. -/
structure Contained {α : Type} (same : α → α → Prop) (last : Bool) (j : Fin 12) (segment segment' : Fin 12 → List α) :
    Prop where
  near : ∀ b, b ≠ j → List.Forall₂ same (segment b) (segment' b)
  far : ∀ b, b ≠ j → ¬Reads last b j → segment b = segment' b
  length_le : ∀ b, (segment b).length ≤ 32 ∧ (segment' b).length ≤ 32

/-- A parser that emits the points of some slots of a block, and reads the choice and the return from the block
    itself. -/
theorem contained_of_slots {α : Type} {same : α → α → Prop} {last : Bool} {j : Fin 12} {data data' : Memory}
    (h : SameOutside j data data') {emits emits' : Slot → Prop} [DecidablePred emits] [DecidablePred emits']
    {point point' : Slot → α} (hemits : ∀ s, SameBlock data data' s.block → (emits s ↔ emits' s))
    (hsame : ∀ s, SameBlock data data' s.block → same (point s) (point' s))
    (hfar : ∀ s, s.block ≠ j → ¬Reads last s.block j → point s = point' s) :
    Contained same last j (fun b => ((Slot.ofBlock b).filter fun s => emits s).map point)
      fun b => ((Slot.ofBlock b).filter fun s => emits' s).map point' := by
  have hfilter : ∀ b, b ≠ j →
      ((Slot.ofBlock b).filter fun s => emits s) = (Slot.ofBlock b).filter fun s => emits' s := by
    intro b hb
    refine List.filter_congr fun s hs => decide_eq_decide.mpr (hemits s ?_)
    rw [Slot.mem_ofBlock.mp hs]
    exact h b hb
  have hlen : ∀ (p : Slot → Prop) [DecidablePred p] (f : Slot → α) (b : Fin 12),
      (((Slot.ofBlock b).filter fun s => p s).map f).length ≤ 32 := by
    intro p _ f b
    rw [List.length_map, ← Slot.length_ofBlock b]
    exact List.length_filter_le _ _
  refine ⟨fun b hb => ?_, fun b hb hnot => ?_, fun b => ⟨hlen _ _ b, hlen _ _ b⟩⟩
  · rw [hfilter b hb, List.forall₂_map_left_iff, List.forall₂_map_right_iff, List.forall₂_same]
    intro s hs
    obtain rfl := Slot.mem_ofBlock.mp (List.mem_of_mem_filter hs)
    exact hsame s (h _ hb)
  · simp only [hfilter b hb]
    refine List.map_congr_left fun s hs => ?_
    obtain rfl := Slot.mem_ofBlock.mp (List.mem_of_mem_filter hs)
    exact hfar s hb hnot

section Rounded
variable [Arithmetic] {data data' : Memory} {j : Fin 12}

/-! ### reader2.0 -/

namespace Reader2

/-- The same return, at another azimuth perhaps. -/
structure SameReturn (p p' : LidarPoint) : Prop where
  distance : p.distance = p'.distance
  rssi : p.rssi = p'.rssi
  isValid : p.isValid = p'.isValid
  isStrongest : p.isStrongest = p'.isStrongest

theorem parseBlock_nil (host : ByteOrder) (data : Memory) : parseBlock host (.load host data) [] =
    fun b => ((Slot.ofBlock b).filter fun s => Emits data s).map (point data) :=
  funext fun b => (parseBlock_eq host data [] b).trans (List.nil_append _)

theorem decode_blocks (host : ByteOrder) (data : Memory) :
    decode data = (List.finRange 12).flatMap (parseBlock host (.load host data) []) := by
  rw [parseBlock_nil]
  exact Slot.map_filter_all _ _

omit [Arithmetic] in
theorem towards_of_outside (h : SameOutside j data data') {b : Fin 12} (hb : b ≠ j) (hnot : ¬Reads false b j) :
    towards data b = towards data' b := by
  unfold towards
  split
  · next hlt =>
    have hnext : (⟨b + 1, succ_lt hlt⟩ : Fin 12) ≠ j := fun he => hnot (Or.inl (congrArg Fin.val he))
    have hsame := h _ hnext
    simp only [valid_congr hsame, hsame.azimuth, (h b hb).azimuth]
  · exact (h b hb).azimuth

theorem contained_blocks (host : ByteOrder) (h : SameOutside j data data') : Contained SameReturn false j
    (parseBlock host (.load host data) []) (parseBlock host (.load host data') []) := by
  rw [parseBlock_nil, parseBlock_nil]
  refine contained_of_slots h (fun s hs => ?_) (fun s hs => ?_) fun s hb hnot => ?_
  · rw [Emits, Emits, valid_congr hs, SameBlock.distance s hs, SameBlock.distance s.strongest hs]
  · exact ⟨by simp only [point, SameBlock.distance s hs], SameBlock.rssi s hs, rfl, rfl⟩
  · rw [point, point, towards_of_outside h hb hnot, (h _ hb).azimuth, (h _ hb).distance s, (h _ hb).rssi s]

end Reader2

/-! ### slam_lidar_cpp -/

namespace Slam
variable {host : ByteOrder}

structure SameReturn (p p' : ParsedPoint) : Prop where
  distanceMeters : p.distanceMeters = p'.distanceMeters
  rssi : p.rssi = p'.rssi
  isValid : p.isValid = p'.isValid
  useStrongestReturn : p.useStrongestReturn = p'.useStrongestReturn

theorem parseBlock_nil (host : ByteOrder) (data : Memory) : parseBlock host (.load host data) [] =
    fun b => ((Slot.ofBlock b).filter fun s => EmitsOn host data s).map (pointOn host data) :=
  funext fun b => (parseBlock_slots host data [] b).trans (List.nil_append _)

theorem parsePacket_blocks (host : ByteOrder) (data : Memory) :
    parsePacket host data 1206 = (List.finRange 12).flatMap (parseBlock host (.load host data) []) := by
  rw [parseBlock_nil]
  exact (parsePacket_slots host data).trans (Slot.map_filter_all _ _)

omit [Arithmetic] in
theorem valid_sameBlock {b : Fin 12} (h : SameBlock data data' b) : Valid host data b ↔ Valid host data' b := by
  rw [valid_iff, valid_iff, h.flag]

omit [Arithmetic] in
theorem degrees_sameBlock {b : Fin 12} (h : SameBlock data data' b) : degrees data b = degrees data' b := by
  rw [degrees, degrees, h.azimuth]

theorem nextAzimuth_of_outside (h : SameOutside j data data') {b : Fin 12} (hb : b ≠ j) (hnot : ¬Reads true b j) :
    nextAzimuth host (.load host data) b = nextAzimuth host (.load host data') b := by
  refine nextAzimuth_congr_of (degrees_sameBlock (h b hb)) fun b' hnear => ?_
  have hne : b' ≠ j := by
    rintro rfl
    exact hnot (hnear.imp id fun hlast => ⟨rfl, hlast⟩)
  exact ⟨valid_sameBlock (h b' hne), fun _ => degrees_sameBlock (h b' hne)⟩

theorem contained_blocks (host : ByteOrder) (h : SameOutside j data data') : Contained SameReturn true j
    (parseBlock host (.load host data) []) (parseBlock host (.load host data') []) := by
  rw [parseBlock_nil, parseBlock_nil]
  refine contained_of_slots h (fun s hs => ?_) (fun s hs => ?_) fun s hb hnot => ?_
  · rw [EmitsOn, EmitsOn, Present, Present, valid_sameBlock hs, SameBlock.distance s hs,
      SameBlock.distance s.strongest hs]
  · exact ⟨by simp only [pointOn, SameBlock.distance s hs], SameBlock.rssi s hs, rfl, rfl⟩
  · rw [pointOn, pointOn, nextAzimuth_of_outside h hb hnot, degrees_sameBlock (h _ hb), (h _ hb).distance s,
      (h _ hb).rssi s]

end Slam

/-- Whatever happens to the bytes of block `j` and to the tail of a packet, the points of a packet are those of its
    blocks, and only the blocks that are interpolated with the azimuth of block `j` give other points than before: the
    same returns at other azimuths. In a scan every other slot keeps its range and its intensity, and its angle if `j`
    is not 0 or 1. -/
theorem block_damage (host : ByteOrder) (j : Fin 12) (data data' : Memory) (h : SameOutside j data data') :
    (∀ (parser : Reader2.MSOPParser) (points : List Reader2.LidarPoint),
      (parser.parsePacket host data 1206 points).points =
        (List.finRange 12).flatMap (Reader2.parseBlock host (.load host data) [])) ∧
    Contained Reader2.SameReturn false j (Reader2.parseBlock host (.load host data) [])
      (Reader2.parseBlock host (.load host data') []) ∧
    Slam.parsePacket host data 1206 = (List.finRange 12).flatMap (Slam.parseBlock host (.load host data) []) ∧
    Contained Slam.SameReturn true j (Slam.parseBlock host (.load host data) [])
      (Slam.parseBlock host (.load host data') []) ∧
    ∀ (self : Slam.LiDARReader) (buf buf' : Memory), ∃ scan scan',
      self.readScan host buf (.datagram (data.bytes 1206)) = .ok scan ∧
      self.readScan host buf' (.datagram (data'.bytes 1206)) = .ok scan' ∧
      ∀ b, b ≠ j → ∀ i, (scan (self.slot b i)).range = (scan' (self.slot b i)).range ∧
        (scan (self.slot b i)).intensity = (scan' (self.slot b i)).intensity ∧
        (j ≠ 0 → j ≠ 1 → scan (self.slot b i) = scan' (self.slot b i)) := by
  refine ⟨fun parser points => ?_, Reader2.contained_blocks host h, Slam.parsePacket_blocks host data,
    Slam.contained_blocks host h, fun self buf buf' => ?_⟩
  · rw [Reader2.parsePacket_of_size, Reader2.decode_blocks host]
  · refine ⟨_, _, Slam.readScan_bytes self host buf data, Slam.readScan_bytes self host buf' data', fun b hb i => ?_⟩
    rw [Slam.decodeScan_slot, Slam.decodeScan_slot]
    obtain ⟨hrange, hintensity, hbeam⟩ := Slam.beam_congr self host (h b hb) i
    exact ⟨hrange, hintensity, fun h0 h1 => hbeam (Slam.stepDeg_congr host (h 0 h0.symm) (h 1 h1.symm))⟩

end Rounded

open Ieee in
/-- Another azimuth in block 3 of a full packet. -/
theorem block_damage_bump :
    Contained Reader2.SameReturn false 3 (Reader2.parseBlock .little (.load .little (Slam.endPacket 12)) [])
      (Reader2.parseBlock .little (.load .little (bump 3 (Slam.endPacket 12))) []) ∧
    Contained Slam.SameReturn true 3 (Slam.parseBlock .little (.load .little (Slam.endPacket 12)) [])
      (Slam.parseBlock .little (.load .little (bump 3 (Slam.endPacket 12))) []) ∧
    (Slam.parseBlock .little (.load .little (Slam.endPacket 12)) [] 2).length = 16 ∧
    Slam.parseBlock .little (.load .little (Slam.endPacket 12)) [] 2 ≠
      Slam.parseBlock .little (.load .little (bump 3 (Slam.endPacket 12))) [] 2 := by
  have hdamage := block_damage .little 3 (Slam.endPacket 12) (bump 3 (Slam.endPacket 12)) fun b hb => sameBlock_bump hb
  exact ⟨hdamage.2.1, hdamage.2.2.2.1, by decide +kernel, by decide +kernel⟩

end LidarInterface
