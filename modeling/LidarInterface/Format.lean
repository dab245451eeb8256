import LidarInterface.Foundation.Memory
import Mathlib.Data.List.FinRange
import Mathlib.Data.List.Nodup
import Mathlib.Data.List.ProdSigma

/-! The MSOP byte format, as the packet structure of the README lays it out: 12 blocks of 100 bytes, each a
    flag, an azimuth and 16 measuring results of 6 bytes, and a tail of 6 bytes, every multi-byte field
    most significant byte first. A measuring result holds two returns of 3 bytes. -/

namespace LidarInterface
open Foundation

/-- The bytes of an MSOP packet without the UDP header. -/
def packetSize : Nat := 1206

def dataFlag : UInt16 := 0xFFEE

inductive ReturnKind where
  | strongest
  | last
  deriving DecidableEq, Repr

structure Slot where
  block : Fin 12
  index : Fin 16
  kind : ReturnKind
  deriving DecidableEq, Repr

namespace Slot

/-- The strongest and the last return of each measurement of a block, in packet order. -/
def ofBlock (b : Fin 12) : List Slot := (List.finRange 16).flatMap fun i => [⟨b, i, .strongest⟩, ⟨b, i, .last⟩]

def all : List Slot := (List.finRange 12).flatMap ofBlock

/-- The first byte of the return: its distance, followed by its signal strength. -/
def offset (s : Slot) : Nat :=
  100 * s.block + (4 + 6 * s.index) + match s.kind with
    | .strongest => 0
    | .last => 3

theorem offset_eq (s : Slot) : ∃ r, r + 2 < 100 ∧ s.offset = 100 * s.block + r := by
  obtain ⟨b, i, k⟩ := s
  cases k with
  | strongest => exact ⟨4 + 6 * i, by omega, rfl⟩
  | last => exact ⟨4 + 6 * i + 3, by omega, rfl⟩

theorem mem_ofBlock {s : Slot} {b : Fin 12} : s ∈ ofBlock b ↔ s.block = b := by
  simp only [ofBlock, List.mem_flatMap, List.mem_finRange, true_and, List.mem_cons, List.not_mem_nil, or_false]
  constructor
  · rintro ⟨i, rfl | rfl⟩ <;> rfl
  · rintro rfl
    obtain ⟨b, i, k⟩ := s
    exact ⟨i, by cases k <;> simp⟩

theorem mem_all (s : Slot) : s ∈ all := List.mem_flatMap.mpr ⟨s.block, List.mem_finRange _, mem_ofBlock.mpr rfl⟩

theorem length_ofBlock (b : Fin 12) : (ofBlock b).length = 32 := by
  simp only [ofBlock, List.length_flatMap, List.length_cons, List.length_nil, List.map_const', List.length_finRange]
  rfl

theorem ofBlock_ordered (b : Fin 12) : (ofBlock b).Pairwise fun s s' => s.offset < s'.offset := by
  refine List.pairwise_flatMap.mpr ⟨fun i _ => by simp [offset], ?_⟩
  refine (List.pairwise_lt_finRange 16).imp fun {i i'} hi s hs s' hs' => ?_
  simp only [List.mem_cons, List.not_mem_nil, or_false] at hs hs'
  rcases hs with rfl | rfl <;> rcases hs' with rfl | rfl <;> simp only [offset] <;> omega

theorem all_ordered : all.Pairwise fun s s' => s.offset < s'.offset := by
  refine List.pairwise_flatMap.mpr ⟨fun b _ => ofBlock_ordered b, ?_⟩
  refine (List.pairwise_lt_finRange 12).imp fun {b b'} hb s hs s' hs' => ?_
  obtain ⟨c, i, k⟩ := s
  obtain ⟨c', i', k'⟩ := s'
  have hc : c = b := mem_ofBlock.mp hs
  have hc' : c' = b' := mem_ofBlock.mp hs'
  cases k <;> cases k' <;> simp only [offset, hc, hc'] <;> omega

section Loops
variable {α : Type} (p : Slot → Prop) [DecidablePred p] (f : Slot → α)

theorem map_filter_all : (all.filter fun s => p s).map f =
    (List.finRange 12).flatMap fun b => ((ofBlock b).filter fun s => p s).map f := by
  simp only [all, List.filter_flatMap, List.map_flatMap]

/-- Within a block it is a loop over the measurements, and within a measurement one test for each return. -/
theorem map_filter_ofBlock (b : Fin 12) : ((ofBlock b).filter fun s => p s).map f =
    (List.finRange 16).flatMap fun i =>
      (if p ⟨b, i, .strongest⟩ then [f ⟨b, i, .strongest⟩] else []) ++
        if p ⟨b, i, .last⟩ then [f ⟨b, i, .last⟩] else [] := by
  rw [ofBlock, List.filter_flatMap, List.map_flatMap]
  refine congrArg (fun g => List.flatMap g (List.finRange 16)) (funext fun i => ?_)
  by_cases hs : p ⟨b, i, .strongest⟩ <;> by_cases hl : p ⟨b, i, .last⟩ <;> simp [hs, hl]

variable {p f} in
/-- Loops that choose the same slots, and take the same value from each, have the same result. -/
theorem map_filter_congr {slots : List Slot} {q : Slot → Prop} [DecidablePred q] {g : Slot → α}
    (hchoice : ∀ s, p s ↔ q s) (hvalue : ∀ s, p s → f s = g s) :
    (slots.filter fun s => p s).map f = (slots.filter fun s => q s).map g := by
  have hslots : (slots.filter fun s => p s) = slots.filter fun s => q s :=
    List.filter_congr fun s _ => decide_eq_decide.mpr (hchoice s)
  rw [← hslots]
  exact List.map_congr_left fun s hs => hvalue s (of_decide_eq_true (List.mem_filter.mp hs).2)

/-- Choosing among the values of chosen slots is choosing among the slots. -/
theorem filter_map_filter {slots : List Slot} {q : α → Bool} {r : Slot → Prop} [DecidablePred r]
    (h : ∀ s, q (f s) = true ↔ r s) :
    ((slots.filter fun s => p s).map f).filter q = (slots.filter fun s => r s ∧ p s).map f := by
  rw [List.filter_map, List.filter_filter]
  refine congrArg (List.map f) (List.filter_congr fun s _ => ?_)
  rw [Bool.eq_iff_iff, Bool.and_eq_true, Function.comp_apply, h, decide_eq_true_iff, decide_eq_true_iff]

theorem filter_strongest : (all.filter fun s => s.kind = .strongest) =
    (List.finRange 12 ×ˢ List.finRange 16).map fun bi => ⟨bi.1, bi.2, .strongest⟩ := by
  simp [all, ofBlock, SProd.sprod, List.product, List.filter_flatMap, List.map_eq_flatMap, List.flatMap_assoc]

end Loops

def strongest (s : Slot) : Slot := { s with kind := .strongest }

end Slot

namespace Format

def flag (data : Memory) (b : Fin 12) : UInt16 := data.be16 (100 * b)

/-- The azimuth of the block, in hundredths of a degree. -/
def azimuth (data : Memory) (b : Fin 12) : UInt16 := data.be16 (100 * b + 2)

/-- The distance of a return, in millimetres. -/
def distance (data : Memory) (s : Slot) : UInt16 := data.be16 s.offset

def rssi (data : Memory) (s : Slot) : UInt8 := data (s.offset + 2)

def timestamp (data : Memory) : UInt32 := data.be32 1200

def factoryInfo (data : Memory) : UInt16 := data.be16 1204

/-- Two buffers with the same bytes in a block. -/
def SameBlock (data data' : Memory) (b : Fin 12) : Prop := ∀ r < 100, data (100 * b + r) = data' (100 * b + r)

namespace SameBlock
variable {data data' : Memory}

theorem be16 {b : Fin 12} (h : SameBlock data data' b) {r : Nat} (hr : r + 1 < 100) :
    data.be16 (100 * b + r) = data'.be16 (100 * b + r) :=
  Memory.be16_congr (h r (by omega)) (h (r + 1) hr)

theorem flag {b : Fin 12} (h : SameBlock data data' b) : flag data b = flag data' b := h.be16 (r := 0) (by decide)

theorem azimuth {b : Fin 12} (h : SameBlock data data' b) : azimuth data b = azimuth data' b := h.be16 (by decide)

theorem distance (s : Slot) (h : SameBlock data data' s.block) : distance data s = distance data' s := by
  obtain ⟨r, hr, hoff⟩ := s.offset_eq
  rw [Format.distance, Format.distance, hoff]
  exact h.be16 (by omega)

theorem rssi (s : Slot) (h : SameBlock data data' s.block) : rssi data s = rssi data' s := by
  obtain ⟨r, hr, hoff⟩ := s.offset_eq
  rw [Format.rssi, Format.rssi, hoff]
  exact h (r + 2) hr

end SameBlock

/-- Two packets with the same valid blocks, and the same bytes in those. -/
structure SameValid (valid : Memory → Fin 12 → Prop) (data data' : Memory) : Prop where
  valid_iff : ∀ b, valid data b ↔ valid data' b
  same : ∀ b, valid data b → SameBlock data data' b

/-- Two buffers with the same packet bytes. -/
def SamePacket (data data' : Memory) : Prop := ∀ n < packetSize, data n = data' n

namespace SamePacket
variable {data data' : Memory} (h : SamePacket data data')
include h

theorem sameBlock (b : Fin 12) : SameBlock data data' b := fun r hr => h _ (by simp only [packetSize]; omega)

theorem flag (b : Fin 12) : flag data b = flag data' b := (h.sameBlock b).flag

theorem azimuth (b : Fin 12) : azimuth data b = azimuth data' b := (h.sameBlock b).azimuth

theorem distance (s : Slot) : distance data s = distance data' s := SameBlock.distance s (h.sameBlock _)

theorem rssi (s : Slot) : rssi data s = rssi data' s := SameBlock.rssi s (h.sameBlock _)

theorem timestamp : timestamp data = timestamp data' := by
  have hbyte : ∀ k < 4, data (1200 + k) = data' (1200 + k) := fun k hk => h _ (by simp only [packetSize]; omega)
  have h0 : data 1200 = data' 1200 := hbyte 0 (by decide)
  have h1 : data (1200 + 1) = data' (1200 + 1) := hbyte 1 (by decide)
  have h2 : data (1200 + 2) = data' (1200 + 2) := hbyte 2 (by decide)
  have h3 : data (1200 + 3) = data' (1200 + 3) := hbyte 3 (by decide)
  rw [Format.timestamp, Format.timestamp, Memory.be32, Memory.be32, h0, h1, h2, h3]

theorem factoryInfo : factoryInfo data = factoryInfo data' :=
  Memory.be16_congr (h _ (by decide)) (h _ (by decide))

end SamePacket

end Format
end LidarInterface
