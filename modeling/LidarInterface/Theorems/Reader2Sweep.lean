import LidarInterface.Contents
import LidarInterface.Theorems.Reader2Decode
import Mathlib.Tactic.Tauto

/-! The azimuths that `reader2.0` interpolates inside a block. -/

namespace LidarInterface.Reader2
open Foundation Format Exact

/-! ### Interpolation -/

theorem resolution_of_lt {a n : UInt16} (h : a.toNat < n.toNat) : resolution a n = (n.toNat - a.toNat) / 16 := by
  rw [resolution, if_pos (by omega), Int.tdiv_eq_ediv_of_nonneg (by omega)]

theorem resolution_of_le {a n : UInt16} (h : n.toNat ≤ a.toNat) : resolution a n = 25 := by
  rw [resolution, if_neg (by omega)]

theorem resolution_nonneg (a n : UInt16) : 0 ≤ resolution a n := by
  rcases Nat.lt_or_ge a.toNat n.toNat with h | h
  · rw [resolution_of_lt h]
    omega
  · rw [resolution_of_le h]
    omega

/-- Towards a greater azimuth the sum stays below it. -/
theorem sum_lt_of_lt {a n : UInt16} (h : a.toNat < n.toNat) {i : Nat} (hi : i < 16) :
    (a.toNat : Int) + resolution a n * i < n.toNat := by
  have hstep : ((n.toNat : Int) - a.toNat) / 16 * i ≤ ((n.toNat : Int) - a.toNat) / 16 * 15 :=
    mul_le_mul_of_nonneg_left (by omega) (by omega)
  rw [resolution_of_lt h]
  omega

theorem sum_lt {a n : UInt16} (ha : a.toNat < 36000) {i : Nat} (hi : i < 16) :
    (a.toNat : Int) + resolution a n * i < 65536 := by
  have hn := n.toNat_lt
  rcases Nat.lt_or_ge a.toNat n.toNat with h | h
  · have := sum_lt_of_lt h hi
    omega
  · rw [resolution_of_le h]
    omega

theorem sum_nonneg (a n : UInt16) (i : Nat) : 0 ≤ (a.toNat : Int) + resolution a n * i :=
  add_nonneg (by omega) (mul_nonneg (resolution_nonneg a n) (by omega))

/-- While the 16-bit sum is exact, the azimuth is the sum modulo a turn. -/
theorem calculateAzimuth_of_lt {a n : UInt16} {i : Nat} (h : (a.toNat : Int) + resolution a n * i < 65536) :
    calculateAzimuth a n i = (((a.toNat + resolution a n * i) % 36000 : ℤ) : ℚ) / 100 := by
  have hnonneg := sum_nonneg a n i
  have hsum : (((UInt16.ofInt (a.toNat + resolution a n * i)).toNat : ℕ) : ℤ) = a.toNat + resolution a n * i := by
    rw [toNat_ofInt]
    omega
  have hcast : ((UInt16.ofInt (a.toNat + resolution a n * i)).toNat : ℚ) =
      ((a.toNat + resolution a n * i : ℤ) : ℚ) := by
    exact_mod_cast congrArg (Int.cast : ℤ → ℚ) hsum
  have hcenti : (0 : ℚ) < 100 := by norm_num
  have hturn : (0 : ℤ) < 36000 := by norm_num
  rw [calculateAzimuth_exact, hcast, Wrap.toIcoMod_intCast_div turn_pos hcenti hturn (by norm_num)]

theorem calculateAzimuth_of_mem {a n : UInt16} (ha : a.toNat < 36000) {i : Nat} (hi : i < 16) :
    calculateAzimuth a n i = (((a.toNat + resolution a n * i) % 36000 : ℤ) : ℚ) / 100 :=
  calculateAzimuth_of_lt (sum_lt ha hi)

/-! ### A stream of packets -/

/-- `k` packets of valid blocks whose azimuths start at `a0` and grow by `g` from block to block, within one
    turn; `g` is a multiple of the number of measurements. -/
structure Stream (k a0 g : Nat) (packets : Nat → Memory) : Prop where
  gap_pos : 0 < g
  gap_dvd : 16 ∣ g
  below_turn : a0 + g * (12 * k) < 36000
  flag : ∀ p < k, ∀ b, flag (packets p) b = dataFlag
  azimuth : ∀ p < k, ∀ b : Fin 12, (azimuth (packets p) b).toNat = a0 + g * (12 * p + b)

/-- The azimuth in hundredths of a degree if every block, the last one of a packet included, is spread over
    the gap to the next block of the stream. -/
def evenAzimuth (a0 g p : Nat) (s : Slot) : Nat := a0 + g * (12 * p + s.block) + g / 16 * s.index

/-- The azimuth in hundredths of a degree as it is computed: the last block of a packet has no successor in
    it and takes the default step. -/
def streamAzimuth (a0 g p : Nat) (s : Slot) : Nat :=
  if s.block.val < 11 then evenAzimuth a0 g p s else (a0 + g * (12 * p + 11) + 25 * s.index) % 36000

def strongestPoints (host : ByteOrder) (data : Memory) : List LidarPoint :=
  (({} : MSOPParser).parsePacket host data 1206 []).points.filter (·.isStrongest)

def strongestSlots (data : Memory) : List Slot :=
  Slot.all.filter fun s => s.kind = .strongest ∧ InRange (distance data s)

theorem mem_strongestSlots {data : Memory} {s : Slot} :
    s ∈ strongestSlots data ↔ s.kind = .strongest ∧ InRange (distance data s) := by
  simp [strongestSlots, Slot.mem_all]

def pointAt (data : Memory) (azimuth : Nat) (s : Slot) : LidarPoint := { point data s with azimuth := azimuth / 100 }

/-- Spread evenly, the strongest returns are continuous over the stream. -/
structure Continuous (host : ByteOrder) (k a0 g : Nat) (packets : Nat → Memory) : Prop where
  points : ∀ p < k, strongestPoints host (packets p) =
    (strongestSlots (packets p)).map fun s => pointAt (packets p) (evenAzimuth a0 g p s) s
  increasing : ((List.range k).flatMap fun p => (strongestPoints host (packets p)).map (·.azimuth)).Pairwise (· < ·)
  below_next : ∀ p < k, ∀ pt ∈ strongestPoints host (packets p), pt.azimuth < ((a0 + g * (12 * (p + 1)) : ℕ) : ℚ) / 100

theorem strongestPoints_eq (host : ByteOrder) (data : Memory) :
    strongestPoints host data =
      (Slot.all.filter fun s => s.kind = .strongest ∧ Emits data s).map (point data) := by
  rw [strongestPoints, parsePacket_of_size, decode]
  exact Slot.filter_map_filter _ _ fun s => by simp [point]

theorem block_succ_le {k p : Nat} (a0 g : Nat) (hp : p < k) (b : Fin 12) :
    a0 + g * (12 * p + b) + g ≤ a0 + g * (12 * k) := by
  have hle : g * (12 * p + b + 1) ≤ g * (12 * k) := Nat.mul_le_mul_left g (by omega)
  rw [Nat.mul_add, Nat.mul_one] at hle
  omega

namespace Stream
variable {k a0 g : Nat} {packets : Nat → Memory} (h : Stream k a0 g packets) {p : Nat} (hp : p < k)
include h hp

theorem azimuth_lt (b : Fin 12) : (Format.azimuth (packets p) b).toNat < 36000 := by
  have := block_succ_le a0 g hp b
  have := h.below_turn
  rw [h.azimuth p hp b]
  omega

theorem valid (b : Fin 12) : Valid (packets p) b := valid_of_lt (h.flag p hp b) (h.azimuth_lt hp b)

theorem emits_strongest {s : Slot} (hs : s.kind = .strongest) :
    Emits (packets p) s ↔ InRange (distance (packets p) s) := by
  simp [Emits, h.valid hp, hs]

theorem towards_eq {b : Fin 12} (hb : b.val < 11) : (towards (packets p) b).toNat = a0 + g * (12 * p + b) + g := by
  rw [towards, dif_pos hb, if_pos (h.valid hp _), h.azimuth p hp, ← Nat.add_assoc, Nat.mul_add, Nat.mul_one,
    Nat.add_assoc]

theorem resolution_eq (b : Fin 12) :
    resolution (Format.azimuth (packets p) b) (towards (packets p) b) = if b.val < 11 then (g / 16 : Nat) else 25 := by
  by_cases hb : b.val < 11
  · have hlt : (Format.azimuth (packets p) b).toNat < (towards (packets p) b).toNat := by
      have := h.gap_pos
      rw [h.azimuth p hp, h.towards_eq hp hb]
      omega
    rw [resolution_of_lt hlt, h.towards_eq hp hb, h.azimuth p hp, if_pos hb]
    push_cast
    rw [add_sub_cancel_left]
  · rw [if_neg hb, towards, dif_neg hb, resolution_of_le (Nat.le_refl _), Nat.cast_ofNat]

theorem calculateAzimuth_eq (s : Slot) :
    calculateAzimuth (Format.azimuth (packets p) s.block) (towards (packets p) s.block) s.index =
      (streamAzimuth a0 g p s : ℚ) / 100 := by
  have hlt := block_succ_le a0 g hp s.block
  have hturn := h.below_turn
  have hsum : (((Format.azimuth (packets p) s.block).toNat : ℤ) +
      resolution (Format.azimuth (packets p) s.block) (towards (packets p) s.block) * (s.index : ℕ)) % 36000 =
        (streamAzimuth a0 g p s : ℕ) := by
    rw [h.resolution_eq hp, h.azimuth p hp]
    by_cases hb : s.block.val < 11
    · have hstep : g / 16 * s.index.val ≤ g / 16 * 15 := Nat.mul_le_mul_left _ (by omega)
      have hmod : (a0 + g * (12 * p + s.block.val) + g / 16 * s.index.val) % 36000 =
          a0 + g * (12 * p + s.block.val) + g / 16 * s.index.val := by omega
      rw [streamAzimuth, if_pos hb, if_pos hb, evenAzimuth]
      exact_mod_cast hmod
    · have hlast : s.block.val = 11 := by omega
      rw [streamAzimuth, if_neg hb, if_neg hb, hlast]
      norm_cast
  rw [calculateAzimuth_of_mem (h.azimuth_lt hp _) s.index.isLt, hsum, Int.cast_natCast]

theorem strongestPoints_eq (host : ByteOrder) : strongestPoints host (packets p) =
    (strongestSlots (packets p)).map fun s => pointAt (packets p) (streamAzimuth a0 g p s) s := by
  have hslots : (Slot.all.filter fun s => s.kind = .strongest ∧ Emits (packets p) s) = strongestSlots (packets p) := by
    refine List.filter_congr fun s _ => ?_
    by_cases hs : s.kind = .strongest
    · simp [hs, h.emits_strongest hp hs]
    · simp [hs]
  rw [Reader2.strongestPoints_eq, hslots]
  refine List.map_congr_left fun s _ => ?_
  rw [point, pointAt, point, h.calculateAzimuth_eq hp]

omit hp in
/-- While the default step does not leave the gap, the azimuth stays inside the sweep of its block. -/
theorem streamAzimuth_eq {p : Nat} (hp : p < k) {s : Slot} (hs : s.block.val < 11 ∨ 25 * s.index.val < g) :
    ∃ step, 0 < step ∧ step * s.index.val < g ∧ (∀ s' : Slot, s'.block = s.block →
      (s'.block.val < 11 ∨ 25 * s'.index.val < g) →
        streamAzimuth a0 g p s' = a0 + g * (12 * p + s.block) + step * s'.index.val) := by
  have hlt := block_succ_le a0 g hp s.block
  have hturn := h.below_turn
  have hpos := h.gap_pos
  obtain ⟨c, hc⟩ := h.gap_dvd
  by_cases hb : s.block.val < 11
  · refine ⟨g / 16, by omega, ?_, fun s' hs' _ => ?_⟩
    · have : g / 16 * s.index.val ≤ g / 16 * 15 := Nat.mul_le_mul_left _ (by omega)
      omega
    · rw [streamAzimuth, hs', if_pos hb, evenAzimuth, hs']
  · have hlast : s.block.val = 11 := by omega
    refine ⟨25, by omega, by omega, fun s' hs' h' => ?_⟩
    rw [hs'] at h'
    rw [streamAzimuth, hs', if_neg hb, hlast]
    rw [hlast] at hlt
    exact Nat.mod_eq_of_lt (by omega)

omit hp in
theorem streamAzimuth_lt {p : Nat} (hp : p < k) {s s' : Slot} (hk : s.kind = .strongest) (hk' : s'.kind = .strongest)
    (hs : s.block.val < 11 ∨ 25 * s.index.val < g) (hs' : s'.block.val < 11 ∨ 25 * s'.index.val < g)
    (hlt : s.offset < s'.offset) : streamAzimuth a0 g p s < streamAzimuth a0 g p s' := by
  obtain ⟨step, hpos, hin, heq⟩ := h.streamAzimuth_eq hp hs
  obtain ⟨step', -, -, heq'⟩ := h.streamAzimuth_eq hp hs'
  simp only [Slot.offset, hk, hk'] at hlt
  by_cases hb : s'.block = s.block
  · have hi : s.index.val < s'.index.val := by
      rw [hb] at hlt
      omega
    rw [heq s rfl hs, heq s' hb hs']
    exact Nat.add_lt_add_left (Nat.mul_lt_mul_of_pos_left hi hpos) _
  · have hblock : s.block.val + 1 ≤ s'.block.val := by
      have : s'.block.val ≠ s.block.val := fun he => hb (Fin.ext he)
      omega
    have hgap : g * (12 * p + s.block.val) + g ≤ g * (12 * p + s'.block.val) := by
      rw [← Nat.mul_succ]
      exact Nat.mul_le_mul_left g (by omega)
    rw [heq s rfl hs, heq' s' rfl hs']
    omega

omit hp in
theorem streamAzimuth_mem {p : Nat} (hp : p < k) {s : Slot} (hs : s.block.val < 11 ∨ 25 * s.index.val < g) :
    a0 + g * (12 * p) ≤ streamAzimuth a0 g p s ∧ streamAzimuth a0 g p s < a0 + g * (12 * (p + 1)) := by
  obtain ⟨step, -, hin, heq⟩ := h.streamAzimuth_eq hp hs
  have hlow : g * (12 * p) ≤ g * (12 * p + s.block.val) := Nat.mul_le_mul_left g (by omega)
  have hhigh : g * (12 * p + s.block.val) + g ≤ g * (12 * (p + 1)) := by
    rw [← Nat.mul_succ]
    exact Nat.mul_le_mul_left g (by omega)
  rw [heq s rfl hs]
  omega

theorem points_iff (host : ByteOrder) :
    (strongestPoints host (packets p) =
      (strongestSlots (packets p)).map fun s => pointAt (packets p) (evenAzimuth a0 g p s) s) ↔
    ∀ s ∈ strongestSlots (packets p), streamAzimuth a0 g p s = evenAzimuth a0 g p s := by
  rw [h.strongestPoints_eq hp, List.map_inj_left]
  refine forall₂_congr fun s _ => ⟨fun he => ?_, fun he => by rw [he]⟩
  have hazimuth : (streamAzimuth a0 g p s : ℚ) / 100 = (evenAzimuth a0 g p s : ℚ) / 100 := congrArg (·.azimuth) he
  rw [div_left_inj' (by norm_num)] at hazimuth
  exact_mod_cast hazimuth

/-- The default step is even only for the gap it was chosen for, or at the first measurement. -/
theorem streamAzimuth_eq_even_iff (s : Slot) : streamAzimuth a0 g p s = evenAzimuth a0 g p s ↔
    s.block.val < 11 ∨ g = 400 ∨ s.index.val = 0 := by
  by_cases hb : s.block.val < 11
  · simp [streamAzimuth, hb]
  · have hlast : s.block.val = 11 := by omega
    have hlt := block_succ_le a0 g hp s.block
    have hturn := h.below_turn
    obtain ⟨c, hc⟩ := h.gap_dvd
    have hstep : c * s.index.val ≤ c * 15 := Nat.mul_le_mul_left c (by omega)
    rw [hlast] at hlt
    rw [streamAzimuth, if_neg hb, evenAzimuth, hlast, show g / 16 = c by omega]
    constructor
    · intro he
      -- The even azimuth stays below the turn, so the default one did not wrap.
      have hsame : 25 * s.index.val = c * s.index.val := by omega
      rcases Nat.eq_zero_or_pos s.index.val with h0 | h0
      · exact Or.inr (Or.inr h0)
      · have : 25 = c := Nat.eq_of_mul_eq_mul_right h0 hsame
        exact Or.inr (Or.inl (by omega))
    · rintro (hb' | rfl | h0)
      · exact absurd hb' (by omega)
      · have : c = 25 := by omega
        subst this
        omega
      · rw [h0]
        omega

end Stream

/-- No strongest return in range is placed by the default step at or beyond the next packet. -/
def LastBlocksWithin (k g : Nat) (packets : Nat → Memory) : Prop :=
  ∀ p < k, ∀ s ∈ strongestSlots (packets p), s.block.val < 11 ∨ 25 * s.index.val < g

namespace Stream
variable {k a0 g : Nat} {packets : Nat → Memory} (h : Stream k a0 g packets) (hw : LastBlocksWithin k g packets)
include h hw

theorem increasing (host : ByteOrder) :
    ((List.range k).flatMap fun p => (strongestPoints host (packets p)).map (·.azimuth)).Pairwise (· < ·) := by
  have hcast : ∀ m n : Nat, m < n → (m : ℚ) / 100 < (n : ℚ) / 100 := fun m n hmn =>
    div_lt_div_of_pos_right (by exact_mod_cast hmn) (by norm_num)
  rw [List.pairwise_flatMap]
  constructor
  · intro p hp
    rw [List.mem_range] at hp
    rw [h.strongestPoints_eq hp, List.map_map, List.pairwise_map]
    refine (Slot.all_ordered.filter _).imp_of_mem fun {s s'} hs hs' hlt => hcast _ _ ?_
    exact h.streamAzimuth_lt hp (mem_strongestSlots.mp hs).1 (mem_strongestSlots.mp hs').1 (hw p hp s hs)
      (hw p hp s' hs') hlt
  · refine List.pairwise_lt_range.imp_of_mem fun {p p'} hp hp' hlt x hx y hy => ?_
    rw [List.mem_range] at hp hp'
    rw [h.strongestPoints_eq hp, List.map_map] at hx
    rw [h.strongestPoints_eq hp', List.map_map] at hy
    obtain ⟨s, hs, rfl⟩ := List.mem_map.mp hx
    obtain ⟨s', hs', rfl⟩ := List.mem_map.mp hy
    have hnext : g * (12 * (p + 1)) ≤ g * (12 * p') := Nat.mul_le_mul_left g (by omega)
    have h1 := (h.streamAzimuth_mem hp (hw p hp s hs)).2
    have h2 := (h.streamAzimuth_mem hp' (hw p' hp' s' hs')).1
    exact hcast _ _ (by omega)

theorem below_next (host : ByteOrder) : ∀ p < k, ∀ pt ∈ strongestPoints host (packets p),
    pt.azimuth < ((a0 + g * (12 * (p + 1)) : ℕ) : ℚ) / 100 := by
  intro p hp pt hpt
  rw [h.strongestPoints_eq hp] at hpt
  obtain ⟨s, hs, rfl⟩ := List.mem_map.mp hpt
  have hlt := (h.streamAzimuth_mem hp (hw p hp s hs)).2
  exact div_lt_div_of_pos_right (by exact_mod_cast hlt) (by norm_num)

end Stream

/-- Packet `p` of a stream of full blocks, `g` hundredths of a degree apart. -/
def fullPacket (g p : Nat) : Memory :=
  ({ flag := fun _ => dataFlag
     azimuth := fun b => .ofNat (g * (12 * p + b))
     distance := fun _ => 1000
     rssi := fun _ => 50
     timestamp := 0
     factoryInfo := 0 } : Contents).encode

theorem fullPacket_stream {k g : Nat} (hpos : 0 < g) (hdvd : 16 ∣ g) (hturn : g * (12 * k) < 36000) :
    Stream k 0 g (fullPacket g) where
  gap_pos := hpos
  gap_dvd := hdvd
  below_turn := by omega
  flag p _ b := by simp [fullPacket]
  azimuth p hp b := by
    have hle : g * (12 * p + b.val) ≤ g * (12 * k) := Nat.mul_le_mul_left g (by omega)
    rw [fullPacket, Contents.azimuth_encode, UInt16.toNat_ofNat', Nat.zero_add]
    exact Nat.mod_eq_of_lt (by omega)

/-- A packet of valid blocks, `g` hundredths of a degree apart, with one return in range. -/
def lonePacket (g : Nat) (s : Slot) : Memory :=
  ({ flag := fun _ => dataFlag
     azimuth := fun b => .ofNat (g * b)
     distance := fun s' => if s' = s then 1000 else 0
     rssi := fun _ => 50
     timestamp := 0
     factoryInfo := 0 } : Contents).encode

theorem lonePacket_stream {g : Nat} (s : Slot) (hpos : 0 < g) (hdvd : 16 ∣ g) (hturn : g * 12 < 36000) :
    Stream 1 0 g fun _ => lonePacket g s where
  gap_pos := hpos
  gap_dvd := hdvd
  below_turn := by omega
  flag p _ b := by simp [lonePacket]
  azimuth p hp b := by
    have hle : g * b.val ≤ g * 11 := Nat.mul_le_mul_left g (by omega)
    have hp0 : p = 0 := by omega
    rw [lonePacket, Contents.azimuth_encode, UInt16.toNat_ofNat', hp0, Nat.mul_zero, Nat.zero_add, Nat.zero_add]
    exact Nat.mod_eq_of_lt (by omega)

theorem lonePacket_default (s : Slot) : Stream 1 0 400 fun _ => lonePacket 400 s :=
  lonePacket_stream s (by decide) (by decide) (by decide)

theorem lonePacket_slot (g : Nat) (b : Fin 12) (i : Fin 16) :
    ⟨b, i, .strongest⟩ ∈ strongestSlots (lonePacket g ⟨b, i, .strongest⟩) := by
  simp [mem_strongestSlots, lonePacket, InRange]

/-- The strongest returns of a stream. Those of the blocks 0 to 10 of a packet are spread evenly over the gap
    to the next block; the last block has no successor in its packet and takes the default step of 0.25
    degrees. So the stream is continuous exactly when the gap is 4 degrees or no last block holds a strongest
    return in range beyond its first measurement. It still increases when no such return is placed by the
    default step at or beyond the next packet. -/
theorem stream_azimuths (host : ByteOrder) {k a0 g : Nat} {packets : Nat → Memory} (h : Stream k a0 g packets) :
    (∀ p < k, strongestPoints host (packets p) =
      (strongestSlots (packets p)).map fun s => pointAt (packets p) (streamAzimuth a0 g p s) s) ∧
    (Continuous host k a0 g packets ↔
      g = 400 ∨ ∀ p < k, ∀ s ∈ strongestSlots (packets p), s.block.val < 11 ∨ s.index.val = 0) ∧
    (LastBlocksWithin k g packets →
      ((List.range k).flatMap fun p => (strongestPoints host (packets p)).map (·.azimuth)).Pairwise (· < ·) ∧
      ∀ p < k, ∀ pt ∈ strongestPoints host (packets p), pt.azimuth < ((a0 + g * (12 * (p + 1)) : ℕ) : ℚ) / 100) := by
  refine ⟨fun p hp => h.strongestPoints_eq hp host, ⟨fun hc => ?_, fun hcond => ?_⟩, fun hw =>
    ⟨h.increasing hw host, h.below_next hw host⟩⟩
  · by_cases hg : g = 400
    · exact Or.inl hg
    · refine Or.inr fun p hp s hs => ?_
      have := (h.streamAzimuth_eq_even_iff hp s).mp ((h.points_iff hp host).mp (hc.points p hp) s hs)
      tauto
  · have hpos := h.gap_pos
    have hw : LastBlocksWithin k g packets := fun p hp s hs => by
      rcases hcond with rfl | hcond
      · exact Or.inr (by omega)
      · exact (hcond p hp s hs).imp_right fun h0 => by omega
    refine ⟨fun p hp => (h.points_iff hp host).mpr fun s hs => ?_, h.increasing hw host, h.below_next hw host⟩
    rw [h.streamAzimuth_eq_even_iff hp s]
    rcases hcond with hg | hcond
    · exact Or.inr (Or.inl hg)
    · exact (hcond p hp s hs).imp_right Or.inr

/-- Seven packets with gaps of 4 degrees are continuous. With gaps of 8 degrees three packets still increase. -/
theorem stream_azimuths_full : Continuous .little 7 0 400 (fullPacket 400) ∧
    ((List.range 3).flatMap fun p => (strongestPoints .little (fullPacket 800 p)).map (·.azimuth)).Pairwise (· < ·) := by
  have h400 : Stream 7 0 400 (fullPacket 400) := fullPacket_stream (by decide) (by decide) (by decide)
  have h800 : Stream 3 0 800 (fullPacket 800) := fullPacket_stream (by decide) (by decide) (by decide)
  refine ⟨(stream_azimuths .little h400).2.1.mpr (Or.inl rfl), ?_⟩
  exact ((stream_azimuths .little h800).2.2 fun p _ s _ => Or.inr (by omega)).1

/-- With a gap of 0.16 degrees, measurement 1 of block 11 is emitted at 2.01 degrees and not at 1.77. -/
theorem not_continuous_small_gap :
    (Stream 1 0 16 fun _ => lonePacket 16 ⟨11, 1, .strongest⟩) ∧
    ¬Continuous .little 1 0 16 fun _ => lonePacket 16 ⟨11, 1, .strongest⟩ := by
  have h : Stream 1 0 16 fun _ => lonePacket 16 ⟨11, 1, .strongest⟩ :=
    lonePacket_stream _ (by decide) (by decide) (by decide)
  refine ⟨h, fun hc => ?_⟩
  have heven := (h.points_iff Nat.zero_lt_one .little).mp (hc.points 0 Nat.zero_lt_one) _ (lonePacket_slot 16 11 1)
  exact absurd heven (by decide)

end LidarInterface.Reader2
