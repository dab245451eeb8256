import LidarInterface.Contents
import LidarInterface.Theorems.SlamDecode

/-! The sweep of a block, which `slam_lidar_cpp`'s `parsePacket` spreads its measurements over: the short arc to a
    valid successor, or for the last block of a packet from a valid predecessor. When the valid blocks of a packet
    sweep evenly, every point lies on the sweep, except in the last valid block of a packet that ends early. -/

namespace LidarInterface.Slam
open Foundation Format Exact

/-! ### The sweep of a block -/

theorem val_pred {b : Fin 12} (hb : 0 < b.val) : b.val = (⟨b.val - 1, pred_lt b⟩ : Fin 12).val + 1 := by
  show b.val = b.val - 1 + 1
  omega

def sweep (host : ByteOrder) (data : Memory) (b : Fin 12) : ℚ :=
  Wrap.shortArc 360 (nextAzimuth host (.load host data) b - degrees data b)

section Sweep
variable {host : ByteOrder} {data : Memory} {b b' : Fin 12}

theorem azimuth_of_mem_pointsOf {i : Fin 16} {p : ParsedPoint} (hp : p ∈ pointsOf host data b i) :
    p.azimuthDegrees = toIcoMod turn_pos 0 (degrees data b + sweep host data b / 16 * i.val) := by
  rw [(azimuth_of_mem hp).2, Exact.double_eq, calculatePointAzimuth_eq]
  rfl

theorem degrees_lt (h : (azimuth data b).toNat < 36000) : 0 ≤ degrees data b ∧ degrees data b < 360 := by
  have hlt : ((azimuth data b).toNat : ℚ) < 36000 := by exact_mod_cast h
  exact ⟨by rw [degrees]; positivity, by rw [degrees]; linarith⟩

theorem abs_degrees_sub_lt (h : (azimuth data b).toNat < 36000) (h' : (azimuth data b').toNat < 36000) :
    |degrees data b' - degrees data b| < 360 := by
  obtain ⟨hlow, hhigh⟩ := degrees_lt h
  obtain ⟨hlow', hhigh'⟩ := degrees_lt h'
  exact abs_lt.mpr ⟨by linarith, by linarith⟩

variable (hb : b'.val = b.val + 1)
include hb

theorem sweep_of_successor (hv : Valid host data b') :
    sweep host data b = Wrap.shortArc 360 (degrees data b' - degrees data b) := by
  have hlt : b.val < 11 := by omega
  have he : (⟨b + 1, succ_lt hlt⟩ : Fin 12) = b' := Fin.ext hb.symm
  rw [sweep, nextAzimuth_eq, dif_pos hlt, he, if_pos hv]

theorem sweep_of_invalid (hv : ¬Valid host data b') : sweep host data b = 0 := by
  have hlt : b.val < 11 := by omega
  have he : (⟨b + 1, succ_lt hlt⟩ : Fin 12) = b' := Fin.ext hb.symm
  rw [sweep, nextAzimuth_eq, dif_pos hlt, he, if_neg hv, sub_self, Wrap.shortArc_of_abs_le (by norm_num)]

/-- The last block repeats the short arc from its predecessor. -/
theorem sweep_last (hlast : b'.val = 11) (hv : Valid host data b) (h : (azimuth data b).toNat < 36000)
    (h' : (azimuth data b').toNat < 36000) :
    sweep host data b' = Wrap.shortArc 360 (degrees data b' - degrees data b) := by
  have hlt : ¬b'.val < 11 := by omega
  have he : (⟨b' - 1, pred_lt b'⟩ : Fin 12) = b := Fin.ext (by simp only [hb]; omega)
  rw [sweep, nextAzimuth_eq, dif_neg hlt, he, if_pos hv, add_sub_cancel_left]
  exact Wrap.shortArc_of_abs_le (Wrap.abs_shortArc_le (abs_degrees_sub_lt h h').le)

theorem sweep_last_of_invalid (hlast : b'.val = 11) (hv : ¬Valid host data b) : sweep host data b' = 0 := by
  have hlt : ¬b'.val < 11 := by omega
  have he : (⟨b' - 1, pred_lt b'⟩ : Fin 12) = b := Fin.ext (by simp only [hb]; omega)
  rw [sweep, nextAzimuth_eq, dif_neg hlt, he, if_neg hv, sub_self, Wrap.shortArc_of_abs_le (by norm_num)]

end Sweep

/-! ### Even sweeps -/

theorem turn_centi_pos : (0 : ℚ) < 36000 := by norm_num

noncomputable def uniformAngle (a0 g : Nat) (s : Slot) : ℚ :=
  toIcoMod turn_centi_pos 0 (a0 + g * s.block.val + g * s.index.val / 16) / 100

section Even
variable {data : Memory} {a0 g : Nat}

theorem degrees_of_azimuth {b : Fin 12} (h : (azimuth data b).toNat = (a0 + b * g) % 36000) :
    degrees data b = toIcoMod turn_pos 0 ((a0 + g * b.val : ℚ) / 100) := by
  have hcenti : (0 : ℚ) < 100 := by norm_num
  have hturn : (0 : ℤ) < 36000 := by norm_num
  have hcast : (a0 + g * b.val : ℚ) / 100 = ((a0 + b * g : ℕ) : ℤ) / 100 := by
    push_cast
    ring
  have hmod : (((a0 + b * g) % 36000 : ℕ) : ℤ) = ((a0 + b * g : ℕ) : ℤ) % 36000 := Int.natCast_emod _ _
  rw [hcast, Wrap.toIcoMod_intCast_div turn_pos hcenti hturn (by norm_num), degrees, h, ← hmod, Int.cast_natCast]

/-- Steps of a sixteenth of the gap from the azimuth of a block, reduced to one turn. -/
theorem sweep_of_azimuth {s : Slot} (h : (azimuth data s.block).toNat = (a0 + s.block * g) % 36000) :
    toIcoMod turn_pos 0 (degrees data s.block + (g : ℚ) / 100 / 16 * s.index.val) = uniformAngle a0 g s := by
  have hcenti : (0 : ℚ) < 100 := by norm_num
  have hsum : (a0 + g * s.block.val : ℚ) / 100 + (g : ℚ) / 100 / 16 * s.index.val =
      (a0 + g * s.block.val + g * s.index.val / 16) / 100 := by ring
  rw [degrees_of_azimuth h, Wrap.toIcoMod_add_toIcoMod, hsum, uniformAngle,
    Wrap.toIcoMod_div turn_pos turn_centi_pos hcenti (by norm_num)]

/-- From one block to the next the short arc is the gap, wherever the seam lies. -/
theorem shortArc_of_azimuth (hg : g < 18000) {b b' : Fin 12} (hb : b'.val = b.val + 1)
    (h : (azimuth data b).toNat = (a0 + b * g) % 36000) (h' : (azimuth data b').toNat = (a0 + b' * g) % 36000) :
    Wrap.shortArc 360 (degrees data b' - degrees data b) = (g : ℚ) / 100 := by
  have hturn : (0 : ℚ) < 360 := turn_pos
  have hgap : (g : ℚ) < 18000 := by exact_mod_cast hg
  have hnonneg : (0 : ℚ) ≤ g := Nat.cast_nonneg g
  have hnext : a0 + b'.val * g = a0 + b.val * g + g := by
    rw [hb]
    ring
  rw [hnext] at h'
  obtain ⟨n, hn⟩ : ∃ n : ℤ, (g : ℤ) = (azimuth data b').toNat - (azimuth data b).toNat + n * 36000 :=
    ⟨(g - ((azimuth data b').toNat - (azimuth data b).toNat)) / 36000, by omega⟩
  have hlt : (azimuth data b).toNat < 36000 := h ▸ Nat.mod_lt _ (by decide)
  have hlt' : (azimuth data b').toNat < 36000 := h' ▸ Nat.mod_lt _ (by decide)
  have hle := (abs_degrees_sub_lt hlt hlt').le
  refine Wrap.shortArc_eq_of_abs_lt hturn hle (abs_lt.mpr ⟨by linarith, by linarith⟩) ⟨n, ?_⟩
  have hn' : (g : ℚ) = (azimuth data b').toNat - (azimuth data b).toNat + n * 36000 := by exact_mod_cast hn
  rw [hn', degrees, degrees, zsmul_eq_mul]
  ring

/-- A block that is followed by a valid one sweeps the gap, and so does the last block after a valid one. -/
theorem sweep_of_even {host : ByteOrder} (hg : g < 18000) {b b' : Fin 12} (hb : b'.val = b.val + 1)
    (h : (azimuth data b).toNat = (a0 + b * g) % 36000) (h' : (azimuth data b').toNat = (a0 + b' * g) % 36000) :
    (Valid host data b' → sweep host data b = (g : ℚ) / 100) ∧
    (b'.val = 11 → Valid host data b → sweep host data b' = (g : ℚ) / 100) := by
  have harc := shortArc_of_azimuth hg hb h h'
  constructor
  · intro hv'
    rw [sweep_of_successor hb hv', harc]
  · intro hlast hv
    rw [sweep_last hb hlast hv (h ▸ Nat.mod_lt _ (by decide)) (h' ▸ Nat.mod_lt _ (by decide)), harc]

end Even

/-! ### The end of a rotation -/

/-- The blocks of the packet before block `m` are the valid ones, and sweep evenly from `a0` by `g`. -/
structure RotationEnd (host : ByteOrder) (data : Memory) (m a0 g : Nat) : Prop where
  two_le : 2 ≤ m
  le_blocks : m ≤ 12
  start_lt : a0 < 36000
  gap_pos : 0 < g
  gap_lt : g < 18000
  valid_iff : ∀ b : Fin 12, Valid host data b ↔ b.val < m
  azimuth : ∀ b : Fin 12, b.val < m → (azimuth data b).toNat = (a0 + b * g) % 36000

namespace RotationEnd
variable {host : ByteOrder} {data : Memory} {m a0 g : Nat} (h : RotationEnd host data m a0 g)
include h

theorem azimuth_lt {b : Fin 12} (hb : b.val < m) : (Format.azimuth data b).toNat < 36000 := by
  rw [h.azimuth b hb]
  exact Nat.mod_lt _ (by decide)

theorem sweep_eq {b : Fin 12} (hb : b.val < m) (hin : b.val + 1 < m ∨ m = 12) :
    sweep host data b = (g : ℚ) / 100 := by
  by_cases hnext : b.val + 1 < m
  · have hlt : b.val + 1 < 12 := by have := h.le_blocks; omega
    have hnext' : (⟨b.val + 1, hlt⟩ : Fin 12).val = b.val + 1 := rfl
    exact (sweep_of_even h.gap_lt hnext' (h.azimuth b hb) (h.azimuth _ hnext)).1 ((h.valid_iff _).mpr hnext)
  · have hprev := val_pred (b := b) (by have := h.two_le; omega)
    have hb' : (⟨b.val - 1, pred_lt b⟩ : Fin 12).val < m := by omega
    exact (sweep_of_even h.gap_lt hprev (h.azimuth _ hb') (h.azimuth b hb)).2 (by omega) ((h.valid_iff _).mpr hb')

/-- The last valid block of a packet that ends early has no sweep. -/
theorem sweep_end {b : Fin 12} (hb : b.val + 1 = m) (hm : m ≠ 12) : sweep host data b = 0 := by
  have hlt : b.val + 1 < 12 := by have := h.le_blocks; omega
  have hnext : (⟨b.val + 1, hlt⟩ : Fin 12).val = b.val + 1 := rfl
  refine sweep_of_invalid hnext fun hv => ?_
  have := (h.valid_iff _).mp hv
  omega

theorem azimuth_iff (s : Slot) (hb : s.block.val < m) :
    toIcoMod turn_pos 0 (degrees data s.block + sweep host data s.block / 16 * s.index.val) = uniformAngle a0 g s ↔
      m = 12 ∨ s.block.val + 1 < m ∨ s.index.val = 0 := by
  rw [← sweep_of_azimuth (h.azimuth _ hb)]
  by_cases hin : s.block.val + 1 < m ∨ m = 12
  · rw [h.sweep_eq hb hin]
    exact iff_of_true rfl (by tauto)
  · obtain ⟨hend, hm⟩ := not_or.mp hin
    rw [h.sweep_end (by omega) hm, zero_div, zero_mul, add_zero, toIcoMod_eq_toIcoMod, add_sub_cancel_left]
    constructor
    · rintro ⟨n, hn⟩
      have hpos : (0 : ℚ) < g := by exact_mod_cast h.gap_pos
      have hgap : (g : ℚ) < 18000 := by exact_mod_cast h.gap_lt
      have hi : (s.index.val : ℚ) < 16 := by exact_mod_cast s.index.isLt
      have hi0 : (0 : ℚ) ≤ s.index.val := Nat.cast_nonneg _
      have hlt : |(g : ℚ) / 100 / 16 * s.index.val - 0| < 360 := by
        rw [sub_zero, abs_of_nonneg (by positivity)]
        calc (g : ℚ) / 100 / 16 * s.index.val ≤ 18000 / 100 / 16 * 16 := by gcongr
          _ < 360 := by norm_num
      have hzero := Wrap.eq_of_abs_sub_lt turn_pos hlt ⟨n, by rw [hn, zero_add]⟩
      have hindex : (s.index.val : ℚ) = 0 := (mul_eq_zero.mp hzero).resolve_left (by positivity)
      exact Or.inr (Or.inr (by exact_mod_cast hindex))
    · intro hi
      have hzero : s.index.val = 0 := by tauto
      exact ⟨0, by rw [hzero]; simp⟩

/-- The points of the last valid block share the azimuth of the block, unless the packet is full. -/
theorem points_iff : (∀ b : Fin 12, b.val < m → ∀ i, ∀ p ∈ pointsOf host data b i,
      p.azimuthDegrees = uniformAngle a0 g ⟨b, i, .strongest⟩) ↔
    m = 12 ∨ ∀ s : Slot, s.block.val + 1 = m → s.index.val ≠ 0 → distance data s = 0 ∨ distance data s = 0xFFFF := by
  refine ⟨fun hall => ?_, fun hcond b hb i p hp => ?_⟩
  · by_cases hm : m = 12
    · exact Or.inl hm
    · refine Or.inr fun s hs hi => ?_
      by_contra hpresent
      obtain ⟨p, hp⟩ := List.exists_mem_of_ne_nil _ (pointsOf_ne_nil_iff.mpr
        ⟨(h.valid_iff _).mpr (by omega), s.kind, not_or.mp hpresent⟩ : pointsOf host data s.block s.index ≠ [])
      have hangle := (azimuth_of_mem_pointsOf hp).symm.trans (hall s.block (by omega) s.index p hp)
      have := (h.azimuth_iff ⟨s.block, s.index, .strongest⟩ (show s.block.val < m by omega)).mp hangle
      simp only at this
      omega
  · rw [azimuth_of_mem_pointsOf hp]
    refine (h.azimuth_iff ⟨b, i, .strongest⟩ hb).mpr ?_
    by_contra hout
    obtain ⟨hm, hend, hi⟩ := not_or.mp hout |>.imp_right not_or.mp
    obtain ⟨-, k, h0, h1⟩ := pointsOf_ne_nil_iff.mp (List.ne_nil_of_mem hp)
    have hlast : b.val + 1 = m := by
      simp only at hend
      omega
    rcases (hcond.resolve_left hm) ⟨b, i, k⟩ hlast hi with h | h
    · exact h0 h
    · exact h1 h

end RotationEnd

/-- A packet that ends a rotation. The points of its valid blocks lie on the sweep exactly when the packet is full, or
    when the last valid block, which is not interpolated, holds no return beyond its first measurement. -/
theorem rotationEnd_iff {host : ByteOrder} {data : Memory} {m a0 g : Nat} (h : RotationEnd host data m a0 g) :
    (parsePacket host data 1206 =
      (List.finRange 12).flatMap fun b => (List.finRange 16).flatMap fun i => pointsOf host data b i) ∧
    ((∀ b : Fin 12, b.val < m → ∀ i, ∀ p ∈ pointsOf host data b i,
        p.azimuthDegrees = uniformAngle a0 g ⟨b, i, .strongest⟩) ↔
      m = 12 ∨ ∀ s : Slot, s.block.val + 1 = m → s.index.val ≠ 0 → distance data s = 0 ∨ distance data s = 0xFFFF) :=
  ⟨parsePacket_pointsOf host data, h.points_iff⟩

/-- A packet whose first `m` blocks are valid, 4 degrees apart, with every return at 1 m. -/
def endPacket (m : Nat) : Memory :=
  ({ flag := fun b => if b.val < m then dataFlag else 0xFFFF
     azimuth := fun b => .ofNat (400 * b)
     distance := fun _ => 1000
     rssi := fun _ => 50
     timestamp := 0
     factoryInfo := 0 } : Contents).encode

theorem flag_endPacket (m : Nat) (b : Fin 12) : flag (endPacket m) b = if b.val < m then dataFlag else 0xFFFF := by
  rw [endPacket, Contents.flag_encode]

theorem valid_endPacket (m : Nat) (b : Fin 12) : Valid .little (endPacket m) b ↔ b.val < m := by
  have hflag : ByteOrder.little.ntohs validFlag = dataFlag := rfl
  have hinvalid : (0xFFFF : UInt16) ≠ dataFlag := by decide
  rw [valid_iff, hflag, flag_endPacket]
  by_cases hb : b.val < m <;> simp [hb, hinvalid]

theorem azimuth_endPacket (m : Nat) (b : Fin 12) : (azimuth (endPacket m) b).toNat = 400 * b.val := by
  rw [endPacket, Contents.azimuth_encode, UInt16.toNat_ofNat']
  omega

theorem endPacket_rotationEnd {m : Nat} (h2 : 2 ≤ m) (h12 : m ≤ 12) : RotationEnd .little (endPacket m) m 0 400 where
  two_le := h2
  le_blocks := h12
  start_lt := by decide
  gap_pos := by decide
  gap_lt := by decide
  valid_iff := valid_endPacket m
  azimuth b _ := by
    rw [azimuth_endPacket]
    omega

theorem rotationEnd_full : RotationEnd .little (endPacket 12) 12 0 400 ∧
    ∀ b : Fin 12, b.val < 12 → ∀ i, ∀ p ∈ pointsOf .little (endPacket 12) b i,
      p.azimuthDegrees = uniformAngle 0 400 ⟨b, i, .strongest⟩ := by
  have h := endPacket_rotationEnd (m := 12) (by decide) (by decide)
  exact ⟨h, (rotationEnd_iff h).2.mpr (Or.inl rfl)⟩

/-- Block 5, the last of 6 valid ones, has its 16 measurements at one azimuth. -/
theorem not_rotationEnd_six : RotationEnd .little (endPacket 6) 6 0 400 ∧
    ¬∀ b : Fin 12, b.val < 6 → ∀ i, ∀ p ∈ pointsOf .little (endPacket 6) b i,
      p.azimuthDegrees = uniformAngle 0 400 ⟨b, i, .strongest⟩ := by
  have h := endPacket_rotationEnd (m := 6) (by decide) (by decide)
  refine ⟨h, fun hall => ?_⟩
  have hdist : distance (endPacket 6) ⟨5, 1, .strongest⟩ = 1000 := Contents.distance_encode ..
  have hcond := ((h.points_iff.mp hall).resolve_left (by decide)) ⟨5, 1, .strongest⟩ rfl (by decide)
  rw [hdist] at hcond
  exact absurd hcond (by decide)

end LidarInterface.Slam
