import LidarInterface.Theorems.Reader2Sweep

/-! Rotating the azimuths of a packet by a whole number of hundredths of a degree. `reader2.0` emits the
    same returns, turned by the same angle, except in a block that straddles the 360-degree seam in only one
    of the two packets: a successor across the seam has the smaller azimuth, and the block then takes the
    default step. -/

namespace LidarInterface.Reader2
open Foundation Format Exact

/-- The packet with `t` hundredths of a degree added to the azimuth of each valid block. -/
def rotate (t : Int) (data : Memory) : Memory :=
  replaceAzimuths data fun b =>
    if flag data b = dataFlag then .ofNat (((azimuth data b).toNat + t) % 36000).toNat else azimuth data b

noncomputable def LidarPoint.turn (t : Int) (p : LidarPoint) : LidarPoint :=
  { p with azimuth := toIcoMod turn_pos 0 (p.azimuth + t / 100) }

def gap (data : Memory) (b : Fin 12) : Int := ((towards data b).toNat - (azimuth data b).toNat) % 36000

def HasSuccessor (data : Memory) (b : Fin 12) : Prop := ∃ h : b.val < 11, Valid data ⟨b + 1, succ_lt h⟩

/-- The azimuth a block is interpolated towards lies behind the 360-degree seam. -/
def Straddles (data : Memory) (b : Fin 12) : Prop := (towards data b).toNat < (azimuth data b).toNat

/-- The valid blocks have azimuths of one turn, and those followed by a valid block sweep forward, by less
    than half a turn. -/
structure Forward (data : Memory) : Prop where
  azimuth_lt : ∀ b, flag data b = dataFlag → (azimuth data b).toNat < 36000
  gap_mem : ∀ b, flag data b = dataFlag → HasSuccessor data b → 1 ≤ gap data b ∧ gap data b ≤ 17999

section Steps
variable {data : Memory} {b : Fin 12}

theorem towards_of_hasSuccessor (h : HasSuccessor data b) :
    ∃ b' : Fin 12, Valid data b' ∧ towards data b = azimuth data b' := by
  obtain ⟨hb, hv⟩ := h
  exact ⟨_, hv, by rw [towards, dif_pos hb, if_pos hv]⟩

theorem towards_of_not_hasSuccessor (h : ¬HasSuccessor data b) : towards data b = azimuth data b := by
  by_cases hb : b.val < 11
  · rw [towards, dif_pos hb, if_neg fun hv => h ⟨hb, hv⟩]
  · rw [towards, dif_neg hb]

theorem resolution_of_not_hasSuccessor (h : ¬HasSuccessor data b) :
    resolution (azimuth data b) (towards data b) = 25 := by
  rw [towards_of_not_hasSuccessor h, resolution_of_le (Nat.le_refl _)]

namespace Forward
variable (hf : Forward data) (hb : flag data b = dataFlag)
include hf

theorem valid_iff (b : Fin 12) : Valid data b ↔ flag data b = dataFlag :=
  ⟨fun hv => hv.1, fun hflag => valid_of_lt hflag (hf.azimuth_lt b hflag)⟩

include hb

theorem towards_lt : (towards data b).toNat < 36000 := by
  by_cases hs : HasSuccessor data b
  · obtain ⟨b', hv, ht⟩ := towards_of_hasSuccessor hs
    rw [ht]
    exact hf.azimuth_lt b' hv.1
  · rw [towards_of_not_hasSuccessor hs]
    exact hf.azimuth_lt b hb

theorem resolution_eq (hs : HasSuccessor data b) : resolution (azimuth data b) (towards data b) =
    if (towards data b).toNat < (azimuth data b).toNat then 25 else gap data b / 16 := by
  have ha := hf.azimuth_lt b hb
  have hn := hf.towards_lt hb
  have hg := hf.gap_mem b hb hs
  rw [gap] at hg ⊢
  split
  · next hlt => rw [resolution_of_le hlt.le]
  · next hlt =>
    have hpos : (azimuth data b).toNat < (towards data b).toNat := by omega
    rw [resolution_of_lt hpos]
    omega

theorem resolution_mem : 0 ≤ resolution (azimuth data b) (towards data b) ∧
    resolution (azimuth data b) (towards data b) ≤ 1124 := by
  by_cases hs : HasSuccessor data b
  · have hg := hf.gap_mem b hb hs
    rw [hf.resolution_eq hb hs]
    split <;> omega
  · rw [resolution_of_not_hasSuccessor hs]
    omega

end Forward
end Steps

/-! ### The rotated packet -/

section Rotate
variable (t : Int) (data : Memory)

@[simp] theorem flag_rotate (b : Fin 12) : flag (rotate t data) b = flag data b := flag_replaceAzimuths ..

@[simp] theorem distance_rotate (s : Slot) : distance (rotate t data) s = distance data s := distance_replaceAzimuths ..

@[simp] theorem rssi_rotate (s : Slot) : rssi (rotate t data) s = rssi data s := rssi_replaceAzimuths ..

variable {t data} {b : Fin 12}

theorem azimuth_rotate (hb : flag data b = dataFlag) :
    ((azimuth (rotate t data) b).toNat : Int) = ((azimuth data b).toNat + t) % 36000 := by
  rw [rotate, azimuth_replaceAzimuths, if_pos hb, toNat_ofNat_turn]

theorem azimuth_rotate_lt (hb : flag data b = dataFlag) : (azimuth (rotate t data) b).toNat < 36000 := by
  have := azimuth_rotate (t := t) hb
  omega

theorem valid_rotate (hf : Forward data) (b : Fin 12) : Valid (rotate t data) b ↔ Valid data b := by
  rw [hf.valid_iff]
  constructor
  · intro h
    rw [← flag_rotate t]
    exact h.1
  · intro h
    exact valid_of_lt (by rwa [flag_rotate]) (azimuth_rotate_lt h)

theorem hasSuccessor_rotate (hf : Forward data) (b : Fin 12) :
    HasSuccessor (rotate t data) b ↔ HasSuccessor data b :=
  exists_congr fun _ => valid_rotate hf _

theorem emits_rotate (hf : Forward data) (s : Slot) : Emits (rotate t data) s ↔ Emits data s := by
  rw [Emits, Emits, valid_rotate hf, distance_rotate, distance_rotate]

theorem towards_rotate (hf : Forward data) (hb : flag data b = dataFlag) :
    ((towards (rotate t data) b).toNat : Int) = ((towards data b).toNat + t) % 36000 := by
  by_cases hs : HasSuccessor data b
  · obtain ⟨hlt, hv⟩ := hs
    have hv' := (valid_rotate (t := t) hf _).mpr hv
    rw [towards, dif_pos hlt, if_pos hv', azimuth_rotate hv.1, towards, dif_pos hlt, if_pos hv]
  · have hs' := fun h => hs ((hasSuccessor_rotate (t := t) hf b).mp h)
    rw [towards_of_not_hasSuccessor hs', towards_of_not_hasSuccessor hs, azimuth_rotate hb]

theorem gap_rotate (hf : Forward data) (hb : flag data b = dataFlag) : gap (rotate t data) b = gap data b := by
  rw [gap, gap, towards_rotate hf hb, azimuth_rotate hb]
  omega

theorem Forward.rotate (hf : Forward data) : Forward (rotate t data) where
  azimuth_lt b hb := azimuth_rotate_lt (by rwa [flag_rotate] at hb)
  gap_mem b hb hs := by
    rw [flag_rotate] at hb
    rw [gap_rotate hf hb]
    exact hf.gap_mem b hb ((hasSuccessor_rotate hf b).mp hs)

/-- The two steps of a block agree when it straddles the seam in both packets or in neither, or when a
    sixteenth of its gap is the default step. -/
theorem resolution_rotate_iff (hf : Forward data) (hb : flag data b = dataFlag) :
    resolution (azimuth (rotate t data) b) (towards (rotate t data) b) =
      resolution (azimuth data b) (towards data b) ↔
    (HasSuccessor data b → (Straddles data b ↔ Straddles (rotate t data) b) ∨
      400 ≤ gap data b ∧ gap data b ≤ 415) := by
  by_cases hs : HasSuccessor data b
  · have hs' := (hasSuccessor_rotate (t := t) hf b).mpr hs
    have hb' : flag (rotate t data) b = dataFlag := by rwa [flag_rotate]
    rw [hf.resolution_eq hb hs, hf.rotate.resolution_eq hb' hs', gap_rotate hf hb]
    simp only [Straddles, hs, true_imp_iff]
    split <;> split <;> simp_all <;> omega
  · have hs' := fun h => hs ((hasSuccessor_rotate (t := t) hf b).mp h)
    simp [resolution_of_not_hasSuccessor hs, resolution_of_not_hasSuccessor hs', hs]

theorem turn_centi (t n : Int) :
    toIcoMod turn_pos 0 ((((n % 36000 : ℤ) : ℚ) / 100) + t / 100) = (((n + t) % 36000 : ℤ) : ℚ) / 100 := by
  have hturn : (0 : ℤ) < 36000 := by norm_num
  have hcenti : (0 : ℚ) < 100 := by norm_num
  rw [← add_div, ← Int.cast_add, Wrap.toIcoMod_intCast_div turn_pos hcenti hturn (by norm_num), Int.emod_add_emod]

/-- A point is the turned one exactly when it is the first of its block or the step is the same. -/
theorem point_rotate_iff (hf : Forward data) {s : Slot} (hb : flag data s.block = dataFlag) :
    point (rotate t data) s = (point data s).turn t ↔ (s.index.val ≠ 0 →
      resolution (azimuth (rotate t data) s.block) (towards (rotate t data) s.block) =
        resolution (azimuth data s.block) (towards data s.block)) := by
  have hb' : flag (rotate t data) s.block = dataFlag := by rwa [flag_rotate]
  obtain ⟨hlow, hhigh⟩ := hf.resolution_mem hb
  obtain ⟨hlow', hhigh'⟩ := (hf.rotate (t := t)).resolution_mem hb'
  have hiff : point (rotate t data) s = (point data s).turn t ↔
      calculateAzimuth (azimuth (rotate t data) s.block) (towards (rotate t data) s.block) s.index =
        toIcoMod turn_pos 0 (calculateAzimuth (azimuth data s.block) (towards data s.block) s.index + t / 100) := by
    simp [point, LidarPoint.turn]
  rw [hiff, calculateAzimuth_of_mem (azimuth_rotate_lt hb) s.index.isLt,
    calculateAzimuth_of_mem (hf.azimuth_lt _ hb) s.index.isLt, turn_centi, div_left_inj' (by norm_num), Int.cast_inj,
    azimuth_rotate hb]
  generalize resolution (azimuth (rotate t data) s.block) (towards (rotate t data) s.block) = r' at *
  generalize resolution (azimuth data s.block) (towards data s.block) = r at *
  have hsum : 0 ≤ r * s.index.val ∧ r * s.index.val ≤ 1124 * 15 :=
    ⟨mul_nonneg hlow (by omega), mul_le_mul hhigh (by omega) (by omega) (by omega)⟩
  have hsum' : 0 ≤ r' * s.index.val ∧ r' * s.index.val ≤ 1124 * 15 :=
    ⟨mul_nonneg hlow' (by omega), mul_le_mul hhigh' (by omega) (by omega) (by omega)⟩
  constructor
  · intro h hi
    -- Both sums stay within half a turn of the block's azimuth, so they agree exactly.
    have hsame : r' * s.index.val = r * s.index.val := by omega
    exact mul_right_cancel₀ (by exact_mod_cast hi) hsame
  · intro h
    by_cases hi : s.index.val = 0
    · rw [hi]
      omega
    · rw [h hi]
      omega

theorem decode_rotate_returns (hf : Forward data) :
    (decode (rotate t data)).map (fun p => (p.distance, p.rssi, p.isStrongest)) =
      (decode data).map fun p => (p.distance, p.rssi, p.isStrongest) := by
  simp only [decode, List.map_map, emits_rotate hf]
  refine List.map_congr_left fun s _ => ?_
  simp only [Function.comp_apply, point, distance_rotate, rssi_rotate]

theorem decode_rotate_iff (hf : Forward data) :
    decode (rotate t data) = (decode data).map (·.turn t) ↔ ∀ s, Emits data s → s.index.val ≠ 0 →
      resolution (azimuth (rotate t data) s.block) (towards (rotate t data) s.block) =
        resolution (azimuth data s.block) (towards data s.block) := by
  simp only [decode, List.map_map, emits_rotate hf, List.map_inj_left, mem_slots, Function.comp_apply]
  exact forall₂_congr fun s hs => point_rotate_iff hf hs.1.1

end Rotate

namespace Stream
variable {k a0 g : Nat} {packets : Nat → Memory} (h : Stream k a0 g packets) {p : Nat} (hp : p < k)
include h hp

theorem gap_eq {b : Fin 12} (hb : b.val < 11) : gap (packets p) b = g := by
  have hturn := h.below_turn
  have hlt := block_succ_le a0 g hp b
  rw [gap, h.towards_eq hp hb, h.azimuth p hp]
  omega

theorem forward : Forward (packets p) where
  azimuth_lt b _ := h.azimuth_lt hp b
  gap_mem b _ hs := by
    have hpos := h.gap_pos
    have hturn := h.below_turn
    have hsweep : g * 12 ≤ g * (12 * k) := Nat.mul_le_mul_left g (by omega)
    rw [h.gap_eq hp hs.1]
    omega

end Stream

/-- Decoding a packet whose azimuths are rotated by `t` hundredths of a degree. The returns are the same, and
    all azimuths are turned by `t` exactly when no return beyond the first measurement of its block lies in a
    block that straddles the 360-degree seam in only one of the two packets, gaps whose sixteenth is the default
    step excepted. -/
theorem parsePacket_rotate (host : ByteOrder) {data : Memory} (hf : Forward data) (t : Int) :
    let points := (({} : MSOPParser).parsePacket host data 1206 []).points
    let rotated := (({} : MSOPParser).parsePacket host (rotate t data) 1206 []).points
    rotated.map (fun p => (p.distance, p.rssi, p.isStrongest)) =
      points.map (fun p => (p.distance, p.rssi, p.isStrongest)) ∧
    (rotated = points.map (·.turn t) ↔ ∀ s, Emits data s → s.index.val ≠ 0 → HasSuccessor data s.block →
      (Straddles data s.block ↔ Straddles (rotate t data) s.block) ∨
        400 ≤ gap data s.block ∧ gap data s.block ≤ 415) := by
  intro points rotated
  have hpoints : points = decode data := congrArg ParseResult.points parsePacket_of_size
  have hrotated : rotated = decode (rotate t data) := congrArg ParseResult.points parsePacket_of_size
  rw [hpoints, hrotated]
  refine ⟨decode_rotate_returns hf, (decode_rotate_iff hf).trans ?_⟩
  exact forall₃_congr fun s hs _ => resolution_rotate_iff hf hs.1.1

/-- Turning a packet with gaps of 4 degrees across the seam changes nothing else. -/
theorem parsePacket_rotate_default_gap :
    (({} : MSOPParser).parsePacket .little (rotate 35900 (lonePacket 400 ⟨0, 1, .strongest⟩)) 1206 []).points =
      (({} : MSOPParser).parsePacket .little (lonePacket 400 ⟨0, 1, .strongest⟩) 1206 []).points.map (·.turn 35900) := by
  have hstream := lonePacket_default ⟨0, 1, .strongest⟩
  refine (parsePacket_rotate .little (hstream.forward Nat.zero_lt_one) 35900).2.mpr fun s _ _ hs => Or.inr ?_
  rw [hstream.gap_eq Nat.zero_lt_one hs.1]
  decide

/-- With gaps of 16 degrees, a block turned to 359 degrees straddles the seam: its measurement 1 is emitted at
    359.25 degrees, and not at 1 degree turned to 0. -/
theorem not_equivariant_across_seam :
    Forward (lonePacket 1600 ⟨0, 1, .strongest⟩) ∧
    (({} : MSOPParser).parsePacket .little (rotate 35900 (lonePacket 1600 ⟨0, 1, .strongest⟩)) 1206 []).points ≠
      (({} : MSOPParser).parsePacket .little (lonePacket 1600 ⟨0, 1, .strongest⟩) 1206 []).points.map (·.turn 35900) := by
  have hf : Forward (lonePacket 1600 ⟨0, 1, .strongest⟩) :=
    (lonePacket_stream _ (by decide) (by decide) (by decide)).forward Nat.zero_lt_one
  refine ⟨hf, fun he => ?_⟩
  rw [parsePacket_of_size, parsePacket_of_size] at he
  have hstep := (decode_rotate_iff hf).mp he ⟨0, 1, .strongest⟩ (by decide) (by decide)
  exact absurd hstep (by decide)

end LidarInterface.Reader2
