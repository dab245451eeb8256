import LidarInterface.Theorems.SlamSweep

/-! Rotating the azimuths of the valid blocks of a packet. `slam_lidar_cpp`'s `parsePacket` follows the shorter arc
    from block to block, so wherever the 360-degree seam lies the same points come out, turned by the same angle. -/

namespace LidarInterface.Slam
open Foundation Format Exact

/-- The packet with `t` hundredths of a degree added to the azimuth of each valid block. -/
def rotate (host : ByteOrder) (t : Int) (data : Memory) : Memory :=
  replaceAzimuths data fun b =>
    if Valid host data b then .ofNat (((azimuth data b).toNat + t) % 36000).toNat else azimuth data b

noncomputable def ParsedPoint.turn (t : Int) (p : ParsedPoint) : ParsedPoint :=
  { p with azimuthDegrees := toIcoMod turn_pos 0 (p.azimuthDegrees + t / 100) }

/-- The valid blocks have azimuths of one turn, and no two adjacent ones are half a turn apart. -/
structure Turnable (host : ByteOrder) (data : Memory) : Prop where
  azimuth_lt : ∀ b, Valid host data b → (azimuth data b).toNat < 36000
  not_opposite : ∀ b b' : Fin 12, b'.val = b.val + 1 → Valid host data b → Valid host data b' →
    |((azimuth data b').toNat : ℤ) - (azimuth data b).toNat| ≠ 18000

/-- A sweep of less than half a turn from one azimuth to another. -/
def IsArc (current next d : ℚ) : Prop := |d| < 180 ∧ ∃ n : ℤ, d = next - current + n • (360 : ℚ)

/-! ### Arcs -/

namespace Turnable
variable {host : ByteOrder} {data : Memory} (h : Turnable host data) {b b' : Fin 12} (hb : b'.val = b.val + 1)
  (hv : Valid host data b) (hv' : Valid host data b')
include h hb hv hv'

theorem abs_degrees_sub : |degrees data b' - degrees data b| < 360 ∧ |degrees data b' - degrees data b| ≠ 360 / 2 := by
  refine ⟨abs_degrees_sub_lt (h.azimuth_lt b hv) (h.azimuth_lt b' hv'), fun he => h.not_opposite b b' hb hv hv' ?_⟩
  rw [degrees_sub, abs_div, abs_of_pos (by norm_num : (0 : ℚ) < 100), div_eq_iff (by norm_num)] at he
  have habs : ((|((azimuth data b').toNat : ℤ) - (azimuth data b).toNat| : ℤ) : ℚ) = 18000 := by
    rw [Int.cast_abs, he]
    norm_num
  exact_mod_cast habs

theorem isArc_shortArc :
    IsArc (degrees data b) (degrees data b') (Wrap.shortArc 360 (degrees data b' - degrees data b)) := by
  obtain ⟨hlt, hne⟩ := h.abs_degrees_sub hb hv hv'
  refine ⟨?_, Wrap.shortArc_eq_add_zsmul _ _⟩
  rw [← half_turn]
  exact Wrap.abs_shortArc_lt hlt hne

theorem eq_shortArc {d : ℚ} (hd : IsArc (degrees data b) (degrees data b') d) :
    Wrap.shortArc 360 (degrees data b' - degrees data b) = d := by
  refine Wrap.shortArc_eq_of_abs_lt turn_pos (h.abs_degrees_sub hb hv hv').1.le ?_ hd.2
  rw [half_turn]
  exact hd.1

end Turnable

/-! ### The rotated packet -/

section Rotate
variable {host : ByteOrder} {t : Int} {data : Memory} {b b' : Fin 12}

theorem valid_rotate (b : Fin 12) : Valid host (rotate host t data) b ↔ Valid host data b := by
  rw [valid_iff, valid_iff, rotate, flag_replaceAzimuths]

theorem azimuth_rotate (hv : Valid host data b) :
    ((azimuth (rotate host t data) b).toNat : Int) = ((azimuth data b).toNat + t) % 36000 := by
  rw [rotate, azimuth_replaceAzimuths, if_pos hv, toNat_ofNat_turn]

theorem azimuth_rotate_lt (hv : Valid host data b) : (azimuth (rotate host t data) b).toNat < 36000 := by
  have := azimuth_rotate (t := t) hv
  omega

variable (h : Turnable host data)
include h

theorem shortArc_rotate (hb : b'.val = b.val + 1) (hv : Valid host data b) (hv' : Valid host data b') :
    Wrap.shortArc 360 (degrees (rotate host t data) b' - degrees (rotate host t data) b) =
      Wrap.shortArc 360 (degrees data b' - degrees data b) := by
  obtain ⟨hlt, hne⟩ := h.abs_degrees_sub hb hv hv'
  obtain ⟨n, hn⟩ := degrees_of_rotated (azimuth_rotate (t := t) hv)
  obtain ⟨n', hn'⟩ := degrees_of_rotated (azimuth_rotate (t := t) hv')
  refine Wrap.shortArc_congr turn_pos hlt hne (abs_degrees_sub_lt (azimuth_rotate_lt hv) (azimuth_rotate_lt hv')).le
    ⟨n' - n, ?_⟩
  rw [hn, hn', sub_zsmul]
  ring

/-- A valid block keeps its sweep. -/
theorem sweep_rotate (hv : Valid host data b) : sweep host (rotate host t data) b = sweep host data b := by
  have hrot := (valid_rotate (t := t) b).mpr hv
  by_cases hb : b.val < 11
  · have hnext : (⟨b.val + 1, succ_lt hb⟩ : Fin 12).val = b.val + 1 := rfl
    by_cases hv' : Valid host data ⟨b.val + 1, succ_lt hb⟩
    · rw [sweep_of_successor hnext hv', sweep_of_successor hnext ((valid_rotate _).mpr hv')]
      exact shortArc_rotate h hnext hv hv'
    · rw [sweep_of_invalid hnext hv', sweep_of_invalid hnext fun hr => hv' ((valid_rotate _).mp hr)]
  · have hlast : b.val = 11 := by omega
    have hprev := val_pred (b := b) (by omega)
    by_cases hv' : Valid host data ⟨b.val - 1, pred_lt b⟩
    · rw [sweep_last hprev hlast hv' (h.azimuth_lt _ hv') (h.azimuth_lt b hv),
        sweep_last hprev hlast ((valid_rotate _).mpr hv') (azimuth_rotate_lt hv') (azimuth_rotate_lt hv)]
      exact shortArc_rotate h hprev hv' hv
    · rw [sweep_last_of_invalid hprev hlast hv',
        sweep_last_of_invalid hprev hlast fun hr => hv' ((valid_rotate _).mp hr)]

/-- Every measurement of a valid block is turned by the same angle. -/
theorem calculatePointAzimuth_rotate (hv : Valid host data b) (i : Fin 16) :
    calculatePointAzimuth (degrees (rotate host t data) b) (nextAzimuth host (.load host (rotate host t data)) b) i =
      toIcoMod turn_pos 0
        (calculatePointAzimuth (degrees data b) (nextAzimuth host (.load host data) b) i + t / 100) := by
  have hsweep := sweep_rotate (t := t) h hv
  rw [sweep, sweep] at hsweep
  obtain ⟨n, hn⟩ := degrees_of_rotated (azimuth_rotate (t := t) hv)
  rw [calculatePointAzimuth_eq, calculatePointAzimuth_eq, Wrap.toIcoMod_add_toIcoMod, hsweep, toIcoMod_eq_toIcoMod]
  refine ⟨-n, ?_⟩
  rw [hn, neg_zsmul]
  ring

omit h in
theorem emitsOn_rotate (s : Slot) : EmitsOn host (rotate host t data) s ↔ EmitsOn host data s := by
  rw [EmitsOn, EmitsOn, valid_rotate, Present, Present, rotate, distance_replaceAzimuths, distance_replaceAzimuths]

theorem pointOn_rotate {s : Slot} (hv : Valid host data s.block) :
    pointOn host (rotate host t data) s = (pointOn host data s).turn t := by
  have hazimuth := calculatePointAzimuth_rotate (t := t) h hv s.index
  have hdist : distance (rotate host t data) s = distance data s := distance_replaceAzimuths ..
  have hrssi : rssi (rotate host t data) s = rssi data s := rssi_replaceAzimuths ..
  rw [pointOn, Exact.double_eq, hazimuth, hdist, hrssi]
  rfl

theorem parsePacket_rotated :
    parsePacket host (rotate host t data) 1206 = (parsePacket host data 1206).map (·.turn t) := by
  rw [parsePacket_slots, parsePacket_slots, List.map_map]
  exact Slot.map_filter_congr emitsOn_rotate fun s hemits =>
    pointOn_rotate h ((emitsOn_rotate s).mp hemits).1

end Rotate

/-! ### Points on the short arc -/

section Points
variable {host : ByteOrder} {data : Memory}

theorem azimuth_mem_turn {p : ParsedPoint} (hp : p ∈ parsePacket host data 1206) :
    0 ≤ p.azimuthDegrees ∧ p.azimuthDegrees < 360 := by
  rw [parsePacket_pointsOf, List.mem_flatMap] at hp
  obtain ⟨b, -, hp⟩ := hp
  obtain ⟨i, -, hp⟩ := List.mem_flatMap.mp hp
  rw [azimuth_of_mem_pointsOf hp]
  exact toIcoMod_mem_Ico' turn_pos _

theorem azimuth_of_isArc (h : Turnable host data) {b b' : Fin 12} (hb : b'.val = b.val + 1) (hv : Valid host data b)
    (hv' : Valid host data b') {d : ℚ} (hd : IsArc (degrees data b) (degrees data b') d) {i : Fin 16}
    {p : ParsedPoint} (hp : p ∈ pointsOf host data b i) :
    p.azimuthDegrees = toIcoMod turn_pos 0 (degrees data b + d * i.val / 16) := by
  have hstep : d / 16 * i.val = d * i.val / 16 := by ring
  rw [azimuth_of_mem_pointsOf hp, sweep_of_successor hb hv', h.eq_shortArc hb hv hv' hd, hstep]

end Points

/-- Rotating the azimuths of the valid blocks turns every point, and nothing else changes. The loops that reduce an
    azimuth end in one turn, and a block with a valid successor is interpolated along the only arc of less than half a
    turn to the azimuth of the successor. -/
theorem parsePacket_turn {host : ByteOrder} {data : Memory} (h : Turnable host data) (t : Int) :
    parsePacket host (rotate host t data) 1206 = (parsePacket host data 1206).map (·.turn t) ∧
    (∀ p ∈ parsePacket host data 1206, 0 ≤ p.azimuthDegrees ∧ p.azimuthDegrees < 360) ∧
    (∀ x : ℚ, ∃ m n, Wrap.Iterations 360 x m n ∧ Wrap.normalize Arithmetic.double turn_pos x = x + m * 360 - n * 360) ∧
    (parsePacket host data 1206 =
      (List.finRange 12).flatMap fun b => (List.finRange 16).flatMap fun i => pointsOf host data b i) ∧
    ∀ b b' : Fin 12, b'.val = b.val + 1 → Valid host data b → Valid host data b' →
      (∃! d, IsArc (degrees data b) (degrees data b') d) ∧ ∀ d, IsArc (degrees data b) (degrees data b') d →
        ∀ i, ∀ p ∈ pointsOf host data b i,
          p.azimuthDegrees = toIcoMod turn_pos 0 (degrees data b + d * i.val / 16) := by
  refine ⟨parsePacket_rotated h, fun p hp => azimuth_mem_turn hp, fun x => Wrap.exists_iterations turn_pos x,
    parsePacket_pointsOf host data, fun b b' hb hv hv' => ?_⟩
  refine ⟨⟨_, h.isArc_shortArc hb hv hv', fun d hd => ?_⟩, fun d hd i p hp => azimuth_of_isArc h hb hv hv' hd hp⟩
  exact (h.eq_shortArc hb hv hv' hd).symm

theorem endPacket_turnable : Turnable .little (endPacket 12) where
  azimuth_lt b _ := by
    rw [azimuth_endPacket]
    omega
  not_opposite b b' hb _ _ := by
    have hgap : ((400 * (b.val + 1) : ℕ) : ℤ) - (400 * b.val : ℕ) = 400 := by omega
    rw [azimuth_endPacket, azimuth_endPacket, hb, hgap]
    decide

/-- Turning by 359 degrees brings the seam between the first two blocks. -/
theorem parsePacket_turn_endPacket : parsePacket .little (rotate .little 35900 (endPacket 12)) 1206 =
    (parsePacket .little (endPacket 12) 1206).map (·.turn 35900) :=
  (parsePacket_turn endPacket_turnable 35900).1

end LidarInterface.Slam
