import LidarInterface.Theorems.Reader2Sweep

/-! The 16-bit sum of `calculateAzimuth`. `reader2.0` admits every azimuth but 0xFFFF, and stores the azimuth of a
    block and its steps in a `uint16_t` before it reduces them to one turn. The sum towards a greater azimuth stays
    below it; the default step can carry the sum past 65535. -/

namespace LidarInterface.Reader2
open Foundation Format Exact

/-! ### The sum -/

/-- The `int` that `calculateAzimuth` narrows for measurement `i` of block `b`. -/
def azimuthSum (data : Memory) (b : Fin 12) (i : Fin 16) : Int :=
  (azimuth data b).toNat + resolution (azimuth data b) (towards data b) * i.val

/-- The block is followed in its packet by a valid one with a greater azimuth. -/
def Rises (data : Memory) (b : Fin 12) : Prop :=
  ∃ b' : Fin 12, b'.val = b.val + 1 ∧ Valid data b' ∧ azimuth data b < azimuth data b'

section Sum
variable {data : Memory} {b : Fin 12} {i : Fin 16}

theorem rises_iff : Rises data b ↔ (azimuth data b).toNat < (towards data b).toNat := by
  constructor
  · rintro ⟨b', hb, hv, hlt⟩
    have hb11 : b.val < 11 := by omega
    have he : (⟨b + 1, succ_lt hb11⟩ : Fin 12) = b' := Fin.ext hb.symm
    rw [towards, dif_pos hb11, he, if_pos hv]
    exact UInt16.lt_iff_toNat_lt.mp hlt
  · intro hlt
    unfold towards at hlt
    split at hlt
    · next hb =>
      split at hlt
      · next hv => exact ⟨_, rfl, hv, UInt16.lt_iff_toNat_lt.mpr hlt⟩
      · exact absurd hlt (Nat.lt_irrefl _)
    · exact absurd hlt (Nat.lt_irrefl _)

theorem azimuthSum_of_not_rises (h : ¬Rises data b) (i : Fin 16) :
    azimuthSum data b i = (azimuth data b).toNat + 25 * i.val := by
  rw [rises_iff, not_lt] at h
  rw [azimuthSum, resolution_of_le h]

theorem azimuthSum_lt_iff : azimuthSum data b i < 65536 ↔ Rises data b ∨ (azimuth data b).toNat + 25 * i.val < 65536 := by
  by_cases h : Rises data b
  · refine iff_of_true ?_ (Or.inl h)
    have hlt := sum_lt_of_lt (rises_iff.mp h) i.isLt
    have := (towards data b).toNat_lt
    rw [azimuthSum]
    omega
  · rw [azimuthSum_of_not_rises h, or_iff_right h]
    exact_mod_cast Iff.rfl

/-- The narrowing loses at most one multiple of 65536. -/
theorem azimuthSum_mem : 0 ≤ azimuthSum data b i ∧ azimuthSum data b i < 2 * 65536 := by
  refine ⟨sum_nonneg _ _ _, ?_⟩
  by_cases h : Rises data b
  · have hlt : azimuthSum data b i < 65536 := azimuthSum_lt_iff.mpr (Or.inl h)
    omega
  · have := (azimuth data b).toNat_lt
    rw [azimuthSum_of_not_rises h]
    omega

end Sum

/-! ### Narrowing -/

/-- The narrowing of the sum is exact, and the azimuth it leads to is the sum up to whole turns. -/
structure Lossless (data : Memory) (b : Fin 12) (i : Fin 16) : Prop where
  sum_lt : azimuthSum data b i < 65536
  narrowed : ((UInt16.ofInt (azimuthSum data b i)).toNat : Int) = azimuthSum data b i
  congruent : ∃ n : ℤ, calculateAzimuth (azimuth data b) (towards data b) i =
    (azimuthSum data b i : ℚ) / 100 + n • (360 : ℚ)
  mem_turn : 0 ≤ calculateAzimuth (azimuth data b) (towards data b) i ∧
    calculateAzimuth (azimuth data b) (towards data b) i < 360

section Narrow
variable {data : Memory} {b : Fin 12} {i : Fin 16}

theorem narrowed_iff : ((UInt16.ofInt (azimuthSum data b i)).toNat : Int) = azimuthSum data b i ↔
    azimuthSum data b i < 65536 := by
  obtain ⟨h0, h1⟩ := @azimuthSum_mem data b i
  rw [toNat_ofInt]
  omega

theorem calculateAzimuth_narrowed (data : Memory) (b : Fin 12) (i : Fin 16) :
    calculateAzimuth (azimuth data b) (towards data b) i =
      toIcoMod turn_pos 0 (((azimuthSum data b i % 65536 : ℤ) : ℚ) / 100) := by
  have hcast : (((UInt16.ofInt (azimuthSum data b i)).toNat : ℕ) : ℚ) = ((azimuthSum data b i % 65536 : ℤ) : ℚ) := by
    rw [← toNat_ofInt, Int.cast_natCast]
  rw [← hcast, calculateAzimuth_exact]
  rfl

/-- A lost multiple of 65536 hundredths of a degree is not made up of whole turns. -/
theorem congruent_iff : (∃ n : ℤ, calculateAzimuth (azimuth data b) (towards data b) i =
    (azimuthSum data b i : ℚ) / 100 + n • (360 : ℚ)) ↔ azimuthSum data b i < 65536 := by
  obtain ⟨h0, h1⟩ := @azimuthSum_mem data b i
  have hm := self_sub_toIcoDiv_zsmul turn_pos 0 (((azimuthSum data b i % 65536 : ℤ) : ℚ) / 100)
  rw [← calculateAzimuth_narrowed] at hm
  generalize toIcoDiv turn_pos 0 (((azimuthSum data b i % 65536 : ℤ) : ℚ) / 100) = m at hm
  constructor
  · rintro ⟨n, hn⟩
    rw [← hm, zsmul_eq_mul, zsmul_eq_mul] at hn
    have hcenti : ((azimuthSum data b i % 65536 - m * 36000 : ℤ) : ℚ) = (azimuthSum data b i + n * 36000 : ℤ) := by
      push_cast
      linarith
    have hturns : azimuthSum data b i % 65536 - m * 36000 = azimuthSum data b i + n * 36000 := by exact_mod_cast hcenti
    omega
  · intro hlt
    rw [Int.emod_eq_of_lt h0 hlt] at hm
    exact ⟨-m, by rw [← hm, neg_zsmul, sub_eq_add_neg]⟩

theorem lossless_iff : Lossless data b i ↔ Rises data b ∨ (azimuth data b).toNat + 25 * i.val < 65536 := by
  rw [← azimuthSum_lt_iff]
  refine ⟨fun h => h.sum_lt, fun hlt => ⟨hlt, narrowed_iff.mpr hlt, congruent_iff.mpr hlt, ?_, ?_⟩⟩
  · exact calculateAzimuth_nonneg _ _ _
  · exact calculateAzimuth_lt _ _ _

end Narrow

/-- The sums of a packet are exact exactly when each valid block with an azimuth above 651.60 degrees is followed by a
    valid one with a greater azimuth. An emitted point has the azimuth of its sum up to whole turns exactly when the
    sum of its measurement is exact. -/
theorem narrowing_lossless_iff (data : Memory) :
    ((∀ b, Valid data b → ∀ i, Lossless data b i) ↔
      ∀ b, Valid data b → (azimuth data b).toNat ≤ 65160 ∨ Rises data b) ∧
    (∀ (host : ByteOrder) (self : MSOPParser) (points : List LidarPoint),
      (self.parsePacket host data 1206 points).points = (Slot.all.filter fun s => Emits data s).map (point data)) ∧
    ∀ s, Emits data s →
      ((∃ n : ℤ, (point data s).azimuth = (azimuthSum data s.block s.index : ℚ) / 100 + n • (360 : ℚ)) ↔
        Rises data s.block ∨ (azimuth data s.block).toNat + 25 * s.index.val < 65536) := by
  refine ⟨forall₂_congr fun b _ => ?_, fun host self points => ?_, fun s _ => ?_⟩
  · constructor
    · intro h
      rcases lossless_iff.mp (h 15) with hrises | hlt
      · exact Or.inr hrises
      · have hlast : (azimuth data b).toNat + 25 * 15 < 65536 := hlt
        exact Or.inl (by omega)
    · rintro (hle | hrises) i
      · exact lossless_iff.mpr (Or.inr (by omega))
      · exact lossless_iff.mpr (Or.inl hrises)
  · rw [parsePacket_of_size, decode]
  · rw [← azimuthSum_lt_iff]
    exact congruent_iff

/-- All blocks are valid and at 655.34 degrees, with one return in range. -/
def highPacket (s : Slot) : Memory := replaceAzimuths (lonePacket 400 s) fun _ => 65534

theorem azimuth_highPacket (s : Slot) (b : Fin 12) : azimuth (highPacket s) b = 65534 := azimuth_replaceAzimuths ..

theorem valid_highPacket (s : Slot) (b : Fin 12) : Valid (highPacket s) b := by
  refine ⟨?_, ?_⟩
  · rw [highPacket, flag_replaceAzimuths, lonePacket, Contents.flag_encode]
  · rw [azimuth_highPacket]
    decide

theorem not_rises_highPacket (s : Slot) (b : Fin 12) : ¬Rises (highPacket s) b := by
  rintro ⟨b', -, -, hlt⟩
  rw [azimuth_highPacket, azimuth_highPacket] at hlt
  exact UInt16.lt_irrefl _ hlt

theorem distance_highPacket (s : Slot) : distance (highPacket s) s = 1000 := by
  rw [highPacket, distance_replaceAzimuths, lonePacket, Contents.distance_encode]
  exact if_pos (Eq.refl s)

theorem rssi_highPacket (s s' : Slot) : rssi (highPacket s) s' = 50 := by
  rw [highPacket, rssi_replaceAzimuths, lonePacket, Contents.rssi_encode]

theorem emits_highPacket {s : Slot} (hs : s.kind = .strongest) : Emits (highPacket s) s := by
  refine ⟨valid_highPacket s _, ?_, fun hlast => ?_⟩
  · rw [distance_highPacket]
    decide
  · rw [hs] at hlast
    cases hlast

theorem azimuthSum_highPacket (s : Slot) (b : Fin 12) (i : Fin 16) :
    azimuthSum (highPacket s) b i = 65534 + 25 * i.val := by
  rw [azimuthSum_of_not_rises (not_rises_highPacket s b), azimuth_highPacket]
  rfl

/-- The sum 65559 of measurement 1 is narrowed to 23, and the return is emitted at 0.23 degrees instead of 295.59. -/
theorem not_lossless_highPacket :
    Valid (highPacket ⟨0, 1, .strongest⟩) 0 ∧ ¬Lossless (highPacket ⟨0, 1, .strongest⟩) 0 1 ∧
    azimuthSum (highPacket ⟨0, 1, .strongest⟩) 0 1 = 65559 ∧
    (⟨23 / 100, 1, 50, true, true⟩ : LidarPoint) ∈
      (({} : MSOPParser).parsePacket .little (highPacket ⟨0, 1, .strongest⟩) 1206 []).points := by
  have hsum : azimuthSum (highPacket ⟨0, 1, .strongest⟩) 0 1 = 65559 := azimuthSum_highPacket _ 0 1
  have hdegrees : calculateAzimuth (azimuth (highPacket ⟨0, 1, .strongest⟩) 0)
      (towards (highPacket ⟨0, 1, .strongest⟩) 0) 1 = 23 / 100 := by
    have hnarrow := calculateAzimuth_narrowed (highPacket ⟨0, 1, .strongest⟩) 0 1
    rw [hsum] at hnarrow
    exact hnarrow.trans (Wrap.toIcoMod_of_mem turn_pos (by norm_num) (by norm_num))
  have hmeters : ((1000 : UInt16).toNat : ℚ) / 1000 = 1 := by
    show ((1000 : ℕ) : ℚ) / 1000 = 1
    norm_num
  refine ⟨valid_highPacket _ 0, fun h => ?_, hsum, ?_⟩
  · have hlt := h.sum_lt
    rw [hsum] at hlt
    exact absurd hlt (by decide)
  · rw [parsePacket_of_size]
    refine List.mem_map.mpr ⟨⟨0, 1, .strongest⟩, mem_slots.mpr (emits_highPacket rfl), ?_⟩
    rw [point, distance_highPacket, rssi_highPacket, meters, Exact.float_eq, hmeters]
    exact congrArg (fun a => (⟨a, 1, 50, true, true⟩ : LidarPoint)) hdegrees

end LidarInterface.Reader2
