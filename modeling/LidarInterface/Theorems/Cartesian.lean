import LidarInterface.Reader2.Output
import LidarInterface.Theorems.Visualizer

/-! The CSV file of the visualizer as it is written, with three decimals. The distance column holds the millimetres of
    the packets, the azimuth column increases, and every position lies at its distance from the origin up to a
    millimetre, whatever the rounding of a machine and however its `cos` and `sin` err. -/

namespace LidarInterface.Reader2
open Foundation Format Arithmetic

section Rounded
variable [Arithmetic]

/-! ### Distances -/

theorem abs_meters_sub_le (d : UInt16) : |meters d * 1000 - d.toNat| ≤ 1 / 100 := by
  have hlt : (d.toNat : ℚ) < 65536 := by exact_mod_cast d.toNat_lt
  have hnonneg : (0 : ℚ) ≤ (d.toNat : ℚ) / 1000 := by positivity
  obtain ⟨hlow, hhigh⟩ := lawful_float.mem hnonneg
  exact abs_le.mpr ⟨by linarith, by linarith⟩

theorem thousandths_meters (d : UInt16) : thousandths (meters d) = d.toNat := by
  refine Rounding.toEven_eq_of_abs_lt ?_
  rw [Int.cast_natCast]
  exact (abs_meters_sub_le d).trans_lt (by norm_num)

/-- A coordinate does not exceed the distance, also when both are rounded and written. -/
theorem abs_coordinate_le {c : ℚ} (hc : |c| ≤ 1) (d : UInt16) :
    |thousandths (float (double (meters d * c)))| ≤ (d.toNat : ℤ) := by
  have hnonneg : 0 ≤ meters d := lawful_float.nonneg (by positivity)
  have hproduct : |meters d * c| ≤ meters d := by
    rw [abs_mul, abs_of_nonneg hnonneg]
    exact mul_le_of_le_one_right hnonneg hc
  have hdouble := lawful_double.abs_le_of_abs_le (widen _) hproduct
  obtain ⟨hlow, hhigh⟩ := abs_le.mp (lawful_float.abs_le_of_abs_le (lawful_float.idem _) hdouble)
  have hneg : Rounding.toEven (-(meters d * 1000)) = -(d.toNat : ℤ) := by
    refine Rounding.toEven_eq_of_abs_lt ?_
    rw [Int.cast_neg, Int.cast_natCast, neg_sub_neg, abs_sub_comm]
    exact (abs_meters_sub_le d).trans_lt (by norm_num)
  rw [abs_le, ← hneg, ← thousandths_meters d]
  exact ⟨Rounding.toEven_mono (by linarith), Rounding.toEven_mono (by linarith)⟩

/-- What is written differs from the exact coordinate by little more than half of a millimetre. -/
theorem abs_coordinate_sub_le {c : ℚ} (hc : |c| ≤ 1) {d : UInt16} (hd : d.toNat < 14000) :
    |(thousandths (float (double (meters d * c))) : ℚ) - d.toNat * c| ≤ 52 / 100 := by
  have hlt : (d.toNat : ℚ) < 14000 := by exact_mod_cast hd
  have hmeters := abs_meters_sub_le d
  have hbound : |meters d * c| ≤ 15 := by
    rw [abs_mul]
    have habs : |meters d| ≤ 15 := by
      obtain ⟨hlow, hhigh⟩ := abs_le.mp hmeters
      have hnonneg : (0 : ℚ) ≤ d.toNat := Nat.cast_nonneg _
      exact abs_le.mpr ⟨by linarith, by linarith⟩
    exact (mul_le_of_le_one_right (abs_nonneg _) hc).trans habs
  have hdouble : |double (meters d * c) - meters d * c| ≤ 1 / 10 ^ 6 :=
    (lawful_double.error _).trans (by rw [div_le_iff₀ (by norm_num)]; linarith)
  have hbound' : |double (meters d * c)| ≤ 16 := by
    have htriangle := abs_sub_abs_le_abs_sub (double (meters d * c)) (meters d * c)
    linarith
  have hfloat : |float (double (meters d * c)) - double (meters d * c)| ≤ 1 / 10 ^ 6 :=
    (lawful_float.error _).trans (by rw [div_le_iff₀ (by norm_num)]; linarith)
  have hwritten := Rounding.abs_toEven_sub_le (float (double (meters d * c)) * 1000)
  have hscaled : |(meters d * 1000 - d.toNat) * c| ≤ 1 / 100 := by
    rw [abs_mul]
    exact (mul_le_of_le_one_right (abs_nonneg _) hc).trans hmeters
  rw [abs_le] at *
  exact ⟨by unfold thousandths; linarith, by unfold thousandths; linarith⟩

omit [Arithmetic] in
/-- Coordinates that are so close to those of a circle lie on it up to a millimetre. -/
theorem ring_of_near {d x y c s : ℚ} (hd : 100 ≤ d) (hd' : d ≤ 14000) (hunit : |c ^ 2 + s ^ 2 - 1| ≤ 1 / 10 ^ 6)
    (hx : |x - d * c| ≤ 52 / 100) (hy : |y - d * s| ≤ 52 / 100) :
    (d - 1) ^ 2 ≤ x ^ 2 + y ^ 2 ∧ x ^ 2 + y ^ 2 ≤ (d + 1) ^ 2 := by
  obtain ⟨e, rfl⟩ : ∃ e, x = d * c + e := ⟨x - d * c, by ring⟩
  obtain ⟨f, rfl⟩ : ∃ f, y = d * s + f := ⟨y - d * s, by ring⟩
  rw [add_sub_cancel_left] at hx hy
  have he : e ^ 2 ≤ (52 / 100) ^ 2 := sq_le_sq' (abs_le.mp hx).1 (abs_le.mp hx).2
  have hf : f ^ 2 ≤ (52 / 100) ^ 2 := sq_le_sq' (abs_le.mp hy).1 (abs_le.mp hy).2
  obtain ⟨hunit, hunit'⟩ := abs_le.mp hunit
  -- Cauchy's inequality bounds the share of the errors along the ray.
  have hcauchy : (c * e + s * f) ^ 2 ≤ (74 / 100) ^ 2 := by
    have hidentity : (c * e + s * f) ^ 2 + (c * f - s * e) ^ 2 = (c ^ 2 + s ^ 2) * (e ^ 2 + f ^ 2) := by ring
    have hproduct : (c ^ 2 + s ^ 2) * (e ^ 2 + f ^ 2) ≤ (1 + 1 / 10 ^ 6) * (2 * (52 / 100) ^ 2) :=
      mul_le_mul (by linarith) (by linarith) (by positivity) (by norm_num)
    have hsquare := sq_nonneg (c * f - s * e)
    linarith
  obtain ⟨hray, hray'⟩ := abs_le_of_sq_le_sq' hcauchy (by norm_num)
  have hsum : (d * c + e) ^ 2 + (d * s + f) ^ 2 =
      d ^ 2 + d * (d * (c ^ 2 + s ^ 2 - 1)) + 2 * (d * (c * e + s * f)) + (e ^ 2 + f ^ 2) := by ring
  have hdev : |d * (c ^ 2 + s ^ 2 - 1)| ≤ 14 / 1000 := by
    rw [abs_mul, abs_of_nonneg (by linarith)]
    calc d * |c ^ 2 + s ^ 2 - 1| ≤ 14000 * (1 / 10 ^ 6) :=
          mul_le_mul hd' (abs_le.mpr ⟨hunit, hunit'⟩) (abs_nonneg _) (by norm_num)
      _ = 14 / 1000 := by norm_num
  obtain ⟨hdev, hdev'⟩ := abs_le.mp hdev
  have hd0 : 0 ≤ d := by linarith
  have h1 := mul_le_mul_of_nonneg_left hdev hd0
  have h2 := mul_le_mul_of_nonneg_left hdev' hd0
  have h3 := mul_le_mul_of_nonneg_left hray hd0
  have h4 := mul_le_mul_of_nonneg_left hray' hd0
  have hsquares : 0 ≤ e ^ 2 + f ^ 2 := by positivity
  rw [hsum]
  exact ⟨by linarith, by linarith⟩

/-! ### Azimuths -/

/-- The azimuth stands for `c` hundredths of a degree, and is exact on the bounds of the bins. -/
structure Stands (azimuth : ℚ) (c : ℕ) : Prop where
  lt : c < 36000
  near : |azimuth - (c : ℚ) / 100| ≤ 1 / 10000
  exact : ∀ k : ℕ, c = 50 * k → azimuth = (k : ℚ) / 2

/-- The bounds of the bins are not rounded. -/
theorem float_half {k : ℕ} (hk : k < 2 ^ 24) : float ((k : ℚ) / 2) = (k : ℚ) / 2 :=
  lawful_float.half_self (lawful_float.natCast k hk)

theorem exists_stands (a n : UInt16) (i : Nat) : ∃ c, Stands (calculateAzimuth a n i) c := by
  obtain ⟨u, he, h0, -⟩ := calculateAzimuth_eq_lower a n i
  have hlt := u.toNat_lt
  have hnonneg : (0 : ℚ) ≤ (u.toNat : ℚ) / 100 := by positivity
  have hcast : (u.toNat : ℚ) < 65536 := by exact_mod_cast hlt
  obtain ⟨hlow, hhigh⟩ := lawful_float.mem hnonneg
  have hturn : (360 : ℚ) = float ((36000 : ℕ) / 100) := by
    have hdiv : ((36000 : ℕ) : ℚ) / 100 = (360 : ℕ) := by norm_num
    rw [hdiv, lawful_float.natCast 360 (by norm_num)]
    norm_num
  have hhalf : ∀ k : ℕ, u.toNat = 50 * k → float ((u.toNat : ℚ) / 100) = (k : ℚ) / 2 := fun k hk => by
    have hdiv : (u.toNat : ℚ) / 100 = (k : ℚ) / 2 := by
      rw [hk]
      push_cast
      ring
    rw [hdiv, float_half (by omega)]
  rw [he]
  rcases Nat.lt_or_ge u.toNat 36000 with hin | hout
  · have hless : float ((u.toNat : ℚ) / 100) < 360 := by
      rw [hturn]
      exact (lawful_float.div_lt_div_iff (by norm_num) (by norm_num)).mpr hin
    rw [Wrap.lower_of_lt turn_pos hless]
    exact ⟨u.toNat, hin, abs_le.mpr ⟨by linarith, by linarith⟩, hhalf⟩
  · have hmore : 360 ≤ float ((u.toNat : ℚ) / 100) := by
      rw [hturn]
      refine lawful_float.mono (div_le_div_of_nonneg_right ?_ (by norm_num))
      exact_mod_cast hout
    have hbound : float ((u.toNat : ℚ) / 100) ≤ 2 ^ 20 * 360 := by linarith
    have hrest : 0 ≤ float ((u.toNat : ℚ) / 100) - 360 := by linarith
    obtain ⟨hlow', hhigh'⟩ := lawful_float.mem hrest
    have hsmall : float (float ((u.toNat : ℚ) / 100) - 360) < 360 := by linarith
    have hsub : ((u.toNat - 36000 : ℕ) : ℚ) = u.toNat - 36000 := by push_cast [hout]; rfl
    rw [Wrap.lower_eq turn_pos (Wrap.gain_lower lawful_float hmore hbound), if_pos hmore,
      Wrap.lower_of_lt turn_pos hsmall]
    refine ⟨u.toNat - 36000, by omega, ?_, fun k hk => ?_⟩
    · rw [hsub]
      exact abs_le.mpr ⟨by linarith, by linarith⟩
    · have hexact : float ((u.toNat : ℚ) / 100) - 360 = (k : ℚ) / 2 := by
        rw [hhalf (k + 720) (by omega)]
        push_cast
        ring
      rw [hexact, float_half (by omega)]

omit [Arithmetic] in
theorem Stands.thousandths_eq {azimuth : ℚ} {c : ℕ} (h : Stands azimuth c) : thousandths azimuth = 10 * c := by
  refine Rounding.toEven_eq_of_abs_lt ?_
  obtain ⟨hlow, hhigh⟩ := abs_le.mp h.near
  push_cast
  exact abs_lt.mpr ⟨by linarith, by linarith⟩

omit [Arithmetic] in
/-- In a later bin stand more hundredths. -/
theorem Stands.lt_of_bin {azimuth azimuth' : ℚ} {c c' : ℕ} (h : Stands azimuth c) (h' : Stands azimuth' c')
    (h0 : 0 ≤ azimuth) (hbin : ⌊2 * azimuth⌋ < ⌊2 * azimuth'⌋) : c < c' := by
  obtain ⟨k, hk⟩ : ∃ k : ℕ, ⌊2 * azimuth'⌋ = k :=
    ⟨_, (Int.toNat_of_nonneg ((Int.floor_nonneg.mpr (by linarith)).trans hbin.le)).symm⟩
  rw [hk] at hbin
  have hbelow : azimuth < (k : ℚ) / 2 := by
    have hlt := Int.floor_lt.mp hbin
    rw [Int.cast_natCast] at hlt
    linarith
  have habove : (k : ℚ) / 2 ≤ azimuth' := by
    have hle := Int.le_floor.mp hk.ge
    rw [Int.cast_natCast] at hle
    linarith
  have hnear := (abs_le.mp h.near).1
  have hnear' := (abs_le.mp h'.near).2
  have hle : 50 * k ≤ c' := by
    have hlt : (50 * k : ℚ) < (c' + 1 : ℕ) := by
      push_cast
      linarith
    exact Nat.lt_succ_iff.mp (by exact_mod_cast hlt)
  have hle' : c ≤ 50 * k := by
    have hlt : (c : ℚ) < (50 * k + 1 : ℕ) := by
      push_cast
      linarith
    exact Nat.lt_succ_iff.mp (by exact_mod_cast hlt)
  have hne : c ≠ 50 * k := fun he => hbelow.ne (h.exact k he)
  omega

/-! ### Lines -/

/-- The line of the return in a slot, with the azimuth in hundredths of a degree. -/
structure Writes (data : Memory) (s : Slot) (c : ℕ) (l : CsvLine) : Prop where
  distance : l.distance = (distance data s).toNat
  azimuth : l.azimuth = 10 * c
  rssi : l.rssi = (rssi data s).toNat
  returnType : l.returnType = if s.kind = .strongest then "strongest" else "last"

theorem exists_writes (T : Polar.Trig ℚ) (data : Memory) (s : Slot) :
    ∃ c, Stands (point data s).azimuth c ∧ Writes data s c (csvLine T (csvRow (point data s))) := by
  obtain ⟨c, hc⟩ := exists_stands (azimuth data s.block) (towards data s.block) s.index
  refine ⟨c, hc, thousandths_meters _, hc.thousandths_eq, rfl, ?_⟩
  simp only [csvLine, csvRow, point, decide_eq_true_eq]

section Run
variable {host : ByteOrder} {rs : List Recv} {st : Collector} (h : Collects host rs st)
include h

/-- A point that is kept was emitted for a slot of a payload, with a distance inside the range of the collection. -/
theorem slot_of_unique {p : LidarPoint} (hp : p ∈ (select st.angleMap).uniquePoints) :
    ∃ q ∈ payloads rs, ∃ s, Emits (.ofList q) s ∧ p = point (.ofList q) s ∧
      100 < (distance (.ofList q) s).toNat ∧ (distance (.ofList q) s).toNat < 14000 := by
  have hsample := (sample_of_unique h hp).1
  rw [h.angleMap_eq] at hp
  obtain ⟨q, hq, hemitted⟩ := List.mem_flatMap.mp (mem_samples (mem_uniquePoints _ hp).1).1
  rw [emitted, parsePacket_of_size, decode] at hemitted
  obtain ⟨s, hs, rfl⟩ := List.mem_map.mp hemitted
  simp only [isSample, Bool.and_eq_true, decide_eq_true_eq] at hsample
  have hfourteen : (14 : ℚ) = float ((14000 : ℕ) / 1000) := natCast_eq (n := 14) (by norm_num)
  have hlow := hsample.1.1.2
  have hhigh := hsample.1.2
  rw [tenth_eq] at hlow
  rw [hfourteen] at hhigh
  exact ⟨q, hq, s, mem_slots.mp hs, rfl, (meters_lt_iff (by norm_num)).2.mp hlow,
    (meters_lt_iff (by norm_num)).1.mp hhigh⟩

theorem csvLines_uniquePoints (T : Polar.Trig ℚ) : csvLines T (select st.angleMap).uniquePoints =
    (select st.angleMap).uniquePoints.map fun p => csvLine T (csvRow p) := by
  rw [csvLines, csvRows, filter_csv_uniquePoints h, List.map_map]
  rfl

/-- The azimuths of the lines increase as the bins do. -/
theorem azimuths_csv (T : Polar.Trig ℚ) :
    ((csvLines T (select st.angleMap).uniquePoints).map (·.azimuth)).Pairwise (· < ·) := by
  have hbins : ((select st.angleMap).uniquePoints.map angleBin).Pairwise (· < ·) := by
    rw [h.angleMap_eq]
    exact bins_increasing _
  rw [csvLines_uniquePoints h, List.map_map, List.pairwise_map]
  refine (List.pairwise_map.mp hbins).imp_of_mem fun {p p'} hp hp' hlt => ?_
  have hturn := (sample_of_unique h hp).2
  rw [angleBin_eq hturn, angleBin_eq (sample_of_unique h hp').2] at hlt
  obtain ⟨q, -, s, -, rfl, -⟩ := slot_of_unique h hp
  obtain ⟨q', -, s', -, rfl, -⟩ := slot_of_unique h hp'
  obtain ⟨c, hc, hline⟩ := exists_writes T (.ofList q) s
  obtain ⟨c', hc', hline'⟩ := exists_writes T (.ofList q') s'
  have hless := hc.lt_of_bin hc' hturn.nonneg hlt
  rw [Function.comp_apply, Function.comp_apply, hline.azimuth, hline'.azimuth]
  omega

end Run

/-- Whatever `cos` and `sin` return between -1 and 1, a run writes one line for each point that it keeps, with the
    distance, signal strength and kind of a return that it received. The azimuths are whole hundredths of a degree
    and increase, and no coordinate exceeds the distance. If the squares of `cos` and `sin` add up to 1 within a
    millionth, every position is at its distance from the origin, up to a millimetre. -/
theorem csv_positions {host : ByteOrder} {rs : List Recv} {st : Collector} (h : Collects host rs st) {rep : Report}
    (hrep : report st.angleMap = some rep) (T : Polar.Trig ℚ) :
    let lines := csvLines T rep.uniquePoints
    lines.length = rep.uniquePoints.length ∧
    (∀ l ∈ lines, (∃ q ∈ payloads rs, ∃ s c, Emits (.ofList q) s ∧ c < 36000 ∧ Writes (.ofList q) s c l) ∧
      100 < l.distance ∧ l.distance < 14000 ∧ |l.x| ≤ l.distance ∧ |l.y| ≤ l.distance) ∧
    (lines.map (·.azimuth)).Pairwise (· < ·) ∧
    ((∀ a, |T.cos a ^ 2 + T.sin a ^ 2 - 1| ≤ 1 / 10 ^ 6) → ∀ l ∈ lines,
      (l.distance - 1) ^ 2 ≤ l.x ^ 2 + l.y ^ 2 ∧ l.x ^ 2 + l.y ^ 2 ≤ (l.distance + 1) ^ 2) := by
  intro lines
  have hlines : lines = (select st.angleMap).uniquePoints.map fun p => csvLine T (csvRow p) := by
    rw [← csvLines_uniquePoints h, ← (uniquePoints_report h hrep).1]
  refine ⟨?_, ?_, ?_, fun hunit => ?_⟩
  · rw [hlines, List.length_map, (uniquePoints_report h hrep).1]
  · rw [hlines]
    refine List.forall_mem_map.mpr fun p hp => ?_
    obtain ⟨q, hq, s, hs, rfl, hlow, hhigh⟩ := slot_of_unique h hp
    obtain ⟨c, hc, hline⟩ := exists_writes T (.ofList q) s
    refine ⟨⟨q, hq, s, c, hs, hc.lt, hline⟩, ?_⟩
    rw [hline.distance]
    exact ⟨by omega, by omega, abs_coordinate_le (T.abs_cos_le_one _) _, abs_coordinate_le (T.abs_sin_le_one _) _⟩
  · rw [hlines, ← csvLines_uniquePoints h]
    exact azimuths_csv h T
  · rw [hlines]
    refine List.forall_mem_map.mpr fun p hp => ?_
    obtain ⟨q, -, s, -, rfl, hlow, hhigh⟩ := slot_of_unique h hp
    obtain ⟨c, -, hline⟩ := exists_writes T (.ofList q) s
    have hlow' : (100 : ℚ) ≤ (distance (.ofList q) s).toNat := by exact_mod_cast hlow.le
    have hhigh' : ((distance (.ofList q) s).toNat : ℚ) ≤ 14000 := by exact_mod_cast hhigh.le
    obtain ⟨hinner, houter⟩ := ring_of_near hlow' hhigh' (hunit _)
      (abs_coordinate_sub_le (T.abs_cos_le_one _) hhigh) (abs_coordinate_sub_le (T.abs_sin_le_one _) hhigh)
    rw [hline.distance]
    exact ⟨by exact_mod_cast hinner, by exact_mod_cast houter⟩

end Rounded

/-- `cos` and `sin` of 0, 8 and 16 degrees, to ten digits. -/
def threeAngles : Polar.Trig ℚ where
  cos a := if a < 1 / 10 then 1 else if a < 2 / 10 then 9902680687 / 10 ^ 10 else 9612616959 / 10 ^ 10
  sin a := if a < 1 / 10 then 0 else if a < 2 / 10 then 1391731010 / 10 ^ 10 else 2756373558 / 10 ^ 10
  pi := 3141592653589793 / 10 ^ 15
  abs_cos_le_one a := by split_ifs <;> norm_num [abs_le]
  abs_sin_le_one a := by split_ifs <;> norm_num [abs_le]

open Ieee in
/-- Three lines, 1 m to 3 m from the origin. -/
theorem csv_positions_scene :
    let st := collect .little (fun _ => 0) (returnRun scene)
    ∃ rep, report st.angleMap = some rep ∧
      csvLines threeAngles rep.uniquePoints =
        [⟨1000, 0, 1000, 0, 50, "strongest"⟩, ⟨1981, 278, 2000, 8000, 60, "strongest"⟩,
          ⟨2884, 827, 3000, 16000, 40, "strongest"⟩] ∧
      ∀ l ∈ csvLines threeAngles rep.uniquePoints,
        (l.distance - 1) ^ 2 ≤ l.x ^ 2 + l.y ^ 2 ∧ l.x ^ 2 + l.y ^ 2 ≤ (l.distance + 1) ^ 2 := by
  intro st
  have hrun : Collects .little (returnRun scene) st := collects_returnRun _ (by decide) _
  have hmap : st.angleMap = Groups.group angleBin (scene.map Return.sample) :=
    angleMap_returnRun _ (by decide) (by decide)
  have hne : st.angleMap.isEmpty = false := by
    rw [hmap]
    decide +kernel
  have hunit : ∀ a, |threeAngles.cos a ^ 2 + threeAngles.sin a ^ 2 - 1| ≤ 1 / 10 ^ 6 := by
    intro a
    simp only [threeAngles]
    split_ifs <;> norm_num [abs_le]
  have hreport := report_of_nonempty hrun hne
  refine ⟨_, hreport, ?_, (csv_positions hrun hreport threeAngles).2.2.2 hunit⟩
  rw [hmap]
  decide +kernel

end LidarInterface.Reader2
