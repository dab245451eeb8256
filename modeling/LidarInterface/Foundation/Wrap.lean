import LidarInterface.Foundation.Rounding
import Mathlib.Algebra.Order.ToIntervalMod
import Mathlib.Data.Rat.Floor
import Mathlib.Tactic.Linarith
import Mathlib.Tactic.FieldSimp
import Mathlib.Tactic.Ring
import Mathlib.Tactic.NormNum

/-! Reducing a number to one turn of period `p`. The loops that add or subtract a whole period until
    the value lies in `[0, p)` end, and they compute `toIcoMod hp 0`, the representative of the class
    modulo `p`; so does C's truncating `fmod` followed by a correction of negative results. -/

namespace Foundation.Wrap

/-- `while (x < 0) x += p;` with sums rounded by `fl`. A loop whose sum does not gain half a period is not followed
    further: near one period every sum does, and exact sums always do. -/
def raise {α : Type*} [Field α] [LinearOrder α] [IsStrictOrderedRing α] [FloorRing α] {p : α} (fl : α → α) (hp : 0 < p)
    (x : α) : α :=
  if x < 0 ∧ x + p / 2 ≤ fl (x + p) then raise fl hp (fl (x + p)) else x
termination_by ⌈-(2 * x) / p⌉.toNat
decreasing_by
  rename_i hx
  have hgain : -(2 * fl (x + p)) / p ≤ -(2 * x) / p - 1 := by
    rw [div_sub_one hp.ne']
    exact div_le_div_of_nonneg_right (by linarith [hx.2]) hp.le
  have hceil := Int.ceil_le_ceil hgain
  have hpos : 0 < ⌈-(2 * x) / p⌉ := Int.ceil_pos.mpr (div_pos (by linarith [hx.1]) hp)
  rw [Int.ceil_sub_one] at hceil
  omega

/-- `while (x >= p) x -= p;` with differences rounded by `fl`. -/
def lower {α : Type*} [Field α] [LinearOrder α] [IsStrictOrderedRing α] [FloorRing α] {p : α} (fl : α → α) (hp : 0 < p)
    (x : α) : α :=
  if p ≤ x ∧ fl (x - p) ≤ x - p / 2 then lower fl hp (fl (x - p)) else x
termination_by ⌊2 * x / p⌋.toNat
decreasing_by
  rename_i hx
  have hgain : 2 * fl (x - p) / p ≤ 2 * x / p - 1 := by
    rw [div_sub_one hp.ne']
    exact div_le_div_of_nonneg_right (by linarith [hx.2]) hp.le
  have hfloor := Int.floor_le_floor hgain
  have hpos : 0 < ⌊2 * x / p⌋ := Int.floor_pos.mpr ((one_le_div hp).mpr (by linarith [hx.1]))
  rw [Int.floor_sub_one] at hfloor
  omega

section Loops
variable {α : Type*} [Field α] [LinearOrder α] [IsStrictOrderedRing α] [FloorRing α] {p : α}

def normalize (fl : α → α) (hp : 0 < p) (x : α) : α := lower fl hp (raise fl hp x)

/-! Loops under a rounding -/

section Rounded
variable {fl : α → α} (hp : 0 < p) {x : α}

/-- A difference that loses half a period leaves the loop as it is written. -/
theorem lower_eq (hgain : fl (x - p) ≤ x - p / 2) :
    lower fl hp x = if p ≤ x then lower fl hp (fl (x - p)) else x := by
  conv_lhs => rw [lower]
  simp only [hgain, and_true]

theorem raise_of_nonneg (hx : 0 ≤ x) : raise fl hp x = x := by
  rw [raise, if_neg fun h => absurd h.1 (not_lt.mpr hx)]

theorem lower_of_lt (hx : x < p) : lower fl hp x = x := by
  rw [lower, if_neg fun h => absurd h.1 (not_le.mpr hx)]

theorem normalize_of_mem (h0 : 0 ≤ x) (h1 : x < p) : normalize fl hp x = x := by
  rw [normalize, raise_of_nonneg hp h0, lower_of_lt hp h1]

variable (hfl : Rounding.Lawful fl)
include hfl

theorem gain_raise (hx : x < 0) (hbound : -(2 ^ 20 * p) ≤ x) : x + p / 2 ≤ fl (x + p) := by
  have hsize : |x + p| ≤ 2 ^ 20 * p := abs_le.mpr ⟨by linarith, by linarith⟩
  have hsmall : |x + p| / 2 ^ 24 ≤ p / 2 := by
    rw [div_le_iff₀ (by norm_num)]
    linarith
  have hround := (abs_le.mp (hfl.error (x + p))).1
  linarith

/-- The loop ends above 0, and no higher than two periods if it started below. -/
theorem raise_mem (hbound : -(2 ^ 20 * p) ≤ x) : 0 ≤ raise fl hp x ∧ raise fl hp x ≤ max x (2 * p) := by
  fun_induction raise fl hp x with
  | case1 x h ih =>
    have hlow : -(2 ^ 20 * p) ≤ fl (x + p) := by linarith [h.2]
    have hhigh : fl (x + p) ≤ 2 * p := by
      have hround := (hfl.mem hp.le).2
      have hsmall : p / 2 ^ 24 ≤ p := div_le_self hp.le (by norm_num)
      linarith [hfl.mono (by linarith [h.1] : x + p ≤ p)]
    obtain ⟨hnonneg, hle⟩ := ih hlow
    exact ⟨hnonneg, (hle.trans (max_le hhigh le_rfl)).trans (le_max_right _ _)⟩
  | case2 x h =>
    refine ⟨?_, le_max_left _ _⟩
    by_contra hneg
    exact h ⟨not_le.mp hneg, gain_raise hfl (not_le.mp hneg) hbound⟩

theorem gain_lower (hx : p ≤ x) (hbound : x ≤ 2 ^ 20 * p) : fl (x - p) ≤ x - p / 2 := by
  have hround := (hfl.mem (sub_nonneg.mpr hx)).2
  have hsmall : (x - p) / 2 ^ 24 ≤ p / 2 := by
    rw [div_le_iff₀ (by norm_num)]
    linarith
  linarith

theorem lower_nonneg (hx : 0 ≤ x) : 0 ≤ lower fl hp x := by
  fun_induction lower fl hp x with
  | case1 x h ih => exact ih (hfl.nonneg (sub_nonneg.mpr h.1))
  | case2 x _ => exact hx

theorem lower_lt (hbound : x ≤ 2 ^ 20 * p) : lower fl hp x < p := by
  fun_induction lower fl hp x with
  | case1 x h ih => exact ih (by linarith [h.2])
  | case2 x h =>
    by_contra hge
    exact h ⟨not_lt.mp hge, gain_lower hfl (not_lt.mp hge) hbound⟩

/-- From anywhere near the first period both loops end in it. -/
theorem normalize_mem (hbound : |x| ≤ 2 ^ 20 * p) : 0 ≤ normalize fl hp x ∧ normalize fl hp x < p := by
  obtain ⟨hlow, hhigh⟩ := abs_le.mp hbound
  obtain ⟨hnonneg, hle⟩ := raise_mem hp hfl hlow
  exact ⟨lower_nonneg hp hfl hnonneg, lower_lt hp hfl (hle.trans (max_le hhigh (by linarith)))⟩

/-- The loop ends with a rounded number if it starts with one. -/
theorem lower_self (hx : fl x = x) : fl (lower fl hp x) = lower fl hp x := by
  fun_induction lower fl hp x with
  | case1 x h ih => exact ih (hfl.idem _)
  | case2 x _ => exact hx

end Rounded

/-! Exact loops -/

theorem exists_raise_iterations (hp : 0 < p) (x : α) :
    ∃ m : ℕ, (∀ k < m, x + k * p < 0) ∧ 0 ≤ x + m * p ∧ raise id hp x = x + m * p := by
  have hgain : ∀ y : α, y + p / 2 ≤ id (y + p) := fun y => by
    rw [id]
    linarith
  fun_induction raise id hp x with
  | case1 x hx ih =>
    obtain ⟨m, hraising, hraised, heq⟩ := ih
    have hshift : ∀ k : ℕ, x + (k + 1 : ℕ) * p = id (x + p) + k * p := fun k => by
      rw [id]
      push_cast
      ring
    refine ⟨m + 1, fun k hk => ?_, by rwa [hshift], by rw [heq, hshift]⟩
    cases k with
    | zero => simpa using hx.1
    | succ k =>
      rw [hshift]
      exact hraising k (by omega)
  | case2 x hx =>
    have hnonneg : 0 ≤ x := not_lt.mp fun hneg => hx ⟨hneg, hgain x⟩
    exact ⟨0, by simp, by simpa using hnonneg, by simp⟩

theorem exists_lower_iterations (hp : 0 < p) (x : α) :
    ∃ n : ℕ, (∀ k < n, p ≤ x - k * p) ∧ x - n * p < p ∧ lower id hp x = x - n * p := by
  have hgain : ∀ y : α, id (y - p) ≤ y - p / 2 := fun y => by
    rw [id]
    linarith
  fun_induction lower id hp x with
  | case1 x hx ih =>
    obtain ⟨n, hlowering, hlowered, heq⟩ := ih
    have hshift : ∀ k : ℕ, x - (k + 1 : ℕ) * p = id (x - p) - k * p := fun k => by
      rw [id]
      push_cast
      ring
    refine ⟨n + 1, fun k hk => ?_, by rwa [hshift], by rw [heq, hshift]⟩
    cases k with
    | zero => simpa using hx.1
    | succ k =>
      rw [hshift]
      exact hlowering k (by omega)
  | case2 x hx =>
    have hlow : x < p := not_le.mp fun hle => hx ⟨hle, hgain x⟩
    exact ⟨0, by simp, by simpa using hlow, by simp⟩

theorem raise_id_nonneg (hp : 0 < p) (x : α) : 0 ≤ raise id hp x := by
  obtain ⟨m, -, hraised, heq⟩ := exists_raise_iterations hp x
  rwa [heq]

theorem raise_eq_add_zsmul (hp : 0 < p) (x : α) : ∃ n : ℤ, raise id hp x = x + n • p := by
  obtain ⟨m, -, -, heq⟩ := exists_raise_iterations hp x
  exact ⟨m, by rw [heq, natCast_zsmul, nsmul_eq_mul]⟩

theorem lower_id_lt (hp : 0 < p) (x : α) : lower id hp x < p := by
  obtain ⟨n, -, hlowered, heq⟩ := exists_lower_iterations hp x
  rwa [heq]

theorem lower_eq_sub_zsmul (hp : 0 < p) (x : α) : ∃ n : ℤ, lower id hp x = x - n • p := by
  obtain ⟨n, -, -, heq⟩ := exists_lower_iterations hp x
  exact ⟨n, by rw [heq, natCast_zsmul, nsmul_eq_mul]⟩

theorem eq_toIcoMod (hp : 0 < p) {x y : α} (h0 : 0 ≤ y) (h1 : y < p) (hn : ∃ n : ℤ, y = x + n • p) :
    y = toIcoMod hp 0 x := by
  obtain ⟨n, hn⟩ := hn
  refine ((toIcoMod_eq_iff hp).mpr ⟨⟨h0, by rwa [zero_add]⟩, -n, ?_⟩).symm
  rw [hn, neg_zsmul]
  ring

/-- The loops end in the representative of `x` in `[0, p)`. -/
theorem normalize_eq (hp : 0 < p) (x : α) : normalize id hp x = toIcoMod hp 0 x := by
  obtain ⟨m, hm⟩ := raise_eq_add_zsmul hp x
  obtain ⟨n, hn⟩ := lower_eq_sub_zsmul hp (raise id hp x)
  refine eq_toIcoMod hp (lower_nonneg hp Rounding.lawful_id (raise_id_nonneg hp x)) (lower_id_lt hp _) ⟨m - n, ?_⟩
  rw [normalize, hn, hm, sub_zsmul]
  ring

theorem toIcoMod_of_mem (hp : 0 < p) {x : α} (h0 : 0 ≤ x) (h1 : x < p) : toIcoMod hp 0 x = x :=
  (eq_toIcoMod hp h0 h1 ⟨0, by simp⟩).symm

/-- The first loop runs `m` times, and the second `n` times. -/
structure Iterations (p x : α) (m n : ℕ) : Prop where
  raising : ∀ k < m, x + k * p < 0
  raised : 0 ≤ x + m * p
  lowering : ∀ k < n, p ≤ x + m * p - k * p
  lowered : x + m * p - n * p < p

/-- Both loops end. -/
theorem exists_iterations (hp : 0 < p) (x : α) : ∃ m n, Iterations p x m n ∧ normalize id hp x = x + m * p - n * p := by
  obtain ⟨m, hraising, hraised, hraise⟩ := exists_raise_iterations hp x
  obtain ⟨n, hlowering, hlowered, hlower⟩ := exists_lower_iterations hp (x + m * p)
  exact ⟨m, n, ⟨hraising, hraised, hlowering, hlowered⟩, by rw [normalize, hraise, hlower]⟩

/-- Reducing before adding changes nothing after the sum is reduced. -/
theorem toIcoMod_add_toIcoMod (hp : 0 < p) (x y : α) :
    toIcoMod hp 0 (toIcoMod hp 0 x + y) = toIcoMod hp 0 (x + y) := by
  rw [toIcoMod_eq_toIcoMod]
  exact ⟨toIcoDiv hp 0 x, by rw [← self_sub_toIcoMod hp 0 x]; ring⟩

end Loops

section Fmod
variable {α : Type*} [Field α] [LinearOrder α] [IsStrictOrderedRing α] [FloorRing α] {p : α}

/-- C's `fmod`: the remainder of the division truncated toward zero. -/
def fmod (x p : α) : α := x - Rounding.trunc (x / p) * p

theorem fmod_of_nonneg (hp : 0 < p) {x : α} (hx : 0 ≤ x) : 0 ≤ fmod x p ∧ fmod x p < p := by
  have hq : ¬x / p < 0 := not_lt.mpr (div_nonneg hx hp.le)
  have hle : (⌊x / p⌋ : α) * p ≤ x := (le_div_iff₀ hp).mp (Int.floor_le _)
  have hlt : x < ((⌊x / p⌋ : α) + 1) * p := (div_lt_iff₀ hp).mp (Int.lt_floor_add_one _)
  rw [fmod, Rounding.trunc, if_neg hq]
  exact ⟨by linarith, by linarith⟩

theorem fmod_of_neg (hp : 0 < p) {x : α} (hx : x < 0) : -p < fmod x p ∧ fmod x p ≤ 0 := by
  have hq : x / p < 0 := div_neg_of_neg_of_pos hx hp
  have hle : x ≤ (⌈x / p⌉ : α) * p := (div_le_iff₀ hp).mp (Int.le_ceil _)
  have hlt : ((⌈x / p⌉ : α) - 1) * p < x := (lt_div_iff₀ hp).mp (by linarith [Int.ceil_lt_add_one (x / p)])
  rw [fmod, Rounding.trunc, if_pos hq]
  exact ⟨by linarith, by linarith⟩

omit [IsStrictOrderedRing α] in
theorem fmod_eq_add_zsmul (x p : α) : ∃ n : ℤ, fmod x p = x + n • p :=
  ⟨-Rounding.trunc (x / p), by rw [fmod, zsmul_eq_mul, Int.cast_neg]; ring⟩

/-- `fmod` with one period added to a negative result is the representative in `[0, p)`. -/
theorem fmod_corrected (hp : 0 < p) (x : α) :
    (if fmod x p < 0 then fmod x p + p else fmod x p) = toIcoMod hp 0 x := by
  obtain ⟨n, hn⟩ := fmod_eq_add_zsmul x p
  by_cases hneg : fmod x p < 0
  · have hx : x < 0 := by
      by_contra hx
      exact absurd (fmod_of_nonneg hp (not_lt.mp hx)).1 (not_le.mpr hneg)
    rw [if_pos hneg]
    refine eq_toIcoMod hp (by linarith [(fmod_of_neg hp hx).1]) (by linarith) ⟨n + 1, ?_⟩
    rw [hn, add_zsmul, one_zsmul]
    ring
  · rw [if_neg hneg]
    refine eq_toIcoMod hp (not_lt.mp hneg) ?_ ⟨n, hn⟩
    rcases lt_or_ge x 0 with hx | hx
    · exact (fmod_of_neg hp hx).2.trans_lt hp
    · exact (fmod_of_nonneg hp hx).2

end Fmod

section Integers
variable {α : Type*} [Field α] [LinearOrder α] [IsStrictOrderedRing α] [FloorRing α] {p c : α} {m : ℤ}

/-- On multiples of `1 / c`, reduction modulo `p = m / c` is the integer remainder modulo `m`. -/
theorem toIcoMod_intCast_div (hp : 0 < p) (hc : 0 < c) (hm : 0 < m) (hpm : p = m / c) (n : ℤ) :
    toIcoMod hp 0 ((n : α) / c) = ((n % m : ℤ) : α) / c := by
  have h0 : (0 : α) ≤ ((n % m : ℤ) : α) := by exact_mod_cast Int.emod_nonneg n hm.ne'
  have h1 : ((n % m : ℤ) : α) < m := by exact_mod_cast Int.emod_lt_of_pos n hm
  refine (eq_toIcoMod hp (div_nonneg h0 hc.le) ?_ ⟨-(n / m), ?_⟩).symm
  · rw [hpm]
    exact div_lt_div_of_pos_right h1 hc
  · have hn : (n : α) = (n % m : ℤ) + (n / m : ℤ) * m := by
      exact_mod_cast (Int.emod_add_ediv_mul n m).symm
    rw [hpm, zsmul_eq_mul, Int.cast_neg, hn]
    field_simp
    ring

theorem toIcoMod_div {q : α} (hp : 0 < p) (hq : 0 < q) (hc : 0 < c) (hpq : p = q / c) (x : α) :
    toIcoMod hp 0 (x / c) = toIcoMod hq 0 x / c := by
  obtain ⟨h0, h1⟩ := toIcoMod_mem_Ico' hq x
  refine (eq_toIcoMod hp (div_nonneg h0 hc.le) ?_ ⟨-toIcoDiv hq 0 x, ?_⟩).symm
  · rw [hpq]
    exact div_lt_div_of_pos_right h1 hc
  · rw [hpq, toIcoMod, neg_zsmul, zsmul_eq_mul, zsmul_eq_mul]
    ring

end Integers

section ShortArc
variable {α : Type*} [Field α] [LinearOrder α] [IsStrictOrderedRing α] {p d : α}

/-- A difference of two directions, moved by one period when it exceeds half of it in size. -/
def shortArc (p d : α) : α := if d < -(p / 2) then d + p else if p / 2 < d then d - p else d

theorem shortArc_of_abs_le (hd : |d| ≤ p / 2) : shortArc p d = d := by
  obtain ⟨hlow, hhigh⟩ := abs_le.mp hd
  unfold shortArc
  rw [if_neg (not_lt.mpr hlow), if_neg (not_lt.mpr hhigh)]

omit [IsStrictOrderedRing α] in
theorem shortArc_eq_add_zsmul (p d : α) : ∃ n : ℤ, shortArc p d = d + n • p := by
  unfold shortArc
  split_ifs
  · exact ⟨1, by rw [one_zsmul]⟩
  · exact ⟨-1, by rw [neg_one_zsmul, sub_eq_add_neg]⟩
  · exact ⟨0, by rw [zero_zsmul, add_zero]⟩

theorem abs_shortArc_le (hd : |d| ≤ p) : |shortArc p d| ≤ p / 2 := by
  obtain ⟨hlow, hhigh⟩ := abs_le.mp hd
  unfold shortArc
  split_ifs with h1 h2
  · exact abs_le.mpr ⟨by linarith, by linarith⟩
  · exact abs_le.mpr ⟨by linarith, by linarith⟩
  · exact abs_le.mpr ⟨not_lt.mp h1, not_lt.mp h2⟩

/-- Only a difference of exactly half a period is moved to half a period. -/
theorem abs_shortArc_lt (hd : |d| < p) (hne : |d| ≠ p / 2) : |shortArc p d| < p / 2 := by
  obtain ⟨hlow, hhigh⟩ := abs_lt.mp hd
  by_cases hle : |d| ≤ p / 2
  · rw [shortArc_of_abs_le hle]
    exact lt_of_le_of_ne hle hne
  · unfold shortArc
    split_ifs with h1 h2
    · exact abs_lt.mpr ⟨by linarith, by linarith⟩
    · exact abs_lt.mpr ⟨by linarith, by linarith⟩
    · exact absurd (abs_le.mpr ⟨not_lt.mp h1, not_lt.mp h2⟩) hle

/-- Two numbers less than a period apart that differ by whole periods are equal. -/
theorem eq_of_abs_sub_lt (hp : 0 < p) {x y : α} (h : |x - y| < p) (hn : ∃ n : ℤ, x = y + n • p) : x = y := by
  obtain ⟨n, rfl⟩ := hn
  rw [add_sub_cancel_left, zsmul_eq_mul, abs_mul, abs_of_pos hp] at h
  have hlt : |(n : α)| < 1 := by
    by_contra hge
    exact absurd h (not_lt.mpr (le_mul_of_one_le_left hp.le (not_lt.mp hge)))
  have hzero : n = 0 := Int.abs_lt_one_iff.mp (by exact_mod_cast hlt)
  rw [hzero, zero_zsmul, add_zero]

/-- The short arc is the only difference below half a period in its class. -/
theorem shortArc_eq_of_abs_lt (hp : 0 < p) {x : α} (hd : |d| ≤ p) (hx : |x| < p / 2) (hn : ∃ n : ℤ, x = d + n • p) :
    shortArc p d = x := by
  obtain ⟨n, rfl⟩ := hn
  obtain ⟨m, hm⟩ := shortArc_eq_add_zsmul p d
  refine eq_of_abs_sub_lt hp ?_ ⟨m - n, by rw [hm, sub_zsmul]; ring⟩
  calc |shortArc p d - (d + n • p)| ≤ |shortArc p d| + |d + n • p| := abs_sub _ _
    _ < p / 2 + p / 2 := add_lt_add_of_le_of_lt (abs_shortArc_le hd) hx
    _ = p := add_halves p

theorem shortArc_congr (hp : 0 < p) {d' : α} (hd : |d| < p) (hne : |d| ≠ p / 2) (hd' : |d'| ≤ p)
    (hn : ∃ n : ℤ, d' = d + n • p) : shortArc p d' = shortArc p d := by
  obtain ⟨n, rfl⟩ := hn
  obtain ⟨m, hm⟩ := shortArc_eq_add_zsmul p d
  refine shortArc_eq_of_abs_lt hp hd' (abs_shortArc_lt hd hne) ⟨m - n, ?_⟩
  rw [hm, sub_zsmul]
  ring

end ShortArc

end Foundation.Wrap
