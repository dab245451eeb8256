import Mathlib.Data.Int.Log
import Mathlib.Data.Rat.Floor
import Mathlib.Tactic.FieldSimp
import Mathlib.Tactic.Linarith
import Mathlib.Tactic.NormNum
import Mathlib.Tactic.Positivity
import Mathlib.Tactic.Ring

/-! Rounding to binary floating point. An operation of a machine rounds its exact result to the nearest number with
    a fixed count of binary digits, ties to even; the range of exponents is not bounded. A program is modelled once,
    with a rounding applied after each operation, and its results hold for every rounding that obeys the laws. -/

namespace Foundation.Rounding

variable {α : Type*} [Field α] [LinearOrder α] [IsStrictOrderedRing α]

section Round
variable [FloorRing α]

/-! ### Toward zero -/

section Trunc

/-- `static_cast<int>`, which truncates toward zero. -/
def trunc (x : α) : ℤ := if x < 0 then ⌈x⌉ else ⌊x⌋

omit [IsStrictOrderedRing α] in
theorem trunc_nonneg {x : α} (h : 0 ≤ x) : 0 ≤ trunc x := by
  rw [trunc, if_neg (not_lt.mpr h)]
  exact Int.floor_nonneg.mpr h

variable {x y : α}

theorem trunc_nonpos (h : x ≤ 0) : trunc x ≤ 0 := by
  rw [trunc]
  split
  · exact Int.ceil_nonpos.mpr h
  · next h0 => exact (Int.floor_mono h).trans Int.floor_zero.le

theorem trunc_mono (h : x ≤ y) : trunc x ≤ trunc y := by
  rcases lt_or_ge x 0 with hx | hx
  · rcases lt_or_ge y 0 with hy | hy
    · rw [trunc, if_pos hx, trunc, if_pos hy]
      exact Int.ceil_mono h
    · exact (trunc_nonpos hx.le).trans (trunc_nonneg hy)
  · rw [trunc, if_neg (not_lt.mpr hx), trunc, if_neg (not_lt.mpr (hx.trans h))]
    exact Int.floor_mono h

theorem trunc_neg (x : α) : trunc (-x) = -trunc x := by
  rcases lt_trichotomy x 0 with hx | rfl | hx
  · rw [trunc, if_neg (by linarith), trunc, if_pos hx, Int.floor_neg]
  · simp [trunc]
  · rw [trunc, if_pos (by linarith), trunc, if_neg (by linarith), Int.ceil_neg]

theorem abs_trunc_le (x : α) : ((|trunc x| : ℤ) : α) ≤ |x| := by
  have hpos : ∀ z : α, 0 ≤ z → ((|trunc z| : ℤ) : α) ≤ z := fun z hz => by
    rw [abs_of_nonneg (trunc_nonneg hz), trunc, if_neg (not_lt.mpr hz)]
    exact Int.floor_le z
  rcases le_total 0 x with hx | hx
  · rw [abs_of_nonneg hx]
    exact hpos x hx
  · have hneg := hpos (-x) (by linarith)
    rwa [trunc_neg, abs_neg, ← abs_of_nonpos hx] at hneg

/-- Truncation keeps the order of numbers on the same side of zero, and never crosses it. -/
theorem abs_trunc_mono (hsign : 0 ≤ x ∧ 0 ≤ y ∨ x ≤ 0 ∧ y ≤ 0) (h : |x| ≤ |y|) : |trunc x| ≤ |trunc y| := by
  rcases hsign with ⟨hx, hy⟩ | ⟨hx, hy⟩
  · rw [abs_of_nonneg hx, abs_of_nonneg hy] at h
    rw [abs_of_nonneg (trunc_nonneg hx), abs_of_nonneg (trunc_nonneg hy)]
    exact trunc_mono h
  · rw [abs_of_nonpos hx, abs_of_nonpos hy] at h
    rw [abs_of_nonpos (trunc_nonpos hx), abs_of_nonpos (trunc_nonpos hy)]
    exact neg_le_neg (trunc_mono (neg_le_neg_iff.mp h))

end Trunc

/-! ### To the nearest integer -/

/-- The nearest integer, and the even one of two that are equally near. -/
def toEven (x : α) : ℤ :=
  if x - ⌊x⌋ < 1 / 2 then ⌊x⌋
  else if 1 / 2 < x - ⌊x⌋ then ⌊x⌋ + 1
  else if ⌊x⌋ % 2 = 0 then ⌊x⌋ else ⌊x⌋ + 1

omit [IsStrictOrderedRing α] in
theorem toEven_mem (x : α) : ⌊x⌋ ≤ toEven x ∧ toEven x ≤ ⌊x⌋ + 1 := by
  unfold toEven
  split_ifs <;> omega

theorem toEven_intCast (n : ℤ) : toEven (n : α) = n := by
  unfold toEven
  rw [Int.floor_intCast, sub_self, if_pos (by norm_num)]

theorem abs_toEven_sub_le (x : α) : |(toEven x : α) - x| ≤ 1 / 2 := by
  have h0 : (⌊x⌋ : α) ≤ x := Int.floor_le x
  have h1 : x < ⌊x⌋ + 1 := Int.lt_floor_add_one x
  unfold toEven
  split_ifs with hlow hhigh heven
  · exact abs_le.mpr ⟨by linarith, by linarith⟩
  · push_cast
    exact abs_le.mpr ⟨by linarith, by linarith⟩
  · exact abs_le.mpr ⟨by linarith, by linarith⟩
  · push_cast
    exact abs_le.mpr ⟨by linarith, by linarith⟩

theorem toEven_eq_of_abs_lt {x : α} {n : ℤ} (h : |x - n| < 1 / 2) : toEven x = n := by
  have hround := abs_toEven_sub_le x
  have hclose : |((toEven x - n : ℤ) : α)| < 1 := by
    have hsplit : ((toEven x - n : ℤ) : α) = (toEven x - x) + (x - n) := by
      push_cast
      ring
    rw [hsplit]
    calc |(toEven x : α) - x + (x - n)| ≤ |(toEven x : α) - x| + |x - n| := abs_add_le _ _
      _ < 1 / 2 + 1 / 2 := add_lt_add_of_le_of_lt hround h
      _ = 1 := add_halves 1
  have hzero : toEven x - n = 0 := Int.abs_lt_one_iff.mp (by exact_mod_cast hclose)
  omega

theorem toEven_mono {x y : α} (h : x ≤ y) : toEven x ≤ toEven y := by
  rcases (Int.floor_le_floor h).eq_or_lt with he | hlt
  · -- On one floor the rounding only depends on the fraction, and moves up with it.
    have hfraction : x - ⌊x⌋ ≤ y - ⌊y⌋ := by
      rw [he]
      linarith
    unfold toEven
    rw [he] at hfraction ⊢
    split_ifs <;> first | omega | linarith
  · have hx := (toEven_mem x).2
    have hy := (toEven_mem y).1
    omega

/-! ### To `p` binary digits -/

/-- The distance between the numbers with `p` digits around `x`. -/
def ulp (p : ℕ) (x : α) : α := 2 ^ (Int.log 2 x + 1 - p)

def nearestPos (p : ℕ) (x : α) : α := toEven (x / ulp p x) * ulp p x

/-- The nearest number with `p` binary digits. -/
def nearest (p : ℕ) (x : α) : α := if x < 0 then -nearestPos p (-x) else nearestPos p x

section Positive
variable {p : ℕ} {x y : α}

theorem ulp_pos (p : ℕ) (x : α) : 0 < ulp p x := zpow_pos two_pos _

theorem zpow_log_le (hx : 0 < x) : (2 : α) ^ Int.log 2 x ≤ x := by
  exact_mod_cast Int.zpow_log_le_self (R := α) one_lt_two hx

theorem lt_zpow_log (x : α) : x < (2 : α) ^ (Int.log 2 x + 1) := by
  exact_mod_cast Int.lt_zpow_succ_log_self (R := α) one_lt_two x

theorem two_pow_mul_ulp (p : ℕ) (x : α) : 2 ^ p * ulp p x = 2 ^ (Int.log 2 x + 1) := by
  rw [ulp, ← zpow_natCast, ← zpow_add₀ two_pos.ne']
  congr 1
  ring

theorem ulp_le (hx : 0 < x) : ulp p x ≤ 2 * x / 2 ^ p := by
  rw [le_div_iff₀ (by positivity), mul_comm, two_pow_mul_ulp, zpow_add₀ two_ne_zero, zpow_one, mul_comm]
  exact mul_le_mul_of_nonneg_left (zpow_log_le hx) (by norm_num)

theorem nearestPos_nonneg (hx : 0 ≤ x) : 0 ≤ nearestPos p x := by
  have hfloor : 0 ≤ ⌊x / ulp p x⌋ := Int.floor_nonneg.mpr (div_nonneg hx (ulp_pos p x).le)
  have hcast : (0 : α) ≤ (toEven (x / ulp p x) : α) := by exact_mod_cast hfloor.trans (toEven_mem _).1
  exact mul_nonneg hcast (ulp_pos p x).le

theorem abs_nearestPos_sub_le (hx : 0 < x) : |nearestPos p x - x| ≤ x / 2 ^ p := by
  have hu := ulp_pos p x
  have hsplit : nearestPos p x - x = (toEven (x / ulp p x) - x / ulp p x) * ulp p x := by
    rw [nearestPos]
    field_simp
  rw [hsplit, abs_mul, abs_of_pos hu]
  calc |(toEven (x / ulp p x) : α) - x / ulp p x| * ulp p x
      ≤ 1 / 2 * ulp p x := mul_le_mul_of_nonneg_right (abs_toEven_sub_le _) hu.le
    _ ≤ 1 / 2 * (2 * x / 2 ^ p) := mul_le_mul_of_nonneg_left (ulp_le hx) (by norm_num)
    _ = x / 2 ^ p := by ring

/-- The rounding stays within the powers of two around the number. -/
theorem nearestPos_mem (hp : 1 ≤ p) (hx : 0 < x) :
    2 ^ Int.log 2 x ≤ nearestPos p x ∧ nearestPos p x ≤ 2 ^ (Int.log 2 x + 1) := by
  have hu := ulp_pos p x
  have hpow : (2 : α) ^ (p - 1) * ulp p x = 2 ^ Int.log 2 x := by
    rw [ulp, ← zpow_natCast, ← zpow_add₀ two_ne_zero]
    congr 1
    omega
  constructor
  · have hle : (((2 ^ (p - 1) : ℕ) : ℤ) : α) ≤ x / ulp p x := by
      rw [le_div_iff₀ hu]
      push_cast
      rw [hpow]
      exact zpow_log_le hx
    have hround := toEven_mono hle
    rw [toEven_intCast] at hround
    rw [← hpow, nearestPos]
    refine mul_le_mul_of_nonneg_right ?_ hu.le
    exact_mod_cast hround
  · have hle : x / ulp p x ≤ (((2 ^ p : ℕ) : ℤ) : α) := by
      rw [div_le_iff₀ hu]
      push_cast
      rw [two_pow_mul_ulp]
      exact (lt_zpow_log x).le
    have hround := toEven_mono hle
    rw [toEven_intCast] at hround
    rw [← two_pow_mul_ulp p, nearestPos]
    refine mul_le_mul_of_nonneg_right ?_ hu.le
    exact_mod_cast hround

theorem nearestPos_mono (hp : 1 ≤ p) (hx : 0 < x) (h : x ≤ y) : nearestPos p x ≤ nearestPos p y := by
  rcases (Int.log_mono_right (b := 2) hx h).eq_or_lt with he | hlt
  · have hulp : ulp p x = ulp p y := by rw [ulp, ulp, he]
    rw [nearestPos, nearestPos, hulp]
    refine mul_le_mul_of_nonneg_right ?_ (ulp_pos p y).le
    exact_mod_cast toEven_mono (div_le_div_of_nonneg_right h (ulp_pos p y).le)
  · have hstep : (2 : α) ^ (Int.log 2 x + 1) ≤ 2 ^ Int.log 2 y := zpow_le_zpow_right₀ one_le_two (by omega)
    exact (nearestPos_mem hp hx).2.trans (hstep.trans (nearestPos_mem hp (hx.trans_le h)).1)

/-- A positive number with `p` digits is not rounded. -/
theorem nearestPos_mul_zpow {m : ℕ} {k : ℤ} (hm : 0 < m) (hp : m < 2 ^ p) :
    nearestPos p ((m : α) * 2 ^ k) = m * 2 ^ k := by
  have hpos : 0 < (m : α) * 2 ^ k := mul_pos (by exact_mod_cast hm) (zpow_pos two_pos k)
  have hlog : Int.log 2 ((m : α) * 2 ^ k) < p + k := by
    refine (Int.lt_zpow_iff_log_lt one_lt_two hpos).mp ?_
    push_cast
    rw [zpow_add₀ two_ne_zero, zpow_natCast]
    exact mul_lt_mul_of_pos_right (by exact_mod_cast hp) (zpow_pos two_pos k)
  obtain ⟨n, hn⟩ : ∃ n : ℕ, k = Int.log 2 ((m : α) * 2 ^ k) + 1 - p + n :=
    ⟨(k - (Int.log 2 ((m : α) * 2 ^ k) + 1 - p)).toNat, by omega⟩
  have hdigits : (m : α) * 2 ^ k = ((m * 2 ^ n : ℕ) : ℤ) * ulp p ((m : α) * 2 ^ k) := by
    have hsplit : (2 : α) ^ k = 2 ^ n * ulp p ((m : α) * 2 ^ k) := by
      conv_lhs => rw [hn]
      rw [zpow_add₀ two_ne_zero, zpow_natCast, mul_comm, ulp]
    push_cast
    rw [mul_assoc, ← hsplit]
  have hquot : (m : α) * 2 ^ k / ulp p ((m : α) * 2 ^ k) = ((m * 2 ^ n : ℕ) : ℤ) := by
    rw [div_eq_iff (ulp_pos _ _).ne', ← hdigits]
  rw [nearestPos, hquot, toEven_intCast, ← hdigits]

/-- A number with `p` digits is not rounded to more digits. -/
theorem nearestPos_nearestPos {q : ℕ} (hp : 1 ≤ p) (hq : p ≤ q) (hx : 0 < x) :
    nearestPos q (nearestPos p x) = nearestPos p x := by
  have hpos : 0 < nearestPos p x := (zpow_pos two_pos _).trans_le (nearestPos_mem hp hx).1
  have hm : (0 : α) < toEven (x / ulp p x) := pos_of_mul_pos_left hpos (ulp_pos p x).le
  obtain ⟨m, hm⟩ : ∃ m : ℕ, toEven (x / ulp p x) = m := ⟨_, (Int.toNat_of_nonneg (by exact_mod_cast hm.le)).symm⟩
  have hround : nearestPos p x = (m : α) * 2 ^ (Int.log 2 x + 1 - p) := by rw [nearestPos, hm, ulp, Int.cast_natCast]
  have hle : (m : α) * ulp p x ≤ 2 ^ p * ulp p x := by
    rw [two_pow_mul_ulp, ulp, ← hround]
    exact (nearestPos_mem hp hx).2
  have hle' : m ≤ 2 ^ p := by exact_mod_cast le_of_mul_le_mul_right hle (ulp_pos p x)
  rcases hle'.eq_or_lt with he | hlt
  · have hpow : nearestPos p x = (1 : ℕ) * 2 ^ (Int.log 2 x + 1) := by
      rw [hround, he, Nat.cast_one, one_mul, ← two_pow_mul_ulp p, ulp]
      push_cast
      rfl
    rw [hpow]
    exact nearestPos_mul_zpow one_pos (Nat.one_lt_two_pow (by omega))
  · have hpos' : 0 < m := by
      rw [hround] at hpos
      exact_mod_cast pos_of_mul_pos_left hpos (zpow_pos two_pos _).le
    rw [hround]
    exact nearestPos_mul_zpow hpos' (hlt.trans_le (Nat.pow_le_pow_right two_pos hq))

theorem log_two_mul (hx : 0 < x) : Int.log 2 (2 * x) = Int.log 2 x + 1 := by
  have hpos : 0 < 2 * x := mul_pos two_pos hx
  have hlow : ((2 : ℕ) : α) ^ (Int.log 2 x + 1) ≤ 2 * x := by
    push_cast
    rw [zpow_add₀ two_ne_zero, zpow_one, mul_comm]
    exact mul_le_mul_of_nonneg_left (zpow_log_le hx) (by norm_num)
  have hhigh : 2 * x < ((2 : ℕ) : α) ^ (Int.log 2 x + 1 + 1) := by
    push_cast
    rw [zpow_add₀ two_ne_zero, zpow_one, mul_comm]
    exact mul_lt_mul_of_pos_right (lt_zpow_log x) two_pos
  have := (Int.zpow_le_iff_le_log one_lt_two hpos).mp hlow
  have := (Int.lt_zpow_iff_log_lt one_lt_two hpos).mp hhigh
  omega

theorem nearestPos_two_mul (hx : 0 < x) : nearestPos p (2 * x) = 2 * nearestPos p x := by
  have hulp : ulp p (2 * x) = 2 * ulp p x := by
    have hexp : Int.log 2 x + 1 + 1 - (p : ℤ) = 1 + (Int.log 2 x + 1 - p) := by ring
    rw [ulp, log_two_mul hx, hexp, zpow_add₀ two_ne_zero, zpow_one, ulp]
  rw [nearestPos, hulp, mul_div_mul_left _ _ two_ne_zero, nearestPos]
  ring

end Positive

end Round

/-! ### Laws -/

/-- What a rounding to 24 binary digits or more obeys, and the identity too. -/
structure Lawful (fl : α → α) : Prop where
  mono : Monotone fl
  neg : ∀ x, fl (-x) = -fl x
  idem : ∀ x, fl (fl x) = fl x
  two_mul : ∀ x, fl (2 * x) = 2 * fl x
  natCast : ∀ n : ℕ, n < 2 ^ 24 → fl n = n
  error : ∀ x, |fl x - x| ≤ |x| / 2 ^ 24

theorem lawful_id : Lawful (id : α → α) where
  mono := monotone_id
  neg _ := rfl
  idem _ := rfl
  two_mul _ := rfl
  natCast _ _ := rfl
  error x := by
    rw [id, sub_self, abs_zero]
    positivity

section Round
variable [FloorRing α] {p : ℕ}

theorem nearestPos_zero : nearestPos p (0 : α) = 0 := by
  have hzero : toEven (0 : α) = 0 := by exact_mod_cast toEven_intCast (α := α) 0
  rw [nearestPos, zero_div, hzero, Int.cast_zero, zero_mul]

omit [IsStrictOrderedRing α] in
theorem nearest_of_nonneg {x : α} (hx : 0 ≤ x) : nearest p x = nearestPos p x := if_neg (not_lt.mpr hx)

theorem nearest_nonneg {x : α} (hx : 0 ≤ x) : 0 ≤ nearest p x := by
  rw [nearest_of_nonneg hx]
  exact nearestPos_nonneg hx

theorem nearest_neg (x : α) : nearest p (-x) = -nearest p x := by
  rcases lt_trichotomy x 0 with hx | rfl | hx
  · rw [nearest_of_nonneg (neg_nonneg.mpr hx.le), nearest, if_pos hx, neg_neg]
  · rw [neg_zero, nearest_of_nonneg le_rfl, nearestPos_zero, neg_zero]
  · rw [nearest, if_pos (neg_lt_zero.mpr hx), neg_neg, nearest_of_nonneg hx.le]

omit [FloorRing α] in
/-- A fact about positive numbers that sign changes keep holds of all numbers. -/
theorem forall_of_pos {P : α → Prop} (zero : P 0) (neg : ∀ x, P x → P (-x)) (pos : ∀ x, 0 < x → P x) (x : α) :
    P x := by
  rcases lt_trichotomy x 0 with hx | rfl | hx
  · rw [← neg_neg x]
    exact neg _ (pos _ (neg_pos.mpr hx))
  · exact zero
  · exact pos x hx

theorem nearest_zero : nearest p (0 : α) = 0 := by rw [nearest_of_nonneg le_rfl, nearestPos_zero]

theorem nearest_mono (hp : 1 ≤ p) : Monotone (nearest p : α → α) := by
  have hnonneg : ∀ x y : α, 0 ≤ x → x ≤ y → nearest p x ≤ nearest p y := fun x y hx h => by
    rcases hx.eq_or_lt with rfl | hx
    · rw [nearest_zero]
      exact nearest_nonneg h
    · rw [nearest_of_nonneg hx.le, nearest_of_nonneg (hx.le.trans h)]
      exact nearestPos_mono hp hx h
  intro x y h
  rcases le_total 0 x with hx | hx
  · exact hnonneg x y hx h
  · rcases le_total 0 y with hy | hy
    · have hlow := nearest_nonneg (p := p) (neg_nonneg.mpr hx)
      rw [nearest_neg] at hlow
      exact (neg_nonneg.mp hlow).trans (nearest_nonneg hy)
    · have hflip := hnonneg (-y) (-x) (neg_nonneg.mpr hy) (neg_le_neg h)
      rw [nearest_neg, nearest_neg] at hflip
      exact neg_le_neg_iff.mp hflip

theorem nearest_nearest {q : ℕ} (hp : 1 ≤ p) (hq : p ≤ q) : ∀ x : α, nearest q (nearest p x) = nearest p x := by
  refine forall_of_pos (by rw [nearest_zero, nearest_zero]) (fun x h => by rw [nearest_neg, nearest_neg, h]) fun x hx => ?_
  rw [nearest_of_nonneg hx.le, nearest_of_nonneg (nearestPos_nonneg hx.le), nearestPos_nearestPos hp hq hx]

theorem abs_nearest_sub_le : ∀ x : α, |nearest p x - x| ≤ |x| / 2 ^ p := by
  refine forall_of_pos (by rw [nearest_zero, sub_self, abs_zero, zero_div]) (fun x h => ?_) fun x hx => ?_
  · have hsub : nearest p (-x) - -x = -(nearest p x - x) := by
      rw [nearest_neg]
      ring
    rw [hsub, abs_neg, abs_neg]
    exact h
  · rw [nearest_of_nonneg hx.le, abs_of_pos hx]
    exact abs_nearestPos_sub_le hx

theorem lawful_nearest (hp : 24 ≤ p) : Lawful (nearest p : α → α) where
  mono := nearest_mono (by omega)
  neg := nearest_neg
  idem := nearest_nearest (by omega) le_rfl
  two_mul := by
    refine forall_of_pos (by rw [mul_zero, nearest_zero, mul_zero])
      (fun x h => by rw [mul_neg, nearest_neg, nearest_neg, h, mul_neg]) fun x hx => ?_
    rw [nearest_of_nonneg (by positivity), nearest_of_nonneg hx.le, nearestPos_two_mul hx]
  natCast n hn := by
    rcases Nat.eq_zero_or_pos n with rfl | hpos
    · rw [Nat.cast_zero, nearest_zero]
    · have hlt : n < 2 ^ p := hn.trans_le (Nat.pow_le_pow_right two_pos hp)
      have hround := nearestPos_mul_zpow (α := α) (k := 0) hpos hlt
      rw [zpow_zero, mul_one] at hround
      rw [nearest_of_nonneg (Nat.cast_nonneg n), hround]
  error x := by
    refine (abs_nearest_sub_le x).trans (div_le_div_of_nonneg_left (abs_nonneg x) (by positivity) ?_)
    exact pow_le_pow_right₀ one_le_two hp

end Round

/-! ### Consequences -/

namespace Lawful
variable {fl : α → α} (h : Lawful fl)
include h

omit [IsStrictOrderedRing α] in
theorem zero : fl 0 = 0 := by exact_mod_cast h.natCast 0 (by norm_num)

omit [IsStrictOrderedRing α] in
theorem nonneg {x : α} (hx : 0 ≤ x) : 0 ≤ fl x := h.zero ▸ h.mono hx

omit [IsStrictOrderedRing α] in
theorem abs_sub_comm (x y : α) : |fl (x - y)| = |fl (y - x)| := by rw [← neg_sub, h.neg, abs_neg]

omit [IsStrictOrderedRing α] in
/-- Doubling a rounded number is exact. -/
theorem two_mul_self {x : α} (hx : fl x = x) : fl (2 * x) = 2 * x := by rw [h.two_mul, hx]

theorem mem {x : α} (hx : 0 ≤ x) : x - x / 2 ^ 24 ≤ fl x ∧ fl x ≤ x + x / 2 ^ 24 := by
  have herror := abs_le.mp (h.error x)
  rw [abs_of_nonneg hx] at herror
  exact ⟨by linarith [herror.1], by linarith [herror.2]⟩

omit [IsStrictOrderedRing α] in
/-- A bound that is not rounded itself still bounds the rounded number. -/
theorem le_of_le {x b : α} (hb : fl b = b) (hx : x ≤ b) : fl x ≤ b := hb ▸ h.mono hx

theorem abs_le_of_abs_le {x b : α} (hb : fl b = b) (hx : |x| ≤ b) : |fl x| ≤ b := by
  obtain ⟨hlow, hhigh⟩ := abs_le.mp hx
  have hneg : fl (-b) = -b := by rw [h.neg, hb]
  exact abs_le.mpr ⟨hneg ▸ h.mono hlow, h.le_of_le hb hhigh⟩

theorem abs_le_two_mul (x : α) : |fl x| ≤ 2 * |x| := by
  have hsmall : |x| / 2 ^ 24 ≤ |x| := div_le_self (abs_nonneg x) (by norm_num)
  have hsplit := abs_add_le (fl x - x) x
  rw [sub_add_cancel] at hsplit
  linarith [h.error x]

theorem half_self {x : α} (hx : fl x = x) : fl (x / 2) = x / 2 := by
  have hdouble := h.two_mul (x / 2)
  rw [mul_div_cancel₀ x two_ne_zero, hx] at hdouble
  linarith

/-- A coarse form of the error. -/
theorem percent {x : α} (hx : 0 ≤ x) : 99 / 100 * x ≤ fl x ∧ fl x ≤ 101 / 100 * x := by
  have hsmall : x / 2 ^ 24 ≤ x / 100 := div_le_div_of_nonneg_left hx (by norm_num) (by norm_num)
  obtain ⟨hlow, hhigh⟩ := h.mem hx
  exact ⟨by linarith, by linarith⟩

/-- Numbers that are not too close for their size stay apart. -/
theorem lt_of_gap {x y : α} (hx : 0 ≤ x) (hgap : (x + y) / 2 ^ 24 < y - x) : fl x < fl y := by
  have hxy : x < y := by
    by_contra hle
    have hsum : x + y < (y - x) * 2 ^ 24 := (div_lt_iff₀ (by norm_num)).mp hgap
    linarith
  have hlow := (h.mem (hx.trans hxy.le)).1
  have hhigh := (h.mem hx).2
  have hsplit : (x + y) / 2 ^ 24 = x / 2 ^ 24 + y / 2 ^ 24 := add_div x y _
  linarith

/-- Fractions of a denominator below `2 ^ 16` stay in their order. -/
theorem div_lt_div_iff {m n : ℕ} {c : α} (hc : 0 < c) (hn : n < 2 ^ 16) :
    fl (m / c) < fl (n / c) ↔ m < n := by
  refine ⟨fun hlt => ?_, fun hlt => h.lt_of_gap (by positivity) ?_⟩
  · by_contra hle
    refine absurd hlt (not_lt.mpr (h.mono (div_le_div_of_nonneg_right ?_ hc.le)))
    exact_mod_cast not_lt.mp hle
  · have hsum : (m : α) + n < 2 ^ 24 := by exact_mod_cast (by omega : m + n < 2 ^ 24)
    have hstep : (1 : α) ≤ n - m := by
      have : (m : α) + 1 ≤ n := by exact_mod_cast hlt
      linarith
    rw [← add_div, ← sub_div, div_div, mul_comm c, ← div_div]
    refine div_lt_div_of_pos_right ?_ hc
    exact ((div_lt_one (by norm_num)).mpr hsum).trans_le hstep

theorem div_inj {m n : ℕ} {c : α} (hc : 0 < c) (hm : m < 2 ^ 16) (hn : n < 2 ^ 16) :
    fl (m / c) = fl (n / c) ↔ m = n := by
  refine ⟨fun he => ?_, fun he => by rw [he]⟩
  have hmn := (h.div_lt_div_iff hc hn).not.mp he.not_lt
  have hnm := (h.div_lt_div_iff hc hm).not.mp he.not_gt
  omega

end Lawful

end Foundation.Rounding

/-! ### The arithmetic of a program -/

namespace Foundation
open Rounding

/-- What an operation on `float` and on `double` makes of its exact result. Constants are rounded too, every `float` is a
    `double`, and a `double` has 53 digits. -/
class Arithmetic where
  float : ℚ → ℚ
  double : ℚ → ℚ
  lawful_float : Lawful float
  lawful_double : Lawful double
  widen : ∀ x, double (float x) = float x
  error_double : ∀ x, |double x - x| ≤ |x| / 2 ^ 53

namespace Exact

/-- Rational arithmetic. -/
scoped instance arithmetic : Arithmetic where
  float := id
  double := id
  lawful_float := lawful_id
  lawful_double := lawful_id
  widen _ := rfl
  error_double x := by
    rw [id, sub_self, abs_zero]
    positivity

@[simp] theorem float_eq (x : ℚ) : Arithmetic.float x = x := rfl

@[simp] theorem double_eq (x : ℚ) : Arithmetic.double x = x := rfl

theorem float_id : (Arithmetic.float : ℚ → ℚ) = id := rfl

theorem double_id : (Arithmetic.double : ℚ → ℚ) = id := rfl

end Exact

namespace Ieee

/-- The formats binary32 and binary64. -/
scoped instance arithmetic : Arithmetic where
  float := nearest 24
  double := nearest 53
  lawful_float := lawful_nearest (by norm_num)
  lawful_double := lawful_nearest (by norm_num)
  widen := nearest_nearest (by norm_num) (by norm_num)
  error_double := abs_nearest_sub_le

end Ieee
end Foundation
