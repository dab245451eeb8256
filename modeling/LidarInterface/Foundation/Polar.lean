import LidarInterface.Foundation.Rounding
import Mathlib.Analysis.SpecialFunctions.Trigonometric.Basic

/-! Polar positions with their angle in degrees, as Cartesian coordinates. Of `cos` and `sin` only that they lie between
    -1 and 1 is needed, so it holds for rounded ones too: a coordinate does not exceed the distance, and along a ray the
    coordinates grow with the distance, also when they are truncated to integers. -/

namespace Foundation.Polar

/-- The functions `cos` and `sin` of a library, and its value of pi. -/
structure Trig (K : Type*) [Field K] [LinearOrder K] where
  cos : K → K
  sin : K → K
  pi : K
  abs_cos_le_one : ∀ a, |cos a| ≤ 1
  abs_sin_le_one : ∀ a, |sin a| ≤ 1

section Coordinates
variable {K : Type*} [Field K] [LinearOrder K] (T : Trig K)

def x (distance degrees : K) : K := distance * T.cos (degrees * T.pi / 180)

def y (distance degrees : K) : K := distance * T.sin (degrees * T.pi / 180)

variable [IsStrictOrderedRing K] {d d' : K} (h : 0 ≤ d) (a : K)
include h

theorem abs_x_le : |x T d a| ≤ d := by
  rw [x, abs_mul, abs_of_nonneg h]
  exact mul_le_of_le_one_right h (T.abs_cos_le_one _)

theorem abs_y_le : |y T d a| ≤ d := by
  rw [y, abs_mul, abs_of_nonneg h]
  exact mul_le_of_le_one_right h (T.abs_sin_le_one _)

/-- Farther along the same ray a coordinate is on the same side and not smaller. -/
theorem ray_mono (hd : d ≤ d') (c : K) :
    (0 ≤ d * c ∧ 0 ≤ d' * c ∨ d * c ≤ 0 ∧ d' * c ≤ 0) ∧ |d * c| ≤ |d' * c| := by
  have h' : 0 ≤ d' := h.trans hd
  refine ⟨?_, ?_⟩
  · rcases le_total 0 c with hc | hc
    · exact Or.inl ⟨mul_nonneg h hc, mul_nonneg h' hc⟩
    · exact Or.inr ⟨mul_nonpos_of_nonneg_of_nonpos h hc, mul_nonpos_of_nonneg_of_nonpos h' hc⟩
  · rw [abs_mul, abs_mul, abs_of_nonneg h, abs_of_nonneg h']
    exact mul_le_mul_of_nonneg_right hd (abs_nonneg c)

end Coordinates

noncomputable def Trig.real : Trig ℝ where
  cos := Real.cos
  sin := Real.sin
  pi := Real.pi
  abs_cos_le_one := Real.abs_cos_le_one
  abs_sin_le_one := Real.abs_sin_le_one

end Foundation.Polar
