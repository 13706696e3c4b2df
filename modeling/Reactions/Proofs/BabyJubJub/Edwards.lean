import Mathlib.Algebra.Group.Even
import Mathlib.Tactic.FieldSimp
import Mathlib.Tactic.LinearCombination
import Mathlib.Tactic.Ring

/-!
# The Edwards addition law

Over any field, the curve `x² + y² = 1 + d x² y²` whose `d` is no square has an addition law
without exceptions. The law is `(sumX, sumY)`. Its denominators are `1 + δ` and `1 - δ` for
`δ = d x₁ x₂ y₁ y₂`, and a pair of points with `δ² = 1` would make `d` a square
(`one_add_ne_zero`, `one_sub_ne_zero`). Sums lie on the curve (`OnEdwards.sum`), and the law is
associative (`sumX_assoc`, `sumY_assoc`).

The identities behind the last two hold modulo the equations of the curve. With `s = x² + y² - 1`
the equation of a point says `s = d x² y²`; once each `d x² y²` is replaced by its `s`, both
identities hold as they stand, so each coefficient below is what such a replacement leaves behind.
-/

namespace Reactions.Edwards

variable {K : Type} [Field K] {d x₁ y₁ x₂ y₂ x₃ y₃ : K}

/-- The equation of the curve. -/
def OnEdwards (d x y : K) : Prop := x * x + y * y = 1 + d * (x * x) * (y * y)

/-- The first coordinate of a sum. -/
def sumX (d x₁ y₁ x₂ y₂ : K) : K :=
  (x₁ * y₂ + y₁ * x₂) * (1 + d * (x₁ * x₂) * (y₁ * y₂))⁻¹

/-- The second coordinate of a sum. -/
def sumY (d x₁ y₁ x₂ y₂ : K) : K :=
  (y₁ * y₂ - x₁ * x₂) * (1 - d * (x₁ * x₂) * (y₁ * y₂))⁻¹

/-- The first coordinate of a sum does not depend on the order. -/
theorem sumX_comm (d x₁ y₁ x₂ y₂ : K) : sumX d x₁ y₁ x₂ y₂ = sumX d x₂ y₂ x₁ y₁ := by
  unfold sumX
  ring

theorem sumY_comm (d x₁ y₁ x₂ y₂ : K) : sumY d x₁ y₁ x₂ y₂ = sumY d x₂ y₂ x₁ y₁ := by
  unfold sumY
  ring

/-! ## No denominator vanishes -/

/-- The product in the denominators is never of square one: else `x₁ + δ y₁` and `x₁ - δ y₁` would
be products with a square root of `d`. -/
theorem delta_sq_ne_one (h2 : (2 : K) ≠ 0) (hd : ¬IsSquare d) (h₁ : OnEdwards d x₁ y₁)
    (h₂ : OnEdwards d x₂ y₂) : (d * (x₁ * x₂) * (y₁ * y₂)) ^ 2 ≠ 1 := by
  intro hδ
  unfold OnEdwards at h₁ h₂
  have hne : d * (x₁ * x₂) * (y₁ * y₂) ≠ 0 := by
    intro h
    rw [h, zero_pow two_ne_zero] at hδ
    exact zero_ne_one hδ
  have hxy : x₁ * y₁ ≠ 0 := by
    intro h
    refine hne ?_
    linear_combination d * x₂ * y₂ * h
  -- a square root of `d`, if only its denominator does not vanish
  have key : ∀ r t : K, t ≠ 0 → r * r = d * (x₁ * y₁ * t) ^ 2 → False := by
    intro r t ht h
    refine hd ⟨r / (x₁ * y₁ * t), ?_⟩
    have hne := mul_ne_zero hxy ht
    rw [div_mul_div_comm, eq_div_iff (mul_ne_zero hne hne), h]
    ring
  have hadd : x₂ + y₂ = 0 := by
    by_contra h
    refine key (x₁ + d * (x₁ * x₂) * (y₁ * y₂) * y₁) (x₂ + y₂) h ?_
    linear_combination h₁ - d * (x₁ * y₁) ^ 2 * h₂ + (y₁ ^ 2 - 1) * hδ
  have hsub : x₂ - y₂ = 0 := by
    by_contra h
    refine key (x₁ - d * (x₁ * x₂) * (y₁ * y₂) * y₁) (x₂ - y₂) h ?_
    linear_combination h₁ - d * (x₁ * y₁) ^ 2 * h₂ + (y₁ ^ 2 - 1) * hδ
  have hx : 2 * x₂ = 0 := by linear_combination hadd + hsub
  rcases mul_eq_zero.1 hx with h | h
  · exact h2 h
  · refine hne ?_
    rw [h]
    ring

/-- The denominator of the first coordinate does not vanish if the coefficient is no square. -/
theorem one_add_ne_zero (h2 : (2 : K) ≠ 0) (hd : ¬IsSquare d) (h₁ : OnEdwards d x₁ y₁)
    (h₂ : OnEdwards d x₂ y₂) : 1 + d * (x₁ * x₂) * (y₁ * y₂) ≠ 0 := by
  intro h
  refine delta_sq_ne_one h2 hd h₁ h₂ ?_
  linear_combination (d * (x₁ * x₂) * (y₁ * y₂) - 1) * h

theorem one_sub_ne_zero (h2 : (2 : K) ≠ 0) (hd : ¬IsSquare d) (h₁ : OnEdwards d x₁ y₁)
    (h₂ : OnEdwards d x₂ y₂) : 1 - d * (x₁ * x₂) * (y₁ * y₂) ≠ 0 := by
  intro h
  refine delta_sq_ne_one h2 hd h₁ h₂ ?_
  linear_combination -(d * (x₁ * x₂) * (y₁ * y₂) + 1) * h

/-! ## Sums lie on the curve -/

/-- The equation of the curve at a sum, cleared of its denominators. -/
theorem sum_equation (h₁ : OnEdwards d x₁ y₁) (h₂ : OnEdwards d x₂ y₂) {a b δ : K}
    (ha : a = x₁ * y₂ + y₁ * x₂) (hb : b = y₁ * y₂ - x₁ * x₂)
    (hδ : δ = d * (x₁ * x₂) * (y₁ * y₂)) :
    (a * (1 - δ)) ^ 2 + (b * (1 + δ)) ^ 2 = ((1 + δ) * (1 - δ)) ^ 2 + d * (a * b) ^ 2 := by
  unfold OnEdwards at h₁ h₂
  subst ha hb hδ
  linear_combination
    (-((x₁ ^ 2 + y₁ ^ 2) * (x₂ ^ 2 + y₂ ^ 2) * (d * (x₂ * y₂) ^ 2) + 2 * (d * (x₂ * y₂) ^ 2) -
      (x₂ ^ 2 + y₂ ^ 2) ^ 2 -
      (d * (x₂ * y₂) ^ 2) ^ 2 * (d * (x₁ * y₁) ^ 2 + (x₁ ^ 2 + y₁ ^ 2 - 1)))) * h₁ +
    (-((x₁ ^ 2 + y₁ ^ 2) * (x₂ ^ 2 + y₂ ^ 2) * (x₁ ^ 2 + y₁ ^ 2 - 1) +
      2 * (x₁ ^ 2 + y₁ ^ 2 - 1) - (x₁ ^ 2 + y₁ ^ 2) ^ 2 -
      (x₁ ^ 2 + y₁ ^ 2 - 1) ^ 2 * (d * (x₂ * y₂) ^ 2 + (x₂ ^ 2 + y₂ ^ 2 - 1)))) * h₂

/-- A sum of points of the curve lies on it. -/
theorem OnEdwards.sum (h₁ : OnEdwards d x₁ y₁) (h₂ : OnEdwards d x₂ y₂)
    (hadd : 1 + d * (x₁ * x₂) * (y₁ * y₂) ≠ 0) (hsub : 1 - d * (x₁ * x₂) * (y₁ * y₂) ≠ 0) :
    OnEdwards d (sumX d x₁ y₁ x₂ y₂) (sumY d x₁ y₁ x₂ y₂) := by
  have h := sum_equation h₁ h₂ rfl rfl rfl
  unfold OnEdwards sumX sumY
  generalize x₁ * y₂ + y₁ * x₂ = a at h ⊢
  generalize y₁ * y₂ - x₁ * x₂ = b at h ⊢
  generalize d * (x₁ * x₂) * (y₁ * y₂) = δ at *
  field_simp
  linear_combination h

/-! ## Associativity -/

section
variable {a b l m : K} (hl : l ≠ 0) (hm : m ≠ 0)

include hl hm in
/-- The denominators are cleared in the sum. -/
theorem one_add_fraction : 1 + d * (a * l⁻¹ * x₃) * (b * m⁻¹ * y₃) =
    (l * m + d * (a * b) * (x₃ * y₃)) * (l * m)⁻¹ := by
  field_simp

include hl hm in
theorem one_sub_fraction : 1 - d * (a * l⁻¹ * x₃) * (b * m⁻¹ * y₃) =
    (l * m - d * (a * b) * (x₃ * y₃)) * (l * m)⁻¹ := by
  field_simp

include hl hm in
/-- The first coordinate of a sum with a point whose coordinates are fractions. -/
theorem sumX_fraction : sumX d (a * l⁻¹) (b * m⁻¹) x₃ y₃ =
    (a * m * y₃ + b * l * x₃) / (l * m + d * (a * b) * (x₃ * y₃)) := by
  have hnum : a * l⁻¹ * y₃ + b * m⁻¹ * x₃ = (a * m * y₃ + b * l * x₃) * (l * m)⁻¹ := by
    field_simp
  rw [sumX, hnum, one_add_fraction hl hm]
  simpa only [div_eq_mul_inv] using div_div_div_cancel_right₀ (mul_ne_zero hl hm) _ _

include hl hm in
/-- The second coordinate of a sum with a point whose coordinates are fractions. -/
theorem sumY_fraction : sumY d (a * l⁻¹) (b * m⁻¹) x₃ y₃ =
    (b * l * y₃ - a * m * x₃) / (l * m - d * (a * b) * (x₃ * y₃)) := by
  have hnum : b * m⁻¹ * y₃ - a * l⁻¹ * x₃ = (b * l * y₃ - a * m * x₃) * (l * m)⁻¹ := by
    field_simp
  rw [sumY, hnum, one_sub_fraction hl hm]
  simpa only [div_eq_mul_inv] using div_div_div_cancel_right₀ (mul_ne_zero hl hm) _ _

end

/-- Both ways to take the first coordinate of three summands agree, cleared of denominators. -/
theorem sumX_numerators (h₁ : OnEdwards d x₁ y₁) (h₂ : OnEdwards d x₂ y₂)
    (h₃ : OnEdwards d x₃ y₃) {a b δ a' b' δ' : K}
    (ha : a = x₁ * y₂ + y₁ * x₂) (hb : b = y₁ * y₂ - x₁ * x₂)
    (hδ : δ = d * (x₁ * x₂) * (y₁ * y₂))
    (ha' : a' = x₂ * y₃ + y₂ * x₃) (hb' : b' = y₂ * y₃ - x₂ * x₃)
    (hδ' : δ' = d * (x₂ * x₃) * (y₂ * y₃)) :
    (a * (1 - δ) * y₃ + b * (1 + δ) * x₃) *
        ((1 + δ') * (1 - δ') + d * (a' * b') * (x₁ * y₁)) =
      (a' * (1 - δ') * y₁ + b' * (1 + δ') * x₁) *
        ((1 + δ) * (1 - δ) + d * (a * b) * (x₃ * y₃)) := by
  rw [OnEdwards, ← sub_eq_zero] at h₁ h₂ h₃
  rw [← sub_eq_zero]
  calc
    _ = d * (x₂ * y₂) *
        ((-(a * y₃ + b * x₃) * (x₂ * y₂) - (b * x₃ - a * y₃) * (a' * b') -
            x₃ * y₃ * (b' * x₁ - a' * y₁) * (x₂ ^ 2 + y₂ ^ 2 - 1)) *
            (x₁ * x₁ + y₁ * y₁ - (1 + d * (x₁ * x₁) * (y₁ * y₁))) +
          (x₁ * y₁ * (b * x₃ - a * y₃) * (x₃ ^ 2 + y₃ ^ 2 - 1) -
            x₃ * y₃ * (b' * x₁ - a' * y₁) * (d * (x₁ * y₁) ^ 2)) *
            (x₂ * x₂ + y₂ * y₂ - (1 + d * (x₂ * x₂) * (y₂ * y₂))) +
          ((a * y₃ + b * x₃) * (x₂ * y₂) + (b' * x₁ - a' * y₁) * (a * b) +
            x₁ * y₁ * (b * x₃ - a * y₃) * (d * (x₂ * y₂) ^ 2)) *
            (x₃ * x₃ + y₃ * y₃ - (1 + d * (x₃ * x₃) * (y₃ * y₃)))) := by
      subst ha hb hδ ha' hb' hδ'
      ring
    _ = 0 := by
      rw [h₁, h₂, h₃]
      ring

/-- Both ways to take the second coordinate of three summands agree, cleared of denominators. -/
theorem sumY_numerators (h₁ : OnEdwards d x₁ y₁) (h₂ : OnEdwards d x₂ y₂)
    (h₃ : OnEdwards d x₃ y₃) {a b δ a' b' δ' : K}
    (ha : a = x₁ * y₂ + y₁ * x₂) (hb : b = y₁ * y₂ - x₁ * x₂)
    (hδ : δ = d * (x₁ * x₂) * (y₁ * y₂))
    (ha' : a' = x₂ * y₃ + y₂ * x₃) (hb' : b' = y₂ * y₃ - x₂ * x₃)
    (hδ' : δ' = d * (x₂ * x₃) * (y₂ * y₃)) :
    (b * (1 + δ) * y₃ - a * (1 - δ) * x₃) *
        ((1 + δ') * (1 - δ') - d * (a' * b') * (x₁ * y₁)) =
      (b' * (1 + δ') * y₁ - a' * (1 - δ') * x₁) *
        ((1 + δ) * (1 - δ) - d * (a * b) * (x₃ * y₃)) := by
  rw [OnEdwards, ← sub_eq_zero] at h₁ h₂ h₃
  rw [← sub_eq_zero]
  calc
    _ = d * (x₂ * y₂) *
        ((-(b * y₃ - a * x₃) * (x₂ * y₂) + (b * y₃ + a * x₃) * (a' * b') -
            x₃ * y₃ * (b' * y₁ + a' * x₁) * (x₂ ^ 2 + y₂ ^ 2 - 1)) *
            (x₁ * x₁ + y₁ * y₁ - (1 + d * (x₁ * x₁) * (y₁ * y₁))) +
          (x₁ * y₁ * (b * y₃ + a * x₃) * (x₃ ^ 2 + y₃ ^ 2 - 1) -
            x₃ * y₃ * (b' * y₁ + a' * x₁) * (d * (x₁ * y₁) ^ 2)) *
            (x₂ * x₂ + y₂ * y₂ - (1 + d * (x₂ * x₂) * (y₂ * y₂))) +
          ((b * y₃ - a * x₃) * (x₂ * y₂) - (b' * y₁ + a' * x₁) * (a * b) +
            x₁ * y₁ * (b * y₃ + a * x₃) * (d * (x₂ * y₂) ^ 2)) *
            (x₃ * x₃ + y₃ * y₃ - (1 + d * (x₃ * x₃) * (y₃ * y₃)))) := by
      subst ha hb hδ ha' hb' hδ'
      ring
    _ = 0 := by
      rw [h₁, h₂, h₃]
      ring

section
variable (h2 : (2 : K) ≠ 0) (hd : ¬IsSquare d) (h₁ : OnEdwards d x₁ y₁) (h₂ : OnEdwards d x₂ y₂)
  (h₃ : OnEdwards d x₃ y₃)

include h2 hd h₁ h₂ in
/-- Sums of points on the curve are on the curve. -/
theorem OnEdwards.sum_of_not_isSquare : OnEdwards d (sumX d x₁ y₁ x₂ y₂) (sumY d x₁ y₁ x₂ y₂) :=
  h₁.sum h₂ (one_add_ne_zero h2 hd h₁ h₂) (one_sub_ne_zero h2 hd h₁ h₂)

include h2 hd h₁ h₂ h₃ in
/-- The first coordinate of three summands, whichever two are added first. -/
theorem sumX_assoc : sumX d (sumX d x₁ y₁ x₂ y₂) (sumY d x₁ y₁ x₂ y₂) x₃ y₃ =
    sumX d (sumX d x₂ y₂ x₃ y₃) (sumY d x₂ y₂ x₃ y₃) x₁ y₁ := by
  have hl := one_add_ne_zero h2 hd h₁ h₂
  have hm := one_sub_ne_zero h2 hd h₁ h₂
  have hl' := one_add_ne_zero h2 hd h₂ h₃
  have hm' := one_sub_ne_zero h2 hd h₂ h₃
  have hk := one_add_ne_zero h2 hd (h₁.sum h₂ hl hm) h₃
  have hk' := one_add_ne_zero h2 hd (h₂.sum h₃ hl' hm') h₁
  rw [sumX, sumY, one_add_fraction hl hm] at hk
  rw [sumX, sumY, one_add_fraction hl' hm'] at hk'
  refine (sumX_fraction hl hm).trans (Eq.trans ?_ (sumX_fraction hl' hm').symm)
  rw [div_eq_div_iff (left_ne_zero_of_mul hk) (left_ne_zero_of_mul hk')]
  exact sumX_numerators h₁ h₂ h₃ rfl rfl rfl rfl rfl rfl

include h2 hd h₁ h₂ h₃ in
/-- The second coordinate of three summands, whichever two are added first. -/
theorem sumY_assoc : sumY d (sumX d x₁ y₁ x₂ y₂) (sumY d x₁ y₁ x₂ y₂) x₃ y₃ =
    sumY d (sumX d x₂ y₂ x₃ y₃) (sumY d x₂ y₂ x₃ y₃) x₁ y₁ := by
  have hl := one_add_ne_zero h2 hd h₁ h₂
  have hm := one_sub_ne_zero h2 hd h₁ h₂
  have hl' := one_add_ne_zero h2 hd h₂ h₃
  have hm' := one_sub_ne_zero h2 hd h₂ h₃
  have hk := one_sub_ne_zero h2 hd (h₁.sum h₂ hl hm) h₃
  have hk' := one_sub_ne_zero h2 hd (h₂.sum h₃ hl' hm') h₁
  rw [sumX, sumY, one_sub_fraction hl hm] at hk
  rw [sumX, sumY, one_sub_fraction hl' hm'] at hk'
  refine (sumY_fraction hl hm).trans (Eq.trans ?_ (sumY_fraction hl' hm').symm)
  rw [div_eq_div_iff (left_ne_zero_of_mul hk) (left_ne_zero_of_mul hk')]
  exact sumY_numerators h₁ h₂ h₃ rfl rfl rfl rfl rfl rfl

end

end Reactions.Edwards
