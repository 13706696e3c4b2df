import Mathlib.GroupTheory.OrderOfElement
import Reactions.BabyJubJub.Point
import Reactions.Proofs.Arithmetic.Primality
import Reactions.Proofs.BabyJubJub.Edwards

/-!
# The group of BabyJubJub points

The coefficient of BabyJubJub is no square (`coefficient_not_isSquare`), so the addition law of
`Point` has no exceptions on the curve and makes all points of the curve an abelian group,
`EdwardsPoint`. A multiple computed on scaled points is the multiple in that group
(`coe_nsmul`), and the generator has order exactly `subgroupOrder` (`addOrderOf_generator`).
-/

namespace Reactions

open Edwards

namespace Point

/-- The field is not of characteristic two. -/
theorem two_ne_zero : (2 : ScalarField) ≠ 0 := by decide +kernel

/-- The coefficient of the curve is no square, by Euler's criterion. -/
theorem coefficient_not_isSquare : ¬IsSquare coefficient := by
  rintro ⟨s, hs⟩
  have hs0 : s ≠ 0 := by
    rintro rfl
    exact absurd hs (by decide +kernel)
  have hne : coefficient ^ ((scalarOrder - 1) / 2) ≠ 1 := by decide +kernel
  refine hne ?_
  calc
    coefficient ^ ((scalarOrder - 1) / 2) = (s ^ 2) ^ ((scalarOrder - 1) / 2) := by rw [hs, sq]
    _ = s ^ (scalarOrder - 1) := by rw [← pow_mul]; rfl
    _ = 1 := Residue.pow_order_sub_one hs0

/-! ## The laws -/

/-- A point is on the curve if its coordinates satisfy the equation of the curve. -/
theorem onCurve_iff (p : Point) : p.OnCurve ↔ OnEdwards coefficient p.x p.y := Iff.rfl

/-- Points are added by the law for Edwards curves. -/
theorem add_eq (p q : Point) :
    p + q = ⟨sumX coefficient p.x p.y q.x q.y, sumY coefficient p.x p.y q.x q.y⟩ := rfl

/-- The negative of a point is its reflection. -/
theorem neg_eq (p : Point) : -p = ⟨-p.x, p.y⟩ := rfl

theorem identity_onCurve : identity.OnCurve := by decide +kernel

theorem generator_onCurve : generator.OnCurve := by decide +kernel

/-- Negatives of points on the curve are on the curve. -/
theorem OnCurve.neg {p : Point} (hp : p.OnCurve) : (-p).OnCurve := by
  rw [OnCurve, neg_eq, neg_mul_neg]
  exact hp

/-- Sums of points on the curve are on the curve. -/
theorem OnCurve.add {p q : Point} (hp : p.OnCurve) (hq : q.OnCurve) : (p + q).OnCurve :=
  OnEdwards.sum_of_not_isSquare two_ne_zero coefficient_not_isSquare hp hq

theorem OnCurve.sub {p q : Point} (hp : p.OnCurve) (hq : q.OnCurve) : (p - q).OnCurve :=
  hp.add hq.neg

/-- Points are added in either order, on the curve or not. -/
theorem add_comm (p q : Point) : p + q = q + p :=
  congrArg₂ mk (sumX_comm ..) (sumY_comm ..)

/-- Adding the neutral point changes nothing, on the curve or not. -/
theorem add_identity (p : Point) : p + identity = p := by
  have h0 : identity.x = 0 := rfl
  have h1 : identity.y = 1 := rfl
  simp [add_eq, sumX, sumY, h0, h1]

/-- Three points of the curve have one sum. -/
theorem OnCurve.add_assoc {p q r : Point} (hp : p.OnCurve) (hq : q.OnCurve) (hr : r.OnCurve) :
    p + q + r = p + (q + r) := by
  rw [add_comm p (q + r)]
  exact congrArg₂ mk (sumX_assoc two_ne_zero coefficient_not_isSquare hp hq hr)
    (sumY_assoc two_ne_zero coefficient_not_isSquare hp hq hr)

/-- A point of the curve and its opposite add up to the identity. -/
theorem OnCurve.neg_add {p : Point} (hp : p.OnCurve) : -p + p = identity := by
  have hne := one_sub_ne_zero two_ne_zero coefficient_not_isSquare hp.neg hp
  have hx : -p.x * p.y + p.y * p.x = 0 := by ring
  have hy : p.y * p.y - -p.x * p.x = 1 - coefficient * (-p.x * p.x) * (p.y * p.y) := by
    rw [OnCurve] at hp
    linear_combination hp
  rw [neg_eq] at hne ⊢
  rw [add_eq, sumX, sumY, hx, hy, zero_mul, mul_inv_cancel₀ hne]
  rfl

end Point

/-! ## The group -/

/-- A point of the curve. -/
abbrev EdwardsPoint := {p : Point // p.OnCurve}

namespace EdwardsPoint

instance : Add EdwardsPoint := ⟨fun p q => ⟨p + q, p.2.add q.2⟩⟩
instance : Zero EdwardsPoint := ⟨⟨.identity, Point.identity_onCurve⟩⟩
instance : Neg EdwardsPoint := ⟨fun p => ⟨-p, p.2.neg⟩⟩
instance : Sub EdwardsPoint := ⟨fun p q => ⟨p - q, p.2.sub q.2⟩⟩

@[simp] theorem coe_add (p q : EdwardsPoint) : ((p + q : EdwardsPoint) : Point) = p + q := rfl
@[simp] theorem coe_zero : ((0 : EdwardsPoint) : Point) = .identity := rfl
@[simp] theorem coe_neg (p : EdwardsPoint) : ((-p : EdwardsPoint) : Point) = -p := rfl
@[simp] theorem coe_sub (p q : EdwardsPoint) : ((p - q : EdwardsPoint) : Point) = p - q := rfl

/-- The points of the curve are an abelian group. -/
instance : AddCommGroup EdwardsPoint where
  add_assoc p q r := Subtype.ext (p.2.add_assoc q.2 r.2)
  zero_add p := Subtype.ext ((Point.add_comm _ _).trans (Point.add_identity p))
  add_zero p := Subtype.ext (Point.add_identity p)
  neg_add_cancel p := Subtype.ext p.2.neg_add
  add_comm p q := Subtype.ext (Point.add_comm p q)
  sub_eq_add_neg _ _ := rfl
  nsmul := nsmulRec
  zsmul := zsmulRec

end EdwardsPoint

/-! ## Multiples -/

namespace ScaledPoint

/-- A triple stands for a point of the curve. -/
def Represents (s : ScaledPoint) (p : EdwardsPoint) : Prop :=
  s.z ≠ 0 ∧ s.x = p.1.x * s.z ∧ s.y = p.1.y * s.z

/-- A point represents itself with denominator one. -/
theorem represents_ofPoint (p : EdwardsPoint) : (ofPoint p.1).Represents p :=
  ⟨one_ne_zero, (mul_one _).symm, (mul_one _).symm⟩

/-- The sum of scaled points, with all denominators multiplied out. -/
theorem add_eq (s t : ScaledPoint) : s + t =
    ⟨s.z * t.z * (s.z * t.z * (s.z * t.z) - Point.coefficient * (s.x * t.x) * (s.y * t.y)) *
        (s.x * t.y + s.y * t.x),
      s.z * t.z * (s.z * t.z * (s.z * t.z) + Point.coefficient * (s.x * t.x) * (s.y * t.y)) *
        (s.y * t.y - s.x * t.x),
      (s.z * t.z * (s.z * t.z) - Point.coefficient * (s.x * t.x) * (s.y * t.y)) *
        (s.z * t.z * (s.z * t.z) + Point.coefficient * (s.x * t.x) * (s.y * t.y))⟩ := rfl

/-- A triple is turned into the point that it stands for. -/
theorem Represents.toPoint {s : ScaledPoint} {p : EdwardsPoint} (h : s.Represents p) :
    s.toPoint = p := by
  obtain ⟨hz, hx, hy⟩ := h
  rw [ScaledPoint.toPoint, hx, hy, mul_inv_cancel_right₀ hz, mul_inv_cancel_right₀ hz]

/-- The addition of triples is that of the points they stand for. -/
theorem Represents.add {s t : ScaledPoint} {p q : EdwardsPoint} (hs : s.Represents p)
    (ht : t.Represents q) : (s + t).Represents (p + q) := by
  obtain ⟨hsz, hsx, hsy⟩ := hs
  obtain ⟨htz, htx, hty⟩ := ht
  have hadd := one_add_ne_zero Point.two_ne_zero Point.coefficient_not_isSquare p.2 q.2
  have hsub := one_sub_ne_zero Point.two_ne_zero Point.coefficient_not_isSquare p.2 q.2
  have hz : s.z * t.z ≠ 0 := mul_ne_zero hsz htz
  have he : Point.coefficient * (s.x * t.x) * (s.y * t.y) =
      (s.z * t.z) ^ 2 * (Point.coefficient * (p.1.x * q.1.x) * (p.1.y * q.1.y)) := by
    rw [hsx, hsy, htx, hty]
    ring
  have hf : s.z * t.z * (s.z * t.z) - Point.coefficient * (s.x * t.x) * (s.y * t.y) =
      (s.z * t.z) ^ 2 * (1 - Point.coefficient * (p.1.x * q.1.x) * (p.1.y * q.1.y)) := by
    rw [he]
    ring
  have hg : s.z * t.z * (s.z * t.z) + Point.coefficient * (s.x * t.x) * (s.y * t.y) =
      (s.z * t.z) ^ 2 * (1 + Point.coefficient * (p.1.x * q.1.x) * (p.1.y * q.1.y)) := by
    rw [he]
    ring
  rw [Represents, add_eq, hf, hg, EdwardsPoint.coe_add, Point.add_eq, sumX, sumY, hsx, hsy, htx,
    hty]
  generalize Point.coefficient * (p.1.x * q.1.x) * (p.1.y * q.1.y) = δ at hadd hsub ⊢
  refine ⟨mul_ne_zero (mul_ne_zero (pow_ne_zero 2 hz) hsub) (mul_ne_zero (pow_ne_zero 2 hz) hadd),
    ?_, ?_⟩ <;> dsimp only
  · field_simp
  · field_simp

/-- Multiples computed on triples are the multiples of the group. -/
theorem represents_ladder (p : EdwardsPoint) (k : Nat) :
    (ladder (· + ·) (ofPoint Point.identity) (ofPoint p.1) k).Represents (k • p) :=
  ladder_nsmul (represents_ofPoint 0) (represents_ofPoint p) (fun _ _ _ _ hs ht => hs.add ht) k

end ScaledPoint

namespace EdwardsPoint

/-- Multiples in the group are multiples of the point. -/
@[simp] theorem coe_nsmul (k : Nat) (p : EdwardsPoint) :
    ((k • p : EdwardsPoint) : Point) = Point.multiple k p :=
  (ScaledPoint.represents_ladder p k).toPoint.symm

/-- The generator of the main subgroup. -/
def generator : EdwardsPoint := ⟨.generator, Point.generator_onCurve⟩

@[simp] theorem coe_generator : (generator : Point) = .generator := rfl

/-- The generator has order exactly `subgroupOrder`. -/
theorem addOrderOf_generator : addOrderOf generator = subgroupOrder := by
  refine addOrderOf_eq_prime (Subtype.ext ?_) fun h => ?_
  · rw [coe_nsmul]
    decide +kernel
  · exact absurd (congrArg Subtype.val h) (by decide +kernel)

end EdwardsPoint

/-- Multiples of points on the curve are on the curve. -/
theorem Point.OnCurve.multiple {p : Point} (hp : p.OnCurve) (k : Nat) :
    (Point.multiple k p).OnCurve := by
  have h := (k • (⟨p, hp⟩ : EdwardsPoint)).2
  rwa [EdwardsPoint.coe_nsmul] at h

end Reactions
