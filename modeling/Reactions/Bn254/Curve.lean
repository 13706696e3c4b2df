import Reactions.Bn254.Tower

/-!
# The BN254 groups

Both groups live on a curve `y² = x³ + b`: the first over the base field with `b = 3`, the second
over `Fq2` with `b = 3 / ξ`. A point belongs to its group if it is on the curve and the group
order annihilates it; on the first curve that holds of every point.

Multiples are computed on triples `(X, Y, Z)` that stand for `(X / Z, Y / Z)`, by an addition law
that covers doubling, opposite points and infinity alike, since no point of either curve has
order two.
-/

namespace Reactions

/-- A point in affine coordinates, or the point at infinity. -/
inductive AffinePoint (K : Type)
  | infinity
  | affine (x y : K)
deriving DecidableEq

/-- A triple that stands for an affine point, or for infinity if its last entry is zero. -/
structure ProjectivePoint (K : Type) where
  x : K
  y : K
  z : K

namespace ProjectivePoint

variable {K : Type} [Zero K] [One K] [Add K] [Sub K] [Mul K]

/-- The triple of a point. -/
def ofAffine : AffinePoint K → ProjectivePoint K
  | .infinity => ⟨0, 1, 0⟩
  | .affine x y => ⟨x, y, 1⟩

/-- The affine point that a triple stands for. -/
def toAffine [Inv K] [DecidableEq K] (p : ProjectivePoint K) : AffinePoint K :=
  if p.z = 0 then .infinity else let w := p.z⁻¹; .affine (p.x * w) (p.y * w)

/-- The complete addition law of the curve whose constant is a third of `b3`. -/
@[specialize] def add (b3 : K) (p q : ProjectivePoint K) : ProjectivePoint K :=
  let xx := p.x * q.x
  let yy := p.y * q.y
  let bzz := b3 * (p.z * q.z)
  let xy := p.x * q.y + p.y * q.x
  let yz := p.y * q.z + p.z * q.y
  let bxz := b3 * (p.x * q.z + p.z * q.x)
  let xx3 := xx + xx + xx
  ⟨xy * (yy - bzz) - yz * bxz, (yy + bzz) * (yy - bzz) + xx3 * bxz, yz * (yy + bzz) + xx3 * xy⟩

end ProjectivePoint

namespace AffinePoint

variable {K : Type} [Zero K] [One K] [Add K] [Sub K] [Mul K] [Neg K] [DecidableEq K]

/-- The point at infinity, or a solution of `y² = x³ + b`. -/
def OnCurve (b : K) : AffinePoint K → Prop
  | .infinity => True
  | .affine x y => y * y = x * x * x + b

instance (b : K) (p : AffinePoint K) : Decidable (p.OnCurve b) :=
  match p with
  | .infinity => .isTrue trivial
  | .affine x y => inferInstanceAs (Decidable (y * y = x * x * x + b))

/-- The opposite point. -/
def opposite : AffinePoint K → AffinePoint K
  | .infinity => .infinity
  | .affine x y => .affine x (-y)

end AffinePoint

/-- A point with coordinates in the base field. -/
abbrev G1Point := AffinePoint BaseField

/-- A point with coordinates in the quadratic extension. -/
abbrev G2Point := AffinePoint Fq2

namespace G1

/-- The constant of the first curve. -/
def constant : BaseField := Residue.ofNat 3

/-- The sum of triples on the first curve. -/
def add : ProjectivePoint BaseField → ProjectivePoint BaseField → ProjectivePoint BaseField :=
  ProjectivePoint.add (Residue.ofNat 9)

/-- The sum of the multiples of points, as a triple. -/
def combination (terms : List (G1Point × Nat)) : ProjectivePoint BaseField :=
  sharedLadder add (.ofAffine .infinity) (terms.map fun term => (.ofAffine term.1, term.2))

/-- Membership of the first group, which is the whole of its curve. -/
def Valid (p : G1Point) : Prop := p.OnCurve constant

instance (p : G1Point) : Decidable (Valid p) :=
  inferInstanceAs (Decidable (p.OnCurve constant))

end G1

namespace G2

/-- The constant of the second curve, `3 / ξ`. -/
def constant : Fq2 := Fq2.ofBase (Residue.ofNat 3) * Fq2.xi⁻¹

/-- Three times the constant. -/
def tripleConstant : Fq2 := constant + constant + constant

/-- The sum of triples on the second curve. -/
def add : ProjectivePoint Fq2 → ProjectivePoint Fq2 → ProjectivePoint Fq2 :=
  ProjectivePoint.add tripleConstant

/-- `k` times a point, as a triple. -/
def multiple (k : Nat) (p : G2Point) : ProjectivePoint Fq2 :=
  ladder add (.ofAffine .infinity) (.ofAffine p) k

/-- Membership of the second group: on the curve, and annihilated by the group order. -/
def Valid (p : G2Point) : Prop :=
  p.OnCurve constant ∧ (multiple scalarOrder p).z = 0

instance (p : G2Point) : Decidable (Valid p) :=
  inferInstanceAs (Decidable (_ ∧ _))

end G2

end Reactions
