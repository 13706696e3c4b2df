import Reactions.Arithmetic.Fields
import Reactions.Bytes.Bytes32

/-!
# BabyJubJub points

Points of the twisted Edwards curve `x² + y² = 1 + d x² y²` over the scalar field, in affine
coordinates. `d` is no square, so the addition law is complete: on points of the curve no
denominator vanishes, whether they lie in the main subgroup or not.

Multiples are computed on triples `(X, Y, Z)` that stand for `(X / Z, Y / Z)`, which need one
inversion at the end rather than two for every addition.
-/

namespace Reactions

/-- An affine point. Only those with `OnCurve` belong to the curve. -/
structure Point where
  x : ScalarField
  y : ScalarField
deriving DecidableEq

/-- Why coordinates name no point. -/
inductive PointError
  | nonCanonicalCoordinate
  | notOnCurve
deriving DecidableEq, Repr

/-- The wording of a refused point. -/
def PointError.message : PointError → String
  | .nonCanonicalCoordinate => "coordinate is not a canonical field element"
  | .notOnCurve => "point is not on the curve"

namespace Point

/-- The coefficient `d` of the curve. -/
def coefficient : ScalarField :=
  Residue.ofNat 9706598848417545097372247223557719406784115219466060233080913168975159366771

/-- The equation of the curve. -/
def OnCurve (p : Point) : Prop :=
  p.x * p.x + p.y * p.y = 1 + coefficient * (p.x * p.x) * (p.y * p.y)

instance (p : Point) : Decidable p.OnCurve :=
  inferInstanceAs (Decidable (_ = _))

/-- The neutral element `(0, 1)`. -/
def identity : Point := ⟨0, 1⟩

instance : Inhabited Point := ⟨identity⟩

/-- The generator of the main subgroup. -/
def generator : Point where
  x := Residue.ofNat
    19698561148652590122159747500897617769866003486955115824547446575314762165298
  y := Residue.ofNat
    19298250018296453272277890825869354524455968081175474282777126169995084727839

/-- The complete addition law. -/
protected def add (p q : Point) : Point :=
  let xx := p.x * q.x
  let yy := p.y * q.y
  let dxy := coefficient * xx * yy
  ⟨(p.x * q.y + p.y * q.x) * (1 + dxy)⁻¹, (yy - xx) * (1 - dxy)⁻¹⟩

/-- The opposite point. -/
protected def neg (p : Point) : Point := ⟨-p.x, p.y⟩

instance : Add Point := ⟨Point.add⟩
instance : Neg Point := ⟨Point.neg⟩
instance : Sub Point := ⟨fun p q => p + -q⟩

/-- The point with the given coordinates, unless it is off the curve. -/
def ofCoordinates (x y : ScalarField) : Except PointError Point :=
  if (⟨x, y⟩ : Point).OnCurve then .ok ⟨x, y⟩ else .error .notOnCurve

/-- The point whose coordinates are written as two canonical byte strings. -/
def ofBytes (x y : Bytes32) : Except PointError Point :=
  match Residue.ofBytes? x, Residue.ofBytes? y with
  | some x, some y => ofCoordinates x y
  | _, _ => .error .nonCanonicalCoordinate

/-- The coordinates, in the order in which they enter a statement. -/
def coordinates (p : Point) : List ScalarField := [p.x, p.y]

end Point

/-- A triple that stands for the point `(X / Z, Y / Z)`. -/
structure ScaledPoint where
  x : ScalarField
  y : ScalarField
  z : ScalarField

namespace ScaledPoint

/-- The triple with denominator one. -/
def ofPoint (p : Point) : ScaledPoint := ⟨p.x, p.y, 1⟩

/-- The point a triple stands for. -/
def toPoint (p : ScaledPoint) : Point :=
  let w := p.z⁻¹
  ⟨p.x * w, p.y * w⟩

/-- The complete addition law, cleared of its denominators. -/
protected def add (p q : ScaledPoint) : ScaledPoint :=
  let a := p.z * q.z
  let b := a * a
  let c := p.x * q.x
  let d := p.y * q.y
  let e := Point.coefficient * c * d
  let f := b - e
  let g := b + e
  ⟨a * f * (p.x * q.y + p.y * q.x), a * g * (d - c), f * g⟩

instance : Add ScaledPoint := ⟨ScaledPoint.add⟩

end ScaledPoint

/-- `k` times a point. -/
def Point.multiple (k : Nat) (p : Point) : Point :=
  (ladder (· + ·) (ScaledPoint.ofPoint Point.identity) (ScaledPoint.ofPoint p) k).toPoint

end Reactions
