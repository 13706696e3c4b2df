import Reactions.Bn254.Curve

/-!
# The ate pairing

The pairing of a point `p` of the first group and `q` of the second evaluates at `p` the function
whose divisor is `T·(q) - (T·q) - (T - 1)·(∞)`, where `T + 1` is the trace of Frobenius, and
raises the value to the power `(q¹² - 1) / r`. That power sends every element of a smaller field
to one, so vertical lines are left out and a line is kept without its denominator. The pairing is
bilinear and not degenerate, so an equation between products of pairings says the same whichever
power of the pairing it is stated for.
-/

namespace Reactions

/-- The trace of Frobenius less one. -/
def millerLength : Nat := 147946756881789318990833708069417712966

/-- A line through images of second-group points under the twist `(x, y) ↦ (x·w², y·w³)`: the
zeros of `rise·y - run·x·w + offset·w³`, up to a factor from `Fq2`. -/
structure Line where
  rise : Fq2
  run : Fq2
  offset : Fq2

namespace Line

/-- The tangent at the point that a triple stands for. -/
def tangent (r : ProjectivePoint Fq2) : Line :=
  let xx := r.x * r.x
  let n := xx + xx + xx
  let yz := r.y * r.z
  let d := yz + yz
  ⟨d * r.z, n * r.z, n * r.x - d * r.y⟩

/-- The chord through the point that a triple stands for and the point `(qx, qy)`. -/
def chord (r : ProjectivePoint Fq2) (qx qy : Fq2) : Line :=
  let n := r.y - qy * r.z
  let d := r.x - qx * r.z
  ⟨d, n, n * qx - d * qy⟩

/-- The value at `(x, y)`. -/
def value (l : Line) (x y : BaseField) : Fq12 :=
  ⟨⟨l.rise * .ofBase y, 0, 0⟩, ⟨-(l.run * .ofBase x), l.offset, 0⟩⟩

end Line

/-- A pair of points under the Miller loop: where to evaluate, the point whose multiples are
formed, and the multiple that is reached. -/
structure MillerTerm where
  x : BaseField
  y : BaseField
  qx : Fq2
  qy : Fq2
  multiple : ProjectivePoint Fq2

namespace MillerTerm

/-- The term at the start of the loop. There is none if either point is infinity, for then the
pairing is one. -/
def start? : G1Point × G2Point → Option MillerTerm
  | (.affine x y, .affine qx qy) => some ⟨x, y, qx, qy, ⟨qx, qy, 1⟩⟩
  | _ => none

/-- The multiple doubled. -/
def double (t : MillerTerm) : MillerTerm :=
  { t with multiple := G2.add t.multiple t.multiple }

/-- The multiple with the point added. -/
def addPoint (t : MillerTerm) : MillerTerm :=
  { t with multiple := G2.add t.multiple ⟨t.qx, t.qy, 1⟩ }

/-- Takes the tangent of every term into account. -/
def tangents (terms : List MillerTerm) (value : Fq12) : Fq12 :=
  terms.foldl (fun f t => f * (Line.tangent t.multiple).value t.x t.y) value

/-- Takes the chord of every term into account. -/
def chords (terms : List MillerTerm) (value : Fq12) : Fq12 :=
  terms.foldl (fun f t => f * (Line.chord t.multiple t.qx t.qy).value t.x t.y) value

end MillerTerm

/-- The Miller loop from given terms and a given value, over the digits that are left. -/
def millerLoop (terms : List MillerTerm) (value : Fq12) : List Bool → Fq12
  | [] => value
  | digit :: digits =>
    let value := MillerTerm.tangents terms (value * value)
    let terms := terms.map MillerTerm.double
    if digit then millerLoop (terms.map MillerTerm.addPoint) (MillerTerm.chords terms value) digits
    else millerLoop terms value digits

/-- The product of the Miller functions of the pairs of points. -/
def millerProduct (pairs : List (G1Point × G2Point)) : Fq12 :=
  millerLoop (pairs.filterMap MillerTerm.start?) 1 ((binaryDigits millerLength).drop 1)

/-- The exponent that is left of `(q¹² - 1) / r` after the powers `q⁶ - 1` and `q² + 1`. -/
def hardExponent : Nat := (Nat.pow baseOrder 4 - Nat.pow baseOrder 2 + 1) / scalarOrder

/-- The power `(q¹² - 1) / r`. Its last factor is split into its three digits in base `q`, and
each digit is applied to the power of `q` that it stands at. -/
def finalPower (f : Fq12) : Fq12 :=
  let f := f.conjugate * f⁻¹
  let f := f.frobenius.frobenius * f
  sharedLadder (· * ·) 1 [
    (f, hardExponent % baseOrder),
    (f.frobenius, hardExponent / baseOrder % baseOrder),
    (f.frobenius.frobenius, hardExponent / Nat.pow baseOrder 2)]

/-- Whether the product of the pairings of the given pairs of points is one. -/
def pairingProductIsOne (pairs : List (G1Point × G2Point)) : Bool :=
  finalPower (millerProduct pairs) == 1

end Reactions
