import Reactions.Arithmetic.Fields

/-!
# The tower of extension fields

The pairing takes its values in the field of degree twelve over the base field, built as
`Fq2 = Fq[u] / (u² + 1)`, `Fq6 = Fq2[v] / (v³ - ξ)` with `ξ = 9 + u`, and
`Fq12 = Fq6[w] / (w² - v)`. Inverses come from the norm to the field below.
-/

namespace Reactions

/-- `c0 + c1·u` with `u² = -1`. -/
structure Fq2 where
  c0 : BaseField
  c1 : BaseField
deriving DecidableEq

namespace Fq2

instance : Zero Fq2 := ⟨⟨0, 0⟩⟩
instance : One Fq2 := ⟨⟨1, 0⟩⟩
instance : Add Fq2 := ⟨fun a b => ⟨a.c0 + b.c0, a.c1 + b.c1⟩⟩
instance : Sub Fq2 := ⟨fun a b => ⟨a.c0 - b.c0, a.c1 - b.c1⟩⟩
instance : Neg Fq2 := ⟨fun a => ⟨-a.c0, -a.c1⟩⟩
instance : Mul Fq2 :=
  ⟨fun a b => ⟨.sumOfProducts a.c0 b.c0 (-a.c1) b.c1, .sumOfProducts a.c0 b.c1 a.c1 b.c0⟩⟩

/-- The conjugate over the norm. -/
instance : Inv Fq2 :=
  ⟨fun a => let n := (a.c0 * a.c0 + a.c1 * a.c1)⁻¹; ⟨a.c0 * n, -a.c1 * n⟩⟩

/-- An element of the base field. -/
def ofBase (a : BaseField) : Fq2 := ⟨a, 0⟩

/-- The element `ξ` whose cube root is `v`. -/
def xi : Fq2 := ⟨Residue.ofNat 9, 1⟩

/-- The product with `ξ`. -/
def mulXi (a : Fq2) : Fq2 :=
  ⟨.ofNat (9 * a.c0.val + (baseOrder - a.c1.val)), .ofNat (9 * a.c1.val + a.c0.val)⟩

/-- The image under the automorphism of order two, which is the power `q`. -/
def conjugate (a : Fq2) : Fq2 := ⟨a.c0, -a.c1⟩

/-- The root `ξ^((q - 1) / 6)` of one: the power `q` sends `w` to its product with this. -/
def twist : Fq2 := ladder (· * ·) 1 xi ((baseOrder - 1) / 6)

end Fq2

/-- `c0 + c1·v + c2·v²` with `v³ = ξ`. -/
structure Fq6 where
  c0 : Fq2
  c1 : Fq2
  c2 : Fq2
deriving DecidableEq

namespace Fq6

instance : Zero Fq6 := ⟨⟨0, 0, 0⟩⟩
instance : One Fq6 := ⟨⟨1, 0, 0⟩⟩
instance : Add Fq6 := ⟨fun a b => ⟨a.c0 + b.c0, a.c1 + b.c1, a.c2 + b.c2⟩⟩
instance : Sub Fq6 := ⟨fun a b => ⟨a.c0 - b.c0, a.c1 - b.c1, a.c2 - b.c2⟩⟩
instance : Neg Fq6 := ⟨fun a => ⟨-a.c0, -a.c1, -a.c2⟩⟩
instance : Mul Fq6 := ⟨fun a b =>
  let d0 := a.c0 * b.c0
  let d1 := a.c1 * b.c1
  let d2 := a.c2 * b.c2
  ⟨d0 + ((a.c1 + a.c2) * (b.c1 + b.c2) - d1 - d2).mulXi,
    (a.c0 + a.c1) * (b.c0 + b.c1) - d0 - d1 + d2.mulXi,
    (a.c0 + a.c2) * (b.c0 + b.c2) - d0 - d2 + d1⟩⟩

instance : Inv Fq6 := ⟨fun a =>
  let t0 := a.c0 * a.c0 - (a.c1 * a.c2).mulXi
  let t1 := (a.c2 * a.c2).mulXi - a.c0 * a.c1
  let t2 := a.c1 * a.c1 - a.c0 * a.c2
  let n := (a.c0 * t0 + (a.c2 * t1 + a.c1 * t2).mulXi)⁻¹
  ⟨t0 * n, t1 * n, t2 * n⟩⟩

/-- The product with `v`. -/
def mulV (a : Fq6) : Fq6 := ⟨a.c2.mulXi, a.c0, a.c1⟩

/-- The product with an element of the field below. -/
def scale (k : Fq2) (a : Fq6) : Fq6 := ⟨k * a.c0, k * a.c1, k * a.c2⟩

/-- The power `q`. -/
def frobenius (a : Fq6) : Fq6 :=
  let t2 := Fq2.twist * Fq2.twist
  ⟨a.c0.conjugate, t2 * a.c1.conjugate, t2 * t2 * a.c2.conjugate⟩

end Fq6

/-- `c0 + c1·w` with `w² = v`. -/
structure Fq12 where
  c0 : Fq6
  c1 : Fq6
deriving DecidableEq

namespace Fq12

instance : Zero Fq12 := ⟨⟨0, 0⟩⟩
instance : One Fq12 := ⟨⟨1, 0⟩⟩
instance : Mul Fq12 := ⟨fun a b =>
  let d0 := a.c0 * b.c0
  let d1 := a.c1 * b.c1
  ⟨d0 + d1.mulV, (a.c0 + a.c1) * (b.c0 + b.c1) - d0 - d1⟩⟩

/-- The image under the automorphism of order two, which is the power `q⁶`. -/
def conjugate (a : Fq12) : Fq12 := ⟨a.c0, -a.c1⟩

instance : Inv Fq12 := ⟨fun a =>
  let n := (a.c0 * a.c0 - (a.c1 * a.c1).mulV)⁻¹
  ⟨a.c0 * n, -(a.c1 * n)⟩⟩

/-- The power `q`. -/
def frobenius (a : Fq12) : Fq12 := ⟨a.c0.frobenius, a.c1.frobenius.scale Fq2.twist⟩

end Fq12

end Reactions
