import Reactions.Bn254.Curve
import Reactions.Bytes.Bytes32

/-!
# Proofs and their layout

A Groth16 proof is three points, `A` and `C` of the first group and `B` of the second. On the
wire it is eight words of thirty-two bytes: the coordinates of `A`, of `B` with the higher
component first, and of `C`. All-zero coordinates stand for infinity. Reading checks every
coordinate to be canonical and every point to be in its group.
-/

namespace Reactions

/-- A Groth16 proof. -/
structure Proof where
  a : G1Point
  b : G2Point
  c : G1Point
deriving DecidableEq

/-- The number of bytes of a written proof. -/
def proofBytes : Nat := 256

/-- Splits bytes into `count` words of thirty-two, if they are exactly as many. -/
def Bytes32.split? : (count : Nat) → Bytes → Option (List Bytes32)
  | 0, bytes => if bytes.isEmpty then some [] else none
  | count + 1, bytes => do
    let word ← Bytes32.ofList? (bytes.take 32)
    let rest ← split? count (bytes.drop 32)
    return word :: rest

namespace G1

/-- The point with the given coordinate words. -/
def ofWords? (x y : Bytes32) : Option G1Point := do
  let x ← Residue.ofBytes? x
  let y ← Residue.ofBytes? y
  if x = 0 ∧ y = 0 then return .infinity
  guard (Valid (.affine x y))
  return .affine x y

/-- The coordinate words of a point. -/
def toWords : G1Point → List Bytes32
  | .infinity => [(0 : BaseField).toBytes, (0 : BaseField).toBytes]
  | .affine x y => [x.toBytes, y.toBytes]

end G1

namespace G2

/-- The point with the given coordinate words, the higher component of each coordinate first. -/
def ofWords? (x1 x0 y1 y0 : Bytes32) : Option G2Point := do
  let x : Fq2 := ⟨← Residue.ofBytes? x0, ← Residue.ofBytes? x1⟩
  let y : Fq2 := ⟨← Residue.ofBytes? y0, ← Residue.ofBytes? y1⟩
  if x = 0 ∧ y = 0 then return .infinity
  guard (Valid (.affine x y))
  return .affine x y

/-- The coordinate words of a point. -/
def toWords : G2Point → List Bytes32
  | .infinity => List.replicate 4 (0 : BaseField).toBytes
  | .affine x y => [x.c1.toBytes, x.c0.toBytes, y.c1.toBytes, y.c0.toBytes]

end G2

namespace Proof

/-- The written form of a proof. -/
def encode (p : Proof) : Bytes :=
  (G1.toWords p.a ++ G2.toWords p.b ++ G1.toWords p.c).flatMap Bytes32.toList

/-- Reads a proof. -/
def decode? (bytes : Bytes) : Option Proof := do
  let [ax, ay, bx1, bx0, by1, by0, cx, cy] ← Bytes32.split? 8 bytes | none
  return ⟨← G1.ofWords? ax ay, ← G2.ofWords? bx1 bx0 by1 by0, ← G1.ofWords? cx cy⟩

/-- All three points belong to their groups. -/
def Valid (p : Proof) : Prop := G1.Valid p.a ∧ G2.Valid p.b ∧ G1.Valid p.c

end Proof

end Reactions
