import Reactions.Bn254.Pairing
import Reactions.Groth16.Proof
import Reactions.Groth16.Statement
import Reactions.Json.Reader

/-!
# Verification keys

A key of the Groth16 system, bound to the circuit version that it verifies. It has one point for
the constant term and one for every public input, and a proof is good if the pairing equation

`e(A, B) = e(α, β) · e(Σ inputᵢ · ICᵢ, γ) · e(C, δ)`

holds.
-/

namespace Reactions

/-- A Groth16 verification key. -/
structure VerificationKey where
  version : String
  alpha : G1Point
  beta : G2Point
  gamma : G2Point
  delta : G2Point
  ic : List G1Point
deriving DecidableEq

/-- Why bytes are no key of the binary format. -/
inductive CacheError
  /-- The bytes end early, or cannot be read at all. -/
  | ended
  /-- A value that is not canonical or a point outside its group. -/
  | invalidData
  /-- A flag byte with both flags set. -/
  | unexpectedFlags
deriving DecidableEq, Repr

/-- Why there is no key. -/
inductive KeyError
  /-- The file cannot be read. -/
  | unreadable
  /-- The document is not one of a key. -/
  | document (error : ReadError)
  /-- The bytes are not those of a key. -/
  | cache (error : CacheError)
  /-- A text that is no decimal number. -/
  | coordinate (text : String)
  /-- The named point is not one of its group. -/
  | point (name : String)
  /-- There are more or fewer input points than the circuit has inputs. -/
  | inputCount (actual : Nat)
deriving DecidableEq, Repr

namespace VerificationKey

/-- The number of input points that a key must have. -/
def icCount : Nat := Statement.inputCount + 1

/-- All points belong to their groups. -/
def Valid (key : VerificationKey) : Prop :=
  G1.Valid key.alpha ∧ G2.Valid key.beta ∧ G2.Valid key.gamma ∧ G2.Valid key.delta ∧
    ∀ p ∈ key.ic, G1.Valid p

/-- The combination of the input points that the public inputs ask for. -/
def combine (constant : G1Point) (points : List G1Point) (inputs : List ScalarField) : G1Point :=
  (G1.combination ((constant, 1) :: points.zip (inputs.map Residue.val))).toAffine

/-- Whether the pairing equation holds, unless the key has not one point for every input. -/
def check? (key : VerificationKey) (proof : Proof) (inputs : List ScalarField) : Option Bool :=
  match key.ic with
  | [] => none
  | constant :: points =>
    if points.length = inputs.length then
      some <| pairingProductIsOne [
        (proof.a, proof.b),
        ((combine constant points inputs).opposite, key.gamma),
        (proof.c.opposite, key.delta),
        (key.alpha.opposite, key.beta)]
    else none

end VerificationKey

/-- The wording of a fault in the binary format, where it has one. -/
def CacheError.message? : CacheError → Option String
  | .ended => none
  | .invalidData => some "binary verification key: the input buffer contained invalid data"
  | .unexpectedFlags => some "binary verification key: the call expects empty flags"

/-- The wording of a missing key, where it has one. -/
def KeyError.message? : KeyError → Option String
  | .unreadable => none
  | .document e => e.message?
  | .cache e => e.message?
  | .coordinate text => some (text ++ " is not a canonical decimal field element")
  | .point name => some (name ++ " is not a valid curve point")
  | .inputCount actual =>
    some ("key has " ++ Decimal.write actual ++ " IC points, the reaction circuit needs " ++
      Decimal.write VerificationKey.icCount)

end Reactions
