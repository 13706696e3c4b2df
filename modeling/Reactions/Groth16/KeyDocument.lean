import Reactions.Groth16.Key
import Reactions.Json.Record

/-!
# Verification keys as documents

The JSON form of a key has decimal coordinates. A point is written projectively, and a last
coordinate of `"0"` marks infinity; any other last coordinate counts as one. Of several faults
the input points come first, then their number, and then the four other points in order.
-/

namespace Reactions

/-- The points of a key as they stand in a document. -/
structure KeyDocument where
  alpha : List String
  beta : List (List String)
  gamma : List (List String)
  delta : List (List String)
  ic : List (List String)

namespace KeyDocument

open Fields in
/-- Reads the document of a key. -/
def reader : Reader KeyDocument :=
  record (mk <$> required "vk_alpha_1" (.list .string)
    <*> required "vk_beta_2" (.list (.list .string))
    <*> required "vk_gamma_2" (.list (.list .string))
    <*> required "vk_delta_2" (.list (.list .string))
    <*> required "IC" (.list (.list .string)))

/-- The number of a run of digits in which underscores may stand after the first. -/
def digits? : List Char → Option Nat
  | [] => none
  | c :: rest =>
    if Decimal.isDigit c ∧ rest.all (fun c => Decimal.isDigit c || c = '_') then
      some (Decimal.ofDigits (c :: rest.filter Decimal.isDigit))
    else none

/-- The class of a decimal number with at most one sign. -/
def decimal? (text : String) : Option BaseField :=
  match text.toList with
  | '-' :: rest => (digits? rest).map fun n => -Residue.ofNat n
  | '+' :: rest => (digits? rest).map Residue.ofNat
  | cs => (digits? cs).map Residue.ofNat

/-- Reads a coordinate. -/
def coordinate (text : String) : Except KeyError BaseField :=
  match decimal? text with
  | some x => .ok x
  | none => .error (.coordinate text)

/-- Reads a point of the first group, `name` being what it is called in a fault. -/
def g1 (name : String) : List String → Except KeyError G1Point
  | [x, y, z] => do
    if z = "0" then return .infinity
    let p := AffinePoint.affine (← coordinate x) (← coordinate y)
    if G1.Valid p then return p else throw (.point name)
  | _ => .error (.point name)

/-- Reads a coordinate of the second group. -/
def pair (name : String) : List String → Except KeyError Fq2
  | [c0, c1] => do return ⟨← coordinate c0, ← coordinate c1⟩
  | _ => .error (.point name)

/-- Reads a point of the second group. -/
def g2 (name : String) : List (List String) → Except KeyError G2Point
  | [x, y, z] => do
    if z.all (· = "0") then return .infinity
    let p := AffinePoint.affine (← pair name x) (← pair name y)
    if G2.Valid p then return p else throw (.point name)
  | _ => .error (.point name)

/-- The key of a document. -/
def toKey (doc : KeyDocument) (version : String) : Except KeyError VerificationKey := do
  let ic ← doc.ic.mapM (g1 "IC")
  if ic.length ≠ VerificationKey.icCount then throw (.inputCount ic.length)
  return {
    version
    alpha := ← g1 "vk_alpha_1" doc.alpha
    beta := ← g2 "vk_beta_2" doc.beta
    gamma := ← g2 "vk_gamma_2" doc.gamma
    delta := ← g2 "vk_delta_2" doc.delta
    ic }

end KeyDocument

/-- Reads the key of a circuit version from its document. -/
def VerificationKey.ofDocument (version text : String) : Except KeyError VerificationKey := do
  let doc ← (KeyDocument.reader.document text).mapError .document
  doc.toKey version

end Reactions
