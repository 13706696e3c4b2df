import Reactions.Poseidon.Grain
import Reactions.Arithmetic.Fields

/-!
# The Poseidon permutation

A round adds constants, raises elements to a fixed power and multiplies by a Cauchy matrix. The
compression of two field elements that every Merkle node uses is the second element of the
permutation of `[0, left, right]`: a sponge with rate two, absorbed and squeezed once.
-/

namespace Reactions

/-- The constants of a permutation over the field of `n` elements. -/
structure PoseidonParams (n : Nat) where
  shape : PoseidonShape
  /-- One row of constants for every round. -/
  constants : List (List (Residue n))
  /-- The rows of the mixing matrix. -/
  matrix : List (List (Residue n))

namespace PoseidonShape

/-- The shapes in use, which are those of the rates two, three and four. -/
def ofRate? (fieldBits rate : Nat) : Option PoseidonShape :=
  match rate with
  | 2 => some ⟨fieldBits, 2, 17, 8, 31⟩
  | 3 => some ⟨fieldBits, 3, 5, 8, 56⟩
  | 4 => some ⟨fieldBits, 4, 5, 8, 56⟩
  | _ => none

/-- Every round, full or partial. -/
def rounds (shape : PoseidonShape) : Nat := shape.fullRounds + shape.partialRounds

end PoseidonShape

namespace PoseidonParams

variable {n : Nat} [Modulus n]

/-- The constants that the generator yields for a shape: those of the rounds, each below the
modulus, and then two lists whose pairwise sums are inverted for the matrix. -/
def ofShape (shape : PoseidonShape) : PoseidonParams n :=
  let width := shape.rate + 1
  let (constants, g) :=
    (Grain.ofShape shape).rows (Grain.belowWithin shape.fieldBits 200) width shape.rounds
  let (xs, g) := g.list (Grain.reduced shape.fieldBits) width
  let (ys, _) := g.list (Grain.reduced shape.fieldBits) width
  ⟨shape, constants, xs.map fun x => ys.map fun y => (x + y)⁻¹⟩

/-- The constants for a rate, over a field of the given size. -/
def ofRate? (fieldBits rate : Nat) : Option (PoseidonParams n) :=
  (PoseidonShape.ofRate? fieldBits rate).map ofShape

/-- The product of the mixing matrix and a state. -/
def mix (params : PoseidonParams n) (state : List (Residue n)) : List (Residue n) :=
  params.matrix.map fun row => (List.zipWith (· * ·) row state).foldl (· + ·) 0

/-- A round with the power on every element. -/
def fullRound (params : PoseidonParams n) (state constants : List (Residue n)) :
    List (Residue n) :=
  params.mix ((List.zipWith (· + ·) state constants).map (· ^ params.shape.alpha))

/-- A round with the power on the first element alone. -/
def partialRound (params : PoseidonParams n) (state constants : List (Residue n)) :
    List (Residue n) :=
  match List.zipWith (· + ·) state constants with
  | x :: rest => params.mix (x ^ params.shape.alpha :: rest)
  | [] => []

/-- Half of the full rounds, the partial rounds, and the other half. -/
def permute (params : PoseidonParams n) (state : List (Residue n)) : List (Residue n) :=
  let half := params.shape.fullRounds / 2
  let early := params.constants.take half
  let middle := (params.constants.drop half).take params.shape.partialRounds
  let late := params.constants.drop (half + params.shape.partialRounds)
  let state := early.foldl params.fullRound state
  let state := middle.foldl params.partialRound state
  late.foldl params.fullRound state

end PoseidonParams

/-- The constants of the compression, which has rate two over the scalar field. -/
def compressionParams : PoseidonParams scalarOrder :=
  .ofShape ⟨254, 2, 17, 8, 31⟩

/-- The compression of two field elements into one. -/
def poseidon2 (left right : ScalarField) : ScalarField :=
  (compressionParams.permute [0, left, right]).getD 1 0

end Reactions
