import Reactions.Arithmetic.Residue

/-!
# The Grain generator

The constants of the Poseidon permutation are drawn from a linear feedback register of eighty
bits that is seeded with the permutation's shape. The register is self-shrinking: its output
comes in pairs, and the second bit of a pair counts only if the first is set.
-/

namespace Reactions

/-- The shape of a Poseidon permutation over a field of `fieldBits` bits: one capacity element
and `rate` others, `fullRounds` rounds with the power `alpha` on every element and
`partialRounds` rounds with it on the first alone. -/
structure PoseidonShape where
  fieldBits : Nat
  rate : Nat
  alpha : Nat
  fullRounds : Nat
  partialRounds : Nat
deriving Repr

/-- The register, its oldest bit highest. -/
structure Grain where
  bits : BitVec 80

namespace Grain

/-- The feedback bit: the sum of the bits 0, 13, 23, 38, 51 and 62, counted from the oldest. -/
def feedback (g : Grain) : Bool :=
  g.bits.getMsbD 62 ^^ g.bits.getMsbD 51 ^^ g.bits.getMsbD 38 ^^ g.bits.getMsbD 23 ^^
    g.bits.getMsbD 13 ^^ g.bits.getMsbD 0

/-- Shifts the feedback bit in, which is also what the register puts out. -/
def step (g : Grain) : Bool × Grain :=
  let bit := g.feedback
  (bit, ⟨g.bits.shiftConcat bit⟩)

/-- Steps whose output is thrown away. -/
def warmUp : (count : Nat) → Grain → Grain
  | 0, g => g
  | count + 1, g => warmUp count g.step.2

/-- The register for a shape: a set field mark, the power mark, the sizes of the shape, ones,
and a warm-up of 160 steps. -/
def ofShape (shape : PoseidonShape) : Grain :=
  warmUp 160 ⟨(1#2 ++ 0#4 ++ BitVec.ofNat 12 shape.fieldBits ++ BitVec.ofNat 12 (shape.rate + 1) ++
    BitVec.ofNat 10 shape.fullRounds ++ BitVec.ofNat 10 shape.partialRounds ++
    BitVec.allOnes 30).cast (by decide)⟩

/-- The next bit that counts. Pairs that start with a zero are skipped, at most `pairs` of them:
a register that is not zero leaves such a run before its eighty bits have passed. -/
def bitWithin : (pairs : Nat) → Grain → Bool × Grain
  | 0, g => g.step
  | pairs + 1, g =>
    let (keep, g) := g.step
    let (bit, g) := g.step
    if keep then (bit, g) else bitWithin pairs g

/-- Reads `count` bits as the digits of a number, highest first, below those of `acc`. -/
def number : (count : Nat) → (acc : Nat) → Grain → Nat × Grain
  | 0, acc, g => (acc, g)
  | count + 1, acc, g =>
    let (bit, g) := g.bitWithin 160
    number count (2 * acc + bit.toNat) g

variable {n : Nat} [Modulus n]

/-- A number reduced into the field. -/
def reduced (fieldBits : Nat) (g : Grain) : Residue n × Grain :=
  let (k, g) := g.number fieldBits 0
  (Residue.ofNat k, g)

/-- The next number that is below the modulus, at most `draws` others being thrown away. -/
def belowWithin (fieldBits : Nat) : (draws : Nat) → Grain → Residue n × Grain
  | 0, g => g.reduced fieldBits
  | draws + 1, g =>
    let (k, g) := g.number fieldBits 0
    if h : k < n then (⟨k, h⟩, g) else belowWithin fieldBits draws g

/-- A list of field elements, each drawn by `draw`. -/
def list (draw : Grain → Residue n × Grain) : (count : Nat) → Grain → List (Residue n) × Grain
  | 0, g => ([], g)
  | count + 1, g =>
    let (x, g) := draw g
    let (xs, g) := list draw count g
    (x :: xs, g)

/-- A list of rows of `width` elements. -/
def rows (draw : Grain → Residue n × Grain) (width : Nat) :
    (count : Nat) → Grain → List (List (Residue n)) × Grain
  | 0, g => ([], g)
  | count + 1, g =>
    let (row, g) := list draw width g
    let (rest, g) := rows draw width count g
    (row :: rest, g)

end Grain

end Reactions
