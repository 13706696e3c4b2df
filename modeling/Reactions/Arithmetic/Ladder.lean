/-!
# Binary ladders

Powers and multiples are computed by one binary ladder: read the exponent from its highest
binary digit down, double at every digit and add the base at every one. The ladder asks nothing
of its operation, so field powers, curve multiples and pairing exponents all share it. A product
of several powers reads all its exponents in step, so that its factors share the doublings.
-/

namespace Reactions

/-- The lowest `count` binary digits of `n`, lowest first. -/
def lowDigits : (count : Nat) → (n : Nat) → List Bool
  | 0, _ => []
  | count + 1, n => (n % 2 == 1) :: lowDigits count (n / 2)

/-- The binary digits of `n`, highest first. Zero is written with one digit. -/
def binaryDigits (n : Nat) : List Bool :=
  (lowDigits (n.log2 + 1) n).reverse

/-- One step of a ladder: double what was reached, and add the base at a set digit. -/
@[inline] def ladderStep {α : Type} (op : α → α → α) (base acc : α) (digit : Bool) : α :=
  if digit then op (op acc acc) base else op acc acc

/-- `base` combined with itself `n` times under `op`, starting from `unit`. -/
@[specialize] def ladder {α : Type} (op : α → α → α) (unit base : α) (n : Nat) : α :=
  (binaryDigits n).foldl (ladderStep op base) unit

/-- The length of the longest of the binary numbers. -/
def binaryWidth (ns : List Nat) : Nat :=
  ns.foldl (fun width n => max width (n.log2 + 1)) 0

/-- The combination under `op` of all the bases, each taken as often as its number says. -/
@[specialize] def sharedLadder {α : Type} (op : α → α → α) (unit : α) (terms : List (α × Nat)) :
    α :=
  (List.range (binaryWidth (terms.map Prod.snd))).foldr (fun i acc =>
    terms.foldl (fun acc term => if term.2.testBit i then op acc term.1 else acc) (op acc acc)) unit

end Reactions
