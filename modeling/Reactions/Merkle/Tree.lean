import Reactions.Merkle.Level
import Reactions.Poseidon.Permutation

/-!
# Membership trees

A feed's members are the first leaves of a tree of depth twenty, in the order in which they were
registered; all other leaves are zero. `root` is the root of that tree, `Path.ofLeaves?` the
siblings that lead from one leaf to it, and `Path.root` the root they lead to from any leaf.
-/

namespace Reactions.Merkle

/-- The depth of every membership tree. -/
abbrev treeDepth : Nat := 20

/-- The number of leaves of a tree. -/
def treeCapacity : Nat := Nat.pow 2 treeDepth

/-- The roots of the empty subtrees of the heights zero to twenty. -/
def zeroValues : List ScalarField := emptyRoots poseidon2 (treeDepth + 1) 0

/-- The empty subtree root of a height. -/
def zeroValue (height : Nat) : ScalarField := zeroValues.getD height 0

/-- The levels of the tree over `leaves`, from the leaves to the root. -/
def levelsOf (leaves : List ScalarField) : List (List ScalarField) :=
  levels poseidon2 (zeroValues.take treeDepth) leaves

/-- The root of the tree whose first leaves are `leaves`. -/
def root (leaves : List ScalarField) : ScalarField :=
  ((levelsOf leaves).getD treeDepth []).headD (zeroValue treeDepth)

/-- A witness of membership: the sibling on every level, from the leaf up, and on which side the
node stands there. -/
structure Path where
  elements : Vector ScalarField treeDepth
  indices : Vector UInt8 treeDepth
deriving DecidableEq

namespace Path

/-- The root that the path leads to from `leaf`. -/
def root (p : Path) (leaf : ScalarField) : ScalarField :=
  (p.elements.toList.zip p.indices.toList).foldl
    (fun node step => join poseidon2 node step.1 step.2) leaf

/-- The position of the leaf, made of the indices as binary digits, lowest first. -/
def leafIndex (p : Path) : Nat :=
  (p.indices.toList.zipIdx).foldl (fun acc bit => acc ||| (bit.1.toNat <<< bit.2)) 0

/-- The path that is made of the steps on all levels. -/
def ofSteps (steps : List (ScalarField × UInt8)) (h : steps.length = treeDepth) : Path where
  elements := ⟨(steps.map Prod.fst).toArray, by simpa using h⟩
  indices := ⟨(steps.map Prod.snd).toArray, by simpa using h⟩

/-- The path of the leaf at `index`, if there is one. -/
def ofLeaves? (leaves : List ScalarField) (index : Nat) : Option Path :=
  if index < leaves.length then
    some (ofSteps (steps poseidon2 (zeroValues.take treeDepth) leaves index) (by
      rw [length_steps, List.length_take, zeroValues, length_emptyRoots]
      decide))
  else
    none

end Path

end Reactions.Merkle
