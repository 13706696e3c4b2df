import Reactions.Proofs.Merkle.FullTree
import Reactions.Proofs.Poseidon.Numerals

/-!
# Trees with one or two leaves

As soon as a level has a single node, the way to the root only meets empty subtrees
(`getD_levels_singleton`), so that the roots over one leaf and over two are reached by a fold
(`root_singleton`, `root_pair`). Whether a second leaf changes the root can then be computed on
numerals (`sameRoot_iff`), and for the leaves one and two it does (`root_one_ne_root_one_two`).
-/

namespace Reactions.Merkle

/-- A lone node is combined with the empty subtree of every height above it. -/
theorem getD_levels_singleton {α : Type} (combine : α → α → α) (zeros : List α) (node : α) :
    (levels combine zeros [node]).getD zeros.length [] = [zeros.foldl combine node] := by
  induction zeros generalizing node with
  | nil => rfl
  | cons zero zeros ih => exact ih (combine node zero)

/-- The empty subtrees from the lowest height on. -/
def emptySubtrees : List ScalarField := emptyRoots poseidon2 treeDepth 0

/-- The empty subtrees from the next height on. -/
def emptyPairs : List ScalarField := emptyRoots poseidon2 (treeDepth - 1) (poseidon2 0 0)

/-- The empty subtrees below the root are those that are written out. -/
theorem take_zeroValues : zeroValues.take treeDepth = emptySubtrees :=
  take_emptyRoots poseidon2 0 treeDepth 1

/-- The first of them is a leaf. -/
theorem emptySubtrees_eq : emptySubtrees = 0 :: emptyPairs := rfl

/-- The root of one leaf is reached by adding an empty subtree at each height. -/
theorem root_singleton (leaf : ScalarField) : root [leaf] = emptySubtrees.foldl poseidon2 leaf := by
  have hlevel := getD_levels_singleton poseidon2 emptySubtrees leaf
  have hlength : emptySubtrees.length = treeDepth := length_emptyRoots poseidon2 treeDepth 0
  rw [hlength] at hlevel
  rw [root, levelsOf, take_zeroValues, hlevel, List.headD_cons]

/-- The root of two leaves likewise, from their parent on. -/
theorem root_pair (left right : ScalarField) :
    root [left, right] = emptyPairs.foldl poseidon2 (poseidon2 left right) := by
  have hlevel := getD_levels_singleton poseidon2 emptyPairs (poseidon2 left right)
  have hlength : emptyPairs.length = treeDepth - 1 := length_emptyRoots poseidon2 _ _
  have hlevels : levels poseidon2 emptySubtrees [left, right] =
      [left, right] :: levels poseidon2 emptyPairs [poseidon2 left right] := rfl
  have htop : (levels poseidon2 emptySubtrees [left, right]).getD treeDepth [] =
      (levels poseidon2 emptyPairs [poseidon2 left right]).getD emptyPairs.length [] := by
    rw [hlevels, hlength]
    exact List.getD_cons_succ
  rw [root, levelsOf, take_zeroValues, htop, hlevel, List.headD_cons]

/-! ## Computed roots -/

open Numeral

/-- Whether two nodes lead to one root if they only meet empty subtrees on their way, the first of
which is given. -/
def climb (table : Table) : (count empty node node' : Nat) → Bool
  | 0, _, node, node' => Nat.beq node node'
  | count + 1, empty, node, node' =>
    compress scalarOrder table node empty fun node =>
      compress scalarOrder table node' empty fun node' =>
        compress scalarOrder table empty empty fun empty => climb table count empty node node'

/-- Climbing along the numbers compares the two nodes that are reached. -/
theorem climb_iff (count : Nat) (empty node node' : ScalarField) :
    climb (.of compressionParams) count empty.val node.val node'.val = true ↔
      (emptyRoots poseidon2 count empty).foldl poseidon2 node =
        (emptyRoots poseidon2 count empty).foldl poseidon2 node' := by
  induction count generalizing empty node node' with
  | zero =>
    rw [climb, Nat.beq_eq]
    exact ⟨Residue.ext, congrArg Residue.val⟩
  | succ count ih =>
    rw [climb, compress_poseidon2, compress_poseidon2, compress_poseidon2, ih, emptyRoots,
      List.foldl_cons, List.foldl_cons]

/-- Whether a second leaf leaves the root as it is, computed on numerals. -/
def sameRoot (leaf second : Nat) : Bool :=
  withCompression fun table => compress scalarOrder table 0 0 fun empty =>
    compress scalarOrder table leaf 0 fun node =>
      compress scalarOrder table leaf second fun node' =>
        climb table (treeDepth - 1) empty node node'

/-- The check on numbers compares the two roots. -/
theorem sameRoot_iff (leaf second : ScalarField) :
    sameRoot leaf.val second.val = true ↔ root [leaf] = root [leaf, second] := by
  have hnode (k : Nat → Bool) := compress_poseidon2 leaf 0 k
  have hempty (k : Nat → Bool) := compress_poseidon2 0 0 k
  rw [Residue.val_zero] at hnode hempty
  rw [sameRoot, withCompression_eq, hempty, hnode, compress_poseidon2, climb_iff, root_singleton,
    root_pair, emptySubtrees_eq, List.foldl_cons, emptyPairs]

/-- With a second leaf the root is another one. -/
theorem root_one_ne_root_one_two :
    root [⟨1, by decide⟩] ≠ root [⟨1, by decide⟩, ⟨2, by decide⟩] := by
  have hsame : sameRoot 1 2 = false := by decide +kernel
  intro h
  have htrue := (sameRoot_iff ⟨1, by decide⟩ ⟨2, by decide⟩).2 h
  exact Bool.false_ne_true (hsame.symm.trans htrue)

end Reactions.Merkle
