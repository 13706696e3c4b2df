/-!
# Levels of a sparse Merkle tree

Only the occupied beginning of a level is kept as a list; every node past its end is the root of
an empty subtree of that height. The tree is taken over any `combine`, so that its laws never
look into the hash.
-/

namespace Reactions.Merkle

variable {α : Type} (combine : α → α → α)

/-- The roots of the empty subtrees of `count` heights, the lowest of which is `zero`. -/
def emptyRoots : (count : Nat) → (zero : α) → List α
  | 0, _ => []
  | count + 1, zero => zero :: emptyRoots count (combine zero zero)

/-- The level above: neighbours combined in pairs, a last one without a neighbour with `zero`. -/
def nextLevel (zero : α) : List α → List α
  | [] => []
  | [x] => [combine x zero]
  | x :: y :: rest => combine x y :: nextLevel zero rest

/-- A level and all those above it, one more than there are empty roots to fill them up with. -/
def levels : (zeros : List α) → (level : List α) → List (List α)
  | [], level => [level]
  | zero :: zeros, level => level :: levels zeros (nextLevel combine zero level)

/-- The position of the other child of a node's parent. -/
def siblingOf (index : Nat) : Nat := if index % 2 = 0 then index + 1 else index - 1

/-- The steps from a node up: on every level the sibling, and zero if the node is the left child
there, one if it is the right one. A lone node is a left child from there on up, and its siblings
are the empty subtrees. -/
def steps : (zeros : List α) → (level : List α) → (index : Nat) → List (α × UInt8)
  | [], _, _ => []
  | zero :: zeros, level, index =>
    if level.length = 1 then (zero :: zeros).map (·, 0)
    else (level.getD (siblingOf index) zero, UInt8.ofNat (index % 2)) ::
      steps zeros (nextLevel combine zero level) (index / 2)

/-- There is one step for every empty root. -/
theorem length_steps (zeros level : List α) (index : Nat) :
    (steps combine zeros level index).length = zeros.length := by
  induction zeros generalizing level index with
  | nil => rfl
  | cons zero zeros ih =>
    rw [steps]
    split
    · exact List.length_map _
    · rw [List.length_cons, ih, List.length_cons]

/-- There are as many empty roots as were asked for. -/
theorem length_emptyRoots (count : Nat) (zero : α) :
    (emptyRoots combine count zero).length = count := by
  induction count generalizing zero with
  | zero => rfl
  | succ count ih => rw [emptyRoots, List.length_cons, ih]

/-- The parent of a node and its sibling; index zero marks the node as the left child, any other
index as the right one. -/
def join (node sibling : α) (index : UInt8) : α :=
  if index = 0 then combine node sibling else combine sibling node

end Reactions.Merkle
