import Mathlib.Data.List.Induction
import Mathlib.Data.Nat.Bitwise
import Reactions.Proofs.Merkle.FullTree

/-!
# Paths cannot be forged

A path that was not built from the leaves may hold anything. If its indices are binary digits it
still walks along the positions above one leaf, the one at `Path.leafIndex`
(`Path.testBit_leafIndex`), and on every level it hashes a pair, `Path.pairAt`. When it comes out at
the root of a tree, walk and tree are followed downwards from there. On each level the walk has
hashed either the two nodes that the tree has below, so that walk and tree agree on the next level
too, or another pair with the same hash (`Path.agrees_or_collides`). So a path that leads to the
root is the true path of the true leaf, or a collision can be read off it
(`path_is_true_or_collides`).
-/

namespace Reactions.Merkle

namespace Path

variable (p : Path) (leaf : ScalarField) (leaves : List ScalarField)

/-! ## The walk -/

/-- The node to which the path leads from `leaf` in some steps. -/
def nodeAt (steps : Nat) : ScalarField :=
  ((p.elements.toList.zip p.indices.toList).take steps).foldl
    (fun node step => join poseidon2 node step.1 step.2) leaf

/-- The pair that is hashed on a level, the left node first. -/
def pairAt (k : Fin treeDepth) : ScalarField × ScalarField :=
  if p.indices[k] = 0 then (p.nodeAt leaf k, p.elements[k]) else (p.elements[k], p.nodeAt leaf k)

theorem nodeAt_zero : p.nodeAt leaf 0 = leaf := rfl

/-- The next node on the way up is the hash of the pair below. -/
theorem nodeAt_succ (k : Fin treeDepth) :
    p.nodeAt leaf (k + 1) = poseidon2 (p.pairAt leaf k).1 (p.pairAt leaf k).2 := by
  have hsteps : (p.elements.toList.zip p.indices.toList)[k.val]? =
      some (p.elements[k], p.indices[k]) := by
    simp
  rw [nodeAt, List.take_add_one, hsteps, Option.toList_some, List.foldl_append, List.foldl_cons,
    List.foldl_nil, join, pairAt, nodeAt]
  split <;> rfl

/-- The last one is the root. -/
theorem nodeAt_treeDepth : p.nodeAt leaf treeDepth = p.root leaf := by
  rw [nodeAt, List.take_of_length_le (by simp), root]

/-! ## The position of the leaf -/

/-- Binary digits, lowest first, are the bits of the number that they make. -/
theorem testBit_foldl_digits {digits : List UInt8} (h : ∀ d ∈ digits, d = 0 ∨ d = 1) (k : Nat) :
    ((digits.zipIdx).foldl (fun (acc : Nat) (bit : UInt8 × Nat) =>
      acc ||| (bit.1.toNat <<< bit.2)) 0).testBit k = (digits.getD k 0 == 1) := by
  induction digits using List.reverseRecOn with
  | nil => simp
  | append_singleton digits d ih =>
    have hrest := ih fun d hd => h d (List.mem_append_left _ hd)
    rw [List.zipIdx_append, List.foldl_append]
    simp only [List.zipIdx_cons, List.zipIdx_nil, List.foldl_cons, List.foldl_nil, Nat.zero_add]
    rw [Nat.testBit_or, hrest, Nat.testBit_shiftLeft]
    rcases Nat.lt_trichotomy k digits.length with hlow | rfl | hhigh
    · simp [List.getElem?_append_left hlow, Nat.not_le_of_lt hlow]
    · rcases h d (by simp) with rfl | rfl <;> simp
    · obtain ⟨n, rfl⟩ := Nat.exists_eq_add_of_lt hhigh
      rcases h d (by simp) with rfl | rfl <;> simp [Nat.add_assoc, Nat.testBit_succ]

variable {p leaf leaves}

/-- The indices of a path are the bits of the position that it starts from. -/
theorem testBit_leafIndex (hdigits : ∀ i ∈ p.indices, i = 0 ∨ i = 1) (k : Fin treeDepth) :
    p.leafIndex.testBit k = (p.indices[k] == 1) := by
  rw [leafIndex, testBit_foldl_digits fun d hd => hdigits d (Vector.mem_toList_iff.1 hd)]
  simp

/-- Binary digits denote the index of some leaf. -/
theorem leafIndex_lt (hdigits : ∀ i ∈ p.indices, i = 0 ∨ i = 1) : p.leafIndex < 2 ^ treeDepth := by
  refine Nat.lt_pow_two_of_testBit _ fun k hk => ?_
  rw [leafIndex, testBit_foldl_digits fun d hd => hdigits d (Vector.mem_toList_iff.1 hd)]
  simp [Nat.not_lt.2 hk]

/-! ## Walk and tree, level by level -/

variable (p leaf leaves) in
/-- The two nodes of the tree below the one that the walk reaches next. -/
def childrenAt (k : Fin treeDepth) : ScalarField × ScalarField :=
  let parent := p.leafIndex / 2 ^ (k.val + 1)
  (nodeOf leaves k (2 * parent), nodeOf leaves k (2 * parent + 1))

variable (p leaf leaves) in
/-- On a level the walk hashes another pair than the tree does, but both have the same hash. -/
def CollidesAt (k : Fin treeDepth) : Prop :=
  p.pairAt leaf k ≠ p.childrenAt leaves k ∧
    poseidon2 (p.pairAt leaf k).1 (p.pairAt leaf k).2 =
      poseidon2 (p.childrenAt leaves k).1 (p.childrenAt leaves k).2

/-- If walk and tree agree above a level, then they agree on it or collide there. -/
theorem agrees_or_collides (hdigits : ∀ i ∈ p.indices, i = 0 ∨ i = 1) (k : Fin treeDepth)
    (habove : p.nodeAt leaf (k + 1) = nodeOf leaves (k + 1) (p.leafIndex / 2 ^ (k.val + 1))) :
    (p.nodeAt leaf k = nodeOf leaves k (p.leafIndex / 2 ^ k.val) ∧
      p.elements[k] = nodeOf leaves k (siblingOf (p.leafIndex / 2 ^ k.val))) ∨
        p.CollidesAt leaf leaves k := by
  rw [nodeAt_succ] at habove
  by_cases hpair : p.pairAt leaf k = p.childrenAt leaves k
  · left
    have hbit := testBit_leafIndex hdigits k
    rw [Nat.testBit_eq_decide_div_mod_eq] at hbit
    have hparent : p.leafIndex / 2 ^ (k.val + 1) = p.leafIndex / 2 ^ k.val / 2 := by
      rw [Nat.pow_succ, Nat.div_div_eq_div_mul]
    rw [pairAt, childrenAt, hparent] at hpair
    rcases hdigits p.indices[k] (by simp) with hleft | hright
    · have heven : p.leafIndex / 2 ^ k.val % 2 = 0 := by simpa [hleft] using hbit
      have hself : 2 * (p.leafIndex / 2 ^ k.val / 2) = p.leafIndex / 2 ^ k.val := by omega
      rw [if_pos hleft, hself, Prod.mk.injEq] at hpair
      rw [siblingOf, if_pos heven]
      exact hpair
    · have hodd : p.leafIndex / 2 ^ k.val % 2 = 1 := by simpa [hright] using hbit
      have hself : 2 * (p.leafIndex / 2 ^ k.val / 2) + 1 = p.leafIndex / 2 ^ k.val := by omega
      have hother : 2 * (p.leafIndex / 2 ^ k.val / 2) = p.leafIndex / 2 ^ k.val - 1 := by omega
      rw [if_neg (by rw [hright]; decide), hself, hother, Prod.mk.injEq] at hpair
      rw [siblingOf, if_neg (by omega)]
      exact hpair.symm
  · exact .inr ⟨hpair, habove⟩

/-- A walk that comes out at the root and collides nowhere has followed the tree all the way. -/
theorem nodeAt_eq_nodeOf (hdigits : ∀ i ∈ p.indices, i = 0 ∨ i = 1)
    (hroot : p.root leaf = Merkle.root leaves) (hnone : ∀ k, ¬ p.CollidesAt leaf leaves k)
    {height : Nat} (h : height ≤ treeDepth) :
    p.nodeAt leaf height = nodeOf leaves height (p.leafIndex / 2 ^ height) := by
  induction h using Nat.decreasingInduction with
  | self =>
    rw [nodeAt_treeDepth, hroot, root_eq_nodeOf, Nat.div_eq_of_lt (leafIndex_lt hdigits)]
  | of_succ height hheight ih =>
    rcases agrees_or_collides hdigits ⟨height, hheight⟩ ih with ⟨hnode, -⟩ | hcollides
    · exact hnode
    · exact absurd hcollides (hnone _)

end Path

/-- A path whose indices are binary digits and which leads to the root of a tree starts from the
leaf at its position, zero if there is none, and has the sibling of every node on the way up; or
else the pair that it hashes on some level collides with the pair of nodes that the tree has there.
-/
theorem path_is_true_or_collides {p : Path} {leaf : ScalarField} {leaves : List ScalarField}
    (hdigits : ∀ i ∈ p.indices, i = 0 ∨ i = 1) (hroot : p.root leaf = root leaves) :
    (leaf = leaves.getD p.leafIndex 0 ∧
      ∀ (k : Fin treeDepth) (sibling : Nat), Siblings sibling (p.leafIndex / 2 ^ k.val) →
        p.elements[k] = nodeOf leaves k sibling) ∨
    ∃ k, p.CollidesAt leaf leaves k := by
  by_cases hnone : ∃ k, p.CollidesAt leaf leaves k
  · exact .inr hnone
  · left
    rw [not_exists] at hnone
    have hagrees {height : Nat} (h : height ≤ treeDepth) :=
      Path.nodeAt_eq_nodeOf hdigits hroot hnone h
    constructor
    · have hleaf := hagrees (Nat.zero_le _)
      rw [Path.nodeAt_zero, Nat.pow_zero, Nat.div_one] at hleaf
      exact hleaf
    · intro k sibling hsibling
      rw [siblings_iff.1 hsibling]
      rcases Path.agrees_or_collides hdigits k (hagrees k.isLt) with ⟨-, helement⟩ | hcollides
      · exact helement
      · exact absurd hcollides (hnone k)

/-- The path of the second of two leaves leads to their root, so it is true or collides. -/
theorem second_of_two_is_true :
    ∃ p : Path, (∀ i ∈ p.indices, i = 0 ∨ i = 1) ∧ p.root (-1) = root [1, -1] ∧
      ((-1 = ([1, -1] : List ScalarField).getD p.leafIndex 0 ∧
        ∀ (k : Fin treeDepth) (sibling : Nat), Siblings sibling (p.leafIndex / 2 ^ k.val) →
          p.elements[k] = nodeOf [1, -1] k sibling) ∨
      ∃ k, p.CollidesAt (-1) [1, -1] k) := by
  have hsome : (Path.ofLeaves? [1, -1] 1).isSome := Path.ofLeaves?_isSome.2 (by decide)
  obtain ⟨p, hp⟩ := Option.isSome_iff_exists.1 hsome
  have hdigits : ∀ i ∈ p.indices, i = 0 ∨ i = 1 := fun i hi =>
    Path.index_of_ofLeaves? hp i (Vector.mem_toList_iff.2 hi)
  have hroot : p.root (-1) = root [1, -1] := Path.root_of_ofLeaves? hp (by decide)
  exact ⟨p, hdigits, hroot, path_is_true_or_collides hdigits hroot⟩

end Reactions.Merkle
