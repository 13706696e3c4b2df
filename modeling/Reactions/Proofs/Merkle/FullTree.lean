import Reactions.Proofs.Merkle.Paths

/-!
# Sparse trees are full trees

Only the occupied beginning of each level is ever computed. What comes out is the root of the full
tree nevertheless, whatever the number of leaves (`root_is_that_of_full_tree`): a node without a
member below it has the empty root of its height (`nodeOf_eq_zeroValue`), so a zero that is
registered and one that is not there are the same leaf. The path of a leaf holds the sibling of
every node from the leaf up to the root of that tree, and leads from no other position
(`path_of_leaf_is_authentic`).
-/

namespace Reactions.Merkle

/-! ## Empty subtrees -/

section Node

variable {α : Type} (combine : α → α → α) {leaf leaf' : Nat → α} {height index : Nat}

/-- A node depends on the leaves below it only. -/
theorem node_congr (h : ∀ i, i / 2 ^ height = index → leaf i = leaf' i) :
    node combine leaf height index = node combine leaf' height index := by
  induction height generalizing index with
  | zero => exact h index (by simp)
  | succ height ih =>
    have hbelow : ∀ child, child / 2 = index → ∀ i, i / 2 ^ height = child → leaf i = leaf' i := by
      intro child hchild i hi
      refine h i ?_
      rw [Nat.pow_succ, ← Nat.div_div_eq_div_mul, hi, hchild]
    rw [node, node, ih (hbelow (2 * index) (by omega)), ih (hbelow (2 * index + 1) (by omega))]

/-- Where all leaves are alike, so are all nodes of a level. -/
theorem node_const (zero : α) (height index index' : Nat) :
    node combine (fun _ => zero) height index = node combine (fun _ => zero) height index' := by
  induction height generalizing index index' with
  | zero => rfl
  | succ height ih =>
    rw [node, node, ih (2 * index) (2 * index'), ih (2 * index + 1) (2 * index' + 1)]

end Node

variable {leaves : List ScalarField} {height index : Nat}

/-- A node that has only zeros below it is the empty root of its height. -/
theorem nodeOf_eq_zeroValue (h : height ≤ treeDepth)
    (hzero : ∀ i, i / 2 ^ height = index → leaves.getD i 0 = 0) :
    nodeOf leaves height index = zeroValue height := by
  have hempty : nodeOf leaves height index = node poseidon2 (fun _ => 0) height index :=
    node_congr poseidon2 hzero
  rw [hempty, zeroValue_eq h]
  exact node_const poseidon2 0 height index 0

/-- The table has the value at every height up to that of the tree. -/
theorem zeroValues_getElem? (h : height ≤ treeDepth) :
    zeroValues[height]? = some (zeroValue height) := by
  have hlength : height < zeroValues.length := by
    rw [zeroValues, length_emptyRoots]
    omega
  rw [zeroValue, List.getD_eq_getElem?_getD, List.getElem?_eq_getElem hlength, Option.getD_some]

/-- Zeros at the end are leaves that were there already. -/
theorem getD_append_zeros (count index : Nat) :
    (leaves ++ List.replicate count 0).getD index 0 = leaves.getD index 0 := by
  rw [List.getD_eq_getElem?_getD, List.getD_eq_getElem?_getD, List.getElem?_append]
  split
  · rfl
  · next hpast =>
    rw [List.getElem?_eq_none (Nat.le_of_not_lt hpast), List.getElem?_replicate]
    split <;> rfl

/-- The root over some leaves is the root of the full tree of depth twenty in which all other leaves
are zero. The empty roots are the nodes with zeros below them only, and to append zeros changes
nothing. -/
theorem root_is_that_of_full_tree (leaves : List ScalarField) :
    root leaves = nodeOf leaves treeDepth 0 ∧
      (∀ height ≤ treeDepth, ∀ index, (∀ i, i / 2 ^ height = index → leaves.getD i 0 = 0) →
        zeroValues[height]? = some (nodeOf leaves height index)) ∧
      ∀ count, root (leaves ++ List.replicate count 0) = root leaves := by
  refine ⟨root_eq_nodeOf leaves, ?_, ?_⟩
  · intro height hheight index hzero
    rw [zeroValues_getElem? hheight, nodeOf_eq_zeroValue hheight hzero]
  · intro count
    have hleaf :
        (fun i => (leaves ++ List.replicate count 0).getD i 0) = fun i => leaves.getD i 0 :=
      funext fun i => getD_append_zeros count i
    rw [root_eq_nodeOf, root_eq_nodeOf, nodeOf, nodeOf, hleaf]

/-- The right half of the tree over a single leaf is empty on every level: it is the empty root of
its height, and a second leaf of zero makes no difference. -/
theorem lone_leaf_is_padded :
    (∀ i, i / 2 ^ 2 = 1 → ([1] : List ScalarField).getD i 0 = 0) ∧
      zeroValues[2]? = some (nodeOf [1] 2 1) ∧ root [1, 0] = root [1] := by
  have hzero : ∀ i, i / 2 ^ 2 = 1 → ([1] : List ScalarField).getD i 0 = 0 := by
    intro i hi
    obtain ⟨i, rfl⟩ : ∃ j, i = j + 1 := ⟨i - 1, by omega⟩
    rfl
  obtain ⟨-, hempty, happend⟩ := root_is_that_of_full_tree [1]
  exact ⟨hzero, hempty 2 (by decide) 1 hzero, happend 1⟩

/-! ## Siblings -/

/-- Two positions of a level are those of the two children of one node. -/
def Siblings (i j : Nat) : Prop := i ≠ j ∧ i / 2 = j / 2

instance (i j : Nat) : Decidable (Siblings i j) := inferInstanceAs (Decidable (_ ∧ _))

/-- Either sibling determines the other. -/
theorem siblings_iff {i j : Nat} : Siblings i j ↔ i = siblingOf j := by
  simp only [Siblings, siblingOf]
  split <;> omega

/-- A leaf, and no position past them, has a path. It leads from the leaf to the root, its indices
are binary digits, namely those of the leaf's position, and on every level of the full tree it has
the sibling of the node above the leaf. -/
theorem path_of_leaf_is_authentic (hcapacity : leaves.length ≤ treeCapacity) (index : Nat) :
    (Path.ofLeaves? leaves index = none ↔ leaves.length ≤ index) ∧
      ∀ leaf, leaves[index]? = some leaf → ∃ p, Path.ofLeaves? leaves index = some p ∧
        p.root leaf = root leaves ∧ (∀ i ∈ p.indices, i = 0 ∨ i = 1) ∧ p.leafIndex = index ∧
        ∀ (k : Fin treeDepth) (sibling : Nat), Siblings sibling (index / 2 ^ k.val) →
          p.elements[k] = nodeOf leaves k sibling := by
  have hsome : (Path.ofLeaves? leaves index).isSome ↔ index < leaves.length := Path.ofLeaves?_isSome
  refine ⟨?_, fun leaf hleaf => ?_⟩
  · rw [← Option.not_isSome_iff_eq_none, hsome, Nat.not_lt]
  · have hindex : index < leaves.length := (List.getElem?_eq_some_iff.1 hleaf).1
    have hbound : index < 2 ^ treeDepth := Nat.lt_of_lt_of_le hindex hcapacity
    obtain ⟨p, hp⟩ := Option.isSome_iff_exists.1 (hsome.2 hindex)
    have hroot := Path.root_of_ofLeaves? hp hbound
    rw [List.getD_eq_getElem?_getD, hleaf, Option.getD_some] at hroot
    refine ⟨p, hp, hroot, fun i hi => ?_, Path.leafIndex_of_ofLeaves? hp hbound, fun k s hs => ?_⟩
    · exact Path.index_of_ofLeaves? hp i (Vector.mem_toList_iff.2 hi)
    · rw [siblings_iff.1 hs, Path.elements_of_ofLeaves? hp]
      simp

/-- The last of three leaves has a path, whose first sibling is an empty leaf and whose second one
is the node above the other two. -/
theorem third_leaf_has_path :
    ([1, 0, -1] : List ScalarField).length ≤ treeCapacity ∧
      ∃ p, Path.ofLeaves? [1, 0, -1] 2 = some p ∧ p.root (-1) = root [1, 0, -1] ∧ p.leafIndex = 2 ∧
        p.elements[0] = 0 ∧ p.elements[1] = poseidon2 1 0 := by
  have hcapacity : ([1, 0, -1] : List ScalarField).length ≤ treeCapacity := by decide
  obtain ⟨p, hp, hroot, -, hindex, hsibling⟩ :=
    (path_of_leaf_is_authentic hcapacity 2).2 (-1) rfl
  exact ⟨hcapacity, p, hp, hroot, hindex, hsibling 0 3 (by decide), hsibling 1 0 (by decide)⟩

end Reactions.Merkle
