import Mathlib.Algebra.Group.Nat.Defs
import Mathlib.Data.List.OfFn
import Reactions.Merkle.Tree

/-!
# Paths lead to the root

A level of a sparse tree is the beginning of a level of the full tree, in which every leaf that is
not there is zero; `node` is a node of the latter. So what the levels are asked for, past their ends
too, is a node of the full tree (`getD_levelsOf`), a path goes from node to node (`walk_eq`), and it
leads from its leaf to the root (`Path.root_of_ofLeaves?`). Its indices are the binary digits of the
position of the leaf (`Path.leafIndex_of_ofLeaves?`).
-/

namespace Reactions.Merkle

/-! ## The full tree -/

section Node

variable {α : Type} (combine : α → α → α) (leaf : Nat → α) (zero : α)

/-- The node at a position of the level of some height, in the full tree over some leaves. -/
def node (leaf : Nat → α) : (height index : Nat) → α
  | 0, index => leaf index
  | height + 1, index =>
    combine (node leaf height (2 * index)) (node leaf height (2 * index + 1))

/-- A tree is the tree over the first level above its leaves. -/
theorem node_children (height index : Nat) :
    node combine (fun i => combine (leaf (2 * i)) (leaf (2 * i + 1))) height index =
      node combine leaf (height + 1) index := by
  induction height generalizing index with
  | zero => rfl
  | succ height ih =>
    rw [node, ih, ih]
    rfl

/-- A node is combined from any of its children and the other. -/
theorem join_node (height index : Nat) :
    join combine (node combine leaf height index) (node combine leaf height (siblingOf index))
        (UInt8.ofNat (index % 2)) =
      node combine leaf (height + 1) (index / 2) := by
  rcases Nat.mod_two_eq_zero_or_one index with heven | hodd
  · have hleft : 2 * (index / 2) = index := by omega
    have hright : 2 * (index / 2) + 1 = siblingOf index := by
      rw [siblingOf, if_pos heven, hleft]
    rw [join, heven, if_pos (by decide), node, hright, hleft]
  · have hright : 2 * (index / 2) + 1 = index := by omega
    have hleft : 2 * (index / 2) = siblingOf index := by
      rw [siblingOf, if_neg (by omega)]
      omega
    rw [join, hodd, if_neg (by decide), node, hright, hleft]

/-- A walk that is given the right sibling on every level comes upon the nodes above its start. -/
theorem walk_eq (height index : Nat) (elements : Nat → α) (indices : Nat → UInt8)
    (helements : ∀ k < height, elements k = node combine leaf k (siblingOf (index / 2 ^ k)))
    (hindices : ∀ k < height, indices k = UInt8.ofNat (index / 2 ^ k % 2)) :
    ((List.ofFn fun k : Fin height => elements k).zip
        (List.ofFn fun k : Fin height => indices k)).foldl
      (fun node step => join combine node step.1 step.2) (leaf index) =
        node combine leaf height (index / 2 ^ height) := by
  induction height with
  | zero =>
    rw [Nat.pow_zero, Nat.div_one]
    rfl
  | succ height ih =>
    have hwalk := ih (fun k hk => helements k (by omega)) fun k hk => hindices k (by omega)
    rw [List.ofFn_succ_last, List.ofFn_succ_last, List.zip_append (by simp), List.foldl_append]
    simp only [Fin.val_castSucc, Fin.val_last, List.zip_cons_cons, List.zip_nil_left,
      List.foldl_cons, List.foldl_nil]
    rw [hwalk, helements height (by omega), hindices height (by omega), join_node,
      Nat.div_div_eq_div_mul, Nat.pow_succ]

/-! ## Levels -/

/-- What an empty subtree of some height has for a root. -/
theorem getD_emptyRoots {count height : Nat} (h : height < count) (default : α) :
    (emptyRoots combine count zero).getD height default =
      node combine (fun _ => zero) height 0 := by
  induction height generalizing count zero with
  | zero =>
    obtain ⟨count, rfl⟩ := Nat.exists_eq_succ_of_ne_zero (Nat.ne_of_gt h)
    rfl
  | succ height ih =>
    obtain ⟨count, rfl⟩ := Nat.exists_eq_succ_of_ne_zero (Nat.ne_of_gt (Nat.zero_lt_of_lt h))
    rw [emptyRoots, List.getD_cons_succ, ih _ (by omega)]
    exact node_children combine (fun _ => zero) height 0

/-- The lower empty subtrees do not depend on how many there are above. -/
theorem take_emptyRoots (count more : Nat) :
    (emptyRoots combine (count + more) zero).take count = emptyRoots combine count zero := by
  induction count generalizing zero with
  | zero => rfl
  | succ count ih =>
    rw [Nat.add_right_comm, emptyRoots, emptyRoots, List.take_succ_cons, ih]

/-- The level above has a node for every pair of nodes, those past the end being empty. -/
theorem getD_nextLevel (level : List α) (index : Nat) :
    (nextLevel combine zero level).getD index (combine zero zero) =
      combine (level.getD (2 * index) zero) (level.getD (2 * index + 1) zero) := by
  fun_induction nextLevel combine zero level generalizing index with
  | case1 => rfl
  | case2 x => cases index <;> rfl
  | case3 x y rest ih =>
    cases index with
    | zero => rfl
    | succ index =>
      have hdouble : 2 * (index + 1) = 2 * index + 1 + 1 := by omega
      rw [List.getD_cons_succ, ih, hdouble]
      simp only [List.getD_cons_succ]

/-- A level is the beginning of a level of the full tree, and past its end there are empty subtrees.
-/
theorem getD_levels {count height : Nat} (h : height ≤ count) (level : List α) (index : Nat) :
    ((levels combine (emptyRoots combine count zero) level).getD height []).getD index
        (node combine (fun _ => zero) height 0) =
      node combine (fun i => level.getD i zero) height index := by
  induction height generalizing count zero level with
  | zero => cases count <;> rfl
  | succ height ih =>
    obtain ⟨count, rfl⟩ := Nat.exists_eq_succ_of_ne_zero (Nat.ne_of_gt (Nat.zero_lt_of_lt h))
    have habove := ih (combine zero zero) (Nat.le_of_succ_le_succ h) (nextLevel combine zero level)
    have hempty := node_children combine (fun _ => zero) height 0
    have hlevel : (fun i => (nextLevel combine zero level).getD i (combine zero zero)) =
        fun i => combine (level.getD (2 * i) zero) (level.getD (2 * i + 1) zero) :=
      funext fun i => getD_nextLevel combine zero level i
    rw [hempty, hlevel, node_children combine (fun i => level.getD i zero)] at habove
    exact habove

/-! ## Steps -/

/-- The level above has half as many nodes, rounded up. -/
theorem length_nextLevel (level : List α) :
    (nextLevel combine zero level).length = (level.length + 1) / 2 := by
  fun_induction nextLevel combine zero level with
  | case1 => simp
  | case2 x => simp
  | case3 x y rest ih =>
    rw [List.length_cons, ih, List.length_cons, List.length_cons]
    omega

/-- From a lone node on all siblings are empty subtrees. -/
theorem steps_of_lone (zeros : List α) (x : α) :
    steps combine zeros [x] 0 = zeros.map (·, 0) := by
  cases zeros <;> rfl

/-- To end at a lone node comes to the same as to go on from it. -/
theorem steps_cons (zeros : List α) {level : List α} {index : Nat} (h : index < level.length) :
    steps combine (zero :: zeros) level index =
      (level.getD (siblingOf index) zero, UInt8.ofNat (index % 2)) ::
        steps combine zeros (nextLevel combine zero level) (index / 2) := by
  rw [steps]
  split
  · next hlone =>
    obtain ⟨x, rfl⟩ := List.length_eq_one_iff.1 hlone
    obtain rfl : index = 0 := Nat.lt_one_iff.1 h
    rw [nextLevel, Nat.zero_div, steps_of_lone]
    rfl
  · rfl

/-- The steps from a leaf have the siblings of the nodes above it, and the binary digits of its
position for sides. -/
theorem steps_eq_ofFn (count : Nat) {level : List α} {index : Nat} (h : index < level.length) :
    steps combine (emptyRoots combine count zero) level index =
      List.ofFn fun k : Fin count =>
        (node combine (fun i => level.getD i zero) k (siblingOf (index / 2 ^ k.val)),
          UInt8.ofNat (index / 2 ^ k.val % 2)) := by
  induction count generalizing zero level index with
  | zero => rfl
  | succ count ih =>
    have habove : index / 2 < (nextLevel combine zero level).length := by
      rw [length_nextLevel]
      omega
    have hlevel : (fun i => (nextLevel combine zero level).getD i (combine zero zero)) =
        fun i => combine (level.getD (2 * i) zero) (level.getD (2 * i + 1) zero) :=
      funext fun i => getD_nextLevel combine zero level i
    have hhalf (k : Nat) : index / 2 / 2 ^ k = index / 2 ^ (k + 1) := by
      rw [Nat.div_div_eq_div_mul, Nat.pow_succ, Nat.mul_comm]
    rw [emptyRoots, steps_cons combine zero _ h, ih _ habove, List.ofFn_succ, hlevel]
    simp only [node_children combine (fun i => level.getD i zero), hhalf, Fin.val_zero,
      Nat.pow_zero, Nat.div_one, Fin.val_succ]
    rfl

end Node

/-! ## Membership trees -/

variable {leaves : List ScalarField} {height index : Nat}

/-- The node of the tree whose first leaves are given and whose others are zero. -/
def nodeOf (leaves : List ScalarField) : (height index : Nat) → ScalarField :=
  node poseidon2 fun i => leaves.getD i 0

/-- The value at a height is the root of a subtree of zeros. -/
theorem zeroValue_eq (h : height ≤ treeDepth) :
    zeroValue height = node poseidon2 (fun _ => 0) height 0 :=
  getD_emptyRoots poseidon2 0 (by omega) 0

/-- Every level that is kept agrees with the full tree, past its end too. -/
theorem getD_levelsOf (h : height ≤ treeDepth) (leaves : List ScalarField) (index : Nat) :
    ((levelsOf leaves).getD height []).getD index (zeroValue height) =
      nodeOf leaves height index := by
  rw [levelsOf, zeroValues, take_emptyRoots, zeroValue_eq h]
  exact getD_levels poseidon2 0 h leaves index

/-- The root is the node at the top. -/
theorem root_eq_nodeOf (leaves : List ScalarField) : root leaves = nodeOf leaves treeDepth 0 := by
  have h := getD_levelsOf (Nat.le_refl treeDepth) leaves 0
  rw [root, ← h]
  cases (levelsOf leaves).getD treeDepth [] <;> rfl

/-! ## Paths -/

namespace Path

/-- The path of a leaf, as it would be without an early end at a lone node: all siblings of the full
tree on the way up. -/
theorem ofLeaves?_eq_some (h : index < leaves.length) :
    ofLeaves? leaves index = some {
      elements := .ofFn fun k => nodeOf leaves k (siblingOf (index / 2 ^ k.val))
      indices := .ofFn fun k => UInt8.ofNat (index / 2 ^ k.val % 2) } := by
  have hsteps : steps poseidon2 (zeroValues.take treeDepth) leaves index =
      List.ofFn fun k : Fin treeDepth => (nodeOf leaves k (siblingOf (index / 2 ^ k.val)),
        UInt8.ofNat (index / 2 ^ k.val % 2)) := by
    rw [zeroValues, take_emptyRoots]
    exact steps_eq_ofFn poseidon2 0 treeDepth h
  rw [ofLeaves?, if_pos h, Option.some.injEq, ofSteps, mk.injEq, ← Vector.toArray_inj,
    ← Vector.toArray_inj]
  simp only [hsteps, List.map_ofFn, Vector.toArray_ofFn]
  exact ⟨List.toArray_ofFn, List.toArray_ofFn⟩

/-- There is a path for every leaf. -/
theorem ofLeaves?_isSome : (ofLeaves? leaves index).isSome ↔ index < leaves.length := by
  rw [ofLeaves?]
  split
  · simp [*]
  · simp [*]

variable {p : Path}

/-- A path is that of a leaf. -/
theorem lt_of_ofLeaves? (h : ofLeaves? leaves index = some p) : index < leaves.length :=
  ofLeaves?_isSome.1 (Option.isSome_of_eq_some h)

/-- A path of a leaf has the siblings on the way up. -/
theorem elements_of_ofLeaves? (h : ofLeaves? leaves index = some p) :
    p.elements = .ofFn fun k => nodeOf leaves k (siblingOf (index / 2 ^ k.val)) := by
  rw [ofLeaves?_eq_some (lt_of_ofLeaves? h)] at h
  rw [← Option.some.inj h]

/-- Its digits are those of the index, the lowest first. -/
theorem indices_of_ofLeaves? (h : ofLeaves? leaves index = some p) :
    p.indices = .ofFn fun k => UInt8.ofNat (index / 2 ^ k.val % 2) := by
  rw [ofLeaves?_eq_some (lt_of_ofLeaves? h)] at h
  rw [← Option.some.inj h]

/-- The path of a leaf leads from that leaf to the root. -/
theorem root_of_ofLeaves? (h : ofLeaves? leaves index = some p)
    (hindex : index < 2 ^ treeDepth) :
    p.root (leaves.getD index 0) = Merkle.root leaves := by
  have hwalk := walk_eq poseidon2 (fun i => leaves.getD i 0) treeDepth index
    (fun k => nodeOf leaves k (siblingOf (index / 2 ^ k)))
    (fun k => UInt8.ofNat (index / 2 ^ k % 2)) (fun _ _ => rfl) fun _ _ => rfl
  rw [Nat.div_eq_of_lt hindex] at hwalk
  rw [root, elements_of_ofLeaves? h, indices_of_ofLeaves? h, Vector.toList_ofFn,
    Vector.toList_ofFn, root_eq_nodeOf]
  exact hwalk

/-- Every index of a path is zero or one. -/
theorem index_of_ofLeaves? (h : ofLeaves? leaves index = some p) :
    ∀ i ∈ p.indices.toList, i = 0 ∨ i = 1 := by
  intro i hi
  rw [indices_of_ofLeaves? h, Vector.toList_ofFn, List.mem_ofFn] at hi
  obtain ⟨k, rfl⟩ := hi
  rcases Nat.mod_two_eq_zero_or_one (index / 2 ^ k.val) with heven | hodd
  · left
    rw [heven]
    rfl
  · right
    rw [hodd]
    rfl

/-- Binary digits, put together again. -/
theorem foldl_digits (index count : Nat) :
    ((List.ofFn fun k : Fin count => UInt8.ofNat (index / 2 ^ k.val % 2)).zipIdx).foldl
      (fun acc bit => acc ||| (bit.1.toNat <<< bit.2)) 0 = index % 2 ^ count := by
  induction count with
  | zero =>
    rw [Nat.pow_zero, Nat.mod_one]
    rfl
  | succ count ih =>
    have hdigit : (UInt8.ofNat (index / 2 ^ count % 2)).toNat = index / 2 ^ count % 2 := by
      rw [UInt8.toNat_ofNat']
      omega
    have hlow : index % 2 ^ count < 2 ^ count := Nat.mod_lt _ (Nat.two_pow_pos count)
    rw [List.ofFn_succ_last, List.zipIdx_append, List.foldl_append]
    simp only [Fin.val_castSucc, Fin.val_last, List.length_ofFn, Nat.zero_add, List.zipIdx_cons,
      List.zipIdx_nil, List.foldl_cons, List.foldl_nil]
    rw [ih, hdigit, Nat.shiftLeft_eq, Nat.mul_comm, Nat.or_comm,
      ← Nat.two_pow_add_eq_or_of_lt hlow, Nat.mod_pow_succ, Nat.add_comm]

/-- The indices of the path of a leaf are the digits of its position. -/
theorem leafIndex_of_ofLeaves? (h : ofLeaves? leaves index = some p)
    (hindex : index < 2 ^ treeDepth) : p.leafIndex = index := by
  rw [leafIndex, indices_of_ofLeaves? h, Vector.toList_ofFn, foldl_digits,
    Nat.mod_eq_of_lt hindex]

end Path

end Reactions.Merkle
