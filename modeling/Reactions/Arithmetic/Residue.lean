import Reactions.Arithmetic.Ladder

/-!
# Residues

`Residue n` is the integers modulo `n`, each class kept as its least representative. The
operations are those of the ring; the inverse is the power `n - 2`, which inverts every nonzero
class when `n` is prime and sends zero to zero.
-/

namespace Reactions

/-- A number that can be a modulus. The zero that it differs from is spelled out, so that it is the
same one whatever structures on the natural numbers are in scope. -/
abbrev Modulus (n : Nat) : Prop := @NeZero Nat ⟨0⟩ n

theorem Modulus.pos {n : Nat} [Modulus n] : 0 < n := Nat.pos_of_neZero n

/-- A class of integers modulo `n`, as its representative below `n`. -/
structure Residue (n : Nat) where
  val : Nat
  isLt : val < n
deriving DecidableEq, Repr

namespace Residue

variable {n : Nat}

@[ext] theorem ext {a b : Residue n} (h : a.val = b.val) : a = b := by
  cases a; cases b; cases h; rfl

/-- The class that `k` represents, if `k` is a least representative. -/
def ofNat? (k : Nat) : Option (Residue n) :=
  if h : k < n then some ⟨k, h⟩ else none

/-- `ofNat?` succeeds on the least representatives alone. -/
theorem ofNat?_eq_some_iff {k : Nat} {a : Residue n} : ofNat? k = some a ↔ k = a.val := by
  unfold ofNat?
  split
  · constructor
    · intro h; cases h; rfl
    · intro h; subst h; rfl
  · rename_i h
    constructor
    · intro e; cases e
    · intro e; exact absurd (e ▸ a.isLt) h

theorem ofNat?_eq_none_iff {k : Nat} : (ofNat? k : Option (Residue n)) = none ↔ n ≤ k := by
  unfold ofNat?
  split <;> rename_i h <;> simp <;> omega

variable [Modulus n]

/-- The class of a natural number. -/
@[inline] def ofNat (k : Nat) : Residue n :=
  ⟨k % n, Nat.mod_lt _ Modulus.pos⟩

/-- The class of an integer. -/
def ofInt (k : Int) : Residue n :=
  ofNat (k % n).toNat

instance : Zero (Residue n) := ⟨ofNat 0⟩
instance : One (Residue n) := ⟨ofNat 1⟩
instance : Inhabited (Residue n) := ⟨0⟩

@[inline] protected def add (a b : Residue n) : Residue n := ofNat (a.val + b.val)
@[inline] protected def mul (a b : Residue n) : Residue n := ofNat (a.val * b.val)
@[inline] protected def neg (a : Residue n) : Residue n := ofNat (n - a.val)
@[inline] protected def sub (a b : Residue n) : Residue n :=
  if h : b.val ≤ a.val then ⟨a.val - b.val, by have := a.isLt; omega⟩
  else ⟨a.val + (n - b.val), by have := a.isLt; have := b.isLt; omega⟩

instance : Add (Residue n) := ⟨Residue.add⟩
instance : Mul (Residue n) := ⟨Residue.mul⟩
instance : Neg (Residue n) := ⟨Residue.neg⟩
instance : Sub (Residue n) := ⟨Residue.sub⟩

/-- The sum `a·b + c·d`, reduced once. -/
@[inline] def sumOfProducts (a b c d : Residue n) : Residue n :=
  ofNat (a.val * b.val + c.val * d.val)

/-- Powers, by the binary ladder. -/
protected def pow (a : Residue n) (k : Nat) : Residue n :=
  ladder (· * ·) 1 a k

instance : Pow (Residue n) Nat := ⟨Residue.pow⟩

/-- The power `n - 2`: the inverse of every nonzero class of a prime modulus. -/
protected def inv (a : Residue n) : Residue n := a ^ (n - 2)

instance : Inv (Residue n) := ⟨Residue.inv⟩

@[simp] theorem val_ofNat (k : Nat) : (ofNat k : Residue n).val = k % n := rfl

theorem val_add (a b : Residue n) : (a + b).val = (a.val + b.val) % n := rfl
theorem val_mul (a b : Residue n) : (a * b).val = a.val * b.val % n := rfl

omit [Modulus n] in
theorem val_sub (a b : Residue n) : (a - b).val = (a.val + (n - b.val)) % n := by
  have ha := a.isLt
  have hb := b.isLt
  change (Residue.sub a b).val = _
  unfold Residue.sub
  split <;> rename_i h
  · have : a.val + (n - b.val) = a.val - b.val + n := by omega
    rw [this, Nat.add_mod_right, Nat.mod_eq_of_lt (by omega)]
  · rw [Nat.mod_eq_of_lt (by omega)]

theorem val_neg (a : Residue n) : (-a).val = (n - a.val) % n := rfl
@[simp] theorem val_zero : (0 : Residue n).val = 0 := Nat.zero_mod n
theorem val_one : (1 : Residue n).val = 1 % n := rfl

/-- A representative below the modulus is read as itself. -/
@[simp] theorem ofNat_val (a : Residue n) : ofNat a.val = a :=
  ext (Nat.mod_eq_of_lt a.isLt)

end Residue

end Reactions
