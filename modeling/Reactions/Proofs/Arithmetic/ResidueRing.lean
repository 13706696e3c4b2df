import Mathlib.Algebra.Ring.InjSurj
import Mathlib.Data.ZMod.Basic
import Reactions.Arithmetic.Residue

/-!
# The ring of residues

A ladder computes multiples in any additive monoid that its values stand for (`ladder_nsmul`).
Read multiplicatively this says what a power of residues is, and `toZMod`, which sends a residue to
its class in `ZMod n`, turns every operation on residues into the operation of that ring. So the
residues are a commutative ring under the operations they were given.
-/

namespace Reactions

/-! ## Ladders -/

section
variable {α M : Type} [AddMonoid M] {R : α → M → Prop} {op : α → α → α} {unit base : α} {b : M}

/-- The lowest digits of a number, added up from the highest down, give the multiple that the
number's remainder counts. -/
theorem lowDigits_nsmul (hunit : R unit 0) (hbase : R base b)
    (hop : ∀ x y u v, R x u → R y v → R (op x y) (u + v)) (count n : Nat) :
    R ((lowDigits count n).foldr (fun digit acc => ladderStep op base acc digit) unit)
      ((n % 2 ^ count) • b) := by
  induction count generalizing n with
  | zero => simpa [lowDigits, Nat.mod_one] using hunit
  | succ count ih =>
    have hdouble := hop _ _ _ _ (ih (n / 2)) (ih (n / 2))
    have hn : n % 2 ^ (count + 1) = n % 2 + 2 * (n / 2 % 2 ^ count) := by
      rw [Nat.pow_succ', Nat.mod_mul]
    rw [lowDigits, List.foldr_cons, ladderStep, hn]
    rcases Nat.mod_two_eq_zero_or_one n with h | h
    · simpa [h, two_mul, add_nsmul] using hdouble
    · have hodd : 1 + 2 * (n / 2 % 2 ^ count) = n / 2 % 2 ^ count + n / 2 % 2 ^ count + 1 := by
        omega
      simpa [h, hodd, add_nsmul] using hop _ _ _ _ hdouble hbase

/-- A ladder computes a multiple: if its operation adds up what its values stand for, then
`ladder op unit base n` stands for `n` times what the base stands for. -/
theorem ladder_nsmul (hunit : R unit 0) (hbase : R base b)
    (hop : ∀ x y u v, R x u → R y v → R (op x y) (u + v)) (n : Nat) :
    R (ladder op unit base n) (n • b) := by
  have h := lowDigits_nsmul hunit hbase hop (n.log2 + 1) n
  rwa [Nat.mod_eq_of_lt Nat.lt_log2_self, ← List.foldl_reverse] at h

end

/-! ## Residues -/

namespace Residue

variable {n : Nat}

/-- The class of a residue in the ring of integers modulo `n`. -/
def toZMod (a : Residue n) : ZMod n := (a.val : ZMod n)

/-- A residue is known by its class. -/
theorem toZMod_injective : Function.Injective (toZMod : Residue n → ZMod n) := by
  intro a b h
  have h := (ZMod.natCast_eq_natCast_iff' _ _ _).1 h
  rw [Nat.mod_eq_of_lt a.isLt, Nat.mod_eq_of_lt b.isLt] at h
  exact ext h

variable [Modulus n]

/-- The class of a reduced number is that of the number. -/
@[simp] theorem toZMod_ofNat (k : Nat) : (ofNat k : Residue n).toZMod = k := by
  simp [toZMod]

@[simp] theorem toZMod_zero : (0 : Residue n).toZMod = 0 := by simp [toZMod]

@[simp] theorem toZMod_one : (1 : Residue n).toZMod = 1 := by simp [toZMod, val_one]

/-- Residues are added as classes are. -/
@[simp] theorem toZMod_add (a b : Residue n) : (a + b).toZMod = a.toZMod + b.toZMod := by
  simp [toZMod, val_add]

/-- They are multiplied as classes are. -/
@[simp] theorem toZMod_mul (a b : Residue n) : (a * b).toZMod = a.toZMod * b.toZMod := by
  simp [toZMod, val_mul]

/-- They are negated as classes are. -/
@[simp] theorem toZMod_neg (a : Residue n) : (-a).toZMod = -a.toZMod := by
  simp [toZMod, val_neg, Nat.cast_sub a.isLt.le]

omit [Modulus n] in
/-- They are subtracted as classes are. -/
@[simp] theorem toZMod_sub (a b : Residue n) : (a - b).toZMod = a.toZMod - b.toZMod := by
  simp [toZMod, val_sub, Nat.cast_sub b.isLt.le, sub_eq_add_neg]

/-- The ladder of multiplications computes the power. -/
@[simp] theorem toZMod_pow (a : Residue n) (k : Nat) : (a ^ k).toZMod = a.toZMod ^ k := by
  let R (x : Residue n) (u : Additive (ZMod n)) : Prop := x.toZMod = u.toMul
  have hunit : R 1 0 := by simp [R]
  have hbase : R a (.ofMul a.toZMod) := rfl
  have hmul : ∀ x y u v, R x u → R y v → R (x * y) (u + v) := by
    intro x y u v hx hy
    simp only [R] at hx hy ⊢
    rw [toZMod_mul, hx, hy, toMul_add]
  exact ladder_nsmul hunit hbase hmul k

instance : NatCast (Residue n) := ⟨ofNat⟩
instance : IntCast (Residue n) := ⟨ofInt⟩
instance : SMul ℕ (Residue n) := ⟨fun k a => ofNat k * a⟩
instance : SMul ℤ (Residue n) := ⟨fun k a => ofInt k * a⟩

/-- The class of a reduced integer is that of the integer. -/
@[simp] theorem toZMod_ofInt (k : Int) : (ofInt k : Residue n).toZMod = k := by
  have hn : (n : ℤ) ≠ 0 := by exact_mod_cast (Modulus.pos (n := n)).ne'
  rw [ofInt, toZMod_ofNat, ← Int.cast_natCast, Int.toNat_of_nonneg (Int.emod_nonneg k hn),
    ZMod.intCast_mod]

/-- Residues are a commutative ring under their own operations. -/
instance : CommRing (Residue n) :=
  toZMod_injective.commRing toZMod toZMod_zero toZMod_one toZMod_add toZMod_mul toZMod_neg
    toZMod_sub (fun k a => (toZMod_mul _ _).trans (by simp))
    (fun k a => (toZMod_mul _ _).trans (by simp)) toZMod_pow toZMod_ofNat toZMod_ofInt

/-- A natural number is reduced as a natural number. -/
theorem ofInt_natCast (k : Nat) : (ofInt k : Residue n) = ofNat k :=
  toZMod_injective (by simp)

/-- The negative of an integer is reduced to the negative residue. -/
theorem ofInt_neg (k : Int) : (ofInt (-k) : Residue n) = -ofInt k :=
  toZMod_injective (by simp)

/-- Integers have one class if they are congruent, and only then. -/
theorem ofInt_eq_ofInt_iff {k l : Int} : (ofInt k : Residue n) = ofInt l ↔ k ≡ l [ZMOD n] := by
  rw [← toZMod_injective.eq_iff, toZMod_ofInt, toZMod_ofInt, ZMod.intCast_eq_intCast_iff]

end Residue

end Reactions
