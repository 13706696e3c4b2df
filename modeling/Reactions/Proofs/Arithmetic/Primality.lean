import Mathlib.Data.List.Prime
import Mathlib.FieldTheory.Finite.Basic
import Mathlib.NumberTheory.LucasPrimality
import Mathlib.Tactic.NormNum.Prime
import Reactions.Arithmetic.Fields
import Reactions.Proofs.Arithmetic.ResidueRing

/-!
# Certificates of primality

By Lucas's test a number `p` is prime if some residue has order `p - 1` modulo `p`, which is to
say that its power `p - 1` is one and its powers `(p - 1) / q` are not, for the primes `q` that
divide `p - 1`. A certificate is a list of such tests in which every prime that a test takes for
granted is small or certified by a test before it. The powers are computed by the binary ladder, so
that the kernel evaluates a whole certificate (`Certified.prime`).
-/

namespace Reactions

/-- One test of a certificate: a number, the residue that should have full order, and the primes,
each with its exponent, that the number less one should be made of. -/
structure LucasTest where
  number : Nat
  residue : Nat
  factors : List (Nat × Nat)

namespace LucasTest

/-- A power of the test's residue modulo its number. -/
def power (t : LucasTest) (k : Nat) : Nat :=
  ladder (fun x y => x * y % t.number) (1 % t.number) (t.residue % t.number) k

/-- The ladder of multiplications modulo the number computes the power there. -/
theorem cast_power (t : LucasTest) (k : Nat) :
    (t.power k : ZMod t.number) = (t.residue : ZMod t.number) ^ k :=
  ladder_nsmul (R := fun (x : Nat) (u : Additive (ZMod t.number)) => (x : ZMod t.number) = u.toMul)
    (b := .ofMul (t.residue : ZMod t.number)) (by simp) (by simp)
    (fun x y u v hx hy => by simp [hx, hy]) k

/-- Powers are reduced. -/
theorem power_lt (t : LucasTest) (h : 1 < t.number) (k : Nat) : t.power k < t.number := by
  have hm : ∀ x : Nat, x % t.number < t.number := fun x => Nat.mod_lt _ (by omega)
  exact ladder_nsmul (R := fun (x : Nat) (_ : Unit) => x < t.number) (b := ()) (hm _) (hm _)
    (fun _ _ _ _ _ _ => hm _) k

/-- A power is one exactly if it is so modulo the number. -/
theorem power_eq_one_iff (t : LucasTest) (h : 1 < t.number) (k : Nat) :
    t.power k = 1 ↔ (t.residue : ZMod t.number) ^ k = 1 := by
  rw [← t.cast_power, ← Nat.cast_one (R := ZMod t.number), ZMod.natCast_eq_natCast_iff',
    Nat.mod_eq_of_lt (t.power_lt h k), Nat.mod_eq_of_lt h]

/-- The test succeeds, given that certain numbers are prime. -/
def Passes (primes : List Nat) (t : LucasTest) : Prop :=
  1 < t.number ∧ (t.factors.map fun f => f.1 ^ f.2).prod + 1 = t.number ∧
    t.power (t.number - 1) = 1 ∧
    ∀ f ∈ t.factors, f.1 ∈ primes ∧ t.power ((t.number - 1) / f.1) ≠ 1

instance (primes : List Nat) (t : LucasTest) : Decidable (t.Passes primes) :=
  inferInstanceAs (Decidable (_ ∧ _))

/-- A number that passes the test is prime. -/
theorem Passes.prime {primes : List Nat} {t : LucasTest} (h : t.Passes primes)
    (hprimes : ∀ q ∈ primes, q.Prime) : t.number.Prime := by
  obtain ⟨hlt, hprod, hone, hne⟩ := h
  refine lucas_primality t.number t.residue ((t.power_eq_one_iff hlt _).1 hone) ?_
  intro q hq hdvd
  rw [← hprod, Nat.add_sub_cancel, hq.prime.dvd_prod_iff] at hdvd
  obtain ⟨_, hmem, hqf⟩ := hdvd
  obtain ⟨f, hf, rfl⟩ := List.mem_map.1 hmem
  -- a prime that divides a power of a prime is that prime
  obtain ⟨hfp, hf1⟩ := hne f hf
  obtain rfl := (Nat.prime_dvd_prime_iff_eq hq (hprimes _ hfp)).1 (hq.dvd_of_dvd_pow hqf)
  exact fun h => hf1 ((t.power_eq_one_iff hlt _).2 h)

end LucasTest

/-- Every test of a certificate succeeds, given that certain numbers and those of the tests before
it are prime. -/
def Certified : (primes : List Nat) → List LucasTest → Prop
  | _, [] => True
  | primes, t :: rest => t.Passes primes ∧ Certified (t.number :: primes) rest

instance Certified.decidable : (primes : List Nat) → (tests : List LucasTest) →
    Decidable (Certified primes tests)
  | _, [] => isTrue trivial
  | primes, t :: rest =>
    have := Certified.decidable (t.number :: primes) rest
    inferInstanceAs (Decidable (_ ∧ _))

/-- The numbers of a certificate that holds are prime. -/
theorem Certified.prime {primes : List Nat} {tests : List LucasTest} (h : Certified primes tests)
    (hprimes : ∀ q ∈ primes, q.Prime) {p : Nat} (hp : p ∈ tests.map (·.number)) : p.Prime := by
  induction tests generalizing primes with
  | nil => cases hp
  | cons t rest ih =>
    have ht := h.1.prime hprimes
    rcases List.mem_cons.1 hp with rfl | hp
    · exact ht
    · exact ih h.2 (List.forall_mem_cons.2 ⟨ht, hprimes⟩) hp

/-! ## The orders of the fields -/

/-- The small primes that the certificates below build on. -/
def smallPrimes : List Nat :=
  [2, 3, 5, 7, 11, 13, 17, 19, 23, 29, 37, 83, 107, 229, 349, 379, 521, 661, 823, 853, 967, 983,
    1061, 1637, 3691, 4139, 4999, 6323, 11003, 27743, 33409, 43189, 93001, 237073, 295049, 336157,
    513749, 1593227]

/-- The small primes are prime. -/
theorem smallPrimes_prime : ∀ q ∈ smallPrimes, q.Prime := by
  simp only [smallPrimes, List.forall_mem_cons, List.not_mem_nil, false_implies, implies_true,
    and_true]
  norm_num

/-- A certificate of the order of the scalar field. -/
def scalarOrderTests : List LucasTest :=
  [⟨405928799, 22, [(2, 1), (11, 1), (3691, 1), (4999, 1)]⟩,
    ⟨12048837557, 2, [(2, 2), (7, 2), (661, 1), (93001, 1)]⟩,
    ⟨5156902474397, 2, [(2, 2), (107, 1), (12048837557, 1)]⟩,
    ⟨1670836401704629, 2, [(2, 2), (3, 4), (5156902474397, 1)]⟩,
    ⟨639533339, 2, [(2, 1), (229, 1), (853, 1), (1637, 1)]⟩,
    ⟨65865678001877903, 5, [(2, 1), (83, 1), (379, 1), (1637, 1), (639533339, 1)]⟩,
    ⟨13818364434197438864469338081, 3,
      [(2, 5), (5, 1), (823, 1), (1593227, 1), (65865678001877903, 1)]⟩,
    ⟨scalarOrder, 5,
      [(2, 28), (3, 2), (13, 1), (29, 1), (983, 1), (11003, 1), (237073, 1), (405928799, 1),
        (1670836401704629, 1), (13818364434197438864469338081, 1)]⟩]

/-- The order of the scalar field is prime. -/
theorem scalarOrder_prime : scalarOrder.Prime :=
  (show Certified smallPrimes scalarOrderTests by decide +kernel).prime smallPrimes_prime
    (by simp [scalarOrderTests])

/-- A certificate of the order of the subgroup. -/
def subgroupOrderTests : List LucasTest :=
  [⟨25485742523, 2, [(2, 1), (43189, 1), (295049, 1)]⟩,
    ⟨202795150404015601, 7, [(2, 4), (3, 1), (5, 2), (19, 1), (349, 1), (25485742523, 1)]⟩,
    ⟨431548080059745198929, 3, [(2, 4), (7, 1), (19, 1), (202795150404015601, 1)]⟩,
    ⟨32151195060611136810608359, 3, [(2, 1), (3, 2), (4139, 1), (431548080059745198929, 1)]⟩,
    ⟨10206821, 2, [(2, 2), (5, 1), (13, 1), (37, 1), (1061, 1)]⟩,
    ⟨81654569, 3, [(2, 3), (10206821, 1)]⟩,
    ⟨27892051421815855583579, 2,
      [(2, 1), (23, 1), (521, 1), (27743, 1), (513749, 1), (81654569, 1)]⟩,
    ⟨1863691091902891838383581623, 5, [(2, 1), (33409, 1), (27892051421815855583579, 1)]⟩,
    ⟨178259130663561045147472537592047227885001, 14,
      [(2, 3), (3, 2), (5, 4), (6323, 1), (336157, 1), (1863691091902891838383581623, 1)]⟩,
    ⟨subgroupOrder, 31,
      [(2, 4), (3, 1), (5, 1), (11, 2), (17, 1), (967, 1), (32151195060611136810608359, 1),
        (178259130663561045147472537592047227885001, 1)]⟩]

theorem subgroupOrder_prime : subgroupOrder.Prime :=
  (show Certified smallPrimes subgroupOrderTests by decide +kernel).prime smallPrimes_prime
    (by simp [subgroupOrderTests])

instance : Fact scalarOrder.Prime := ⟨scalarOrder_prime⟩
instance : Fact subgroupOrder.Prime := ⟨subgroupOrder_prime⟩
instance : Fact (2 < scalarOrder) := ⟨by decide⟩
instance : Fact (2 < subgroupOrder) := ⟨by decide⟩

/-! ## Fields -/

namespace Residue

variable {p : Nat} [Modulus p] [Fact p.Prime]

/-- Fermat's little theorem. -/
theorem pow_order_sub_one {a : Residue p} (ha : a ≠ 0) : a ^ (p - 1) = 1 := by
  apply toZMod_injective
  rw [toZMod_pow, toZMod_one]
  refine ZMod.pow_card_sub_one_eq_one fun h => ha (toZMod_injective ?_)
  rw [h, toZMod_zero]

/-- The power `p - 2` inverts every residue other than zero. -/
theorem mul_inv_self [Fact (2 < p)] {a : Residue p} (ha : a ≠ 0) : a * a⁻¹ = 1 := by
  have hp : p - 1 = p - 2 + 1 := by have := Fact.out (p := 2 < p); omega
  change a * a ^ (p - 2) = 1
  rw [← pow_order_sub_one ha, hp, mul_comm]
  exact (pow_succ a (p - 2)).symm

omit [Fact p.Prime] in
/-- Zero is its own inverse. -/
theorem inv_zero_eq [Fact (2 < p)] : (0 : Residue p)⁻¹ = 0 := by
  have hp : p - 2 ≠ 0 := by have := Fact.out (p := 2 < p); omega
  change (0 : Residue p) ^ (p - 2) = 0
  exact zero_pow hp

/-- The residues of an odd prime are a field under their own operations. -/
instance [Fact (2 < p)] : Field (Residue p) where
  exists_pair_ne := by
    refine ⟨0, 1, fun h => ?_⟩
    have h := congrArg val h
    rw [val_zero, val_one, Nat.mod_eq_of_lt (Fact.out (p := p.Prime)).one_lt] at h
    exact Nat.zero_ne_one h
  mul_inv_cancel _ := mul_inv_self
  inv_zero := inv_zero_eq
  nnqsmul := _
  nnqsmul_def := fun _ _ => rfl
  qsmul := _
  qsmul_def := fun _ _ => rfl

end Residue

end Reactions
