import Reactions.Groth16.Key

/-!
# Pairings with infinity

The pairing of infinity with any point is one: such a pair has no term in the Miller loop and can be
left out of a product (`pairingProductIsOne_cons`), and the product of no pairs is one
(`pairingProductIsOne_nil`). A key whose points of the second group are all infinity therefore
proves nothing: a proof whose own point there is infinity passes, whatever the public inputs are
(`VerificationKey.check?_of_infinity`).
-/

namespace Reactions

/-! ## One -/

/-- A ladder that starts from a unit and only ever adds the unit stays there. -/
theorem sharedLadder_of_unit {α : Type} {op : α → α → α} {unit : α} (hunit : op unit unit = unit)
    {terms : List (α × Nat)} (hterms : ∀ term ∈ terms, term.1 = unit) :
    sharedLadder op unit terms = unit := by
  have hround (i : Nat) : terms.foldl
      (fun acc term => if term.2.testBit i then op acc term.1 else acc) unit = unit := by
    induction terms with
    | nil => rfl
    | cons term rest ih =>
      have hterm := hterms term List.mem_cons_self
      rw [List.foldl_cons, hterm, hunit, ite_self]
      exact ih fun other hother => hterms other (List.mem_cons_of_mem _ hother)
  rw [sharedLadder]
  generalize List.range (binaryWidth (terms.map Prod.snd)) = rounds
  induction rounds with
  | nil => rfl
  | cons i rest ih => rw [List.foldr_cons, ih, hunit, hround]

namespace Fq12

/-- One times one is one, by computation. -/
theorem one_mul_one : (1 : Fq12) * 1 = 1 := by decide +kernel

/-- The Frobenius map leaves one. -/
theorem frobenius_one : frobenius 1 = 1 := by decide +kernel

/-- The first part of the final power sends one to one. -/
theorem conjugate_one_mul_inv_one : conjugate 1 * (1 : Fq12)⁻¹ = 1 := by decide +kernel

end Fq12

/-- The final exponentiation sends one to one. -/
theorem finalPower_one : finalPower 1 = 1 := by
  rw [finalPower, Fq12.conjugate_one_mul_inv_one]
  simp only [Fq12.frobenius_one, Fq12.one_mul_one]
  exact sharedLadder_of_unit Fq12.one_mul_one (by simp)

/-! ## Pairs with infinity -/

/-- The Miller loop over no terms stays at one. -/
theorem millerLoop_nil (digits : List Bool) : millerLoop [] 1 digits = 1 := by
  induction digits with
  | nil => rfl
  | cons digit rest ih =>
    rw [millerLoop, Fq12.one_mul_one]
    cases digit <;> exact ih

/-- A pair has no term exactly if one of its points is infinity. -/
theorem MillerTerm.start?_eq_none_iff {pair : G1Point × G2Point} :
    start? pair = none ↔ pair.1 = .infinity ∨ pair.2 = .infinity := by
  obtain ⟨p, q⟩ := pair
  cases p <;> cases q <;> simp [start?]

/-- The product of no pairings is one. -/
theorem pairingProductIsOne_nil : pairingProductIsOne [] = true := by
  rw [pairingProductIsOne, millerProduct, List.filterMap_nil, millerLoop_nil, finalPower_one,
    beq_self_eq_true]

/-- A pair with infinity can be left out of a product. -/
theorem pairingProductIsOne_cons {pair : G1Point × G2Point}
    (h : pair.1 = .infinity ∨ pair.2 = .infinity) (pairs : List (G1Point × G2Point)) :
    pairingProductIsOne (pair :: pairs) = pairingProductIsOne pairs := by
  rw [pairingProductIsOne, millerProduct,
    List.filterMap_cons_none (MillerTerm.start?_eq_none_iff.2 h), ← millerProduct,
    ← pairingProductIsOne]

/-- A key without a point of the second group lets every proof without one pass. -/
theorem VerificationKey.check?_of_infinity {key : VerificationKey} {proof : Proof}
    {inputs : List ScalarField} (hbeta : key.beta = .infinity) (hgamma : key.gamma = .infinity)
    (hdelta : key.delta = .infinity) (hproof : proof.b = .infinity)
    (hlength : key.ic.length = inputs.length + 1) : key.check? proof inputs = some true := by
  obtain ⟨constant, points, hic⟩ := List.exists_cons_of_length_eq_add_one hlength
  rw [hic, List.length_cons] at hlength
  rw [check?, hic]
  dsimp only
  rw [if_pos (Nat.succ.inj hlength), pairingProductIsOne_cons (.inr hproof),
    pairingProductIsOne_cons (.inr hgamma), pairingProductIsOne_cons (.inr hdelta),
    pairingProductIsOne_cons (.inr hbeta), pairingProductIsOne_nil]

end Reactions
