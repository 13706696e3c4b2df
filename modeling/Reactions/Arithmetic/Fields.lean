import Reactions.Arithmetic.Residue

/-!
# The three prime fields

The pairing curve BN254 has points over `BaseField` and groups of order `scalarOrder`. The
signature curve BabyJubJub has its coordinates in `ScalarField`, so that every coordinate is a
valid circuit input, and the order of its main subgroup is `subgroupOrder`.
-/

namespace Reactions

/-- The order of the BN254 groups. -/
def scalarOrder : Nat :=
  21888242871839275222246405745257275088548364400416034343698204186575808495617

/-- The characteristic of the field that BN254 is defined over. -/
def baseOrder : Nat :=
  21888242871839275222246405745257275088696311157297823662689037894645226208583

/-- The order of the subgroup that the BabyJubJub generator spans. -/
def subgroupOrder : Nat :=
  2736030358979909402780800718157159386076813972158567259200215660948447373041

instance : Modulus scalarOrder := ⟨by decide⟩
instance : Modulus baseOrder := ⟨by decide⟩
instance : Modulus subgroupOrder := ⟨by decide⟩

/-- The field of circuit values, leaves and BabyJubJub coordinates. -/
abbrev ScalarField := Residue scalarOrder

/-- The field of BN254 coordinates. -/
abbrev BaseField := Residue baseOrder

/-- The multipliers of BabyJubJub points. -/
abbrev Multiplier := Residue subgroupOrder

end Reactions
