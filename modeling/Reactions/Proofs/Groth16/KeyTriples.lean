import Reactions.Proofs.Groth16.KeyCoordinates

/-!
# What the last coordinate of a key point says

The points of a key document are written as projective triples. Such a triple stands for infinity if
its last coordinate is zero, and it stands for its first two coordinates if the last one is one;
this much is `KeyDocument.Projective`. The reader does not read the last coordinate of a triple: it
compares it with the one text that marks infinity, and otherwise takes the first two coordinates as
they are. So a triple is read as if its last coordinate were zero or one, whatever it says
(`KeyDocument.toKey_normalized`, `KeyDocument.SpellsPoint.projective_normalize`), and it is read as
the projective triple that it is only if its last coordinate is the mark for infinity or denotes one
(`KeyDocument.SpellsPoint.projective_iff`).

Both groups have one argument, for any kind of coordinate (`KeyDocument.Form`).
-/

namespace Reactions

/-- The one of the quadratic extension is neutral. -/
theorem Fq2.mul_one (a : Fq2) : a * 1 = a := by
  have hone : (1 : BaseField).val = 1 := rfl
  obtain ⟨c0, c1⟩ := a
  change mk (.sumOfProducts c0 1 (-c1) 0) (.sumOfProducts c0 0 c1 1) = mk c0 c1
  simp [Residue.sumOfProducts, hone]

namespace KeyDocument

open Decimal

/-! ## Triples -/

section
variable {α K : Type} {spells : α → K → Prop} {marks : α → Prop} {valid : AffinePoint K → Prop}
  {zero one : α} {coordinates : List α} {p : AffinePoint K}

/-- Three coordinates and the point that is read from them: infinity if the last one marks it, and
otherwise the valid point that the first two spell. -/
inductive SpellsPoint (spells : α → K → Prop) (marks : α → Prop) (valid : AffinePoint K → Prop) :
    List α → AffinePoint K → Prop
  | infinity {x y z : α} : marks z → SpellsPoint spells marks valid [x, y, z] .infinity
  | affine {x y z : α} {a b : K} : ¬ marks z → spells x a → spells y b → valid (.affine a b) →
      SpellsPoint spells marks valid [x, y, z] (.affine a b)

/-- Writes the last coordinate of a triple as zero if it marks infinity, and as one if it does not.
-/
def normalize (marks : α → Prop) [DecidablePred marks] (zero one : α) : List α → List α
  | [x, y, z] => [x, y, if marks z then zero else one]
  | coordinates => coordinates

variable [Zero K] [One K] [Mul K] [Inv K] [DecidableEq K]

/-- A point is the one of a projective triple. The last coordinate spells a number, and the point is
infinity exactly if that is zero. Otherwise it is one, so that the first two coordinates, which the
triple stands for, are those of the point. -/
def Projective (spells : α → K → Prop) (coordinates : List α) (p : AffinePoint K) : Prop :=
  ∃ x y z w, coordinates = [x, y, z] ∧ spells z w ∧ (p = .infinity ↔ w = 0) ∧
    (p ≠ .infinity → w = 1 ∧ ∃ a b, spells x a ∧ spells y b ∧ p = .affine a b ∧
      ProjectivePoint.toAffine ⟨a, b, w⟩ = p)

/-- What the argument needs to know of how coordinates are spelled: a coordinate spells one number
at most, `zero` spells zero and is the only mark of infinity that spells anything, `one` spells one
and is no mark, and a triple with denominator one stands for its first two coordinates. -/
structure Form (spells : α → K → Prop) (marks : α → Prop) (zero one : α) : Prop where
  unique : ∀ {c : α} {a b : K}, spells c a → spells c b → a = b
  eq_zero_of_marks : ∀ {c : α} {a : K}, marks c → spells c a → c = zero
  marks_zero : marks zero
  spells_zero : spells zero 0
  not_marks_one : ¬ marks one
  spells_one : spells one 1
  toAffine_one : ∀ a b : K, ProjectivePoint.toAffine ⟨a, b, 1⟩ = .affine a b

/-- A last coordinate of one is not a last coordinate of zero: it leaves the others as they are. -/
theorem Form.one_ne_zero (form : Form spells marks zero one) : (1 : K) ≠ 0 := by
  intro h
  have h1 := form.toAffine_one 1 1
  rw [ProjectivePoint.toAffine, if_pos h] at h1
  cases h1

/-- A mark of infinity does not spell one. -/
theorem Form.not_marks_of_spells_one (form : Form spells marks zero one) {z : α} (h : spells z 1) :
    ¬ marks z := by
  intro hz
  obtain rfl := form.eq_zero_of_marks hz h
  exact form.one_ne_zero (form.unique h form.spells_zero)

/-- A triple is read as the projective triple that it is exactly if its last coordinate is `zero` or
spells one. -/
theorem SpellsPoint.projective_iff (form : Form spells marks zero one)
    (h : SpellsPoint spells marks valid coordinates p) :
    Projective spells coordinates p ↔
      ∃ x y z, coordinates = [x, y, z] ∧ (z = zero ∨ spells z 1) := by
  cases h with
  | @infinity x y z hz =>
    constructor
    · rintro ⟨x', y', z', w, hxyz, hw, -⟩
      cases hxyz
      exact ⟨x, y, z, rfl, .inl (form.eq_zero_of_marks hz hw)⟩
    · rintro ⟨x', y', z', hxyz, hzero | hone⟩
      · cases hxyz
        exact ⟨x, y, z, 0, rfl, hzero ▸ form.spells_zero, iff_of_true rfl rfl,
          fun h => absurd rfl h⟩
      · cases hxyz
        exact absurd hz (form.not_marks_of_spells_one hone)
  | @affine x y z a b hz ha hb _ =>
    constructor
    · rintro ⟨x', y', z', w, hxyz, hw, -, hfinite⟩
      cases hxyz
      obtain ⟨rfl, -⟩ := hfinite (by simp)
      exact ⟨x, y, z, rfl, .inr hw⟩
    · rintro ⟨x', y', z', hxyz, hzero | hone⟩
      · cases hxyz
        exact absurd (hzero ▸ form.marks_zero) hz
      · cases hxyz
        exact ⟨x, y, z, 1, rfl, hone, by simp [form.one_ne_zero],
          fun _ => ⟨rfl, a, b, ha, hb, rfl, form.toAffine_one a b⟩⟩

/-- With its last coordinate written as zero or as one, a triple spells the same point and is a
projective triple of it. -/
theorem SpellsPoint.projective_normalize [DecidablePred marks] (form : Form spells marks zero one)
    (h : SpellsPoint spells marks valid coordinates p) :
    Projective spells (normalize marks zero one coordinates) p := by
  cases h with
  | @infinity x y z hz =>
    have h : SpellsPoint spells marks valid [x, y, zero] .infinity := .infinity form.marks_zero
    rw [normalize, if_pos hz, h.projective_iff form]
    exact ⟨x, y, zero, rfl, .inl rfl⟩
  | @affine x y z a b hz ha hb hvalid =>
    have h := SpellsPoint.affine form.not_marks_one ha hb hvalid
    rw [normalize, if_neg hz, h.projective_iff form]
    exact ⟨x, y, one, rfl, .inr form.spells_one⟩

/-- What depends on the last coordinate of a triple only by its being a mark of infinity does not
tell it from the triple whose last coordinate is written as zero or as one. -/
theorem Form.congr_normalize [DecidablePred marks] (form : Form spells marks zero one) {β : Type}
    {f : List α → β} (hf : ∀ {x y z z'}, (marks z ↔ marks z') → f [x, y, z] = f [x, y, z'])
    (coordinates : List α) : f (normalize marks zero one coordinates) = f coordinates := by
  unfold normalize
  split
  · rename_i x y z
    refine hf ?_
    split
    · exact iff_of_true form.marks_zero ‹_›
    · exact iff_of_false form.not_marks_one ‹_›
  · rfl

end

/-! ## The two groups -/

/-- A text and the coordinate of the first group that it spells. -/
def SpellsCoordinate (text : String) (x : BaseField) : Prop := ∃ k, Denotes text k ∧ x = .ofInt k

/-- The text that marks a point of the first group as infinity. -/
def MarksG1 (z : String) : Prop := z = "0"

instance : DecidablePred MarksG1 := fun z => inferInstanceAs (Decidable (z = "0"))

/-- The texts that mark a point of the second group as infinity; none do as well. -/
def MarksG2 (z : List String) : Prop := ∀ c ∈ z, c = "0"

instance : DecidablePred MarksG2 := fun z => inferInstanceAs (Decidable (∀ c ∈ z, c = "0"))

/-- Writes the last coordinate of a point of the first group as zero or as one. -/
def normalizeG1 : List String → List String := normalize MarksG1 "0" "1"

/-- Writes the last coordinate of a point of the second group as zero or as one. -/
def normalizeG2 : List (List String) → List (List String) := normalize MarksG2 ["0", "0"] ["1", "0"]

variable {name : String}

/-- The decimal numeral of a field element spells it. -/
theorem spellsCoordinate_write (x : BaseField) : SpellsCoordinate (Decimal.write x.val) x :=
  coordinate_eq_ok_iff.1 (coordinate_write x)

/-- A text spells one coordinate at most. -/
theorem SpellsCoordinate.unique {text : String} {x y : BaseField} (hx : SpellsCoordinate text x)
    (hy : SpellsCoordinate text y) : x = y := by
  have hreadx : coordinate text = .ok x := coordinate_eq_ok_iff.2 hx
  have hready : coordinate text = .ok y := coordinate_eq_ok_iff.2 hy
  exact Except.ok.inj (hreadx.symm.trans hready)

/-- A list of texts spells one pair at most. -/
theorem SpellsPair.unique {coordinates : List String} {a b : Fq2} (ha : SpellsPair coordinates a)
    (hb : SpellsPair coordinates b) : a = b := by
  have hreada : pair "" coordinates = .ok a := pair_eq_ok_iff.2 ha
  have hreadb : pair "" coordinates = .ok b := pair_eq_ok_iff.2 hb
  exact Except.ok.inj (hreada.symm.trans hreadb)

/-- Two texts spell a pair if each of them spells its part. -/
theorem spellsPair_iff {c0 c1 : String} {a : Fq2} :
    SpellsPair [c0, c1] a ↔ SpellsCoordinate c0 a.c0 ∧ SpellsCoordinate c1 a.c1 := by
  constructor
  · rintro ⟨hk, hl⟩
    exact ⟨⟨_, hk, rfl⟩, ⟨_, hl, rfl⟩⟩
  · obtain ⟨a0, a1⟩ := a
    rintro ⟨⟨k, hk, rfl⟩, ⟨l, hl, rfl⟩⟩
    exact .mk hk hl

/-- The spelling of points of the first group, by single coordinates. -/
theorem form_g1 : Form SpellsCoordinate MarksG1 "0" "1" where
  unique := SpellsCoordinate.unique
  eq_zero_of_marks hz _ := hz
  marks_zero := rfl
  spells_zero := spellsCoordinate_write 0
  not_marks_one := by decide
  spells_one := spellsCoordinate_write 1
  toAffine_one a b := by
    have hinv : (1 : BaseField)⁻¹ = 1 := one_pow (baseOrder - 2)
    have hne : (1 : BaseField) ≠ 0 := by decide
    simp only [ProjectivePoint.toAffine, if_neg hne, hinv, mul_one]

/-- The spelling of points of the second group, by pairs. -/
theorem form_g2 : Form SpellsPair MarksG2 ["0", "0"] ["1", "0"] where
  unique := SpellsPair.unique
  eq_zero_of_marks := by
    rintro _ _ hz ⟨-, -⟩
    obtain ⟨rfl, rfl⟩ : _ = "0" ∧ _ = "0" := by simpa [MarksG2] using hz
    rfl
  marks_zero := by decide
  spells_zero := spellsPair_iff.2 ⟨spellsCoordinate_write 0, spellsCoordinate_write 0⟩
  not_marks_one := by decide
  spells_one := spellsPair_iff.2 ⟨spellsCoordinate_write 1, spellsCoordinate_write 0⟩
  toAffine_one a b := by
    have hinv : (1 : Fq2)⁻¹ = 1 := by decide +kernel
    have hne : (1 : Fq2) ≠ 0 := by decide
    simp only [ProjectivePoint.toAffine, if_neg hne, hinv, Fq2.mul_one]

/-- What spells a point of the first group is of the common form. -/
theorem spellsG1_iff {coordinates : List String} {p : G1Point} :
    SpellsG1 coordinates p ↔ SpellsPoint SpellsCoordinate MarksG1 G1.Valid coordinates p := by
  constructor
  · rintro (⟨x, y⟩ | ⟨hz, hk, hl, hvalid⟩)
    · exact .infinity rfl
    · exact .affine hz ⟨_, hk, rfl⟩ ⟨_, hl, rfl⟩ hvalid
  · rintro (⟨rfl⟩ | ⟨hz, ⟨k, hk, rfl⟩, ⟨l, hl, rfl⟩, hvalid⟩)
    · exact .infinity _ _
    · exact .affine hz hk hl hvalid

theorem spellsG2_iff {coordinates : List (List String)} {p : G2Point} :
    SpellsG2 coordinates p ↔ SpellsPoint SpellsPair MarksG2 G2.Valid coordinates p := by
  constructor
  · rintro (⟨x, y, hz⟩ | ⟨hz, ha, hb, hvalid⟩)
    · exact .infinity hz
    · exact .affine hz ha hb hvalid
  · rintro (hz | ⟨hz, ha, hb, hvalid⟩)
    · exact .infinity _ _ hz
    · exact .affine hz ha hb hvalid

/-- The reader of the first group looks at the last coordinate for the mark of infinity, and for
nothing else. -/
theorem g1_congr {x y z z' : String} (h : MarksG1 z ↔ MarksG1 z') :
    g1 name [x, y, z] = g1 name [x, y, z'] := by
  unfold MarksG1 at h
  simp only [g1, h]

/-- The reader of the second group looks at the last coordinate for the mark of infinity, and for
nothing else. -/
theorem g2_congr {x y z z' : List String} (h : MarksG2 z ↔ MarksG2 z') :
    g2 name [x, y, z] = g2 name [x, y, z'] := by
  have hall (z : List String) : (z.all (· = "0")) = true ↔ MarksG2 z := by simp [MarksG2]
  simp only [g2, hall, h]

/-- A point of the first group is read as its normalised form is. -/
theorem g1_normalize (coordinates : List String) :
    g1 name (normalizeG1 coordinates) = g1 name coordinates :=
  form_g1.congr_normalize g1_congr coordinates

theorem g2_normalize (coordinates : List (List String)) :
    g2 name (normalizeG2 coordinates) = g2 name coordinates :=
  form_g2.congr_normalize g2_congr coordinates

/-! ## Keys -/

/-- The document with every last coordinate written as zero or as one. -/
def normalized (doc : KeyDocument) : KeyDocument where
  alpha := normalizeG1 doc.alpha
  beta := normalizeG2 doc.beta
  gamma := normalizeG2 doc.gamma
  delta := normalizeG2 doc.delta
  ic := doc.ic.map normalizeG1

/-- The points of the first group that a document has, each with the one that a key has in its
place. -/
def pointsG1 (doc : KeyDocument) (key : VerificationKey) : List (List String × G1Point) :=
  (doc.alpha, key.alpha) :: doc.ic.zip key.ic

/-- The points of the second group that a document has, each with the one that a key has in its
place. -/
def pointsG2 (doc : KeyDocument) (key : VerificationKey) : List (List (List String) × G2Point) :=
  [(doc.beta, key.beta), (doc.gamma, key.gamma), (doc.delta, key.delta)]

variable {version : String} {doc : KeyDocument} {key : VerificationKey}

/-- A document is read as the one with every last coordinate written as zero or as one. -/
theorem toKey_normalized : doc.normalized.toKey version = doc.toKey version := by
  have hic : (doc.ic.map normalizeG1).mapM (g1 "IC") = doc.ic.mapM (g1 "IC") := by
    rw [List.mapM_map]
    exact congrArg (doc.ic.mapM ·) (funext g1_normalize)
  simp only [toKey, normalized, hic, g1_normalize, g2_normalize]

/-- Every point of the first group is spelled in its own place. -/
theorem Spells.of_mem_pointsG1 (h : doc.Spells key) : ∀ e ∈ doc.pointsG1 key, SpellsG1 e.1 e.2 := by
  rintro ⟨coordinates, p⟩ he
  rcases List.mem_cons.1 he with he | he
  · cases he
    exact h.alpha
  · exact (List.forall₂_iff_zip.1 h.ic).2 he

theorem Spells.of_mem_pointsG2 (h : doc.Spells key) : ∀ e ∈ doc.pointsG2 key, SpellsG2 e.1 e.2 := by
  simp only [pointsG2, List.forall_mem_cons]
  exact ⟨h.beta, h.gamma, h.delta, List.forall_mem_nil _⟩

/-- A key document is read as the one in which every last coordinate of a point that does not mark
infinity is one, whatever it says, and every one that does is zero; no point is refused for its last
coordinate. In that other document all points are projective triples of what is read from them. In
the document itself a point is so only if its last coordinate is the text of zero or denotes one. -/
theorem last_coordinate_only_marks_infinity {version text : String} {doc : KeyDocument}
    (hdoc : reader.document text = .ok doc) :
    VerificationKey.ofDocument version text = doc.normalized.toKey version ∧
    ∀ key, VerificationKey.ofDocument version text = .ok key →
      (∀ e ∈ doc.pointsG1 key, SpellsG1 e.1 e.2 ∧
        Projective SpellsCoordinate (normalizeG1 e.1) e.2 ∧
        (Projective SpellsCoordinate e.1 e.2 ↔
          ∃ x y z, e.1 = [x, y, z] ∧ (z = "0" ∨ SpellsCoordinate z 1))) ∧
      (∀ e ∈ doc.pointsG2 key, SpellsG2 e.1 e.2 ∧
        Projective SpellsPair (normalizeG2 e.1) e.2 ∧
        (Projective SpellsPair e.1 e.2 ↔
          ∃ x y z, e.1 = [x, y, z] ∧ (z = ["0", "0"] ∨ SpellsPair z 1))) := by
  have hread : VerificationKey.ofDocument version text = doc.toKey version := by
    rw [VerificationKey.ofDocument, hdoc]
    rfl
  refine ⟨hread.trans toKey_normalized.symm, fun key hkey => ?_⟩
  have hspells := (toKey_eq_ok_iff.1 (hread.symm.trans hkey)).1
  refine ⟨fun e he => ?_, fun e he => ?_⟩
  · have hpoint := hspells.of_mem_pointsG1 e he
    exact ⟨hpoint, (spellsG1_iff.1 hpoint).projective_normalize form_g1,
      (spellsG1_iff.1 hpoint).projective_iff form_g1⟩
  · have hpoint := hspells.of_mem_pointsG2 e he
    exact ⟨hpoint, (spellsG2_iff.1 hpoint).projective_normalize form_g2,
      (spellsG2_iff.1 hpoint).projective_iff form_g2⟩

/-- A document whose only finite point is the generator of the first group, with `z` for its last
coordinate. The last coordinate of the first point of the second group is `w`. -/
def ofLastCoordinates (z : String) (w : List String) : KeyDocument where
  alpha := ["1", "2", z]
  beta := [["0", "0"], ["1", "0"], w]
  gamma := [["0", "0"], ["1", "0"], ["0", "0"]]
  delta := [["0", "0"], ["1", "0"], ["0", "0"]]
  ic := List.replicate VerificationKey.icCount ["0", "1", "0"]

/-- The document spells the key of generators with any last coordinates of the right kind. -/
theorem spells_ofLastCoordinates {z : String} {w : List String} (hz : ¬ MarksG1 z)
    (hw : MarksG2 w) :
    (ofLastCoordinates z w).Spells generatorKey where
  alpha := .affine hz (denotes_write 1) (denotes_write 2) G1.valid_generator
  beta := .infinity _ _ hw
  gamma := .infinity _ _ form_g2.marks_zero
  delta := .infinity _ _ form_g2.marks_zero
  ic := spellsG1_replicate_infinity VerificationKey.icCount "0" "1"
  ic_length := by simp [generatorKey]

/-- The document is accepted, whatever the two coordinates say. -/
theorem ofDocument_ofLastCoordinates {z : String} {w : List String} (hz : ¬ MarksG1 z)
    (hw : MarksG2 w) :
    VerificationKey.ofDocument "omega-v2" (ofLastCoordinates z w).toJson.render =
      .ok generatorKey :=
  ofDocument_eq_ok_iff.2
    ⟨_, Reader.document_render (reads_toJson _), spells_ofLastCoordinates hz hw, rfl⟩

/-- A triple that ends in two, one whose last coordinate denotes zero, and one whose last coordinate
denotes nothing are read as one affine point, and a triple that has no last coordinate as infinity.
None of them is a projective triple of what it is read as. -/
theorem last_coordinate_need_not_be_one :
    (∀ z ∈ ["2", "00", "x"],
      VerificationKey.ofDocument "omega-v2" (ofLastCoordinates z ["0", "0"]).toJson.render =
        .ok generatorKey ∧
      ¬ Projective SpellsCoordinate (ofLastCoordinates z ["0", "0"]).alpha generatorKey.alpha) ∧
    VerificationKey.ofDocument "omega-v2" (ofLastCoordinates "1" []).toJson.render =
      .ok generatorKey ∧
      ¬ Projective SpellsPair (ofLastCoordinates "1" []).beta generatorKey.beta := by
  refine ⟨fun z hz => ?_, ofDocument_ofLastCoordinates (by decide) (by decide), fun h => ?_⟩
  · have hfacts : ∀ z ∈ ["2", "00", "x"], ¬ MarksG1 z ∧ decimal? z ≠ some 1 := by decide
    obtain ⟨hmark, hone⟩ := hfacts z hz
    refine ⟨ofDocument_ofLastCoordinates hmark (by decide), fun h => ?_⟩
    have hspells := (spells_ofLastCoordinates hmark form_g2.marks_zero).alpha
    obtain ⟨x, y, z', hxyz, hz'⟩ := ((spellsG1_iff.1 hspells).projective_iff form_g1).1 h
    cases hxyz
    rcases hz' with hzero | hspelled
    · exact hmark hzero
    · exact hone (decimal?_eq_some_iff.2 hspelled)
  · obtain ⟨x, y, z, w, hxyz, hw, -⟩ := h
    cases hxyz
    cases hw

/-- A document whose only finite point ends in two is read as the one in which it ends in one. -/
theorem doubled_generator_is_read_undivided :
    reader.document (ofLastCoordinates "2" ["0", "0"]).toJson.render =
      .ok (ofLastCoordinates "2" ["0", "0"]) ∧
    VerificationKey.ofDocument "omega-v2" (ofLastCoordinates "2" ["0", "0"]).toJson.render =
      (ofLastCoordinates "1" ["0", "0"]).toKey "omega-v2" ∧
    SpellsG1 ["1", "2", "2"] G1.generator := by
  have hdoc : reader.document (ofLastCoordinates "2" ["0", "0"]).toJson.render =
      .ok (ofLastCoordinates "2" ["0", "0"]) := Reader.document_render (reads_toJson _)
  have hkey : VerificationKey.ofDocument "omega-v2"
      (ofLastCoordinates "2" ["0", "0"]).toJson.render = .ok generatorKey :=
    ofDocument_ofLastCoordinates (by decide) (by decide)
  obtain ⟨hread, hpoints⟩ := last_coordinate_only_marks_infinity hdoc
  have hnormalized : (ofLastCoordinates "2" ["0", "0"]).normalized =
      ofLastCoordinates "1" ["0", "0"] := by
    simp [normalized, ofLastCoordinates, normalizeG1, normalizeG2, normalize, MarksG1, MarksG2]
  exact ⟨hdoc, hnormalized ▸ hread, ((hpoints generatorKey hkey).1 _ (List.mem_cons_self ..)).1⟩

end KeyDocument

end Reactions
