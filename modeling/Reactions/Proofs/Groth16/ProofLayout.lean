import Mathlib.Data.Option.Basic
import Reactions.Groth16.Proof
import Reactions.Proofs.Bytes.Encoding

/-!
# The layout of proofs is exact

Bytes are read as a proof only if they are the written form of that proof, and the written form of
every proof whose points belong to their groups is read (`Proof.decode?_eq_some_iff`). So a proof
has one written form, and nobody can make another blob of it that is read alike. The same holds at
each layer below: of the split into words (`Bytes32.split?_eq_some_iff`) and of the words of a point
(`G1.ofWords?_eq_some_iff`, `G2.ofWords?_eq_some_iff`), where all-zero words can stand for infinity
because no curve goes through the origin.
-/

namespace Reactions

/-! ## Words -/

namespace Bytes32

/-- Bytes are split into the words whose bytes they are, one after the other. -/
theorem split?_eq_some_iff {count : Nat} {bytes : Bytes} {words : List Bytes32} :
    split? count bytes = some words ↔ words.length = count ∧ words.flatMap toList = bytes := by
  induction count generalizing bytes words with
  | zero =>
    rw [split?, List.length_eq_zero_iff]
    cases bytes with
    | nil =>
      constructor
      · intro h
        cases h
        exact ⟨rfl, rfl⟩
      · rintro ⟨rfl, -⟩
        rfl
    | cons b rest =>
      constructor
      · intro h
        cases h
      · rintro ⟨rfl, h⟩
        cases h
  | succ count ih =>
    rw [split?]
    constructor
    · intro h
      obtain ⟨word, hword, h⟩ := Option.bind_eq_some_iff.1 h
      obtain ⟨rest, hrest, h⟩ := Option.bind_eq_some_iff.1 h
      cases h
      obtain ⟨hlength, hbytes⟩ := ih.1 hrest
      refine ⟨by rw [List.length_cons, hlength], ?_⟩
      rw [List.flatMap_cons, toList_of_ofList? hword, hbytes, List.take_append_drop]
    · rintro ⟨hlength, rfl⟩
      obtain ⟨word, rest, rfl⟩ := List.exists_cons_of_length_eq_add_one hlength
      have htake : (word.toList ++ rest.flatMap toList).take 32 = word.toList := by
        rw [← length_toList word, List.take_left]
      have hdrop : (word.toList ++ rest.flatMap toList).drop 32 = rest.flatMap toList := by
        rw [← length_toList word, List.drop_left]
      rw [List.flatMap_cons, htake, hdrop, ofList?_toList, ih.2 ⟨Nat.succ.inj hlength, rfl⟩]
      rfl

/-- A word has thirty-two bytes. -/
theorem length_flatMap_toList (words : List Bytes32) :
    (words.flatMap toList).length = 32 * words.length := by
  induction words with
  | nil => rfl
  | cons word rest ih =>
    rw [List.flatMap_cons, List.length_append, length_toList, ih, List.length_cons]
    omega

end Bytes32

/-! ## Points -/

/-- A coordinate is read from its canonical word alone. -/
theorem ofBytes?_base_iff {w : Bytes32} {x : BaseField} :
    Residue.ofBytes? w = some x ↔ x.toBytes = w :=
  Residue.ofBytes?_eq_some_iff baseOrder_le

namespace AffinePoint

variable {K : Type} [Zero K] [DecidableEq K]

/-- The coordinates that a point is written with: those of the origin stand for infinity. -/
def coordinates : AffinePoint K → K × K
  | .infinity => (0, 0)
  | .affine x y => (x, y)

/-- If infinity belongs to a group and the origin does not, then a point is read from coordinates
exactly if it belongs to the group and is written with them. -/
theorem ofCoordinates_eq_some_iff {valid : AffinePoint K → Prop} [DecidablePred valid]
    (hinfinity : valid .infinity) (horigin : ¬ valid (.affine 0 0)) {x y : K} {p : AffinePoint K} :
    (if x = 0 ∧ y = 0 then pure .infinity else do
      guard (valid (.affine x y))
      pure (.affine x y)) = some p ↔ valid p ∧ p.coordinates = (x, y) := by
  by_cases hzero : x = 0 ∧ y = 0
  · obtain ⟨rfl, rfl⟩ := hzero
    rw [if_pos ⟨rfl, rfl⟩]
    constructor
    · intro h
      cases h
      exact ⟨hinfinity, rfl⟩
    · rintro ⟨hvalid, hcoordinates⟩
      cases p with
      | infinity => rfl
      | affine x y =>
        cases hcoordinates
        exact absurd hvalid horigin
  · rw [if_neg hzero]
    constructor
    · intro h
      obtain ⟨_, hguard, h⟩ := Option.bind_eq_some_iff.1 h
      cases h
      exact ⟨(Option.guard_eq_some' _).1 hguard, rfl⟩
    · rintro ⟨hvalid, hcoordinates⟩
      cases p with
      | infinity =>
        cases hcoordinates
        exact absurd ⟨rfl, rfl⟩ hzero
      | affine x y =>
        cases hcoordinates
        simp [guard, hvalid]

end AffinePoint

namespace G1

/-- The point of the first group that its curve is usually given with. -/
def generator : G1Point := .affine 1 (.ofNat 2)

theorem valid_generator : Valid generator := by decide +kernel

/-- The origin is no point of the first group, so zeros are free to stand for infinity. -/
theorem not_valid_origin : ¬ Valid (.affine 0 0) := by decide +kernel

/-- A point of the first group is laid out as its two coordinates. -/
theorem toWords_eq (p : G1Point) :
    toWords p = [p.coordinates.1.toBytes, p.coordinates.2.toBytes] := by
  cases p <;> rfl

/-- Two words are read as a point of the group exactly if they are the words of that point. -/
theorem ofWords?_eq_some_iff {wx wy : Bytes32} {p : G1Point} :
    ofWords? wx wy = some p ↔ Valid p ∧ toWords p = [wx, wy] := by
  rw [toWords_eq]
  constructor
  · intro h
    obtain ⟨x, hx, h⟩ := Option.bind_eq_some_iff.1 h
    obtain ⟨y, hy, h⟩ := Option.bind_eq_some_iff.1 h
    obtain ⟨hvalid, hcoordinates⟩ :=
      (AffinePoint.ofCoordinates_eq_some_iff trivial not_valid_origin).1 h
    rw [hcoordinates, ofBytes?_base_iff.1 hx, ofBytes?_base_iff.1 hy]
    exact ⟨hvalid, rfl⟩
  · rintro ⟨hvalid, hwords⟩
    simp only [List.cons.injEq, and_true] at hwords
    obtain ⟨rfl, rfl⟩ := hwords
    rw [ofWords?, ofBytes?_base_iff.2 rfl, ofBytes?_base_iff.2 rfl]
    exact (AffinePoint.ofCoordinates_eq_some_iff trivial not_valid_origin).2 ⟨hvalid, rfl⟩

end G1

namespace G2

/-- The point of the second group that its curve is usually given with. -/
def generator : G2Point :=
  .affine
    ⟨.ofNat 10857046999023057135944570762232829481370756359578518086990519993285655852781,
      .ofNat 11559732032986387107991004021392285783925812861821192530917403151452391805634⟩
    ⟨.ofNat 8495653923123431417604973247489272438418190587263600148770280649306958101930,
      .ofNat 4082367875863433681332203403145435568316851327593401208105741076214120093531⟩

/-- Infinity is a valid point of the second group. -/
theorem valid_infinity : Valid .infinity := by decide +kernel

theorem valid_generator : Valid generator := by decide +kernel

/-- The origin is no point of the second group. -/
theorem not_valid_origin : ¬ Valid (.affine 0 0) := by
  have hcurve : ¬ AffinePoint.OnCurve constant (.affine 0 0) := by decide +kernel
  exact fun h => hcurve h.1

/-- A point of the second group is laid out as its four coordinates, the second of a pair before the
first. -/
theorem toWords_eq (p : G2Point) :
    toWords p = [p.coordinates.1.c1.toBytes, p.coordinates.1.c0.toBytes,
      p.coordinates.2.c1.toBytes, p.coordinates.2.c0.toBytes] := by
  cases p <;> rfl

/-- Four words are read as a point of the group exactly if they are the words of that point. -/
theorem ofWords?_eq_some_iff {wx1 wx0 wy1 wy0 : Bytes32} {p : G2Point} :
    ofWords? wx1 wx0 wy1 wy0 = some p ↔ Valid p ∧ toWords p = [wx1, wx0, wy1, wy0] := by
  rw [toWords_eq]
  constructor
  · intro h
    obtain ⟨x0, hx0, h⟩ := Option.bind_eq_some_iff.1 h
    obtain ⟨x1, hx1, h⟩ := Option.bind_eq_some_iff.1 h
    obtain ⟨y0, hy0, h⟩ := Option.bind_eq_some_iff.1 h
    obtain ⟨y1, hy1, h⟩ := Option.bind_eq_some_iff.1 h
    obtain ⟨hvalid, hcoordinates⟩ :=
      (AffinePoint.ofCoordinates_eq_some_iff valid_infinity not_valid_origin).1 h
    rw [hcoordinates, ofBytes?_base_iff.1 hx0, ofBytes?_base_iff.1 hx1, ofBytes?_base_iff.1 hy0,
      ofBytes?_base_iff.1 hy1]
    exact ⟨hvalid, rfl⟩
  · rintro ⟨hvalid, hwords⟩
    simp only [List.cons.injEq, and_true] at hwords
    obtain ⟨rfl, rfl, rfl, rfl⟩ := hwords
    rw [ofWords?, ofBytes?_base_iff.2 rfl, ofBytes?_base_iff.2 rfl, ofBytes?_base_iff.2 rfl,
      ofBytes?_base_iff.2 rfl]
    exact (AffinePoint.ofCoordinates_eq_some_iff valid_infinity not_valid_origin).2 ⟨hvalid, rfl⟩

end G2

/-! ## Proofs -/

namespace Proof

/-- Every proof is written in eight words. -/
theorem length_encode (p : Proof) : p.encode.length = proofBytes := by
  rw [encode, Bytes32.length_flatMap_toList, G1.toWords_eq, G2.toWords_eq, G1.toWords_eq]
  rfl

/-- Bytes are read as a proof exactly if its points belong to their groups and the bytes are its
written form. -/
theorem decode?_eq_some_iff {bytes : Bytes} {p : Proof} :
    decode? bytes = some p ↔ p.Valid ∧ p.encode = bytes := by
  constructor
  · intro h
    obtain ⟨words, hsplit, h⟩ := Option.bind_eq_some_iff.1 h
    obtain ⟨-, hbytes⟩ := Bytes32.split?_eq_some_iff.1 hsplit
    split at h
    · obtain ⟨a, ha, h⟩ := Option.bind_eq_some_iff.1 h
      obtain ⟨b, hb, h⟩ := Option.bind_eq_some_iff.1 h
      obtain ⟨c, hc, h⟩ := Option.bind_eq_some_iff.1 h
      cases h
      obtain ⟨hvalidA, hwordsA⟩ := G1.ofWords?_eq_some_iff.1 ha
      obtain ⟨hvalidB, hwordsB⟩ := G2.ofWords?_eq_some_iff.1 hb
      obtain ⟨hvalidC, hwordsC⟩ := G1.ofWords?_eq_some_iff.1 hc
      refine ⟨⟨hvalidA, hvalidB, hvalidC⟩, ?_⟩
      rw [encode, hwordsA, hwordsB, hwordsC]
      exact hbytes
    · cases h
  · rintro ⟨⟨hvalidA, hvalidB, hvalidC⟩, rfl⟩
    have hsplit : Bytes32.split? 8 p.encode =
        some (G1.toWords p.a ++ G2.toWords p.b ++ G1.toWords p.c) := by
      refine Bytes32.split?_eq_some_iff.2 ⟨?_, rfl⟩
      rw [G1.toWords_eq, G2.toWords_eq, G1.toWords_eq]
      rfl
    rw [decode?, hsplit, G1.toWords_eq, G2.toWords_eq, G1.toWords_eq]
    simp [G1.ofWords?_eq_some_iff.2 ⟨hvalidA, G1.toWords_eq p.a⟩,
      G2.ofWords?_eq_some_iff.2 ⟨hvalidB, G2.toWords_eq p.b⟩,
      G1.ofWords?_eq_some_iff.2 ⟨hvalidC, G1.toWords_eq p.c⟩]

/-- Writing and reading undo each other: a proof of points of the groups is written in 256 bytes
that are read as it, and bytes that are read as a proof are 256, its points belong to the groups,
and it is written as these bytes. So no other bytes are read as the same proof. -/
theorem layout_is_bijective (p : Proof) (bytes : Bytes) :
    (p.Valid → p.encode.length = 256 ∧ decode? p.encode = some p) ∧
    (decode? bytes = some p → bytes.length = 256 ∧ p.Valid ∧ p.encode = bytes) ∧
    ∀ other, decode? bytes = some p → decode? other = some p → other = bytes := by
  refine ⟨fun hvalid => ⟨length_encode p, decode?_eq_some_iff.2 ⟨hvalid, rfl⟩⟩, fun h => ?_,
    fun other h hother => ?_⟩
  · obtain ⟨hvalid, rfl⟩ := decode?_eq_some_iff.1 h
    exact ⟨length_encode p, hvalid, rfl⟩
  · obtain ⟨-, rfl⟩ := decode?_eq_some_iff.1 h
    exact (decode?_eq_some_iff.1 hother).2.symm

/-- Of finite points and infinity, a proof is written that is read back and that no other bytes
stand for. -/
theorem generators_are_read_back :
    let p : Proof := ⟨G1.generator, G2.generator, .infinity⟩
    p.encode.length = 256 ∧ decode? p.encode = some p ∧
      ∀ bytes, decode? bytes = some p → bytes = p.encode := by
  intro p
  have hvalid : p.Valid := ⟨G1.valid_generator, G2.valid_generator, trivial⟩
  obtain ⟨hwritten, -, honly⟩ := layout_is_bijective p p.encode
  obtain ⟨hlength, hread⟩ := hwritten hvalid
  exact ⟨hlength, hread, fun bytes hbytes => honly bytes hread hbytes⟩

end Proof

end Reactions
