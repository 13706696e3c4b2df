import Reactions.Proofs.Arithmetic.ResidueRing
import Reactions.Proofs.Json.ReadBack
import Reactions.Proofs.Node.KeyFiles

/-!
# What the coordinates of a key document say

The coordinates of a document are decimal texts. Which ones there are is said by a grammar: a
numeral is built digit by digit (`Decimal.Numeral`), with underscores anywhere behind its first
digit, and at most one sign stands in front of it (`KeyDocument.Denotes`). Such a text denotes an
integer, of any size, and is read as the class of that integer modulo the order of the base field
(`KeyDocument.coordinate_eq_ok_iff`); no other text is read.

From coordinates this is carried on to points, and from points to keys. `KeyDocument.Spells` relates
a document to the key that it spells, and the documents that are accepted are those that spell a key
(`KeyDocument.ofDocument_eq_ok_iff`). The reader does not ask for the canonical form of a coordinate
(`KeyDocument.Canonical`), although its refusal speaks of it: a coordinate can be written in many
ways.
-/

namespace Reactions

/-! ## Numerals -/

namespace Decimal

/-- A numeral and the number that it stands for, from its first digit on. -/
inductive Numeral : List Char → Nat → Prop
  | digit {c : Char} {d : Nat} : value? c = some d → Numeral [c] d
  | next {cs : List Char} {c : Char} {n d : Nat} :
      Numeral cs n → value? c = some d → Numeral (cs ++ [c]) (10 * n + d)
  | underscore {cs : List Char} {n : Nat} : Numeral cs n → Numeral (cs ++ ['_']) n

variable {cs : List Char} {c : Char} {n d : Nat}

/-- A character with a value is a digit. -/
theorem isDigit_of_value? (h : value? c = some d) : isDigit c := by
  rw [isDigit, h]
  rfl

/-- A numeral begins with a digit, so no sign is part of it. -/
theorem Numeral.exists_digit (h : Numeral cs n) : ∃ c rest, cs = c :: rest ∧ isDigit c := by
  induction h with
  | digit hd => exact ⟨_, [], rfl, isDigit_of_value? hd⟩
  | next _ _ ih | underscore _ ih =>
    obtain ⟨c, rest, rfl, hc⟩ := ih
    exact ⟨c, _, rfl, hc⟩

/-- There is no numeral without digits. -/
theorem Numeral.ne_nil (h : Numeral cs n) : cs ≠ [] := by
  obtain ⟨c, rest, rfl, -⟩ := h.exists_digit
  exact List.cons_ne_nil c rest

/-- What is written of a number is a numeral of it. -/
theorem numeral_of_isRun (h : IsRun cs) (hne : cs ≠ []) : Numeral cs (ofDigits cs) := by
  induction cs using List.reverseRecOn with
  | nil => exact absurd rfl hne
  | append_singleton cs c ih =>
    obtain ⟨d, hd⟩ := Option.isSome_iff_exists.1 (h c (by simp))
    rw [ofDigits, List.foldl_append, List.foldl_cons, List.foldl_nil, hd]
    rcases eq_or_ne cs [] with rfl | hcs
    · exact .digit (by simpa using hd)
    · exact .next (ih (fun x hx => h x (by simp [hx])) hcs) hd

end Decimal

namespace KeyDocument

open Decimal

variable {cs : List Char} {c : Char} {n : Nat}

/-- The last character of a numeral is a digit or an underscore, and what stands before it is a
numeral. -/
theorem digits?_concat (h : cs ≠ []) (c : Char) :
    digits? (cs ++ [c]) =
      (digits? cs).bind fun n => if c = '_' then some n else (value? c).map (10 * n + ·) := by
  obtain ⟨first, rest, rfl⟩ := List.exists_cons_of_ne_nil h
  have hunderscore : isDigit '_' = false := by decide
  by_cases hhead : isDigit first ∧ rest.all (fun c => isDigit c || c = '_')
  · by_cases hlast : c = '_'
    · simp [digits?, hhead, hlast, hunderscore]
    · cases hvalue : value? c with
      | none =>
        have hdigit : isDigit c = false := by rw [isDigit, hvalue]; rfl
        simp [digits?, hlast, hdigit]
      | some d =>
        have hdigit : isDigit c = true := isDigit_of_value? hvalue
        simp [digits?, hhead, hlast, hvalue, hdigit, ofDigits]
  · have hwhole : ¬ (isDigit first ∧ (rest ++ [c]).all (fun c => isDigit c || c = '_')) := by
      rw [List.all_append, Bool.and_eq_true]
      rintro ⟨hfirst, hrest, -⟩
      exact hhead ⟨hfirst, hrest⟩
    simp only [List.cons_append, digits?, if_neg hhead, if_neg hwhole, Option.bind_none]

/-- The reader of digits takes the numerals, each for its number. -/
theorem digits?_eq_some_iff : digits? cs = some n ↔ Numeral cs n := by
  constructor
  · intro h
    induction cs using List.reverseRecOn generalizing n with
    | nil => cases h
    | append_singleton cs c ih =>
      rcases eq_or_ne cs [] with rfl | hcs
      · have hdigit : isDigit c := by
          by_contra hdigit
          simp [digits?, hdigit] at h
        obtain ⟨d, hd⟩ := Option.isSome_iff_exists.1 hdigit
        have hn : d = n := by simpa [digits?, hdigit, ofDigits, hd] using h
        exact hn ▸ .digit hd
      · rw [digits?_concat hcs, Option.bind_eq_some_iff] at h
        obtain ⟨m, hm, h⟩ := h
        split at h
        · rename_i hc
          cases h
          exact hc ▸ .underscore (ih hm)
        · obtain ⟨d, hd, rfl⟩ := Option.map_eq_some_iff.1 h
          exact .next (ih hm) hd
  · intro h
    induction h with
    | digit hd => simp [digits?, isDigit_of_value? hd, ofDigits, hd]
    | @next cs c n d hcs hd ih =>
      have hc : c ≠ '_' := by
        rintro rfl
        exact absurd (isDigit_of_value? hd) (by decide)
      rw [digits?_concat hcs.ne_nil, ih, Option.bind_some, if_neg hc, hd]
      rfl
    | underscore hcs ih => rw [digits?_concat hcs.ne_nil, ih, Option.bind_some, if_pos rfl]

/-! ## Coordinates -/

/-- A coordinate and the integer that it denotes: a numeral, or one behind a sign. -/
inductive Denotes : String → Int → Prop
  | plain {text : String} {n : Nat} : Numeral text.toList n → Denotes text n
  | plus {text : String} {cs : List Char} {n : Nat} :
      text.toList = '+' :: cs → Numeral cs n → Denotes text n
  | minus {text : String} {cs : List Char} {n : Nat} :
      text.toList = '-' :: cs → Numeral cs n → Denotes text (-n)

/-- The canonical form of a coordinate: the decimal digits of a number below the order of the field,
without zeros in front. -/
def Canonical (text : String) : Prop := ∃ x : BaseField, text = Decimal.write x.val

variable {text text' : String} {x : BaseField} {k : Int}

/-- A text is read as a field element exactly if it denotes an integer, and then as that integer
modulo the order. -/
theorem decimal?_eq_some_iff :
    decimal? text = some x ↔ ∃ k, Denotes text k ∧ x = Residue.ofInt k := by
  constructor
  · intro h
    unfold decimal? at h
    split at h
    · rename_i cs hcs
      obtain ⟨n, hn, rfl⟩ := Option.map_eq_some_iff.1 h
      refine ⟨-n, .minus hcs (digits?_eq_some_iff.1 hn), ?_⟩
      rw [Residue.ofInt_neg, Residue.ofInt_natCast]
    · rename_i cs hcs
      obtain ⟨n, hn, rfl⟩ := Option.map_eq_some_iff.1 h
      exact ⟨n, .plus hcs (digits?_eq_some_iff.1 hn), (Residue.ofInt_natCast n).symm⟩
    · obtain ⟨n, hn, rfl⟩ := Option.map_eq_some_iff.1 h
      exact ⟨n, .plain (digits?_eq_some_iff.1 hn), (Residue.ofInt_natCast n).symm⟩
  · rintro ⟨k, hk, rfl⟩
    cases hk with
    | @plain n hn =>
      obtain ⟨c, rest, hcs, hc⟩ := hn.exists_digit
      have hminus : c ≠ '-' := by rintro rfl; exact absurd hc (by decide)
      have hplus : c ≠ '+' := by rintro rfl; exact absurd hc (by decide)
      have hread := digits?_eq_some_iff.2 hn
      rw [hcs] at hread
      simp [decimal?, hcs, hread, hminus, hplus, Residue.ofInt_natCast]
    | plus hcs hn =>
      simp [decimal?, hcs, digits?_eq_some_iff.2 hn, Residue.ofInt_natCast]
    | minus hcs hn =>
      simp [decimal?, hcs, digits?_eq_some_iff.2 hn, Residue.ofInt_neg, Residue.ofInt_natCast]

/-- The same goes for a coordinate. -/
theorem coordinate_eq_ok_iff :
    coordinate text = .ok x ↔ ∃ k, Denotes text k ∧ x = Residue.ofInt k := by
  rw [← decimal?_eq_some_iff, coordinate]
  cases decimal? text <;> simp

/-- A coordinate that denotes no integer is refused by name. -/
theorem coordinate_eq_error_iff {e : KeyError} :
    coordinate text = .error e ↔ (∀ k, ¬ Denotes text k) ∧ e = .coordinate text := by
  have hnone : decimal? text = none ↔ ∀ k, ¬ Denotes text k := by
    rw [Option.eq_none_iff_forall_ne_some]
    constructor
    · exact fun h k hk => h _ (decimal?_eq_some_iff.2 ⟨k, hk, rfl⟩)
    · intro h x hx
      obtain ⟨k, hk, -⟩ := decimal?_eq_some_iff.1 hx
      exact h k hk
  rw [← hnone, coordinate]
  cases decimal? text <;> simp [eq_comm]

/-- Two coordinates are read alike if they denote integers of one class. The only other way to meet
the same end is to be the same text. -/
theorem coordinate_eq_coordinate_iff :
    coordinate text = coordinate text' ↔
      text = text' ∨ ∃ k k', Denotes text k ∧ Denotes text' k' ∧ k ≡ k' [ZMOD baseOrder] := by
  constructor
  · intro h
    cases hread : coordinate text with
    | ok x =>
      obtain ⟨k, hk, hx⟩ := coordinate_eq_ok_iff.1 hread
      obtain ⟨k', hk', hx'⟩ := coordinate_eq_ok_iff.1 (h ▸ hread)
      exact .inr ⟨k, k', hk, hk', Residue.ofInt_eq_ofInt_iff.1 (hx.symm.trans hx')⟩
    | error e =>
      obtain ⟨-, he⟩ := coordinate_eq_error_iff.1 hread
      obtain ⟨-, he'⟩ := coordinate_eq_error_iff.1 (h ▸ hread)
      exact .inl (KeyError.coordinate.inj (he.symm.trans he'))
  · rintro (rfl | ⟨k, k', hk, hk', hmod⟩)
    · rfl
    · rw [coordinate_eq_ok_iff.2 ⟨k, hk, rfl⟩, coordinate_eq_ok_iff.2 ⟨k', hk', rfl⟩,
        Residue.ofInt_eq_ofInt_iff.2 hmod]

/-- A number is denoted by its decimal numeral. -/
theorem denotes_write (n : Nat) : Denotes (Decimal.write n) n := by
  have hnumeral : Numeral (Decimal.write n).toList n := by
    rw [Decimal.write, String.toList_ofList]
    simpa [ofDigits_digits] using numeral_of_isRun (isRun_digits n) (digits_ne_nil n)
  exact .plain hnumeral

/-- The canonical form of a coordinate is read as what it is the form of. -/
theorem coordinate_write (x : BaseField) : coordinate (Decimal.write x.val) = .ok x :=
  coordinate_eq_ok_iff.2
    ⟨x.val, denotes_write x.val, by rw [Residue.ofInt_natCast, Residue.ofNat_val]⟩

/-- Among the texts that are read as one coordinate there is one in canonical form. -/
theorem canonical_iff_of_coordinate (h : coordinate text = .ok x) :
    Canonical text ↔ text = Decimal.write x.val := by
  constructor
  · rintro ⟨y, rfl⟩
    cases (coordinate_write y).symm.trans h
    rfl
  · exact fun hwrite => ⟨x, hwrite⟩

/-! ## Points -/

/-- Three texts and the point of the first group that they spell. The last of them only says whether
that is infinity. -/
inductive SpellsG1 : List String → G1Point → Prop
  | infinity (x y : String) : SpellsG1 [x, y, "0"] .infinity
  | affine {x y z : String} {k l : Int} :
      z ≠ "0" → Denotes x k → Denotes y l → G1.Valid (.affine (.ofInt k) (.ofInt l)) →
      SpellsG1 [x, y, z] (.affine (.ofInt k) (.ofInt l))

/-- Two texts and the coordinate of the second group that they spell. -/
inductive SpellsPair : List String → Fq2 → Prop
  | mk {c0 c1 : String} {k l : Int} :
      Denotes c0 k → Denotes c1 l → SpellsPair [c0, c1] ⟨.ofInt k, .ofInt l⟩

/-- Three lists of texts and the point of the second group that they spell. -/
inductive SpellsG2 : List (List String) → G2Point → Prop
  | infinity (x y : List String) {z : List String} :
      (∀ c ∈ z, c = "0") → SpellsG2 [x, y, z] .infinity
  | affine {x y z : List String} {a b : Fq2} :
      ¬ (∀ c ∈ z, c = "0") → SpellsPair x a → SpellsPair y b → G2.Valid (.affine a b) →
      SpellsG2 [x, y, z] (.affine a b)

/-- The coordinates of a point of the first group, none if it is marked as infinity. -/
def finiteG1 : List String → List String
  | [x, y, z] => if z = "0" then [] else [x, y]
  | _ => []

/-- The coordinates of a point of the second group, none if it is marked as infinity. -/
def finiteG2 : List (List String) → List String
  | [x, y, z] => if ∀ c ∈ z, c = "0" then [] else x ++ y
  | _ => []

/-- The coordinates of a point that is spelled denote integers. -/
theorem SpellsG1.denotes {coordinates : List String} {p : G1Point} (h : SpellsG1 coordinates p) :
    ∀ text ∈ finiteG1 coordinates, ∃ k, Denotes text k := by
  cases h with
  | infinity x y => exact List.forall_mem_nil _
  | @affine x y z k l hz hk hl =>
    rw [finiteG1, if_neg hz]
    simpa using ⟨⟨k, hk⟩, ⟨l, hl⟩⟩

theorem SpellsPair.denotes {coordinates : List String} {a : Fq2} (h : SpellsPair coordinates a) :
    ∀ text ∈ coordinates, ∃ k, Denotes text k := by
  obtain ⟨hk, hl⟩ := h
  simpa using ⟨⟨_, hk⟩, ⟨_, hl⟩⟩

theorem SpellsG2.denotes {coordinates : List (List String)} {p : G2Point}
    (h : SpellsG2 coordinates p) : ∀ text ∈ finiteG2 coordinates, ∃ k, Denotes text k := by
  cases h with
  | infinity x y hz =>
    rw [finiteG2, if_pos hz]
    exact List.forall_mem_nil _
  | affine hz ha hb =>
    rw [finiteG2, if_neg hz]
    exact List.forall_mem_append.2 ⟨ha.denotes, hb.denotes⟩

variable {name : String}

/-- A point of the first group is read exactly if the coordinates spell it. -/
theorem g1_eq_ok_iff {coordinates : List String} {p : G1Point} :
    g1 name coordinates = .ok p ↔ SpellsG1 coordinates p := by
  constructor
  · intro h
    unfold g1 at h
    split at h
    · rename_i x y z
      split at h
      · rename_i hz
        cases h
        exact hz ▸ .infinity x y
      · rename_i hz
        obtain ⟨a, ha, h⟩ := ok_of_bind h
        obtain ⟨b, hb, h⟩ := ok_of_bind h
        obtain ⟨k, hk, rfl⟩ := coordinate_eq_ok_iff.1 ha
        obtain ⟨l, hl, rfl⟩ := coordinate_eq_ok_iff.1 hb
        obtain ⟨hvalid, rfl⟩ := checked_eq_ok_iff.1 h
        exact .affine hz hk hl hvalid
    · cases h
  · intro h
    cases h with
    | infinity x y => rfl
    | @affine x y z k l hz hk hl hvalid =>
      have hx := coordinate_eq_ok_iff.2 ⟨k, hk, rfl⟩
      have hy := coordinate_eq_ok_iff.2 ⟨l, hl, rfl⟩
      simp only [g1, if_neg hz, hx, hy]
      exact checked_eq_ok_iff.2 ⟨hvalid, rfl⟩

/-- A pair is read exactly if its parts spell it. -/
theorem pair_eq_ok_iff {coordinates : List String} {a : Fq2} :
    pair name coordinates = .ok a ↔ SpellsPair coordinates a := by
  constructor
  · intro h
    unfold pair at h
    split at h
    · obtain ⟨a, ha, h⟩ := ok_of_bind h
      obtain ⟨b, hb, h⟩ := ok_of_bind h
      obtain ⟨k, hk, rfl⟩ := coordinate_eq_ok_iff.1 ha
      obtain ⟨l, hl, rfl⟩ := coordinate_eq_ok_iff.1 hb
      cases h
      exact .mk hk hl
    · cases h
  · rintro ⟨hk, hl⟩
    rename_i c0 c1 k l
    have h0 := coordinate_eq_ok_iff.2 ⟨k, hk, rfl⟩
    have h1 := coordinate_eq_ok_iff.2 ⟨l, hl, rfl⟩
    rw [pair, h0, h1]
    rfl

/-- A point of the second group is read exactly if the coordinates spell it. -/
theorem g2_eq_ok_iff {coordinates : List (List String)} {p : G2Point} :
    g2 name coordinates = .ok p ↔ SpellsG2 coordinates p := by
  constructor
  · intro h
    unfold g2 at h
    split at h
    · rename_i x y z
      split at h
      · rename_i hz
        cases h
        exact .infinity x y (by simpa using hz)
      · rename_i hz
        obtain ⟨a, ha, h⟩ := ok_of_bind h
        obtain ⟨b, hb, h⟩ := ok_of_bind h
        obtain ⟨hvalid, rfl⟩ := checked_eq_ok_iff.1 h
        exact .affine (by simpa using hz) (pair_eq_ok_iff.1 ha) (pair_eq_ok_iff.1 hb) hvalid
    · cases h
  · intro h
    cases h with
    | infinity x y hz => exact if_pos (by simpa using hz)
    | @affine x y z a b hz ha hb hvalid =>
      have hz' : ¬ z.all (· = "0") := by simpa using hz
      simp only [g2, if_neg hz', pair_eq_ok_iff.2 ha, pair_eq_ok_iff.2 hb]
      exact checked_eq_ok_iff.2 ⟨hvalid, rfl⟩

/-! ## Keys -/

/-- A document and the key that its points spell, which has as many input points as the circuit asks
for. -/
structure Spells (doc : KeyDocument) (key : VerificationKey) : Prop where
  alpha : SpellsG1 doc.alpha key.alpha
  beta : SpellsG2 doc.beta key.beta
  gamma : SpellsG2 doc.gamma key.gamma
  delta : SpellsG2 doc.delta key.delta
  ic : List.Forall₂ SpellsG1 doc.ic key.ic
  ic_length : key.ic.length = VerificationKey.icCount

/-- The coordinates of all points of a document that are not marked as infinity. -/
def finiteCoordinates (doc : KeyDocument) : List String :=
  finiteG1 doc.alpha ++ finiteG2 doc.beta ++ finiteG2 doc.gamma ++ finiteG2 doc.delta ++
    doc.ic.flatMap finiteG1

variable {version : String} {doc : KeyDocument} {key : VerificationKey}

/-- All coordinates of finite points denote integers, if the document spells a key. -/
theorem Spells.denotes (h : doc.Spells key) :
    ∀ text ∈ doc.finiteCoordinates, ∃ k, Denotes text k := by
  have hic : ∀ text ∈ doc.ic.flatMap finiteG1, ∃ k, Denotes text k := by
    have hpoints := h.ic
    generalize doc.ic = points, key.ic = spelled at hpoints
    induction hpoints with
    | nil => exact List.forall_mem_nil _
    | cons hhead _ ih => exact List.forall_mem_append.2 ⟨hhead.denotes, ih⟩
  simp only [finiteCoordinates, List.forall_mem_append]
  exact ⟨⟨⟨⟨h.alpha.denotes, h.beta.denotes⟩, h.gamma.denotes⟩, h.delta.denotes⟩, hic⟩

/-- A key is made of a document exactly if the document spells it. -/
theorem toKey_eq_ok_iff : doc.toKey version = .ok key ↔ doc.Spells key ∧ key.version = version := by
  constructor
  · intro h
    obtain ⟨ic, hic, h⟩ := ok_of_bind h
    split at h
    · cases h
    · rename_i hcount
      obtain ⟨alpha, halpha, h⟩ := ok_of_bind h
      obtain ⟨beta, hbeta, h⟩ := ok_of_bind h
      obtain ⟨gamma, hgamma, h⟩ := ok_of_bind h
      obtain ⟨delta, hdelta, h⟩ := ok_of_bind h
      cases h
      exact ⟨⟨g1_eq_ok_iff.1 halpha, g2_eq_ok_iff.1 hbeta, g2_eq_ok_iff.1 hgamma,
        g2_eq_ok_iff.1 hdelta, (mapM_eq_ok_iff.1 hic).imp fun _ _ => g1_eq_ok_iff.1,
        not_not.1 hcount⟩, rfl⟩
  · rintro ⟨hspells, rfl⟩
    have hic : doc.ic.mapM (g1 "IC") = .ok key.ic :=
      mapM_eq_ok_iff.2 (hspells.ic.imp fun _ _ => g1_eq_ok_iff.2)
    rw [toKey, hic]
    simp only [bind, Except.bind, hspells.ic_length, ne_eq, not_true_eq_false, if_false,
      g1_eq_ok_iff.2 hspells.alpha, g2_eq_ok_iff.2 hspells.beta, g2_eq_ok_iff.2 hspells.gamma,
      g2_eq_ok_iff.2 hspells.delta]
    rfl

/-- The documents that are accepted are those that spell a key. -/
theorem ofDocument_eq_ok_iff {text : String} :
    VerificationKey.ofDocument version text = .ok key ↔
      ∃ doc, reader.document text = .ok doc ∧ doc.Spells key ∧ key.version = version := by
  rw [VerificationKey.ofDocument, bind_eq_ok_iff]
  simp only [mapError_eq_ok_iff, toKey_eq_ok_iff]

/-- A key document is accepted if it spells a key, and only then. All its coordinates, those of
points that are marked as infinity aside, then denote integers and are read modulo the order of the
base field. One is canonical if it is as the result is written, and not otherwise. A text that
denotes no integer is refused by name, and two texts are read as one coordinate exactly if their
integers are congruent. -/
theorem accepted_coordinates_denote_integers (version document text text' : String) :
    (∀ key, VerificationKey.ofDocument version document = .ok key ↔
      ∃ doc, reader.document document = .ok doc ∧ doc.Spells key ∧ key.version = version) ∧
    (∀ doc key, Spells doc key → ∀ c ∈ doc.finiteCoordinates, ∃ k, Denotes c k ∧
      coordinate c = .ok (.ofInt k) ∧
      (Canonical c ↔ c = Decimal.write (Residue.ofInt k : BaseField).val)) ∧
    (∀ x, coordinate text = .ok x ↔ ∃ k, Denotes text k ∧ x = .ofInt k) ∧
    (∀ e, coordinate text = .error e ↔ (∀ k, ¬ Denotes text k) ∧ e = .coordinate text) ∧
    (coordinate text = coordinate text' ↔
      text = text' ∨ ∃ k k', Denotes text k ∧ Denotes text' k' ∧ k ≡ k' [ZMOD baseOrder]) := by
  refine ⟨fun _ => ofDocument_eq_ok_iff, fun doc key hspells c hc => ?_,
    fun _ => coordinate_eq_ok_iff, fun _ => coordinate_eq_error_iff, coordinate_eq_coordinate_iff⟩
  obtain ⟨k, hk⟩ := hspells.denotes c hc
  have hread : coordinate c = .ok (.ofInt k) := coordinate_eq_ok_iff.2 ⟨k, hk, rfl⟩
  exact ⟨k, hk, hread, canonical_iff_of_coordinate hread⟩

/-- The JSON form of a document. -/
def toJson (doc : KeyDocument) : Json := .object [
  ("vk_alpha_1", Reactions.toJson doc.alpha),
  ("vk_beta_2", Reactions.toJson doc.beta),
  ("vk_gamma_2", Reactions.toJson doc.gamma),
  ("vk_delta_2", Reactions.toJson doc.delta),
  ("IC", Reactions.toJson doc.ic)]

open Fields Reader in
/-- A document is read back from its JSON form, whatever its texts say. -/
theorem reads_toJson (doc : KeyDocument) : Reads reader doc.toJson doc := by
  have hstrings (xs : List String) : Reads (list string) (Reactions.toJson xs) xs :=
    reads_list fun _ _ => reads_string _
  have hpairs (xs : List (List String)) : Reads (list (list string)) (Reactions.toJson xs) xs :=
    reads_list fun _ _ => hstrings _
  refine reads_record (by simp) (.seq (.seq (.seq (.seq (.map _ ?_) ?_) ?_) ?_) ?_)
  · exact takes_required (by simp) (hstrings doc.alpha)
  · exact takes_required (by simp) (hpairs doc.beta)
  · exact takes_required (by simp) (hpairs doc.gamma)
  · exact takes_required (by simp) (hpairs doc.delta)
  · exact takes_required (by simp) (hpairs doc.ic)

/-- A document whose only finite point is the generator of the first group, with `x` for the first
of its coordinates. -/
def ofGenerator (x : String) : KeyDocument where
  alpha := [x, "2", "1"]
  beta := [[], [], []]
  gamma := [[], [], []]
  delta := [[], [], []]
  ic := List.replicate VerificationKey.icCount ["", "", "0"]

/-- The key of that document. -/
def generatorKey : VerificationKey :=
  ⟨"omega-v2", G1.generator, .infinity, .infinity, .infinity,
    List.replicate VerificationKey.icCount .infinity⟩

/-- Points written with a last coordinate of zero are infinity, as many as there are. -/
theorem spellsG1_replicate_infinity (count : Nat) (x y : String) :
    List.Forall₂ SpellsG1 (List.replicate count [x, y, "0"]) (List.replicate count .infinity) := by
  induction count with
  | zero => exact .nil
  | succ count ih => exact .cons (.infinity x y) ih

/-- The document with the generators spells the key of generators, however the one in it is spelled.
-/
theorem spells_ofGenerator {x : String} (h : Denotes x 1) :
    (ofGenerator x).Spells generatorKey where
  alpha := .affine (by decide) h (denotes_write 2) G1.valid_generator
  beta := .infinity [] [] (by simp)
  gamma := .infinity [] [] (by simp)
  delta := .infinity [] [] (by simp)
  ic := spellsG1_replicate_infinity VerificationKey.icCount "" ""
  ic_length := by simp [generatorKey]

/-- A coordinate with a sign is not in canonical form, yet the document that has it is accepted, and
gives the same key as the document without the sign. -/
theorem signed_coordinate_is_accepted :
    (∀ x ∈ ["+1", "1"],
      reader.document (ofGenerator x).toJson.render = .ok (ofGenerator x) ∧
      VerificationKey.ofDocument "omega-v2" (ofGenerator x).toJson.render = .ok generatorKey) ∧
      "+1" ∈ (ofGenerator "+1").finiteCoordinates ∧ ¬ Canonical "+1" := by
  have hsign : "+1".toList = '+' :: ['1'] := by decide
  have hsigned : Denotes "+1" 1 := .plus hsign (.digit rfl)
  have hplain : Denotes "1" 1 := denotes_write 1
  refine ⟨fun x hx => ?_, by simp [finiteCoordinates, finiteG1, ofGenerator], ?_⟩
  · have hread := Reader.document_render (reads_toJson (ofGenerator x))
    have hone : Denotes x 1 := by
      rcases List.mem_pair.1 hx with rfl | rfl
      · exact hsigned
      · exact hplain
    exact ⟨hread, ofDocument_eq_ok_iff.2 ⟨_, hread, spells_ofGenerator hone, rfl⟩⟩
  · rw [canonical_iff_of_coordinate (coordinate_eq_ok_iff.2 ⟨1, hsigned, rfl⟩)]
    decide

end KeyDocument

end Reactions
