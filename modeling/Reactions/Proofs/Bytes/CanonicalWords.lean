import Mathlib.Data.Set.Function
import Mathlib.Tactic.Ring
import Reactions.BabyJubJub.Point
import Reactions.Proofs.Bytes.Encoding

/-!
# Canonical words

A run of bytes can be read by limbs of eight bytes, the last of which comes first in the run. Read
and written so, it denotes the number that it denotes byte by byte (`Bytes.toNat_writeLimbs`,
`Bytes.writeLimbs_limbs`).

The residues modulo `n` correspond to the words of thirty-two bytes whose number is below `n`
(`CanonicallyEncoded`). So a point is read from two words exactly if both numbers are below the
modulus and the equation of the curve holds, and the two faults can be told apart by the numbers
(`Point.ofBytes_eq`).
-/

namespace Reactions

/-! ## Limbs -/

namespace Bytes

/-- The number of a run of bytes in two parts. -/
theorem toNat_append (front back : Bytes) :
    toNat (front ++ back) = toNat front * 256 ^ back.length + toNat back := by
  induction back using List.reverseRecOn with
  | nil => simp [toNat]
  | append_singleton back b ih =>
    rw [← List.append_assoc, toNat_append_singleton, toNat_append_singleton, ih, List.length_append,
      List.length_singleton, pow_succ]
    ring

/-- A number is bounded by the count of its bytes. -/
theorem toNat_lt (bytes : Bytes) : toNat bytes < 256 ^ bytes.length := by
  rw [← ofNat_toNat bytes, toNat_ofNat, length_ofNat]
  exact Nat.mod_lt _ (Nat.pow_pos (by decide))

/-- Runs of bytes of one length denote different numbers. -/
theorem toNat_inj {bytes bytes' : Bytes} (hlength : bytes.length = bytes'.length) :
    toNat bytes = toNat bytes' ↔ bytes = bytes' := by
  constructor
  · intro h
    rw [← ofNat_toNat bytes, ← ofNat_toNat bytes', hlength, h]
  · rintro rfl
    rfl

/-- The limbs of a run of bytes, lowest first: eight bytes each, the first of them highest, so that
the first eight bytes are the last limb. -/
def limbs : (count : Nat) → Bytes → List UInt64
  | 0, _ => []
  | count + 1, bytes => limbs count (bytes.drop 8) ++ [UInt64.ofNat (toNat (bytes.take 8))]

/-- The number that limbs denote, lowest first. -/
def ofLimbs : List UInt64 → Nat
  | [] => 0
  | limb :: rest => limb.toNat + 2 ^ 64 * ofLimbs rest

/-- Limbs as bytes: the highest limb first, and of each its highest byte first. -/
def writeLimbs : List UInt64 → Bytes
  | [] => []
  | limb :: rest => writeLimbs rest ++ ofNat 8 limb.toNat

/-- There are as many limbs as are asked for. -/
theorem length_limbs (count : Nat) (bytes : Bytes) : (limbs count bytes).length = count := by
  induction count generalizing bytes with
  | zero => rfl
  | succ count ih => rw [limbs, List.length_append, ih, List.length_singleton]

/-- A limb is written in eight bytes. -/
theorem length_writeLimbs (ls : List UInt64) : (writeLimbs ls).length = 8 * ls.length := by
  induction ls with
  | nil => rfl
  | cons limb rest ih =>
    rw [writeLimbs, List.length_append, ih, length_ofNat, List.length_cons]
    ring

/-- The last limb is written before the others. -/
theorem writeLimbs_append_singleton (ls : List UInt64) (limb : UInt64) :
    writeLimbs (ls ++ [limb]) = ofNat 8 limb.toNat ++ writeLimbs ls := by
  induction ls with
  | nil => simp [writeLimbs]
  | cons first rest ih => rw [List.cons_append, writeLimbs, ih, writeLimbs, List.append_assoc]

/-- What limbs are written as denotes the number that they denote. -/
theorem toNat_writeLimbs (ls : List UInt64) : toNat (writeLimbs ls) = ofLimbs ls := by
  induction ls with
  | nil => rfl
  | cons limb rest ih =>
    have hlimb : limb.toNat < 256 ^ 8 := limb.toNat_lt
    rw [writeLimbs, toNat_append, ih, length_ofNat, toNat_ofNat, Nat.mod_eq_of_lt hlimb, ofLimbs]
    ring

/-- Eight bytes are read as a limb and written again. -/
theorem ofNat_limb {bytes : Bytes} (h : bytes.length = 8) :
    ofNat 8 (UInt64.ofNat (toNat bytes)).toNat = bytes := by
  have hlt := toNat_lt bytes
  rw [h] at hlt
  have hlimb : (UInt64.ofNat (toNat bytes)).toNat = toNat bytes := UInt64.toNat_ofNat_of_lt hlt
  rw [hlimb, ← h, ofNat_toNat]

/-- The limbs of a run of bytes are written as these bytes. -/
theorem writeLimbs_limbs {count : Nat} {bytes : Bytes} (h : bytes.length = 8 * count) :
    writeLimbs (limbs count bytes) = bytes := by
  induction count generalizing bytes with
  | zero => exact (List.length_eq_zero_iff.1 h).symm
  | succ count ih =>
    have hhead : (bytes.take 8).length = 8 := by rw [List.length_take]; omega
    have hrest : (bytes.drop 8).length = 8 * count := by rw [List.length_drop]; omega
    rw [limbs, writeLimbs_append_singleton, ih hrest, ofNat_limb hhead, List.take_append_drop]

end Bytes

namespace Bytes32

/-- The four limbs of a word, lowest first. -/
def limbs (w : Bytes32) : List UInt64 := Bytes.limbs 4 w.toList

/-- The limbs of a word denote its number. -/
theorem ofLimbs_limbs (w : Bytes32) : Bytes.ofLimbs w.limbs = w.toNat := by
  rw [← Bytes.toNat_writeLimbs, limbs, Bytes.writeLimbs_limbs w.length_toList, toNat]

/-- Four limbs denote the number of a word exactly if they are written as its bytes. -/
theorem ofLimbs_eq_toNat_iff (w : Bytes32) {ls : List UInt64} (h : ls.length = 4) :
    Bytes.ofLimbs ls = w.toNat ↔ Bytes.writeLimbs ls = w.toList := by
  rw [← Bytes.toNat_writeLimbs, toNat, Bytes.toNat_inj]
  rw [Bytes.length_writeLimbs, h, length_toList]

end Bytes32

/-! ## Residues -/

/-- Residues and words correspond: writing and reading undo each other, and the words that are read
are those whose number is below the modulus. -/
structure CanonicallyEncoded (n : Nat) : Prop where
  toNat_toBytes : ∀ a : Residue n, a.toBytes.toNat = a.val
  ofBytes?_toBytes : ∀ a : Residue n, Residue.ofBytes? a.toBytes = some a
  toBytes_of_ofBytes? : ∀ (w : Bytes32) (a : Residue n), Residue.ofBytes? w = some a → a.toBytes = w
  ofBytes?_eq_none_iff : ∀ w : Bytes32,
    (Residue.ofBytes? w : Option (Residue n)) = none ↔ n ≤ w.toNat
  bijOn : Set.BijOn (Residue.toBytes : Residue n → Bytes32) Set.univ {w | w.toNat < n}

namespace Residue

variable {n : Nat}

/-- The word of an element denotes its number. -/
theorem toNat_toBytes (hn : n ≤ 256 ^ 32) (a : Residue n) : a.toBytes.toNat = a.val :=
  ofNat?_eq_some_iff.1 (ofBytes?_toBytes hn a)

/-- A modulus that fits into thirty-two bytes has canonical encodings for all its residues. -/
theorem canonicallyEncoded (hn : n ≤ 256 ^ 32) : CanonicallyEncoded n where
  toNat_toBytes := toNat_toBytes hn
  ofBytes?_toBytes := ofBytes?_toBytes hn
  toBytes_of_ofBytes? _ _ := (ofBytes?_eq_some_iff hn).1
  ofBytes?_eq_none_iff _ := ofNat?_eq_none_iff
  bijOn := by
    refine ⟨fun a _ => ?_, fun a _ b _ h => ?_, fun w hw => ?_⟩
    · exact (toNat_toBytes hn a).trans_lt a.isLt
    · have hread := ofBytes?_toBytes hn a
      rw [h, ofBytes?_toBytes hn b] at hread
      exact (Option.some.inj hread).symm
    · exact ⟨⟨w.toNat, hw⟩, trivial, (ofBytes?_eq_some_iff hn).1 (ofNat?_eq_some_iff.2 rfl)⟩

variable [Modulus n]

/-- Reading refuses what reduction would change. -/
theorem ofBytes?_eq (w : Bytes32) :
    (ofBytes? w : Option (Residue n)) = if w.toNat < n then some (reduce w) else none := by
  split
  · rename_i h
    exact ofNat?_eq_some_iff.2 (Nat.mod_eq_of_lt h).symm
  · rename_i h
    exact ofNat?_eq_none_iff.2 (Nat.le_of_not_lt h)

/-- The boundary: the modulus is no canonical number, the number below it is. -/
example : (ofBytes? (Bytes32.ofNat scalarOrder) : Option ScalarField) = none ∧
    (ofBytes? (Bytes32.ofNat (scalarOrder - 1)) : Option ScalarField) = some (-1) := by
  decide +kernel

/-- An element that is read from a word is the class of the word. -/
theorem reduce_of_ofBytes? {w : Bytes32} {a : Residue n} (h : ofBytes? w = some a) :
    reduce w = a := by
  rw [ofBytes?_eq] at h
  split at h
  · exact Option.some.inj h
  · cases h

end Residue

/-! ## Points -/

namespace Point

variable {x y : Bytes32} {p : Point}

/-- What two words are read as, said of the numbers that they denote. -/
theorem ofBytes_eq (x y : Bytes32) : ofBytes x y =
    if x.toNat < scalarOrder ∧ y.toNat < scalarOrder then
      ofCoordinates (Residue.reduce x) (Residue.reduce y)
    else .error .nonCanonicalCoordinate := by
  rw [ofBytes, Residue.ofBytes?_eq, Residue.ofBytes?_eq]
  by_cases hx : x.toNat < scalarOrder <;> by_cases hy : y.toNat < scalarOrder <;> simp [hx, hy]

/-- Two words are read as a point exactly if they are the encodings of its coordinates and it is on
the curve. -/
theorem ofBytes_eq_ok_iff :
    ofBytes x y = .ok p ↔ p.x.toBytes = x ∧ p.y.toBytes = y ∧ p.OnCurve := by
  constructor
  · intro h
    unfold ofBytes at h
    split at h
    · rename_i a b ha hb
      unfold ofCoordinates at h
      split at h
      · rename_i hcurve
        cases h
        exact ⟨(Residue.ofBytes?_eq_some_iff scalarOrder_le).1 ha,
          (Residue.ofBytes?_eq_some_iff scalarOrder_le).1 hb, hcurve⟩
      · cases h
    · cases h
  · rintro ⟨rfl, rfl, hcurve⟩
    simp [ofBytes, Residue.ofBytes?_toBytes scalarOrder_le, ofCoordinates, hcurve]

/-- Two words are read as some point exactly if both are canonical and the equation of the curve
holds. -/
theorem exists_ofBytes_eq_ok_iff : (∃ p, ofBytes x y = .ok p) ↔
    x.toNat < scalarOrder ∧ y.toNat < scalarOrder ∧
      (⟨Residue.reduce x, Residue.reduce y⟩ : Point).OnCurve := by
  rw [ofBytes_eq, ofCoordinates, ← and_assoc]
  by_cases hcanonical : x.toNat < scalarOrder ∧ y.toNat < scalarOrder
  · by_cases hcurve : (⟨Residue.reduce x, Residue.reduce y⟩ : Point).OnCurve <;>
      simp [hcanonical, hcurve]
  · simp [hcanonical]

/-- A word that is not canonical is the fault that is reported, whether or not the point would be on
the curve. -/
theorem ofBytes_eq_nonCanonical_iff : ofBytes x y = .error .nonCanonicalCoordinate ↔
    scalarOrder ≤ x.toNat ∨ scalarOrder ≤ y.toNat := by
  rw [ofBytes_eq, ofCoordinates, ← Nat.not_lt, ← Nat.not_lt, ← not_and_or]
  by_cases hcanonical : x.toNat < scalarOrder ∧ y.toNat < scalarOrder
  · by_cases hcurve : (⟨Residue.reduce x, Residue.reduce y⟩ : Point).OnCurve <;>
      simp [hcanonical, hcurve]
  · exact iff_of_true (if_neg hcanonical) hcanonical

/-- Coordinates are found off the curve once both are known to be canonical. -/
theorem ofBytes_eq_notOnCurve_iff : ofBytes x y = .error .notOnCurve ↔
    x.toNat < scalarOrder ∧ y.toNat < scalarOrder ∧
      ¬ (⟨Residue.reduce x, Residue.reduce y⟩ : Point).OnCurve := by
  rw [ofBytes_eq, ofCoordinates, ← and_assoc]
  by_cases hcanonical : x.toNat < scalarOrder ∧ y.toNat < scalarOrder
  · by_cases hcurve : (⟨Residue.reduce x, Residue.reduce y⟩ : Point).OnCurve <;>
      simp [hcanonical, hcurve]
  · simp [hcanonical]

end Point

/-- Words of thirty-two bytes, field elements and points. The number of a word is that of its four
limbs, and four limbs denote it exactly if they are written as the word. In each of the three
fields, the elements correspond to the words whose number is below the modulus, and reduction agrees
with reading where that succeeds. Two words are read as a point exactly if both numbers are below
the modulus and the equation of the curve holds; then they are the encoding of that point, which no
other words are read as. A number that is not below the modulus is reported also where the point
would be off the curve. -/
theorem words_encode_elements_and_points :
    (∀ w : Bytes32, w.limbs.length = 4 ∧ Bytes.ofLimbs w.limbs = w.toNat ∧
      ∀ ls : List UInt64, ls.length = 4 →
        (Bytes.ofLimbs ls = w.toNat ↔ Bytes.writeLimbs ls = w.toList)) ∧
    (CanonicallyEncoded scalarOrder ∧ CanonicallyEncoded baseOrder ∧
      CanonicallyEncoded subgroupOrder) ∧
    (∀ w : Bytes32, (Residue.reduce w : ScalarField).val = w.toNat % scalarOrder ∧
      ∀ a : ScalarField, Residue.ofBytes? w = some a → Residue.reduce w = a) ∧
    (∀ x y : Bytes32, ((∃ p, Point.ofBytes x y = .ok p) ↔
        x.toNat < scalarOrder ∧ y.toNat < scalarOrder ∧
          (⟨Residue.reduce x, Residue.reduce y⟩ : Point).OnCurve) ∧
      (∀ p, Point.ofBytes x y = .ok p → p.x.toBytes = x ∧ p.y.toBytes = y) ∧
      (Point.ofBytes x y = .error .nonCanonicalCoordinate ↔
        scalarOrder ≤ x.toNat ∨ scalarOrder ≤ y.toNat) ∧
      (Point.ofBytes x y = .error .notOnCurve ↔ x.toNat < scalarOrder ∧ y.toNat < scalarOrder ∧
        ¬ (⟨Residue.reduce x, Residue.reduce y⟩ : Point).OnCurve)) ∧
    (∀ (x y x' y' : Bytes32) (p : Point), Point.ofBytes x y = .ok p → Point.ofBytes x' y' = .ok p →
      x = x' ∧ y = y') := by
  refine ⟨fun w =>
      ⟨Bytes.length_limbs 4 w.toList, w.ofLimbs_limbs, fun _ => w.ofLimbs_eq_toNat_iff⟩,
    ⟨Residue.canonicallyEncoded scalarOrder_le, Residue.canonicallyEncoded baseOrder_le,
      Residue.canonicallyEncoded (by decide)⟩,
    fun w => ⟨rfl, fun a ha => Residue.reduce_of_ofBytes? ha⟩,
    fun x y => ⟨Point.exists_ofBytes_eq_ok_iff, fun p hp => ?_, Point.ofBytes_eq_nonCanonical_iff,
      Point.ofBytes_eq_notOnCurve_iff⟩,
    fun x y x' y' p hp hp' => ?_⟩
  · obtain ⟨hx, hy, -⟩ := Point.ofBytes_eq_ok_iff.1 hp
    exact ⟨hx, hy⟩
  · obtain ⟨rfl, rfl, -⟩ := Point.ofBytes_eq_ok_iff.1 hp
    obtain ⟨rfl, rfl, -⟩ := Point.ofBytes_eq_ok_iff.1 hp'
    exact ⟨rfl, rfl⟩

end Reactions
