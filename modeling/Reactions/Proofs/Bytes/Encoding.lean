import Mathlib.Data.List.Induction
import Mathlib.Data.Nat.ModEq
import Reactions.Arithmetic.Fields
import Reactions.Bytes.Bytes32

/-!
# Big-endian bytes

A run of bytes denotes a number, and a number has the bytes of its lowest digits in base 256. The
two undo each other: `Bytes.toNat_ofNat` up to the width, and `Bytes.ofNat_toNat` exactly. So
different words of thirty-two bytes denote different numbers (`Bytes32.toNat_injective`), and a
residue is read back from its canonical encoding and from no other word
(`Residue.ofBytes?_eq_some_iff`), provided that its modulus fits into thirty-two bytes.
-/

namespace Reactions

namespace Bytes

/-- One byte more at the end counts for itself. -/
theorem toNat_append_singleton (bytes : Bytes) (b : UInt8) :
    toNat (bytes ++ [b]) = toNat bytes * 256 + b.toNat := by
  rw [toNat, List.foldl_append]
  rfl

/-- The lowest digits of a number denote its remainder. -/
theorem toNat_ofNat (width n : Nat) : toNat (ofNat width n) = n % 256 ^ width := by
  induction width generalizing n with
  | zero => rw [pow_zero, Nat.mod_one]; rfl
  | succ width ih =>
    have hlast : (UInt8.ofNat n).toNat = n % 256 := rfl
    rw [ofNat, toNat_append_singleton, ih, hlast, Nat.pow_succ', Nat.mod_mul]
    omega

/-- Bytes are the lowest digits of the number that they denote. -/
theorem ofNat_toNat (bytes : Bytes) : ofNat bytes.length (toNat bytes) = bytes := by
  induction bytes using List.reverseRecOn with
  | nil => rfl
  | append_singleton bytes b ih =>
    have hb : b.toNat < 256 := b.toNat_lt
    have hrest : (toNat bytes * 256 + b.toNat) / 256 = toNat bytes := by omega
    have hlast : UInt8.ofNat (toNat bytes * 256 + b.toNat) = b := by
      refine UInt8.toNat_inj.1 ?_
      rw [UInt8.toNat_ofNat']
      omega
    rw [toNat_append_singleton, List.length_append, List.length_singleton, ofNat, hrest, ih, hlast]

end Bytes

namespace Bytes32

theorem length_toList (w : Bytes32) : w.toList.length = 32 := by simp [toList]

theorem toList_ofNat (n : Nat) : (ofNat n).toList = Bytes.ofNat 32 n := rfl

/-- A word is known by its bytes. -/
theorem toList_injective : Function.Injective toList := by
  rintro ⟨v⟩ ⟨w⟩ h
  exact congrArg mk (Vector.toList_inj.1 h)

/-- Different words denote different numbers. -/
theorem toNat_injective : Function.Injective toNat := by
  intro v w h
  refine toList_injective ?_
  rw [← Bytes.ofNat_toNat v.toList, ← Bytes.ofNat_toNat w.toList, length_toList, length_toList]
  exact congrArg (Bytes.ofNat 32) h

/-- A word that is made of bytes has those bytes. -/
theorem toList_of_ofList? {bytes : Bytes} {w : Bytes32} (h : ofList? bytes = some w) :
    w.toList = bytes := by
  unfold ofList? at h
  split at h
  · cases h
    rfl
  · cases h

/-- The bytes of a word make the word. -/
theorem ofList?_toList (w : Bytes32) : ofList? w.toList = some w := by
  have hlength : w.toList.length = 32 := length_toList w
  rw [ofList?, dif_pos hlength, Option.some.injEq]
  exact toList_injective rfl

end Bytes32

namespace Residue

variable {n : Nat}

/-- A residue is read back from its bytes. -/
theorem ofBytes?_toBytes (hn : n ≤ 256 ^ 32) (a : Residue n) : ofBytes? a.toBytes = some a := by
  rw [ofBytes?, toBytes, Bytes32.toNat, Bytes32.toList_ofNat, Bytes.toNat_ofNat,
    Nat.mod_eq_of_lt (lt_of_lt_of_le a.isLt hn), ofNat?_eq_some_iff]

/-- A word is read as a residue only if it is the residue's canonical encoding. -/
theorem ofBytes?_eq_some_iff (hn : n ≤ 256 ^ 32) {w : Bytes32} {a : Residue n} :
    ofBytes? w = some a ↔ a.toBytes = w := by
  constructor
  · intro h
    have hnumber : a.toBytes.toNat = w.toNat :=
      (ofNat?_eq_some_iff.1 (ofBytes?_toBytes hn a)).trans (ofNat?_eq_some_iff.1 h).symm
    exact Bytes32.toNat_injective hnumber
  · rintro rfl
    exact ofBytes?_toBytes hn a

end Residue

/-- Thirty-two bytes are enough for the scalar field. -/
theorem scalarOrder_le : scalarOrder ≤ 256 ^ 32 := by decide

theorem baseOrder_le : baseOrder ≤ 256 ^ 32 := by decide

end Reactions
