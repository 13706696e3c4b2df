import Reactions.Arithmetic.Residue

/-!
# Thirty-two byte values

Identifiers, roots and coordinates are stored as exactly thirty-two bytes. Read as a number such
a value is big-endian; a field element is written as its least representative, padded on the left
with zeros, and is read back only from that form.
-/

namespace Reactions

/-- A run of bytes of any length. -/
abbrev Bytes := List UInt8

namespace Bytes

/-- The number a run of bytes denotes, first byte highest. -/
def toNat (bytes : Bytes) : Nat :=
  bytes.foldl (fun acc b => acc * 256 + b.toNat) 0

/-- The `width` lowest base-256 digits of `n`, highest first. -/
def ofNat : (width : Nat) → (n : Nat) → Bytes
  | 0, _ => []
  | width + 1, n => ofNat width (n / 256) ++ [UInt8.ofNat n]

theorem length_ofNat (width n : Nat) : (ofNat width n).length = width := by
  induction width generalizing n with
  | zero => rfl
  | succ w ih => simp [ofNat, ih]

end Bytes

/-- Thirty-two bytes. -/
structure Bytes32 where
  bytes : Vector UInt8 32
deriving DecidableEq

namespace Bytes32

/-- The bytes, in order. -/
def toList (w : Bytes32) : Bytes := w.bytes.toList

/-- The number the bytes denote, first byte highest. -/
def toNat (w : Bytes32) : Nat := Bytes.toNat w.toList

/-- A list of exactly thirty-two bytes. -/
def ofList? (bytes : Bytes) : Option Bytes32 :=
  if h : bytes.length = 32 then some ⟨⟨bytes.toArray, by simpa using h⟩⟩ else none

/-- The thirty-two lowest base-256 digits of `n`, highest first. -/
def ofNat (n : Nat) : Bytes32 :=
  ⟨⟨(Bytes.ofNat 32 n).toArray, by simpa using Bytes.length_ofNat 32 n⟩⟩

/-- One byte, repeated. -/
def replicate (b : UInt8) : Bytes32 := ⟨Vector.replicate 32 b⟩

instance : Inhabited Bytes32 := ⟨replicate 0⟩

/-- Byte strings are ordered like the numbers they denote, which is lexicographically. -/
instance : Ord Bytes32 := ⟨fun a b => compare a.toNat b.toNat⟩

end Bytes32

namespace Residue

variable {n : Nat} [Modulus n]

/-- The representative as thirty-two big-endian bytes. -/
def toBytes (a : Residue n) : Bytes32 := Bytes32.ofNat a.val

/-- Reads a canonical encoding: bytes that denote a number at or above the modulus are none. -/
def ofBytes? (w : Bytes32) : Option (Residue n) := ofNat? w.toNat

/-- The class of the number that any bytes denote. -/
def reduce (w : Bytes32) : Residue n := ofNat w.toNat

end Residue

end Reactions
