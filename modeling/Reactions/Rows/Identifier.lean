import Reactions.Json.Reader
import Reactions.Json.Value
import Reactions.Poseidon.Permutation
import Reactions.Digest.Sha256

/-!
# Identifiers and commitments

Feeds, messages and nullifiers are named by thirty-two opaque bytes, which are written in
hexadecimal. Inside a statement an identifier stands for the number it denotes, and only one
below the field's modulus has such a number: a larger one would alias another.

A commitment is a field element, the leaf of a member. A member known by address alone has the
commitment of that address.
-/

namespace Reactions

/-- What an identifier names. -/
inductive IdKind
  | feed
  | message
  | nullifier
deriving DecidableEq

/-- The name of a kind of identifier. -/
def IdKind.name : IdKind → String
  | .feed => "FeedId"
  | .message => "MessageId"
  | .nullifier => "Nullifier"

/-- An identifier of a kind. -/
structure Identifier (kind : IdKind) where
  word : Bytes32
deriving DecidableEq

/-- A group feed on the chain. -/
abbrev FeedId := Identifier .feed

/-- A message within a feed. -/
abbrev MessageId := Identifier .message

/-- The tag of a member's vote on a message, the same for every vote of theirs on it. -/
abbrev Nullifier := Identifier .nullifier

namespace Identifier

variable {kind : IdKind}

instance : Inhabited (Identifier kind) := ⟨⟨default⟩⟩
instance : Ord (Identifier kind) := ⟨fun a b => compare a.word b.word⟩

/-- The field element that a canonical identifier denotes. -/
def toField? (id : Identifier kind) : Option ScalarField := Residue.ofBytes? id.word

/-- The written form. -/
def write (id : Identifier kind) : String := id.word.toHex

/-- The written form with the kind's name around it. -/
def describe (id : Identifier kind) : String := kind.name ++ "(" ++ id.write ++ ")"

/-- Reads an identifier. -/
def read (text : String) : Except HexError (Identifier kind) :=
  (Hex.decode32 text).map Identifier.mk

instance : ToJson (Identifier kind) := ⟨fun id => .string id.write⟩

/-- Reads an identifier in a document. -/
def reader : Reader (Identifier kind) := fun node => (Reader.bytes32 node).map Identifier.mk

end Identifier

/-- A member's leaf. -/
structure Commitment where
  value : ScalarField
deriving DecidableEq

namespace Commitment

instance : Inhabited Commitment := ⟨⟨0⟩⟩

/-- The canonical bytes. -/
def toBytes (c : Commitment) : Bytes32 := c.value.toBytes

/-- The commitment with the given canonical bytes. -/
def ofBytes? (w : Bytes32) : Option Commitment := (Residue.ofBytes? w).map Commitment.mk

/-- The written form. -/
def write (c : Commitment) : String := c.toBytes.toHex

/-- The written form with a name around it. -/
def describe (c : Commitment) : String := "Commitment(" ++ c.write ++ ")"

instance : ToJson Commitment := ⟨fun c => .string c.write⟩

/-- Reads a commitment in a document. -/
def reader : Reader Commitment := fun node => do
  match ofBytes? (← Reader.bytes32 node) with
  | some c => return c
  | none => throw .nonCanonicalCommitment

/-- The commitment of a chain address: its SHA-256 digest, reduced and compressed with zero. A
member who comes back is given the same one. -/
def ofAddress (address : String) : Commitment :=
  ⟨poseidon2 (Residue.reduce (Sha256.digest address.toUTF8.toList)) 0⟩

end Commitment

end Reactions
