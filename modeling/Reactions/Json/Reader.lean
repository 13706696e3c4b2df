import Reactions.Json.Node
import Reactions.Bytes.Hex
import Reactions.Text.Timestamp
import Reactions.BabyJubJub.Point

/-!
# Reading typed values

A `Reader` takes a value out of a tree, or says why there is none. Of two faults in one document
the one that stands first in the text is reported, a break in the text included.
-/

namespace Reactions

/-- Why a document is not the form of a value. -/
inductive ReadError
  /-- The text breaks the grammar, or a value is of the wrong kind, size or length. -/
  | malformed
  | missingField (name : String)
  | duplicateField (name : String)
  | unknownVariant (name : String) (known : List String)
  | hex (error : HexError)
  | nonCanonicalCommitment
  | point (error : PointError)
deriving DecidableEq, Repr

/-- A name in backticks. -/
def quoteName (name : String) : String := "`" ++ name ++ "`"

/-- The wording of a fault. Only a malformed document has none of its own. -/
def ReadError.message? : ReadError → Option String
  | .malformed => none
  | .missingField name => some ("missing field " ++ quoteName name)
  | .duplicateField name => some ("duplicate field " ++ quoteName name)
  | .unknownVariant name known =>
    some ("unknown variant " ++ quoteName name ++ ", expected one of " ++
      ", ".intercalate (known.map quoteName))
  | .hex e => some e.message
  | .nonCanonicalCommitment => some "commitment is not a canonical field element"
  | .point e => some e.message

/-- Takes a value out of a part of a document. -/
abbrev Reader (α : Type) := JsonNode → Except ReadError α

namespace Reader

/-! ## Scalars -/

/-- A string. -/
def string : Reader String
  | .string (some s) => .ok s
  | _ => .error .malformed

/-- A truth value. -/
def bool : Reader Bool
  | .bool b => .ok b
  | _ => .error .malformed

/-- A whole number without a sign, below a bound. -/
def natBelow (bound : Nat) : Reader Nat
  | .number n =>
    match n.negative, n.nat? with
    | false, some k => if k < bound then .ok k else .error .malformed
    | _, _ => .error .malformed
  | _ => .error .malformed

/-- A number of sixty-four bits. -/
def nat64 : Reader Nat := natBelow UInt64.size

/-- A number of thirty-two bits. -/
def nat32 : Reader Nat := natBelow UInt32.size

/-- Thirty-two bytes in hexadecimal. -/
def bytes32 : Reader Bytes32 := fun node => do
  (Hex.decode32 (← string node)).mapError .hex

/-- Bytes of any number in hexadecimal. -/
def bytes : Reader Bytes := fun node => do
  (Hex.decode (← string node)).mapError .hex

/-- A point in time. -/
def timestamp : Reader Timestamp := fun node => do
  match Timestamp.read? (← string node) with
  | some t => return t
  | none => throw .malformed

/-! ## Sequences -/

variable {α : Type}

/-- An array of any length. -/
def list (item : Reader α) : Reader (List α)
  | .array items closed => do
    let values ← items.mapM item
    if closed then return values else throw .malformed
  | _ => .error .malformed

/-- An array of exactly `n` items. -/
def vector (n : Nat) (item : Reader α) : Reader (Vector α n)
  | .array items closed => do
    let values ← (items.take n).mapM item
    if h : values.toArray.size = n then
      if closed ∧ items.length = n then return ⟨values.toArray, h⟩ else throw .malformed
    else throw .malformed
  | _ => .error .malformed

/-! ## Variants -/

/-- One of a few names: as a string, or as the only member of an object, whose value is null. In
a value that was kept aside before its kind was known, an empty object stands for null too, and a
second member is a fault before any name is looked up. -/
def variant (kept : Bool) (known : List (String × α)) : Reader α := fun node =>
  let choose := fun (name : String) =>
    match known.lookup name with
    | some a => Except.ok a
    | none => .error (.unknownVariant name (known.map Prod.fst))
  match node with
  | .string (some name) => choose name
  | .object ((some name, value) :: others) closed => do
    if kept ∧ ¬ others.isEmpty then throw .malformed
    let a ← choose name
    match value, kept with
    | .null, _ | .object [] true, true =>
      if closed ∧ others.isEmpty then return a else throw .malformed
    | _, _ => throw .malformed
  | _ => .error .malformed

/-! ## Documents -/

/-- Reads a whole document: a value, and nothing after it. -/
def document (reader : Reader α) (text : String) : Except ReadError α := do
  let (node, ends) := JsonNode.ofText text
  let a ← reader node
  if ends then return a else throw .malformed

end Reader

end Reactions
