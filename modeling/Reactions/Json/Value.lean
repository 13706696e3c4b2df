import Reactions.Text.Decimal
import Reactions.Bytes.Hex

/-!
# JSON values and their written forms

A value holds only what rows and reports are made of: the numbers are natural, and an object
keeps its members in the order in which they are written. `render` is the compact form, on one
line and without blanks; `pretty` breaks lines and indents by two.
-/

namespace Reactions

/-- A JSON value to be written. -/
inductive Json
  | null
  | bool (value : Bool)
  | number (value : Nat)
  | string (value : String)
  | array (items : List Json)
  | object (members : List (String × Json))
deriving Inhabited

namespace Json

/-- The two-digit form of a control character after the backslash. -/
def controlEscape (c : Char) : List Char :=
  ['u', '0', '0', Hex.digit (c.toNat / 16), Hex.digit (c.toNat % 16)]

/-- One character of a string: quotes, backslashes and controls are escaped. -/
def escape (c : Char) : List Char :=
  if c = '"' then ['\\', '"']
  else if c = '\\' then ['\\', '\\']
  else if c = '\n' then ['\\', 'n']
  else if c = '\r' then ['\\', 'r']
  else if c = '\t' then ['\\', 't']
  else if c = '\x08' then ['\\', 'b']
  else if c = '\x0c' then ['\\', 'f']
  else if c.toNat < 32 then '\\' :: controlEscape c
  else [c]

/-- A string with its quotes. -/
def quote (s : String) : List Char := '"' :: s.toList.flatMap escape ++ ['"']

mutual

/-- The compact form of a value. -/
def renderChars : Json → List Char
  | .null => "null".toList
  | .bool b => (if b then "true" else "false").toList
  | .number n => Decimal.digits n
  | .string s => quote s
  | .array items => '[' :: renderItems items ++ [']']
  | .object members => '\x7b' :: renderMembers members ++ ['\x7d']

/-- The items of an array, with commas between them. -/
def renderItems : List Json → List Char
  | [] => []
  | [x] => renderChars x
  | x :: rest => renderChars x ++ ',' :: renderItems rest

/-- The members of an object, with commas between them. -/
def renderMembers : List (String × Json) → List Char
  | [] => []
  | [(k, v)] => quote k ++ ':' :: renderChars v
  | (k, v) :: rest => quote k ++ ':' :: renderChars v ++ ',' :: renderMembers rest

end

/-- The compact form of a value. -/
def render (j : Json) : String := String.ofList j.renderChars

/-- A line break and the indent of a level. -/
def newLine (level : Nat) : List Char := '\n' :: List.replicate (2 * level) ' '

mutual

/-- The indented form of a value inside `level` others. -/
def prettyChars (level : Nat) : Json → List Char
  | .array [] => ['[', ']']
  | .array items => '[' :: prettyItems (level + 1) items ++ newLine level ++ [']']
  | .object [] => ['\x7b', '\x7d']
  | .object members =>
    '\x7b' :: prettyMembers (level + 1) members ++ newLine level ++ ['\x7d']
  | .null => "null".toList
  | .bool b => (if b then "true" else "false").toList
  | .number n => Decimal.digits n
  | .string s => quote s

/-- The items of an array, each on a line of its own. -/
def prettyItems (level : Nat) : List Json → List Char
  | [] => []
  | [x] => newLine level ++ prettyChars level x
  | x :: rest => newLine level ++ prettyChars level x ++ ',' :: prettyItems level rest

/-- The members of an object, each on a line of its own. -/
def prettyMembers (level : Nat) : List (String × Json) → List Char
  | [] => []
  | [(k, v)] => newLine level ++ quote k ++ ':' :: ' ' :: prettyChars level v
  | (k, v) :: rest =>
    newLine level ++ quote k ++ ':' :: ' ' :: prettyChars level v ++ ',' ::
      prettyMembers level rest

end

/-- The indented form of a value. -/
def pretty (j : Json) : String := String.ofList (j.prettyChars 0)

end Json

/-- Values with a JSON form. -/
class ToJson (α : Type) where
  toJson : α → Json

export ToJson (toJson)

instance : ToJson Nat := ⟨.number⟩
instance : ToJson String := ⟨.string⟩
instance {α : Type} [ToJson α] : ToJson (List α) := ⟨fun xs => .array (xs.map toJson)⟩
instance {α : Type} {n : Nat} [ToJson α] : ToJson (Vector α n) := ⟨fun xs => toJson xs.toList⟩
instance : ToJson Bytes32 := ⟨fun w => .string w.toHex⟩

/-- Bytes of any number, as one hexadecimal string. -/
def Bytes.toJson (bytes : Bytes) : Json := .string (Hex.encode bytes)

end Reactions
