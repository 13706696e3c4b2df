import Reactions.Json.Magnitude

/-!
# JSON text as a tree

Reading a document is split into two steps. This module turns any text into a tree: the text
need not be JSON, and the tree says how far it was. A node is `broken` where the text stops being
JSON, and the array or object around it is not `closed`; everything before that point is there.
The readers then walk the tree in the order of the text, so that a value of the wrong kind is
found before a later slip in the grammar, as in a single pass.

A name or a string may have no text, if its escapes hold half of a surrogate pair. That is no
fault of the grammar, so that a value that nobody asks for may hold one.
-/

namespace Reactions

/-- A part of a document, as far as it could be read. -/
inductive JsonNode
  | null
  | bool (value : Bool)
  | number (value : JsonNumber)
  | string (text : Option String)
  | array (items : List JsonNode) (closed : Bool)
  | object (members : List (Option String × JsonNode)) (closed : Bool)
  | broken
deriving Inhabited

namespace JsonNode

/-! ## Values -/

/-- A word that stands for a node. -/
def word (text : String) (node : JsonNode) (cs : List Char) : JsonNode × Option (List Char) :=
  match text.toList.isPrefixOf? cs with
  | some rest => (node, some rest)
  | none => (.broken, none)

mutual

/-- Reads a value after blanks; without a rest if the text breaks off inside it. -/
def value : (fuel : Nat) → List Char → JsonNode × Option (List Char)
  | 0, _ => (.broken, none)
  | fuel + 1, cs =>
    match JsonText.skipSpace cs with
    | [] => (.broken, none)
    | '"' :: rest =>
      match JsonText.string? rest with
      | some (text, rest) => (.string text, some rest)
      | none => (.broken, none)
    | '[' :: rest =>
      match JsonText.skipSpace rest with
      | ']' :: rest => (.array [] true, some rest)
      | rest =>
        let (items, rest) := items fuel rest
        (.array items rest.isSome, rest)
    | '\x7b' :: rest =>
      match JsonText.skipSpace rest with
      | '\x7d' :: rest => (.object [] true, some rest)
      | rest =>
        let (members, rest) := members fuel rest
        (.object members rest.isSome, rest)
    | 'n' :: rest => word "ull" .null rest
    | 't' :: rest => word "rue" (.bool true) rest
    | 'f' :: rest => word "alse" (.bool false) rest
    | cs =>
      match JsonText.number? cs with
      | some (n, rest) => (.number n, some rest)
      | none => (.broken, none)

/-- Reads the items of an array up to its closing bracket. -/
def items : (fuel : Nat) → List Char → List JsonNode × Option (List Char)
  | 0, _ => ([], none)
  | fuel + 1, cs =>
    let (item, rest) := value fuel cs
    match rest with
    | none => ([item], none)
    | some rest =>
      match JsonText.skipSpace rest with
      | ']' :: rest => ([item], some rest)
      | ',' :: rest =>
        let (more, rest) := items fuel rest
        (item :: more, rest)
      | _ => ([item], none)

/-- Reads the members of an object up to its closing brace. -/
def members : (fuel : Nat) → List Char →
    List (Option String × JsonNode) × Option (List Char)
  | 0, _ => ([], none)
  | fuel + 1, cs =>
    match JsonText.skipSpace cs with
    | '"' :: rest =>
      match JsonText.string? rest with
      | none => ([], none)
      | some (name, rest) =>
        match JsonText.skipSpace rest with
        | ':' :: rest =>
          let (node, rest) := value fuel rest
          match rest with
          | none => ([(name, node)], none)
          | some rest =>
            match JsonText.skipSpace rest with
            | '\x7d' :: rest => ([(name, node)], some rest)
            | ',' :: rest =>
              let (more, rest) := members fuel rest
              ((name, node) :: more, rest)
            | _ => ([(name, node)], none)
        | _ => ([(name, .broken)], none)
    | _ => ([], none)

end

/-- The tree of a document, and whether nothing but blanks follows its value. -/
def ofText (text : String) : JsonNode × Bool :=
  let cs := text.toList
  let (node, rest) := value (2 * cs.length + 2) cs
  (node, match rest with
    | some rest => (JsonText.skipSpace rest).isEmpty
    | none => false)

/-! ## Properties of a tree -/

mutual

/-- The grammar was kept to everywhere. -/
def complete : JsonNode → Bool
  | .array items closed => closed && completeItems items
  | .object members closed => closed && completeMembers members
  | .broken => false
  | _ => true

/-- Every item is complete. -/
def completeItems : List JsonNode → Bool
  | [] => true
  | x :: rest => x.complete && completeItems rest

/-- Every value of a member is complete. -/
def completeMembers : List (Option String × JsonNode) → Bool
  | [] => true
  | (_, x) :: rest => x.complete && completeMembers rest

end

mutual

/-- The tree can be kept as a value: it is complete, all its strings have a text, all its numbers
are within range, and it is nested at most `depth` times. -/
def keepable (depth : Nat) : JsonNode → Bool
  | .null | .bool _ => true
  | .number n => !n.tooLarge
  | .string text => text.isSome
  | .array items closed =>
    match depth with
    | 0 => false
    | depth + 1 => closed && keepableItems depth items
  | .object members closed =>
    match depth with
    | 0 => false
    | depth + 1 => closed && keepableMembers depth members
  | .broken => false

/-- Every item can be kept. -/
def keepableItems (depth : Nat) : List JsonNode → Bool
  | [] => true
  | x :: rest => x.keepable depth && keepableItems depth rest

/-- Every name and value of a member can be kept. -/
def keepableMembers (depth : Nat) : List (Option String × JsonNode) → Bool
  | [] => true
  | (name, x) :: rest => name.isSome && x.keepable depth && keepableMembers depth rest

end

end JsonNode

end Reactions
