import Reactions.Json.Reader

/-!
# Reading records

A record is read from an object of its fields, or from an array of them in their order. Its
fields are put together one by one, as an applicative functor, and each of them names the places
of its faults, so that the first fault in the text wins: the value of a member, the second member
of one name, a break in the text, and last the fields that are missing.
-/

namespace Reactions

/-- A fault and its place: the number of the member or item it belongs to. -/
structure Fault where
  place : Nat
  error : ReadError

/-- The members of an object. -/
abbrev Members := List (Option String × JsonNode)

/-- How the fields of a record are read: from the members of an object, where every field names
its faults' places, or from the items of an array, in the order of the fields. -/
structure Fields (α : Type) where
  names : List String
  fromMembers : Members → Except Fault α
  fromItems : List JsonNode → Except Fault α

namespace Fields

variable {α β : Type}

/-- Both results, or the fault that stands first. -/
def both (f : Except Fault (α → β)) (a : Except Fault α) : Except Fault β :=
  match f, a with
  | .ok f, .ok a => .ok (f a)
  | .error e, .ok _ => .error e
  | .ok _, .error e => .error e
  | .error e, .error e' => .error (if e'.place < e.place then e' else e)

/-- No fields. -/
protected def pure (a : α) : Fields α := ⟨[], fun _ => .ok a, fun _ => .ok a⟩

/-- The fields of two parts, one after the other. -/
protected def seq (f : Fields (α → β)) (a : Fields α) : Fields β where
  names := f.names ++ a.names
  fromMembers members := both (f.fromMembers members) (a.fromMembers members)
  fromItems items := both (f.fromItems items) <|
    (a.fromItems (items.drop f.names.length)).mapError
      fun e => { e with place := e.place + f.names.length }

instance : Applicative Fields where
  pure := Fields.pure
  seq f a := f.seq (a ())

/-- The places of the members of a name, with their values. -/
def placesOf (name : String) (members : Members) : List (Nat × JsonNode) :=
  members.zipIdx.filterMap fun ((key, node), place) =>
    if key = some name then some (place, node) else none

/-- A field of the given name; `absent` is its value when it is missing, if it may be. -/
def field (name : String) (absent : Option α) (reader : Reader α) : Fields α where
  names := [name]
  fromMembers members :=
    match placesOf name members with
    | [] =>
      match absent with
      | some a => .ok a
      | none => .error ⟨members.length + 1, .missingField name⟩
    | (place, node) :: others =>
      match reader node, others with
      | .error e, _ => .error ⟨place, e⟩
      | .ok a, [] => .ok a
      | .ok _, (second, _) :: _ => .error ⟨second, .duplicateField name⟩
  fromItems
    | [] =>
      match absent with
      | some a => .ok a
      | none => .error ⟨0, .malformed⟩
    | node :: _ => (reader node).mapError (⟨0, ·⟩)

/-- A field that must be there. -/
def required (name : String) (reader : Reader α) : Fields α := field name none reader

/-- A field with a value for when it is missing. -/
def optional (name : String) (default : α) (reader : Reader α) : Fields α :=
  field name (some default) reader

/-- The first fault of an object that belongs to no field: a name without a text, an unknown
member with a broken value, or the break of the text. -/
def straying (names : List String) (members : Members) (closed : Bool) : Except Fault Unit :=
  let strays := members.zipIdx.filter fun ((key, node), _) =>
    match key with
    | none => true
    | some key => !names.contains key && !node.complete
  match strays with
  | (_, place) :: _ => .error ⟨place, .malformed⟩
  | [] => if closed then .ok () else .error ⟨members.length, .malformed⟩

/-- Reads a record from an object of its fields, unknown members being passed over, or from an
array of the fields in order. -/
def record (fields : Fields α) : Reader α
  | .object members closed =>
    (both ((fields.fromMembers members).map fun a _ => a)
      (straying fields.names members closed)).mapError Fault.error
  | .array items closed => do
    let a ← (fields.fromItems items).mapError Fault.error
    if closed ∧ items.length ≤ fields.names.length then return a else throw .malformed
  | _ => .error .malformed

end Fields

namespace Reader

variable {α : Type}

/-- How deep the values of a document may nest when they are kept. -/
def maxDepth : Nat := 127

/-- Whether a member beside the tag can be kept. -/
def keepableMember (member : Option String × JsonNode) : Bool :=
  member.1.isSome && member.2.keepable (maxDepth - 1)

/-- One of a few names, for what it stands for. -/
def named {β : Type} (known : List (String × β)) : Reader β := fun node => do
  let name ← string node
  match known.lookup name with
  | some b => return b
  | none => throw (.unknownVariant name (known.map Prod.fst))

/-- The first fault beside the tag of a record: a member that cannot be kept, or the break of the
text. -/
def unkept (tag : String) (members : Members) (closed : Bool) : Except Fault Unit :=
  match members.zipIdx.find? fun (m, _) => m.1 != some tag && !keepableMember m with
  | some (_, place) => .error ⟨place, .malformed⟩
  | none => if closed then .ok () else .error ⟨members.length, .malformed⟩

/-- A record whose kind is named by one of its members, or by its first item; the others are kept
until the kind is known, and then read as the kind has it. -/
def tagged (tag : String) (known : List (String × Reader α)) : Reader α := fun node =>
  match node with
  | .object members closed => do
    let kind := (Fields.required tag (named known)).fromMembers members
    let reader ← (Fields.both (kind.map fun r _ => r) (unkept tag members closed)).mapError
      Fault.error
    reader (.object (members.filter fun m => m.1 != some tag) true)
  | .array (first :: rest) closed => do
    let reader ← named known first
    if closed ∧ rest.all (·.keepable (maxDepth - 1)) then reader (.array rest true)
    else throw .malformed
  | .array [] true => .error (.missingField tag)
  | _ => .error .malformed

end Reader

end Reactions
