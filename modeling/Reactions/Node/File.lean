import Reactions.Bytes.Bytes32

/-!
# Files

What a path leads to. All that a node knows of the world is how a path is read, which is passed to
it as a function.
-/

namespace Reactions

/-- What is found under a path. -/
inductive FileContent
  /-- Nothing that could be opened. -/
  | missing
  /-- Something that can be opened and not read, such as a directory. -/
  | unreadable
  | bytes (content : Bytes)
deriving DecidableEq

/-- The text of a file. -/
def FileContent.text? : FileContent → Option String
  | .bytes content => String.fromUTF8? ⟨content.toArray⟩
  | _ => none

/-- How the files of a node are read. -/
abbrev ReadFile (m : Type → Type) := String → m FileContent

end Reactions
