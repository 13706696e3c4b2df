import Reactions.Groth16.KeyCache
import Reactions.Groth16.KeyDocument
import Reactions.Node.File
import Reactions.Node.PathName

/-!
# Key files

A file with the extension `bin` holds a verification key in binary, any other file one in JSON.
The key verifies the version that it is loaded for, whatever version its file names.
-/

namespace Reactions.KeyFile

/-- The key in a file. -/
def key (version path : String) (content : FileContent) : Except KeyError VerificationKey :=
  if PathName.extension? path = some "bin" then
    match content with
    | .missing => .error .unreadable
    | .unreadable => .error (.cache .ended)
    | .bytes bytes => (KeyCache.read bytes).map fun key => { key with version }
  else
    match content.text? with
    | some text => VerificationKey.ofDocument version text
    | none => .error .unreadable

/-- Loads the key of a version from a path. -/
def load {m : Type → Type} [Monad m] (read : ReadFile m) (version path : String) :
    m (Except KeyError VerificationKey) := do
  return key version path (← read path)

end Reactions.KeyFile
