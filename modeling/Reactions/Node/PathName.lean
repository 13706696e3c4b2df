/-!
# Path names

Parts of a file's path as text. Slashes separate the components; superfluous slashes and
components `.` count for nothing, except for a `.` that begins the path.
-/

namespace Reactions.PathName

/-- Drops slashes and components `.` from the end of a path, which is given in reverse. -/
def trim : List Char → List Char
  | '/' :: rest => trim rest
  | '.' :: '/' :: rest => trim rest
  | rest => rest

/-- The path starts at the root. -/
def isAbsolute (path : String) : Bool := path.toList.head? = some '/'

/-- The last component of a path, which is given in reverse. -/
def last (reversed : List Char) : List Char := ((trim reversed).takeWhile (· ≠ '/')).reverse

/-- The path without its last component, if it has one. -/
def parent? (path : String) : Option String :=
  let body := trim path.toList.reverse
  if body.isEmpty then none
  else
    let rest := (trim (body.dropWhile (· ≠ '/'))).reverse
    some (if rest.isEmpty ∧ isAbsolute path then "/" else String.ofList rest)

/-- What follows the last dot of a path's last component, if anything stands before that dot. -/
def extension? (path : String) : Option String :=
  let name := last path.toList.reverse
  let reversed := name.reverse
  let after := reversed.takeWhile (· ≠ '.')
  match reversed.drop after.length with
  | _ :: _ :: _ => if name = ['.', '.'] then none else some (String.ofList after.reverse)
  | _ => none

/-- A path taken relative to a directory. -/
def join (directory path : String) : String :=
  if isAbsolute path ∨ directory.isEmpty then path
  else if directory.toList.getLast? = some '/' then directory ++ path
  else directory ++ "/" ++ path

end Reactions.PathName
