/-!
# The command line

A node has two commands, `replay` and `convert-key`, and a configuration file may be named before
them. Arguments are read one by one: an option takes its value from the same argument or from the
next one, `--` ends the options, and a request for help ends the reading at once. The value of an
option is judged when the next one is met, so that a request for help may come before its fault.
-/

namespace Reactions

/-- What a node can be told to do. -/
inductive Command
  /-- Replay a log and print the report. -/
  | replay (log : String)
  /-- Load the key of a circuit version and write it in binary. -/
  | convertKey (version input output : String)
deriving DecidableEq, Repr

/-- A command with the configuration file that it is to use. -/
structure CommandLine where
  config : Option String
  command : Command
deriving DecidableEq, Repr

/-- How a command line ends that asks for nothing to be done. -/
inductive Usage
  /-- Help or the version was asked for. -/
  | shown
  /-- The arguments fit no form. -/
  | refused
deriving DecidableEq, Repr

namespace CommandLine

/-- A place for a value. -/
structure Slot where
  name : String
  mayBeEmpty : Bool := false

/-- An option with a value. -/
structure Switch where
  slot : Slot
  short : Char

/-- The arguments of a command. -/
structure Form where
  switches : List Switch
  /-- The values without an option, in order. -/
  operands : List Slot := []
  /-- The words that end the arguments. -/
  commands : List String := []
  /-- Whether the version may be asked for. -/
  versioned : Bool := false

/-- What was given so far. -/
structure Given where
  values : List (String × String) := []
  /-- The last value, which is not judged yet. -/
  pending : Option (Slot × String) := none
  /-- The operands that are still to come. -/
  operands : List Slot

namespace Given

/-- Judges the last value: it must be the first of its slot, and empty only if it may. -/
def settle (g : Given) : Except Usage Given :=
  match g.pending with
  | none => .ok g
  | some (slot, value) =>
    if (g.values.lookup slot.name).isSome ∨ (value.isEmpty ∧ !slot.mayBeEmpty) then .error .refused
    else .ok { g with values := (slot.name, value) :: g.values, pending := none }

/-- Takes a value. -/
def take (g : Given) (slot : Slot) (value : String) : Except Usage Given := do
  return { ← g.settle with pending := some (slot, value) }

/-- Takes a value without an option. -/
def takeOperand (g : Given) (value : String) : Except Usage Given :=
  match g.operands with
  | [] => .error .refused
  | slot :: rest => { g with operands := rest }.take slot value

end Given

/-- An argument by its looks. -/
inductive Shape
  | escape
  /-- Two dashes and a name, and what follows an equals sign. -/
  | long (name : String) (value : Option String)
  /-- A dash and letters. -/
  | short (letters : List Char)
  | plain

/-- The shape of an argument. -/
def shapeOf (argument : String) : Shape :=
  match argument.toList with
  | ['-', '-'] => .escape
  | '-' :: '-' :: rest =>
    let name := String.ofList (rest.takeWhile (· ≠ '='))
    match rest.dropWhile (· ≠ '=') with
    | [] => .long name none
    | _ :: value => .long name (some (String.ofList value))
  | '-' :: letter :: rest => .short (letter :: rest)
  | _ => .plain

/-- Takes the value of an option that stands in an argument of its own. -/
def takeNext (g : Given) (slot : Slot) (value : String) : Except Usage Given :=
  match shapeOf value with
  | .plain => g.take slot value
  | _ => .error .refused

/-- Takes the value of an option that stands in the same argument. -/
def takeAttached (g : Given) (slot : Slot) (value : String) : Except Usage Given := do
  (← g.take slot value).settle

/-- The end of a request for help or the version, which the value before it may still spoil. -/
def show? (g : Given) : Except Usage Given := do
  let _ ← g.settle
  throw .shown

/-- Reads letters after a dash. Without a value among them, the slot that waits for one is given
back. -/
def scanShort (form : Form) (g : Given) : List Char → Except Usage (Given × Option Slot)
  | [] => .ok (g, none)
  | letter :: rest => do
    if letter = 'h' ∨ (letter = 'V' ∧ form.versioned) then return (← show? g, none)
    let some switch := form.switches.find? (·.short = letter) | throw .refused
    match rest with
    | [] => return (g, some switch.slot)
    | '=' :: value => return (← takeAttached g switch.slot (String.ofList value), none)
    | value => return (← takeAttached g switch.slot (String.ofList value), none)

/-- Reads a name after two dashes, likewise. -/
def scanLong (form : Form) (g : Given) (name : String) (value : Option String) :
    Except Usage (Given × Option Slot) := do
  if name = "help" ∨ (name = "version" ∧ form.versioned) then
    if value.isSome then throw .refused
    return (← show? g, none)
  let some switch := form.switches.find? (·.slot.name = name) | throw .refused
  match value with
  | none => return (g, some switch.slot)
  | some value => return (← takeAttached g switch.slot value, none)

/-- Reads arguments up to a command, which is given back with those after it. -/
def scan (form : Form) (g : Given) : List String → Except Usage (Given × List String)
  | [] => .ok (g, [])
  | argument :: rest =>
    if form.commands.contains argument then .ok (g, argument :: rest)
    else
      match shapeOf argument with
      | .escape => do return (← rest.foldlM Given.takeOperand g, [])
      | .plain => do scan form (← g.takeOperand argument) rest
      | .short letters => do
        match ← scanShort form g letters, rest with
        | (g, none), rest => scan form g rest
        | (g, some slot), value :: rest => scan form (← takeNext g slot value) rest
        | (_, some _), [] => throw .refused
      | .long name value => do
        match ← scanLong form g name value, rest with
        | (g, none), rest => scan form g rest
        | (g, some slot), value :: rest => scan form (← takeNext g slot value) rest
        | (_, some _), [] => throw .refused

/-- Reads all arguments of a command. -/
def values (form : Form) (arguments : List String) : Except Usage (List (String × String)) := do
  let (g, _) ← scan form { operands := form.operands } arguments
  return (← g.settle).values

/-- The value of a slot that must have one. -/
def value (given : List (String × String)) (name : String) : Except Usage String :=
  match given.lookup name with
  | some value => .ok value
  | none => .error .refused

/-! ## The forms -/

/-- What may stand before a command. -/
def outerForm : Form where
  switches := [⟨⟨"config", false⟩, 'c'⟩]
  commands := ["replay", "convert-key", "help"]
  versioned := true

/-- The arguments of `replay`. -/
def replayForm : Form where
  switches := []
  operands := [⟨"log", false⟩]

/-- The arguments of `convert-key`. -/
def convertForm : Form where
  switches := [⟨⟨"circuit-version", true⟩, 'v'⟩, ⟨⟨"input", false⟩, 'i'⟩, ⟨⟨"output", false⟩, 'o'⟩]

/-- Reads a command and its arguments. -/
def commandOf : List String → Except Usage Command
  | "replay" :: rest => do return .replay (← value (← values replayForm rest) "log")
  | "convert-key" :: rest => do
    let given ← values convertForm rest
    return .convertKey (← value given "circuit-version") (← value given "input")
      (← value given "output")
  | ["help"] => .error .shown
  | ["help", name] => .error (if outerForm.commands.contains name then .shown else .refused)
  | _ => .error .refused

/-- Reads a command line. -/
def ofArguments (arguments : List String) : Except Usage CommandLine := do
  let (g, rest) ← scan outerForm { operands := [] } arguments
  let command ← commandOf rest
  return { config := (← g.settle).values.lookup "config", command }

end CommandLine

end Reactions
