import Reactions.Text.Decimal

/-!
# Scalars in JSON text

The parts of the grammar below values: blanks, strings and numbers, each read from the front of
a text. A string whose escapes hold half of a surrogate pair alone is none that Unicode could
write: it is read to its end all the same, and left without a text.
-/

namespace Reactions

/-- A number as it is written: the digits before the point, those after it, and the exponent. -/
structure JsonNumber where
  negative : Bool
  whole : List Char
  fraction : Option (List Char)
  exponent : Option Int
deriving DecidableEq, Repr

/-- The number without its sign, if it is written without point and exponent. -/
def JsonNumber.nat? (n : JsonNumber) : Option Nat :=
  match n.fraction, n.exponent with
  | none, none => some (Decimal.ofDigits n.whole)
  | _, _ => none

namespace JsonText

/-! ## Blanks and strings -/

/-- Drops the blanks of the grammar. -/
def skipSpace (cs : List Char) : List Char :=
  cs.dropWhile fun c => c = ' ' || c = '\n' || c = '\t' || c = '\r'

/-- The value of a hexadecimal digit of either case. -/
def hexValue? (c : Char) : Option Nat :=
  let v := c.toNat
  if 48 ≤ v ∧ v ≤ 57 then some (v - 48)
  else if 97 ≤ v ∧ v ≤ 102 then some (v - 87)
  else if 65 ≤ v ∧ v ≤ 70 then some (v - 55)
  else none

/-- The code unit of four hexadecimal digits, and the text after them. -/
def codeUnit? : List Char → Option (Nat × List Char)
  | a :: b :: c :: d :: rest => do
    let a ← hexValue? a
    let b ← hexValue? b
    let c ← hexValue? c
    let d ← hexValue? d
    return (((16 * a + b) * 16 + c) * 16 + d, rest)
  | _ => none

/-- The character after a backslash, for escapes of one letter. -/
def simpleEscape? : Char → Option Char
  | '"' => some '"'
  | '\\' => some '\\'
  | '/' => some '/'
  | 'b' => some '\x08'
  | 'f' => some '\x0c'
  | 'n' => some '\n'
  | 'r' => some '\r'
  | 't' => some '\t'
  | _ => none

/-- What stands at the beginning of the rest of a string. -/
inductive StringStep
  /-- The closing quote. -/
  | done (rest : List Char)
  /-- A character, plain or escaped. -/
  | char (c : Char) (rest : List Char)
  /-- Half of a surrogate pair. -/
  | half (rest : List Char)
  /-- No part of a string. -/
  | broken

/-- The character of a high and a low surrogate. -/
def joinSurrogates (high low : Nat) : Char :=
  Char.ofNat (0x10000 + (high - 0xd800) * 0x400 + (low - 0xdc00))

/-- The code unit of an escape with four digits at the very beginning of the text. -/
def escapedUnit? : List Char → Option (Nat × List Char)
  | '\\' :: 'u' :: rest => codeUnit? rest
  | _ => none

/-- Reads one character of a string. -/
def stringStep : List Char → StringStep
  | [] => .broken
  | '"' :: rest => .done rest
  | '\\' :: 'u' :: rest =>
    match codeUnit? rest with
    | none => .broken
    | some (unit, rest) =>
      if 0xdc00 ≤ unit ∧ unit < 0xe000 then .half rest
      else if 0xd800 ≤ unit ∧ unit < 0xdc00 then
        match escapedUnit? rest with
        | some (low, after) =>
          if 0xdc00 ≤ low ∧ low < 0xe000 then .char (joinSurrogates unit low) after
          else .half rest
        | none => .half rest
      else .char (Char.ofNat unit) rest
  | '\\' :: c :: rest =>
    match simpleEscape? c with
    | some c => .char c rest
    | none => .broken
  | c :: rest => if c.toNat < 32 ∨ c = '\\' then .broken else .char c rest

/-- Reads a string up to its closing quote, at most `fuel` characters. The characters so far are
kept in reverse, unless a half of a surrogate pair was among them. -/
def stringRest : (fuel : Nat) → Option (List Char) → List Char →
    Option (Option String × List Char)
  | 0, _, _ => none
  | fuel + 1, sofar, cs =>
    match stringStep cs with
    | .done rest => some (sofar.map fun cs => String.ofList cs.reverse, rest)
    | .char c rest => stringRest fuel (sofar.map (c :: ·)) rest
    | .half rest => stringRest fuel none rest
    | .broken => none

/-- Reads a string whose opening quote was passed. -/
def string? (cs : List Char) : Option (Option String × List Char) :=
  stringRest (cs.length + 1) (some []) cs

/-! ## Numbers -/

/-- The digits at the beginning of a text, and the text after them. -/
def digitRun (cs : List Char) : List Char × List Char :=
  (cs.takeWhile Decimal.isDigit, cs.dropWhile Decimal.isDigit)

/-- A fraction after the whole part, if there is a point: its digits. -/
def fraction? (cs : List Char) : Option (Option (List Char) × List Char) :=
  match cs with
  | '.' :: rest =>
    let (run, rest) := digitRun rest
    if run.isEmpty then none else some (some run, rest)
  | cs => some (none, cs)

/-- An exponent, if there is one. -/
def exponent? (cs : List Char) : Option (Option Int × List Char) :=
  match cs with
  | 'e' :: rest | 'E' :: rest =>
    let (negative, rest) := match rest with
      | '-' :: rest => (true, rest)
      | '+' :: rest => (false, rest)
      | rest => (false, rest)
    let (run, rest) := digitRun rest
    if run.isEmpty then none
    else
      let n : Int := Decimal.ofDigits run
      some (some (if negative then -n else n), rest)
  | cs => some (none, cs)

/-- Reads a number: no superfluous zero in front, and a digit on each side of a point. -/
def number? (cs : List Char) : Option (JsonNumber × List Char) := do
  let (negative, cs) := match cs with
    | '-' :: rest => (true, rest)
    | cs => (false, cs)
  let (run, cs) := digitRun cs
  guard (¬ run.isEmpty ∧ (run.head? = some '0' → run.length = 1))
  let (fraction, cs) ← fraction? cs
  let (exponent, cs) ← exponent? cs
  return (⟨negative, run, fraction, exponent⟩, cs)

end JsonText

end Reactions
