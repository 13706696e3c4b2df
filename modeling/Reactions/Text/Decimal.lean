/-!
# Decimal text

Writing numbers with decimal digits, plain or padded, and reading runs of digits.
-/

namespace Reactions.Decimal

/-- The decimal digits of a number, without leading zeros. -/
def digits (n : Nat) : List Char := Nat.toDigits 10 n

/-- A number in decimal. -/
def write (n : Nat) : String := String.ofList (digits n)

/-- The decimal digits of a number, with zeros in front up to a width. -/
def padded (width n : Nat) : List Char :=
  List.replicate (width - (digits n).length) '0' ++ digits n

/-- The value of a decimal digit. -/
def value? (c : Char) : Option Nat :=
  if '0' ≤ c ∧ c ≤ '9' then some (c.toNat - 48) else none

/-- Whether a character is a decimal digit. -/
def isDigit (c : Char) : Bool := (value? c).isSome

/-- The number that a run of digits denotes. -/
def ofDigits (cs : List Char) : Nat :=
  cs.foldl (fun acc c => 10 * acc + (value? c).getD 0) 0

end Reactions.Decimal
