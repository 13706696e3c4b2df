import Reactions.Json.Text

/-!
# Numbers within the range of doubles

A number that is kept as a value has to have a double. Its double is a single product: the digits
in front that fit in sixty-four bits make the significand, which is multiplied by a power of ten,
and all three are doubles. So the number is rounded more than once, and some of those next to the
largest double count as too large although the nearest double to them is finite, and the other way
round. Exact arithmetic on natural numbers decides which.
-/

namespace Reactions

/-- The nearest number of fifty-three significant bits; a tie goes to the even neighbour. -/
def roundToDouble (n : Nat) : Nat :=
  let unit := Nat.pow 2 (n.log2 - 52)
  let floor := n / unit
  let rest := 2 * (n % unit)
  (if rest > unit ∨ (rest = unit ∧ floor % 2 = 1) then floor + 1 else floor) * unit

namespace JsonNumber

/-- Appends digits to a significand for as long as it stays within sixty-four bits; also the
number of digits left over. -/
def appendDigits (significand : Nat) : List Char → Nat × Nat
  | [] => (significand, 0)
  | c :: rest =>
    let longer := 10 * significand + (Decimal.value? c).getD 0
    if longer < UInt64.size then appendDigits longer rest else (significand, rest.length + 1)

/-- The significand and its power of ten. A digit left over before the point counts as a zero,
one after it for nothing. The digits after the point are appended whether or not some before it
were left over. -/
def scaled (n : JsonNumber) : Nat × Int :=
  let fraction := n.fraction.getD []
  let (significand, zeros) := appendDigits 0 n.whole
  let (significand, dropped) := appendDigits significand fraction
  (significand, n.exponent.getD 0 + zeros - (fraction.length - dropped : Nat))

/-- The product of the significand and the power of ten is no finite double: it is at least
halfway from the largest one to `2¹⁰²⁴`, or the power is no double itself. -/
def tooLarge (n : JsonNumber) : Bool :=
  match n.scaled with
  | (0, _) | (_, .negSucc _) => false
  | (significand, .ofNat power) =>
    if 308 < power then true
    else
      Nat.pow 2 1024 - Nat.pow 2 970 ≤
        roundToDouble significand * roundToDouble (Nat.pow 10 power)

end JsonNumber

end Reactions
