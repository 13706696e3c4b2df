import Reactions.Bytes.Bytes32

/-!
# Hexadecimal text

Bytes are written as `0x` and two lower-case digits each. Reading takes digits of either case
and any number of leading `0x` marks, and names the first fault it meets: an odd number of
digits, then a length other than the one asked for, then the first byte that is no digit.
-/

namespace Reactions

/-- Why a text is not the hexadecimal form of the bytes asked for. -/
inductive HexError
  /-- The digits do not pair up. -/
  | oddLength
  /-- The digits pair up to another number of bytes than the fixed width. -/
  | wrongLength
  /-- A byte of the text that is no digit, with its offset after the leading marks. -/
  | invalidByte (byte : UInt8) (position : Nat)
deriving DecidableEq, Repr

namespace Hex

/-- The lower-case digit of a value below sixteen. -/
def digit (v : Nat) : Char :=
  Char.ofNat (if v < 10 then 48 + v else 87 + v)

/-- The value of a digit of either case, given as a byte of text. -/
def value? (b : UInt8) : Option Nat :=
  let c := b.toNat
  if 48 ≤ c ∧ c ≤ 57 then some (c - 48)
  else if 97 ≤ c ∧ c ≤ 102 then some (c - 87)
  else if 65 ≤ c ∧ c ≤ 70 then some (c - 55)
  else none

/-- Two lower-case digits for every byte. -/
def digits (bytes : Bytes) : List Char :=
  bytes.flatMap fun b => [digit (b.toNat / 16), digit (b.toNat % 16)]

/-- The digits of the bytes, without a mark. -/
def encodeBare (bytes : Bytes) : String := String.ofList (digits bytes)

/-- The written form: one `0x` and the digits. -/
def encode (bytes : Bytes) : String := String.ofList ('0' :: 'x' :: digits bytes)

/-- Drops every leading `0x`. -/
def stripMarks : Bytes → Bytes
  | 0x30 :: 0x78 :: rest => stripMarks rest
  | text => text

/-- Reads digits two by two; `position` is the offset of the next one. -/
def pairs (position : Nat) : Bytes → Except HexError Bytes
  | hi :: lo :: rest => do
    let some h := value? hi | throw (.invalidByte hi position)
    let some l := value? lo | throw (.invalidByte lo (position + 1))
    let tail ← pairs (position + 2) rest
    return UInt8.ofNat (16 * h + l) :: tail
  | _ => return []

/-- Reads bytes of any number. -/
def decode (text : String) : Except HexError Bytes :=
  let digits := stripMarks text.toUTF8.toList
  if digits.length % 2 ≠ 0 then throw .oddLength else pairs 0 digits

/-- Reads exactly thirty-two bytes. -/
def decode32 (text : String) : Except HexError Bytes32 := do
  let digits := stripMarks text.toUTF8.toList
  if digits.length % 2 ≠ 0 then throw .oddLength
  if digits.length ≠ 64 then throw .wrongLength
  let some word := Bytes32.ofList? (← pairs 0 digits) | throw .wrongLength
  return word

end Hex

/-- `0x` and sixty-four digits. -/
def Bytes32.toHex (w : Bytes32) : String := Hex.encode w.toList

/-- A byte as a quoted character of the first 256 code points. Controls, spaces other than the
plain one and the soft hyphen are written by number. -/
def quotedByte (b : UInt8) : String :=
  let c := b.toNat
  let body :=
    if c = 0 then "\\0"
    else if c = 9 then "\\t"
    else if c = 10 then "\\n"
    else if c = 13 then "\\r"
    else if c = 39 then "\\'"
    else if c = 92 then "\\\\"
    else if c < 32 ∨ (127 ≤ c ∧ c ≤ 160) ∨ c = 173 then
      let high := if c < 16 then "" else (Hex.digit (c / 16)).toString
      "\\u\x7b" ++ high ++ (Hex.digit (c % 16)).toString ++ "\x7d"
    else (Char.ofNat c).toString
  "'" ++ body ++ "'"

/-- The wording of a fault in hexadecimal text. -/
def HexError.message : HexError → String
  | .oddLength => "Odd number of digits"
  | .wrongLength => "Invalid string length"
  | .invalidByte byte position =>
    "Invalid character " ++ quotedByte byte ++ " at position " ++ toString position

end Reactions
