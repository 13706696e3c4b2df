import Reactions.Bytes.Hex
import Reactions.Proofs.Bytes.Encoding
import Reactions.Proofs.Text.Utf8

/-!
# Hexadecimal text is read back

Two digits stand for a byte, and no digit is the letter of the mark in front, so that the mark can
be taken off without a digit going with it. Bytes of any number are read back from their written
form (`Hex.decode_encode`), and words of thirty-two bytes from theirs (`Hex.decode32_toHex`).
-/

namespace Reactions.Hex

/-- The bytes of the digits of some bytes. -/
def digitBytes (bytes : Bytes) : Bytes := (digits bytes).map asciiByte

/-- The digit of a value is read as that value. -/
theorem value?_digit : ∀ v < 16, value? (asciiByte (digit v)) = some v := by decide

/-- Digits have one byte each. -/
theorem toNat_digit_lt : ∀ v < 16, (digit v).toNat < 128 := by decide

/-- The halves of a byte are below sixteen. -/
theorem halves_lt (b : UInt8) : b.toNat / 16 < 16 ∧ b.toNat % 16 < 16 := by
  have := b.toNat_lt
  omega

/-- The digits of bytes have one byte each. -/
theorem ascii_digits (bytes : Bytes) : ∀ c ∈ digits bytes, c.toNat < 128 := by
  intro c hc
  obtain ⟨b, -, hc⟩ := List.mem_flatMap.1 hc
  obtain ⟨hhigh, hlow⟩ := halves_lt b
  rcases List.mem_cons.1 hc with rfl | hc
  · exact toNat_digit_lt _ hhigh
  · rw [List.mem_singleton.1 hc]
    exact toNat_digit_lt _ hlow

/-- The first byte is written before the others, its higher half first. -/
theorem digitBytes_cons (b : UInt8) (rest : Bytes) :
    digitBytes (b :: rest) =
      asciiByte (digit (b.toNat / 16)) :: asciiByte (digit (b.toNat % 16)) :: digitBytes rest :=
  rfl

/-- Two digits are written for a byte. -/
theorem length_digitBytes (bytes : Bytes) : (digitBytes bytes).length = 2 * bytes.length := by
  induction bytes with
  | nil => rfl
  | cons b rest ih =>
    rw [digitBytes_cons, List.length_cons, List.length_cons, ih, List.length_cons]
    omega

/-- A byte is put together from the values of its halves. -/
theorem ofNat_halves (b : UInt8) : UInt8.ofNat (16 * (b.toNat / 16) + b.toNat % 16) = b := by
  rw [Nat.div_add_mod, UInt8.ofNat_toNat]

/-- The digits of some bytes are read as these bytes. -/
theorem pairs_digitBytes (position : Nat) (bytes : Bytes) :
    pairs position (digitBytes bytes) = .ok bytes := by
  induction bytes generalizing position with
  | nil => rfl
  | cons b rest ih =>
    obtain ⟨hhigh, hlow⟩ := halves_lt b
    rw [digitBytes_cons, pairs, value?_digit _ hhigh, value?_digit _ hlow]
    simp only [ih]
    exact congrArg (fun b => Except.ok (b :: rest)) (ofNat_halves b)

/-- The letter of the mark is no digit, so nothing but the mark is taken off. -/
theorem stripMarks_digitBytes (bytes : Bytes) :
    stripMarks (digitBytes bytes) = digitBytes bytes := by
  cases bytes with
  | nil => rfl
  | cons b rest =>
    have hsecond : asciiByte (digit (b.toNat % 16)) ≠ 0x78 := by
      intro h
      have hvalue := value?_digit _ (halves_lt b).2
      have hnone : value? 0x78 = none := rfl
      rw [h, hnone] at hvalue
      cases hvalue
    rw [digitBytes_cons, stripMarks]
    intro more hmark
    exact hsecond (List.cons.inj (List.cons.inj hmark).2).1

/-- What is left of the written form of some bytes without the mark. -/
theorem stripMarks_encode (bytes : Bytes) :
    stripMarks (encode bytes).toUTF8.toList = digitBytes bytes := by
  have hascii : ∀ c ∈ '0' :: 'x' :: digits bytes, c.toNat < 128 := by
    simpa using ascii_digits bytes
  rw [encode, toList_toUTF8_ofList hascii]
  show stripMarks (0x30 :: 0x78 :: digitBytes bytes) = digitBytes bytes
  rw [stripMarks, stripMarks_digitBytes]

/-- What is written is read back. -/
theorem decode_encode (bytes : Bytes) : decode (encode bytes) = .ok bytes := by
  have heven : ¬ (digitBytes bytes).length % 2 ≠ 0 := by
    rw [length_digitBytes]
    omega
  rw [decode, stripMarks_encode, if_neg heven, pairs_digitBytes]

/-- A word that is written is read back. -/
theorem decode32_toHex (w : Bytes32) : decode32 w.toHex = .ok w := by
  have hlength : (digitBytes w.toList).length = 64 := by
    rw [length_digitBytes, Bytes32.length_toList]
  rw [decode32, Bytes32.toHex, stripMarks_encode, hlength, pairs_digitBytes]
  simp [bind, Except.bind, pure, Except.pure, Bytes32.ofList?_toList]

end Reactions.Hex
