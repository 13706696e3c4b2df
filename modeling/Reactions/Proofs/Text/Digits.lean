import Mathlib.Algebra.Group.Nat.Defs
import Mathlib.Data.List.Basic
import Reactions.Proofs.Basic
import Reactions.Text.Decimal

/-!
# Runs of decimal digits

What is written of a number, plain (`Decimal.digits`) or padded (`Decimal.padded`), is a run of
digits that denotes it. A run ends where no digit follows, so a text that starts with one is split
right behind it (`Decimal.takeWhile_run`, `Decimal.dropWhile_run`).
-/

namespace Reactions

namespace Decimal

/-- Every character of a text is a digit. -/
def IsRun (cs : List Char) : Prop := ∀ c ∈ cs, isDigit c

/-- No digit stands at the beginning of a text. -/
def NoDigitAhead (cs : List Char) : Prop := ∀ c ∈ cs.head?, ¬ isDigit c

/-- The digits are the decimal ones. -/
theorem isDigit_eq (c : Char) : isDigit c = c.isDigit := by
  have hlow : '0' ≤ c ↔ c.val ≥ 48 := Iff.rfl
  have hhigh : c ≤ '9' ↔ c.val ≤ 57 := Iff.rfl
  simp only [isDigit, value?, hlow, hhigh, Char.isDigit]
  split <;> simp_all

/-- The value of a digit is its distance from zero. -/
theorem value?_of_isDigit {c : Char} (h : isDigit c) : (value? c).getD 0 = c.toNat - '0'.toNat := by
  rw [isDigit, value?] at h
  rw [value?]
  split
  · rfl
  · simp_all

/-- Digits denote the number that they denote in the library. -/
theorem ofDigits_run {cs : List Char} (h : IsRun cs) : ofDigits cs = Nat.ofDigitChars 10 cs 0 := by
  rw [ofDigits, Nat.ofDigitChars_eq_foldl]
  refine List.foldl_ext _ _ _ fun acc c hc => ?_
  rw [value?_of_isDigit (h c hc)]

variable {n width : Nat} {run rest : List Char}

/-! ## Numbers -/

/-- The numeral of a number consists of digits. -/
theorem isRun_digits (n : Nat) : IsRun (digits n) := by
  intro c hc
  rw [isDigit_eq]
  exact Nat.isDigit_of_mem_toDigits (by decide) (by decide) hc

/-- There is no number without digits. -/
theorem digits_ne_nil (n : Nat) : digits n ≠ [] := Nat.toDigits_ne_nil

/-- What is written of a number begins with a digit. -/
theorem exists_digits_eq_cons (n : Nat) : ∃ c run, digits n = c :: run ∧ isDigit c := by
  obtain ⟨c, run, hdigits⟩ := List.exists_cons_of_ne_nil (digits_ne_nil n)
  exact ⟨c, run, hdigits, isRun_digits n c (by simp [hdigits])⟩

/-- The numeral of a number denotes it. -/
theorem ofDigits_digits (n : Nat) : ofDigits (digits n) = n := by
  rw [ofDigits_run (isRun_digits n), digits, Nat.ofDigitChars_ten_toDigits]

/-- Only zero itself is written with a zero in front. -/
theorem head?_digits (h : 0 < n) : (digits n).head? ≠ some '0' := by
  induction n using Nat.strongRecOn with
  | ind n ih =>
    rw [digits, Nat.toDigits_eq_if (by decide)]
    split
    · next hsmall =>
      have hdigit : ∀ m, m < 10 → 0 < m → m.digitChar ≠ '0' := by decide
      simpa using hdigit n hsmall h
    · next hlarge =>
      rw [List.head?_append_of_ne_nil _ Nat.toDigits_ne_nil]
      exact ih (n / 10) (by omega) (by omega)

/-! ## Padding -/

/-- A padded numeral consists of digits. -/
theorem isRun_padded (width n : Nat) : IsRun (padded width n) := by
  intro c hc
  rcases List.mem_append.1 hc with hzero | hdigit
  · rw [List.eq_of_mem_replicate hzero]
    rfl
  · exact isRun_digits n c hdigit

/-- A padded numeral has digits. -/
theorem padded_ne_nil (width n : Nat) : padded width n ≠ [] := by
  simp [padded, digits_ne_nil]

/-- Leading zeros do not change what a numeral denotes. -/
theorem ofDigits_padded (width n : Nat) : ofDigits (padded width n) = n := by
  rw [ofDigits_run (isRun_padded width n), padded, Nat.ofDigitChars_append,
    Nat.ofDigitChars_replicate_zero, Nat.mul_zero, digits, Nat.ofDigitChars_ten_toDigits]

/-- A number that fits is padded to just the width. -/
theorem length_padded (h : n < 10 ^ width) (hwidth : 0 < width) :
    (padded width n).length = width := by
  have hdigits : (digits n).length ≤ width :=
    (Nat.length_toDigits_le_iff (by decide) hwidth).2 h
  rw [padded, List.length_append, List.length_replicate]
  omega

/-! ## Where a run ends -/

/-- There is no digit ahead where another character stands. -/
theorem noDigitAhead_cons {c : Char} (h : ¬ isDigit c) (rest : List Char) :
    NoDigitAhead (c :: rest) := by
  intro d hd
  obtain rfl : c = d := by simpa using hd
  exact h

/-- The digits in front are taken, up to what is no digit. -/
theorem takeWhile_run (hrun : IsRun run) (hrest : NoDigitAhead rest) :
    (run ++ rest).takeWhile isDigit = run := by
  rw [List.takeWhile_append_of_pos hrun]
  cases rest with
  | nil => simp
  | cons c rest => simp [hrest c rfl]

/-- What is left begins with what is no digit. -/
theorem dropWhile_run (hrun : IsRun run) (hrest : NoDigitAhead rest) :
    (run ++ rest).dropWhile isDigit = rest := by
  rw [List.dropWhile_append_of_pos hrun]
  cases rest with
  | nil => rfl
  | cons c rest => simp [hrest c rfl]

end Decimal

end Reactions
