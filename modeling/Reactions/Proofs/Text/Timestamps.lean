import Reactions.Proofs.Text.Digits
import Reactions.Text.Timestamp

/-!
# Times are read back

The written form of a time is the strictest spelling that the reader takes. Each field is read off
the front of the text as it was put there: the numbers of two digits (`readField_padded`), the year
with the sign that it has if it is not one of four digits (`readYear_writeYear`), and the fraction,
which is written in three different lengths and scaled back to nanoseconds
(`readFraction_writeFraction`). So any time at all is read back from what is written of it
(`read?_write`), leap seconds included.
-/

namespace Reactions

/-- No digit is a blank. -/
theorem isBlank_of_isDigit {c : Char} (h : Decimal.isDigit c) : isBlank c = false := by
  rw [Decimal.isDigit_eq, Char.isDigit, Bool.and_eq_true, decide_eq_true_eq, decide_eq_true_eq] at h
  have hlow : 48 ≤ c.toNat := h.1
  have hhigh : c.toNat ≤ 57 := h.2
  simp only [isBlank, blankRanges, List.any_cons, List.any_nil, Bool.or_false, Bool.or_eq_false_iff,
    Bool.and_eq_false_iff, decide_eq_false_iff_not]
  omega

/-- Where no blank stands, none is skipped. -/
theorem skipBlanks_cons {c : Char} (h : isBlank c = false) (rest : List Char) :
    skipBlanks (c :: rest) = c :: rest := by
  rw [skipBlanks, List.dropWhile_cons_of_neg (by simp [h])]

namespace Timestamp

open Decimal

variable {run rest : List Char} {width n : Nat}

/-- None is skipped before digits. -/
theorem skipBlanks_run (hrun : IsRun run) (hne : run ≠ []) (rest : List Char) :
    skipBlanks (run ++ rest) = run ++ rest := by
  cases run with
  | nil => exact absurd rfl hne
  | cons c run => exact skipBlanks_cons (isBlank_of_isDigit (hrun c (by simp))) _

/-! ## Numbers -/

/-- A run of digits is read as far as the width goes, or as far as the run does. -/
theorem readNumber_run (hrun : IsRun run) (hne : run ≠ []) (hlength : run.length ≤ width)
    (hend : run.length = width ∨ NoDigitAhead rest) :
    readNumber width (run ++ rest) = some (ofDigits run, rest) := by
  have hrest : NoDigitAhead (rest.take (width - run.length)) := by
    intro c hc
    rcases hend with hfull | hend
    · simp [hfull] at hc
    · cases rest with
      | nil => simp at hc
      | cons d rest =>
        refine hend c ?_
        cases hmore : width - run.length with
        | zero => simp [hmore] at hc
        | succ more => simpa [hmore] using hc
  have htake : (run ++ rest).take width = run ++ rest.take (width - run.length) := by
    rw [List.take_append, List.take_of_length_le hlength]
  rw [readNumber, htake, takeWhile_run hrun hrest, if_neg (by simpa using hne),
    List.drop_left]

/-- A number of two digits is read back. -/
theorem readField_padded (h : n < 100) (rest : List Char) :
    readField (padded 2 n ++ rest) = some (n, rest) := by
  have hlength : (padded 2 n).length = 2 := length_padded h (by decide)
  rw [readField, skipBlanks_run (isRun_padded 2 n) (padded_ne_nil 2 n),
    readNumber_run (isRun_padded 2 n) (padded_ne_nil 2 n) (Nat.le_of_eq hlength) (.inl hlength),
    ofDigits_padded]

/-- A mark is read where it stands. -/
theorem readMark_cons {mark : Char} (h : isBlank mark = false) (rest : List Char) :
    readMark mark (mark :: rest) = some rest := by
  rw [readMark, skipBlanks_cons h]
  simp

/-- A year without a sign is a number of up to four digits. -/
theorem readYear_run (hrun : IsRun run) (hne : run ≠ []) (rest : List Char) :
    readYear (run ++ rest) =
      (readNumber 4 (run ++ rest)).map fun (n, rest) => ((n : Int), rest) := by
  cases run with
  | nil => exact absurd rfl hne
  | cons c run =>
    have hdigit : isDigit c := hrun c (by simp)
    rw [readYear, skipBlanks_run hrun hne]
    split
    · next h =>
      obtain rfl : c = '-' := (List.cons.inj h).1
      exact absurd hdigit (by decide)
    · next h =>
      obtain rfl : c = '+' := (List.cons.inj h).1
      exact absurd hdigit (by decide)
    · rfl

/-- A year of four digits is read as such; any other has a sign, behind which its digits go on for
as long as they are digits. -/
theorem readYear_writeYear (year : Int) (rest : List Char) :
    readYear (writeYear year ++ '-' :: rest) = some (year, '-' :: rest) := by
  have hend : NoDigitAhead ('-' :: rest) := noDigitAhead_cons (by decide) rest
  have hsigned (n : Nat) : readNumber (padded 4 n ++ '-' :: rest).length
      (padded 4 n ++ '-' :: rest) = some (n, '-' :: rest) := by
    rw [readNumber_run (isRun_padded 4 n) (padded_ne_nil 4 n) (by simp) (.inr hend),
      ofDigits_padded]
  rw [writeYear]
  split
  · have hlength : (padded 4 year.toNat).length = 4 := length_padded (by omega) (by decide)
    have hyear : (year.toNat : Int) = year := by omega
    rw [readYear_run (isRun_padded 4 _) (padded_ne_nil 4 _), readNumber_run (isRun_padded 4 _)
      (padded_ne_nil 4 _) (Nat.le_of_eq hlength) (.inl hlength), ofDigits_padded]
    simp only [Option.map_some, hyear]
  · split
    · have hyear : -(year.natAbs : Int) = year := by omega
      rw [List.cons_append, readYear, skipBlanks_cons (by decide)]
      simp only [hsigned, Option.map_some, hyear]
    · have hyear : (year.natAbs : Int) = year := by omega
      rw [List.cons_append, readYear, skipBlanks_cons (by decide)]
      simp only [hsigned, Option.map_some, hyear]

/-! ## Fractions -/

/-- A fraction of up to nine digits counts units of the last of them. -/
theorem readFraction_padded (h : n < 10 ^ width) (hwidth : 0 < width) (hnine : width ≤ 9)
    (hend : NoDigitAhead rest) :
    readFraction ('.' :: padded width n ++ rest) = some (n * 10 ^ (9 - width), rest) := by
  have hlength : (padded width n).length = width := length_padded h hwidth
  have hkept : (padded width n).take 9 = padded width n := List.take_of_length_le (by omega)
  rw [List.cons_append, readFraction, takeWhile_run (isRun_padded width n) hend,
    if_neg (by simpa using padded_ne_nil width n)]
  simp only [hkept, ofDigits_padded, hlength, List.drop_left' hlength, Nat.pow_eq]

/-- However many of its digits are written, the fraction is the number of nanoseconds again. -/
theorem readFraction_writeFraction {nano : Nat} (h : nano < 10 ^ 9) (rest : List Char) :
    readFraction (writeFraction nano ++ 'Z' :: rest) = some (nano, 'Z' :: rest) := by
  have hend : NoDigitAhead ('Z' :: rest) := noDigitAhead_cons (by decide) rest
  rw [writeFraction]
  split
  · next hzero => rw [hzero]; rfl
  split
  · next hmillis =>
    rw [Nat.pow_eq] at hmillis ⊢
    rw [readFraction_padded (by omega) (by decide) (by decide) hend]
    congr 2
    omega
  split
  · next hmicros =>
    rw [Nat.pow_eq] at hmicros ⊢
    rw [readFraction_padded (by omega) (by decide) (by decide) hend]
    congr 2
    omega
  · rw [readFraction_padded h (by decide) (by decide) hend, Nat.sub_self, Nat.pow_zero, Nat.mul_one]

/-! ## Times -/

/-- To take off no offset changes nothing. -/
theorem minusMinutes_zero {m : Moment} (h : m.Valid) : m.minusMinutes 0 = m := by
  obtain ⟨-, hhour, hminute, -, -⟩ := h
  have hwall : 60 * (m.hour : Int) + m.minute - 0 = ((60 * m.hour + m.minute : Nat) : Int) := by
    omega
  have hquotient : (60 * m.hour + m.minute) / 60 = m.hour := by omega
  have hrest : (60 * m.hour + m.minute) % 60 = m.minute := by omega
  rw [Moment.minusMinutes, hwall, if_neg (by omega), if_pos (by omega)]
  simp only [Int.toNat_natCast, hquotient, hrest]

/-- No month has more than thirty-one days. -/
theorem daysInMonth_le (year : Int) (month : Nat) : daysInMonth year month ≤ 31 := by
  rw [daysInMonth]
  split
  · split <;> omega
  · split <;> omega

/-- The fields of a written time, one behind the other. -/
theorem toList_write (t : Timestamp) :
    t.write.toList = writeYear t.moment.date.year ++ '-' :: (padded 2 t.moment.date.month ++
      '-' :: (padded 2 t.moment.date.day ++ 'T' :: (padded 2 t.moment.hour ++
        ':' :: (padded 2 t.moment.minute ++ ':' :: (padded 2 t.moment.second ++
          (writeFraction t.moment.nano ++ ['Z'])))))) := by
  rw [write, String.toList_ofList]
  simp only [List.append_assoc, List.cons_append]

/-- Every time is read back from its written form. -/
theorem read?_write (t : Timestamp) : read? t.write = some t := by
  obtain ⟨⟨-, -, -, hmonth, -, hday⟩, hhour, hminute, hsecond, hnano⟩ := t.valid
  have hdays := daysInMonth_le t.moment.date.year t.moment.date.month
  have hdash (rest : List Char) : readMark '-' ('-' :: rest) = some rest :=
    readMark_cons (by decide) rest
  have hcolon (rest : List Char) : readMark ':' (':' :: rest) = some rest :=
    readMark_cons (by decide) rest
  have hzone : readOffset (skipBlanks ['Z']) = some (0, []) := rfl
  rw [read?, toList_write]
  refine bind_of_eq_some (readYear_writeYear _ _) ?_
  refine bind_of_eq_some (hdash _) ?_
  refine bind_of_eq_some (readField_padded (by omega) _) ?_
  refine bind_of_eq_some (hdash _) ?_
  refine bind_of_eq_some (readField_padded (by omega) _) ?_
  refine bind_of_eq_some rfl ?_
  refine bind_of_eq_some (readField_padded (by omega) _) ?_
  refine bind_of_eq_some (hcolon _) ?_
  refine bind_of_eq_some (readField_padded (by omega) _) ?_
  refine bind_of_eq_some (hcolon _) ?_
  refine bind_of_eq_some (readField_padded (by omega) _) ?_
  refine bind_of_eq_some (readFraction_writeFraction hnano _) ?_
  refine bind_of_eq_some hzone ?_
  refine bind_of_eq_some (if_pos (by decide)) ?_
  refine bind_of_eq_some (if_pos t.valid) ?_
  rw [minusMinutes_zero t.valid]
  exact dif_pos t.valid

end Timestamp

end Reactions
