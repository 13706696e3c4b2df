import Mathlib.Data.List.Basic
import Reactions.Proofs.Json.ReadBack
import Reactions.Rows.Identifier

/-!
# The grammar of hexadecimal text

A text is read as bytes if it is made of marks and, behind them, of digits in pairs, and it is read
as the bytes that these spell (`Spells`, `Marked`). Any other text is refused, and the fault is that
of what is left behind all marks: its length, or else its first byte that is no digit (`Refusal`).
Both readers, of any number of bytes and of thirty-two, are one reader at two widths (`readText`),
and `readsBlobs_readText` says this once for every width.

No digit is the letter of the mark, so that digits never begin with one. Hence what is written is
read back, and it is the only text of one mark and lower-case digits that is read as these bytes
(`spells_iff_of_lower`).
-/

namespace Reactions

namespace Hex

/-! ## Digits -/

/-- The digits in order, lower case. -/
def lowerDigits : List Char :=
  ['0', '1', '2', '3', '4', '5', '6', '7', '8', '9', 'a', 'b', 'c', 'd', 'e', 'f']

/-- The digits in order, upper case. -/
def upperDigits : List Char :=
  ['0', '1', '2', '3', '4', '5', '6', '7', '8', '9', 'A', 'B', 'C', 'D', 'E', 'F']

/-- The upper-case digit of a value below sixteen. -/
def upperDigit (v : Nat) : Char := Char.ofNat (if v < 10 then 48 + v else 55 + v)

/-- A digit of either case stands for its place in the order. -/
def Denotes (c : Char) (v : Nat) : Prop := lowerDigits[v]? = some c ∨ upperDigits[v]? = some c

/-- A digit of either case. -/
def IsDigit (c : Char) : Prop := c ∈ lowerDigits ∨ c ∈ upperDigits

instance : DecidablePred IsDigit := fun _ => inferInstanceAs (Decidable (_ ∨ _))

/-- A digit is a character that denotes a value. -/
theorem isDigit_iff {c : Char} : IsDigit c ↔ ∃ v, Denotes c v := by
  rw [IsDigit, List.mem_iff_getElem?, List.mem_iff_getElem?, ← exists_or]
  rfl

/-- The lower-case digits are the ones that are written. -/
theorem getElem?_lowerDigits : ∀ v < 16, lowerDigits[v]? = some (digit v) := by decide

/-- Each value below sixteen has its digit among the upper case ones. -/
theorem getElem?_upperDigits : ∀ v < 16, upperDigits[v]? = some (upperDigit v) := by decide

/-- A value has two spellings, one in either case, which for the numerals are the same. -/
theorem denotes_iff {c : Char} {v : Nat} :
    Denotes c v ↔ v < 16 ∧ (c = digit v ∨ c = upperDigit v) := by
  constructor
  · intro h
    have hv : v < 16 := by rcases h with h | h <;> exact (List.getElem?_eq_some_iff.1 h).1
    rw [Denotes, getElem?_lowerDigits v hv, getElem?_upperDigits v hv] at h
    exact ⟨hv, h.imp (fun h => (Option.some.inj h).symm) fun h => (Option.some.inj h).symm⟩
  · rintro ⟨hv, rfl | rfl⟩
    · exact .inl (getElem?_lowerDigits v hv)
    · exact .inr (getElem?_upperDigits v hv)

theorem Denotes.lt {c : Char} {v : Nat} (h : Denotes c v) : v < 16 := (denotes_iff.1 h).1

/-- Upper case digits have one byte each. -/
theorem toNat_upperDigit_lt : ∀ v < 16, (upperDigit v).toNat < 128 := by decide

/-- A digit of either case has one byte. -/
theorem IsDigit.toNat_lt {c : Char} (h : IsDigit c) : c.toNat < 128 := by
  obtain ⟨v, hc⟩ := isDigit_iff.1 h
  obtain ⟨hv, rfl | rfl⟩ := denotes_iff.1 hc
  · exact toNat_digit_lt v hv
  · exact toNat_upperDigit_lt v hv

/-- The reader takes digits of upper case for what they denote. -/
theorem value?_upperDigit : ∀ v < 16, value? (asciiByte (upperDigit v)) = some v := by decide

/-- A byte that is read as a digit lies in one of three ranges. -/
theorem denotes_of_value? {b : UInt8} {v : Nat} (h : value? b = some v) : Denotes (charOf b) v := by
  unfold value? at h
  dsimp only at h
  split at h
  · next hrange =>
    obtain rfl := Option.some.inj h
    refine denotes_iff.2 ⟨by omega, .inl ?_⟩
    rw [digit, if_pos (by omega), Nat.add_sub_of_le hrange.1]
    rfl
  · split at h
    · next hrange =>
      obtain rfl := Option.some.inj h
      refine denotes_iff.2 ⟨by omega, .inl ?_⟩
      rw [digit, if_neg (by omega), Nat.add_sub_of_le (Nat.le_trans (by decide) hrange.1)]
      rfl
    · split at h
      · next hrange =>
        obtain rfl := Option.some.inj h
        refine denotes_iff.2 ⟨by omega, .inr ?_⟩
        rw [upperDigit, if_neg (by omega), Nat.add_sub_of_le (Nat.le_trans (by decide) hrange.1)]
        rfl
      · cases h

/-- The bytes that are read as digits are those of the digits of either case. -/
theorem value?_eq_some_iff {b : UInt8} {v : Nat} : value? b = some v ↔ Denotes (charOf b) v := by
  refine ⟨denotes_of_value?, fun h => ?_⟩
  obtain ⟨hv, hb⟩ := denotes_iff.1 h
  rw [← asciiByte_charOf b]
  rcases hb with hb | hb
  · rw [hb, value?_digit v hv]
  · rw [hb, value?_upperDigit v hv]

/-- The reader finds a value in a byte exactly if the byte is that of a digit. -/
theorem value?_isSome_iff {b : UInt8} : (value? b).isSome ↔ IsDigit (charOf b) := by
  rw [isDigit_iff, Option.isSome_iff_exists]
  exact exists_congr fun _ => value?_eq_some_iff

/-! ## Digits in pairs -/

/-- A byte from the values of its halves. -/
theorem halves_ofNat {h l : Nat} (hh : h < 16) (hl : l < 16) :
    (UInt8.ofNat (16 * h + l)).toNat / 16 = h ∧ (UInt8.ofNat (16 * h + l)).toNat % 16 = l := by
  rw [UInt8.toNat_ofNat']
  omega

/-- Digits that stand for bytes, two for each, the higher half first. -/
inductive Spells : List Char → Bytes → Prop
  | nil : Spells [] []
  | cons {hi lo : Char} {digits : List Char} {b : UInt8} {bytes : Bytes} :
      Denotes hi (b.toNat / 16) → Denotes lo (b.toNat % 16) → Spells digits bytes →
      Spells (hi :: lo :: digits) (b :: bytes)

namespace Spells

variable {digits : List Char} {bytes : Bytes}

/-- Two digits stand for the byte of their values. -/
theorem cons_ofNat {hi lo : Char} {h l : Nat} (hhi : Denotes hi h) (hlo : Denotes lo l)
    (hrest : Spells digits bytes) :
    Spells (hi :: lo :: digits) (UInt8.ofNat (16 * h + l) :: bytes) := by
  obtain ⟨hhigh, hlow⟩ := halves_ofNat hhi.lt hlo.lt
  refine .cons ?_ ?_ hrest
  · rw [hhigh]
    exact hhi
  · rw [hlow]
    exact hlo

/-- There are two digits to a byte. -/
theorem length_eq (h : Spells digits bytes) : digits.length = 2 * bytes.length := by
  induction h with
  | nil => rfl
  | cons _ _ _ ih =>
    rw [List.length_cons, List.length_cons, ih, List.length_cons]
    omega

/-- What spells bytes consists of digits. -/
theorem isDigit (h : Spells digits bytes) : ∀ c ∈ digits, IsDigit c := by
  induction h with
  | nil => exact fun _ hc => nomatch hc
  | cons hhi hlo _ ih =>
    rintro c (_ | ⟨_, _ | ⟨_, hc⟩⟩)
    · exact isDigit_iff.2 ⟨_, hhi⟩
    · exact isDigit_iff.2 ⟨_, hlo⟩
    · exact ih c hc

/-- Any digits that pair up stand for bytes. -/
theorem exists_of_isDigit :
    ∀ {digits : List Char}, digits.length % 2 = 0 → (∀ c ∈ digits, IsDigit c) →
    ∃ bytes, Spells digits bytes
  | [], _, _ => ⟨[], .nil⟩
  | [_], heven, _ => absurd heven Nat.one_ne_zero
  | hi :: lo :: digits, heven, hdigits => by
    obtain ⟨h, hhi⟩ := isDigit_iff.1 (hdigits hi (by simp))
    obtain ⟨l, hlo⟩ := isDigit_iff.1 (hdigits lo (by simp))
    rw [List.length_cons, List.length_cons] at heven
    have heven : digits.length % 2 = 0 := by omega
    obtain ⟨bytes, hrest⟩ := exists_of_isDigit heven fun c hc => hdigits c (by simp [hc])
    exact ⟨_, cons_ofNat hhi hlo hrest⟩

end Spells

/-! ### What is read of pairs of bytes -/

section Pairs

variable {position : Nat} {hi lo : UInt8} {rest : Bytes}

/-- Two digits make one byte. -/
theorem pairs_of_digits {h l : Nat} (hhi : value? hi = some h) (hlo : value? lo = some l) :
    pairs position (hi :: lo :: rest) =
      (pairs (position + 2) rest).map (UInt8.ofNat (16 * h + l) :: ·) := by
  rw [pairs, hhi, hlo]
  rfl

/-- The second of two bytes is faulted where it stands. -/
theorem pairs_of_low {h : Nat} (hhi : value? hi = some h) (hlo : value? lo = none) :
    pairs position (hi :: lo :: rest) = .error (.invalidByte lo (position + 1)) := by
  rw [pairs, hhi, hlo]
  rfl

/-- The first of two bytes is faulted before the second is looked at. -/
theorem pairs_of_high (hhi : value? hi = none) :
    pairs position (hi :: lo :: rest) = .error (.invalidByte hi position) := by
  rw [pairs, hhi]
  rfl

end Pairs

/-- Bytes that pair up are read exactly if they are digits, for the bytes that these stand for. -/
theorem pairs_eq_ok_iff : ∀ {position : Nat} {bs bytes : Bytes}, bs.length % 2 = 0 →
    (pairs position bs = .ok bytes ↔ Spells (bs.map charOf) bytes)
  | position, [], bytes, _ => by
    constructor
    · rintro ⟨⟩
      exact .nil
    · rintro ⟨⟩
      rfl
  | _, [_], _, heven => absurd heven Nat.one_ne_zero
  | position, hi :: lo :: rest, bytes, heven => by
    rw [List.length_cons, List.length_cons] at heven
    have heven : rest.length % 2 = 0 := by omega
    have ih (tail : Bytes) : pairs (position + 2) rest = .ok tail ↔ Spells (rest.map charOf) tail :=
      pairs_eq_ok_iff heven
    constructor
    · intro hread
      cases hhi : value? hi with
      | none => rw [pairs_of_high hhi] at hread; cases hread
      | some h =>
        cases hlo : value? lo with
        | none => rw [pairs_of_low hhi hlo] at hread; cases hread
        | some l =>
          rw [pairs_of_digits hhi hlo] at hread
          cases htail : pairs (position + 2) rest with
          | error e => rw [htail] at hread; cases hread
          | ok tail =>
            rw [htail] at hread
            cases hread
            exact .cons_ofNat (value?_eq_some_iff.1 hhi) (value?_eq_some_iff.1 hlo)
              ((ih tail).1 htail)
    · intro hspells
      cases hspells with
      | cons hhi hlo hrest =>
        rw [pairs_of_digits (value?_eq_some_iff.2 hhi) (value?_eq_some_iff.2 hlo), (ih _).2 hrest,
          ofNat_halves]
        rfl

/-- The first byte that is no digit, and its place. -/
structure FirstFault (bs : Bytes) (i : Nat) (b : UInt8) : Prop where
  getElem?_eq : bs[i]? = some b
  not_isDigit : ¬ IsDigit (charOf b)
  isDigit_before : ∀ c ∈ bs.take i, IsDigit (charOf c)

/-- The first byte is the fault if it is no digit. -/
theorem firstFault_cons_of_not {x : UInt8} {bs : Bytes} (h : ¬ IsDigit (charOf x)) {i : Nat}
    {b : UInt8} :
    FirstFault (x :: bs) i b ↔ i = 0 ∧ b = x := by
  constructor
  · rintro ⟨hget, -, hbefore⟩
    cases i with
    | zero => exact ⟨rfl, (Option.some.inj hget).symm⟩
    | succ i => exact absurd (hbefore x List.mem_cons_self) h
  · rintro ⟨rfl, rfl⟩
    exact ⟨rfl, h, nofun⟩

/-- If it is a digit, then the fault is that of the others. -/
theorem firstFault_cons {x : UInt8} {bs : Bytes} (h : IsDigit (charOf x)) {i : Nat} {b : UInt8} :
    FirstFault (x :: bs) i b ↔ ∃ j, i = j + 1 ∧ FirstFault bs j b := by
  constructor
  · rintro ⟨hget, hfault, hbefore⟩
    cases i with
    | zero =>
      obtain rfl := Option.some.inj hget
      exact absurd h hfault
    | succ i => exact ⟨i, rfl, hget, hfault, fun c hc => hbefore c (List.mem_cons_of_mem x hc)⟩
  · rintro ⟨j, rfl, hget, hfault, hbefore⟩
    refine ⟨hget, hfault, fun c hc => ?_⟩
    rcases List.mem_cons.1 hc with rfl | hc
    · exact h
    · exact hbefore c hc

/-- Bytes that pair up are refused exactly for the first of them that is no digit. -/
theorem pairs_eq_error_iff : ∀ {position : Nat} {bs : Bytes} {e : HexError}, bs.length % 2 = 0 →
    (pairs position bs = .error e ↔ ∃ i b, FirstFault bs i b ∧ e = .invalidByte b (position + i))
  | position, [], e, _ => by
    refine iff_of_false nofun ?_
    rintro ⟨i, b, ⟨hget, -, -⟩, -⟩
    cases hget
  | _, [_], _, heven => absurd heven Nat.one_ne_zero
  | position, hi :: lo :: rest, e, heven => by
    rw [List.length_cons, List.length_cons] at heven
    have heven : rest.length % 2 = 0 := by omega
    have ih : pairs (position + 2) rest = .error e ↔
          ∃ i b, FirstFault rest i b ∧ e = .invalidByte b (position + 2 + i) :=
        pairs_eq_error_iff heven
    -- The first of the two that is no digit is the fault. If both are digits, it lies behind them.
    by_cases hhi : IsDigit (charOf hi)
    · obtain ⟨h, hh⟩ := Option.isSome_iff_exists.1 (value?_isSome_iff.2 hhi)
      by_cases hlo : IsDigit (charOf lo)
      · obtain ⟨l, hl⟩ := Option.isSome_iff_exists.1 (value?_isSome_iff.2 hlo)
        have hread : pairs position (hi :: lo :: rest) = .error e ↔
            pairs (position + 2) rest = .error e := by
          rw [pairs_of_digits hh hl]
          cases pairs (position + 2) rest <;> simp [Except.map]
        rw [hread, ih]
        constructor
        · rintro ⟨i, b, hfault, rfl⟩
          have hplace : position + 2 + i = position + (i + 1 + 1) := by omega
          exact ⟨i + 1 + 1, b,
            (firstFault_cons hhi).2 ⟨_, rfl, (firstFault_cons hlo).2 ⟨_, rfl, hfault⟩⟩,
            congrArg (HexError.invalidByte b) hplace⟩
        · rintro ⟨i, b, hfault, rfl⟩
          obtain ⟨j, rfl, hlater⟩ := (firstFault_cons hhi).1 hfault
          obtain ⟨k, rfl, hrest⟩ := (firstFault_cons hlo).1 hlater
          have hplace : position + (k + 1 + 1) = position + 2 + k := by omega
          exact ⟨k, b, hrest, congrArg (HexError.invalidByte b) hplace⟩
      · have hnone := Option.not_isSome_iff_eq_none.1 (mt value?_isSome_iff.1 hlo)
        rw [pairs_of_low hh hnone]
        constructor
        · rintro ⟨⟩
          have hfault : FirstFault (lo :: rest) 0 lo := (firstFault_cons_of_not hlo).2 ⟨rfl, rfl⟩
          exact ⟨1, lo, (firstFault_cons hhi).2 ⟨0, rfl, hfault⟩, rfl⟩
        · rintro ⟨i, b, hfault, rfl⟩
          obtain ⟨j, rfl, hlater⟩ := (firstFault_cons hhi).1 hfault
          obtain ⟨rfl, rfl⟩ := (firstFault_cons_of_not hlo).1 hlater
          rfl
    · have hnone := Option.not_isSome_iff_eq_none.1 (mt value?_isSome_iff.1 hhi)
      rw [pairs_of_high hnone]
      constructor
      · rintro ⟨⟩
        exact ⟨0, hi, (firstFault_cons_of_not hhi).2 ⟨rfl, rfl⟩, rfl⟩
      · rintro ⟨i, b, hfault, rfl⟩
        obtain ⟨rfl, rfl⟩ := (firstFault_cons_of_not hhi).1 hfault
        rfl

/-! ## Blobs of a width -/

/-- Reads digits that stand for as many bytes as the width says, or for any number. -/
def readDigits (width : Option Nat) (bs : Bytes) : Except HexError Bytes :=
  if bs.length % 2 ≠ 0 then .error .oddLength
  else if ∃ n ∈ width, bs.length ≠ 2 * n then .error .wrongLength
  else pairs 0 bs

/-- Why bytes are refused as digits. The faults of the length come first, of these an odd length. -/
inductive Refusal (width : Option Nat) (bs : Bytes) : HexError → Prop
  | oddLength : bs.length % 2 = 1 → Refusal width bs .oddLength
  | wrongLength {n : Nat} : bs.length % 2 = 0 → n ∈ width → bs.length ≠ 2 * n →
      Refusal width bs .wrongLength
  | invalidByte {i : Nat} {b : UInt8} : bs.length % 2 = 0 → (∀ n ∈ width, bs.length = 2 * n) →
      FirstFault bs i b → Refusal width bs (.invalidByte b i)

section Width

variable {width : Option Nat} {bs : Bytes}

/-- Digits are read exactly if they spell bytes, as many as are asked for. -/
theorem readDigits_eq_ok_iff {bytes : Bytes} : readDigits width bs = .ok bytes ↔
    Spells (bs.map charOf) bytes ∧ ∀ n ∈ width, bytes.length = n := by
  have hlength (h : Spells (bs.map charOf) bytes) : bs.length = 2 * bytes.length := by
    rw [← h.length_eq, List.length_map]
  unfold readDigits
  split
  · next hodd =>
    refine iff_of_false nofun ?_
    rintro ⟨h, -⟩
    have := hlength h
    omega
  · next heven =>
    split
    · next hwidth =>
      obtain ⟨n, hn, hne⟩ := hwidth
      refine iff_of_false nofun ?_
      rintro ⟨h, hfits⟩
      rw [hlength h, hfits n hn] at hne
      exact hne rfl
    · next hwidth =>
      rw [pairs_eq_ok_iff (not_not.1 heven)]
      refine (and_iff_left_of_imp fun h n hn => ?_).symm
      have hfits : bs.length = 2 * n := not_not.1 fun hne => hwidth ⟨n, hn, hne⟩
      rw [hlength h] at hfits
      omega

/-- They are refused for exactly one of the reasons that there are. -/
theorem readDigits_eq_error_iff {e : HexError} :
    readDigits width bs = .error e ↔ Refusal width bs e := by
  unfold readDigits
  split
  · next hodd =>
    have hodd : bs.length % 2 = 1 := by omega
    constructor
    · rintro ⟨⟩
      exact .oddLength hodd
    · rintro (_ | ⟨heven, _, _⟩ | ⟨heven, _, _⟩)
      · rfl
      all_goals omega
  · next heven =>
    have heven := not_not.1 heven
    split
    · next hwidth =>
      obtain ⟨n, hn, hne⟩ := hwidth
      constructor
      · rintro ⟨⟩
        exact .wrongLength heven hn hne
      · rintro (hodd | _ | ⟨_, hfits, _⟩)
        · omega
        · rfl
        · exact absurd (hfits n hn) hne
    · next hwidth =>
      have hfits : ∀ n ∈ width, bs.length = 2 * n :=
        fun n hn => not_not.1 fun hne => hwidth ⟨n, hn, hne⟩
      rw [pairs_eq_error_iff heven]
      constructor
      · rintro ⟨i, b, hfault, rfl⟩
        rw [Nat.zero_add]
        exact .invalidByte heven hfits hfault
      · rintro (hodd | ⟨_, hn, hne⟩ | ⟨_, _, hfault⟩)
        · omega
        · exact absurd (hfits _ hn) hne
        · exact ⟨_, _, hfault, by rw [Nat.zero_add]⟩

end Width

/-! ## Marks -/

/-- A text is the rest behind some marks. -/
def Marked (text rest : String) : Prop :=
  ∃ count, text = String.join (List.replicate count "0x") ++ rest

/-- A mark has two bytes of its own. -/
theorem toUTF8_mark (rest : String) :
    ("0x" ++ rest).toUTF8.toList = 0x30 :: 0x78 :: rest.toUTF8.toList := by
  rw [toUTF8_eq_flatMap, toUTF8_eq_flatMap, String.toList_append, List.flatMap_append]
  rfl

theorem join_replicate_zero (rest : String) :
    String.join (List.replicate 0 "0x") ++ rest = rest := by
  rw [List.replicate_zero, String.join_nil, String.empty_append]

/-- One mark more stands in front of the others. -/
theorem join_replicate_succ (count : Nat) (rest : String) :
    String.join (List.replicate (count + 1) "0x") ++ rest =
      "0x" ++ (String.join (List.replicate count "0x") ++ rest) := by
  rw [List.replicate_succ, String.join_cons, String.append_assoc]

/-- What is left of a text when all marks are taken off its front. -/
structure Stripped (text rest : String) : Prop where
  marked : Marked text rest
  not_prefix : ¬ ['0', 'x'] <+: rest.toList

/-- What begins with no mark is left as it is. -/
theorem stripMarks_of_not_prefix {rest : String} (h : ¬ ['0', 'x'] <+: rest.toList) :
    stripMarks rest.toUTF8.toList = rest.toUTF8.toList := by
  rw [stripMarks]
  -- The mark is sought among the bytes, and bytes like its own are its characters.
  intro more hmark
  rw [toUTF8_eq_flatMap] at hmark
  have hlow : ∀ b ∈ ([0x30, 0x78] : Bytes), b.toNat < 128 := by simp
  obtain ⟨cs, hcs, -⟩ := exists_of_lowBytes hlow hmark
  exact h ⟨cs, hcs.symm⟩

namespace Stripped

variable {text rest : String}

/-- The reader drops just the marks. -/
theorem stripMarks_eq (h : Stripped text rest) :
    stripMarks text.toUTF8.toList = rest.toUTF8.toList := by
  obtain ⟨⟨count, rfl⟩, hrest⟩ := h
  induction count with
  | zero =>
    rw [join_replicate_zero]
    exact stripMarks_of_not_prefix hrest
  | succ count ih => rw [join_replicate_succ, toUTF8_mark, stripMarks, ih]

/-- However the marks are taken off, the same is left. -/
theorem unique {rest' : String} (h : Stripped text rest) (h' : Stripped text rest') :
    rest' = rest := by
  have hbytes : rest'.toUTF8.toList = rest.toUTF8.toList :=
    h'.stripMarks_eq.symm.trans h.stripMarks_eq
  have hread := fromUTF8?_toUTF8 rest
  rw [← hbytes, fromUTF8?_toUTF8] at hread
  exact Option.some.inj hread

end Stripped

/-- The marks can be taken off one by one until none is in front. -/
theorem exists_stripped (text : String) : ∃ rest, Stripped text rest := by
  by_cases h : ['0', 'x'] <+: text.toList
  · obtain ⟨cs, hcs⟩ := h
    have htext : text = "0x" ++ String.ofList cs := by
      rw [← String.toList_inj, ← hcs, String.toList_append]
      exact congrArg (['0', 'x'] ++ ·) String.toList_ofList.symm
    have hlt : cs.length < text.length := by
      rw [← String.length_toList, ← hcs, List.length_append]
      exact Nat.lt_add_of_pos_left (by decide)
    obtain ⟨rest, ⟨count, hrest⟩, hunmarked⟩ := exists_stripped (String.ofList cs)
    exact ⟨rest, ⟨count + 1, by rw [join_replicate_succ, ← hrest, htext]⟩, hunmarked⟩
  · exact ⟨text, ⟨0, (join_replicate_zero text).symm⟩, h⟩
termination_by text.length

/-- What is left of a text without its marks is determined by the text. -/
theorem existsUnique_stripped (text : String) : ∃! rest, Stripped text rest := by
  obtain ⟨rest, h⟩ := exists_stripped text
  exact ⟨rest, h, fun _ h' => h.unique h'⟩

/-- Digits begin with no mark, whose letter is none of them. -/
theorem not_prefix_of_isDigit {cs : List Char} (h : ∀ c ∈ cs, IsDigit c) : ¬ ['0', 'x'] <+: cs := by
  rintro ⟨more, rfl⟩
  exact absurd (h 'x' (by simp)) (by decide)

/-! ## Reading texts -/

/-- What the bytes of a text spell, its characters do. -/
theorem spells_toUTF8_iff {s : String} {bytes : Bytes} :
    Spells (s.toUTF8.toList.map charOf) bytes ↔ Spells s.toList bytes := by
  constructor
  · intro h
    -- A byte of a longer character is no digit, so a text that spells something has one byte per
    -- character.
    have hlow : ∀ b ∈ s.toUTF8.toList, b.toNat < 128 := by
      intro b hb
      rw [← toNat_charOf]
      exact (h.isDigit _ (List.mem_map_of_mem hb)).toNat_lt
    rwa [map_charOf_of_lowBytes hlow] at h
  · intro h
    rwa [map_charOf_of_ascii fun c hc => (h.isDigit c hc).toNat_lt]

/-- Reads a text behind its marks. -/
def readText (width : Option Nat) (text : String) : Except HexError Bytes :=
  readDigits width (stripMarks text.toUTF8.toList)

/-- Text of any length is read without asking for a length. -/
theorem decode_eq : decode = readText none := by
  funext text
  have hwidth : ¬ ∃ n ∈ none, (stripMarks text.toUTF8.toList).length ≠ 2 * n := nofun
  rw [readText, readDigits, if_neg hwidth]
  rfl

/-- As many digits as a word has are read as a word, so the check of the length is the only one. -/
theorem decode32_eq (text : String) :
    (decode32 text).map Bytes32.toList = readText (some 32) text := by
  rw [readText, readDigits, decode32]
  generalize stripMarks text.toUTF8.toList = ds
  by_cases hodd : ds.length % 2 ≠ 0
  · simp only [if_pos hodd]
    rfl
  · by_cases hlength : ds.length ≠ 64
    · have hwidth : ∃ n ∈ some 32, ds.length ≠ 2 * n := ⟨32, rfl, hlength⟩
      simp only [if_neg hodd, if_pos hlength, if_pos hwidth]
      rfl
    · have hwidth : ¬ ∃ n ∈ some 32, ds.length ≠ 2 * n := by
        rintro ⟨_, ⟨⟩, hne⟩
        exact hlength hne
      simp only [if_neg hodd, if_neg hlength, if_neg hwidth]
      cases hread : pairs 0 ds with
      | error e => rfl
      | ok bytes =>
        have hbytes : bytes.length = 32 := by
          have hspells := ((pairs_eq_ok_iff (not_not.1 hodd)).1 hread).length_eq
          rw [List.length_map] at hspells
          omega
        obtain ⟨w, hw⟩ : ∃ w, Bytes32.ofList? bytes = some w := ⟨_, dif_pos hbytes⟩
        simp only [bind, Except.bind, hw]
        exact congrArg Except.ok (Bytes32.toList_of_ofList? hw)

section ReadText

variable {width : Option Nat} {text : String}

/-- A text is refused for what stands behind its marks. -/
theorem readText_eq_error_iff {rest : String} (h : Stripped text rest) {e : HexError} :
    readText width text = .error e ↔ Refusal width rest.toUTF8.toList e := by
  rw [readText, h.stripMarks_eq, readDigits_eq_error_iff]

/-- A text is read for what stands behind its marks. -/
theorem readText_eq_ok_iff_of_stripped {rest : String} (h : Stripped text rest) {bytes : Bytes} :
    readText width text = .ok bytes ↔ Spells rest.toList bytes ∧ ∀ n ∈ width, bytes.length = n := by
  rw [readText, h.stripMarks_eq, readDigits_eq_ok_iff, spells_toUTF8_iff]

/-- A text is read exactly if it is marks followed by digits that spell the bytes. -/
theorem readText_eq_ok_iff {bytes : Bytes} : readText width text = .ok bytes ↔
    ∃ rest, Marked text rest ∧ Spells rest.toList bytes ∧ ∀ n ∈ width, bytes.length = n := by
  constructor
  · intro hread
    obtain ⟨rest, hrest⟩ := exists_stripped text
    exact ⟨rest, hrest.marked, (readText_eq_ok_iff_of_stripped hrest).1 hread⟩
  · rintro ⟨rest, hmarked, hspells, hfits⟩
    have hrest : Stripped text rest := ⟨hmarked, not_prefix_of_isDigit hspells.isDigit⟩
    exact (readText_eq_ok_iff_of_stripped hrest).2 ⟨hspells, hfits⟩

end ReadText

/-- How texts are read as bytes, as many as the width says or any number. -/
structure ReadsBlobs (width : Option Nat) (read : String → Except HexError Bytes) : Prop where
  /-- A text of marks and digits is read as what the digits spell. -/
  eq_ok_iff (text : String) (bytes : Bytes) : read text = .ok bytes ↔
    ∃ rest, Marked text rest ∧ Spells rest.toList bytes ∧ ∀ n ∈ width, bytes.length = n
  /-- Any digits will do that pair up and are as many as the width asks for. -/
  exists_eq_ok_iff (text : String) : (∃ bytes, read text = .ok bytes) ↔
    ∃ rest, Marked text rest ∧ (∀ c ∈ rest.toList, IsDigit c) ∧ rest.length % 2 = 0 ∧
      ∀ n ∈ width, rest.length = 2 * n
  /-- Any other text is refused for the first fault of what is left behind all marks. -/
  eq_error_iff {text rest : String} (h : Stripped text rest) (e : HexError) :
    read text = .error e ↔ Refusal width rest.toUTF8.toList e

/-- The readers of text keep to the grammar of hexadecimal text, whatever length they ask for. -/
theorem readsBlobs_readText (width : Option Nat) : ReadsBlobs width (readText width) where
  eq_ok_iff _ _ := readText_eq_ok_iff
  exists_eq_ok_iff text := by
    simp only [readText_eq_ok_iff]
    constructor
    · rintro ⟨bytes, rest, hmarked, hspells, hfits⟩
      have hlength : rest.length = 2 * bytes.length := hspells.length_eq
      refine ⟨rest, hmarked, hspells.isDigit, by omega, fun n hn => ?_⟩
      rw [hlength, hfits n hn]
    · rintro ⟨rest, hmarked, hdigits, heven, hfits⟩
      obtain ⟨bytes, hspells⟩ := Spells.exists_of_isDigit heven hdigits
      have hlength : rest.length = 2 * bytes.length := hspells.length_eq
      refine ⟨bytes, rest, hmarked, hspells, fun n hn => ?_⟩
      have := hfits n hn
      omega
  eq_error_iff h _ := readText_eq_error_iff h

/-! ## Writing -/

/-- The digits below ten have one case only. -/
theorem upperDigit_eq_digit :
    ∀ v < 16, upperDigit v ∈ lowerDigits → upperDigit v = digit v := by
  decide

/-- A lower-case digit stands for a value only as the digit that is written for it. -/
theorem eq_digit_of_denotes {c : Char} {v : Nat} (hc : c ∈ lowerDigits) (h : Denotes c v) :
    c = digit v := by
  obtain ⟨hv, rfl | rfl⟩ := denotes_iff.1 h
  · rfl
  · exact upperDigit_eq_digit v hv hc

/-- Lower-case digits spell bytes exactly if they are the ones that are written for them. -/
theorem spells_iff_of_lower {cs : List Char} {bytes : Bytes} :
    (∀ c ∈ cs, c ∈ lowerDigits) ∧ Spells cs bytes ↔ cs = digits bytes := by
  constructor
  · rintro ⟨hlower, hspells⟩
    induction hspells with
    | nil => rfl
    | cons hhi hlo _ ih =>
      rw [eq_digit_of_denotes (hlower _ (by simp)) hhi,
        eq_digit_of_denotes (hlower _ (by simp)) hlo, ih fun c hc => hlower c (by simp [hc])]
      rfl
  · rintro rfl
    induction bytes with
    | nil => exact ⟨nofun, .nil⟩
    | cons b bytes ih =>
      obtain ⟨hlower, hspells⟩ := ih
      have hhigh := getElem?_lowerDigits _ (halves_lt b).1
      have hlow := getElem?_lowerDigits _ (halves_lt b).2
      refine ⟨?_, .cons (.inl hhigh) (.inl hlow) hspells⟩
      rintro c (_ | ⟨_, _ | ⟨_, hc⟩⟩)
      · exact List.mem_of_getElem? hhigh
      · exact List.mem_of_getElem? hlow
      · exact hlower c hc

/-- One mark and lower-case digits. -/
def Plain (text : String) : Prop :=
  ∃ cs, text.toList = '0' :: 'x' :: cs ∧ ∀ c ∈ cs, c ∈ lowerDigits

/-- One mark is taken off the digits behind it, and nothing else. -/
theorem stripped_of_digits {text : String} {cs : List Char} (htext : text.toList = '0' :: 'x' :: cs)
    (hcs : ∀ c ∈ cs, IsDigit c) : Stripped text (String.ofList cs) where
  marked := by
    refine ⟨1, ?_⟩
    rw [join_replicate_succ, join_replicate_zero, ← String.toList_inj, htext, String.toList_append]
    exact congrArg (['0', 'x'] ++ ·) String.toList_ofList.symm
  not_prefix := by
    rw [String.toList_ofList]
    exact not_prefix_of_isDigit hcs

/-- Among the plain texts only the written form of some bytes is read as these. -/
theorem plain_and_readText_iff {width : Option Nat} {text : String} {bytes : Bytes} :
    Plain text ∧ readText width text = .ok bytes ↔ text = encode bytes ∧
      ∀ n ∈ width, bytes.length = n := by
  have hread {cs : List Char} (htext : text.toList = '0' :: 'x' :: cs)
      (hcs : ∀ c ∈ cs, c ∈ lowerDigits) :
      readText width text = .ok bytes ↔ Spells cs bytes ∧ ∀ n ∈ width, bytes.length = n := by
    have hstripped := stripped_of_digits htext fun c hc => .inl (hcs c hc)
    rw [readText_eq_ok_iff_of_stripped hstripped, String.toList_ofList]
  constructor
  · rintro ⟨⟨cs, htext, hcs⟩, hok⟩
    obtain ⟨hspells, hfits⟩ := (hread htext hcs).1 hok
    refine ⟨?_, hfits⟩
    rw [encode, ← spells_iff_of_lower.1 ⟨hcs, hspells⟩, ← htext, String.ofList_toList]
  · rintro ⟨rfl, hfits⟩
    have htext : (encode bytes).toList = '0' :: 'x' :: digits bytes := String.toList_ofList
    obtain ⟨hlower, hspells⟩ := spells_iff_of_lower.2 (Eq.refl (digits bytes))
    exact ⟨⟨digits bytes, htext, hlower⟩, (hread htext hlower).2 ⟨hspells, hfits⟩⟩

/-- How values are written so that they are read back. -/
structure WritesBack {α : Type} (read : String → Except HexError α)
    (write : α → String) : Prop where
  /-- What is written is read back. -/
  read_write (a : α) : read (write a) = .ok a
  /-- A value is written in one way only, with one mark and lower-case digits. -/
  plain_and_read_iff (text : String) (a : α) : Plain text ∧ read text = .ok a ↔ text = write a
  /-- What was read and written is written no differently a second time, and is refused no more than
  at first. -/
  rewrite_idem (text : String) : (((read text).map write).bind fun text => (read text).map write) =
    (read text).map write

/-- It is enough that the plain texts are read as the values that they are written for. -/
theorem WritesBack.of_plain {α : Type} {read : String → Except HexError α} {write : α → String}
    (h : ∀ text a, Plain text ∧ read text = .ok a ↔ text = write a) : WritesBack read write where
  read_write a := ((h (write a) a).2 rfl).2
  plain_and_read_iff := h
  rewrite_idem text := by
    cases hread : read text with
    | error e => rfl
    | ok a =>
      have hback : read (write a) = .ok a := ((h (write a) a).2 rfl).2
      show (read (write a)).map write = .ok (write a)
      rw [hback]
      rfl

/-- How values that are made of bytes stand in texts and in documents. -/
structure WrittenInHex {α : Type} (width : Option Nat) (bytesOf : α → Bytes)
    (read : String → Except HexError α) (write : α → String)
    (reader : Reader α) (json : α → Json) : Prop where
  reads : ReadsBlobs width fun text => (read text).map bytesOf
  writes : WritesBack read write
  /-- The reader of documents takes the texts of strings. -/
  reader_string (text : String) : reader (.string (some text)) = (read text).mapError .hex
  /-- A value is read back from a document of its own. -/
  document_render (a : α) : Reader.document reader (json a).render = .ok a

/-- Blobs are written as text that only their own bytes are read from. -/
theorem writtenInHex_bytes :
    WrittenInHex none id decode encode Reader.bytes Bytes.toJson where
  reads := by
    have hread : (fun text => (decode text).map id) = readText none := by
      rw [← decode_eq]
      funext text
      cases decode text <;> rfl
    rw [hread]
    exact readsBlobs_readText none
  writes := by
    refine .of_plain fun text bytes => ?_
    rw [decode_eq, plain_and_readText_iff]
    exact and_iff_left nofun
  reader_string _ := rfl
  document_render bytes := Reader.document_render (Reader.reads_bytes bytes)

/-- A word is read from what spells thirty-two bytes. -/
theorem decode32_eq_ok_iff {text : String} {w : Bytes32} :
    decode32 text = .ok w ↔ readText (some 32) text = .ok w.toList := by
  rw [← decode32_eq]
  cases decode32 text with
  | error e => exact iff_of_false nofun nofun
  | ok v =>
    show Except.ok v = Except.ok w ↔ Except.ok v.toList = Except.ok w.toList
    rw [Except.ok.injEq, Except.ok.injEq, Bytes32.toList_injective.eq_iff]

/-- Words are written as text that only the same word is read from. -/
theorem writtenInHex_bytes32 :
    WrittenInHex (some 32) Bytes32.toList decode32 Bytes32.toHex Reader.bytes32 toJson where
  reads := by
    simp only [decode32_eq]
    exact readsBlobs_readText (some 32)
  writes := by
    refine .of_plain fun text w => ?_
    rw [decode32_eq_ok_iff, plain_and_readText_iff]
    refine and_iff_left ?_
    rintro _ ⟨⟩
    exact w.length_toList
  reader_string _ := rfl
  document_render w := Reader.document_render (Reader.reads_bytes32 w)

end Hex

namespace Identifier

open Hex

variable {kind : IdKind}

/-- An identifier is read where its word is. -/
theorem read_eq_ok_iff {text : String} {id : Identifier kind} :
    read text = .ok id ↔ decode32 text = .ok id.word := by
  rw [read]
  cases decode32 text with
  | error e => exact iff_of_false nofun nofun
  | ok w =>
    obtain ⟨v⟩ := id
    show Except.ok (mk w) = Except.ok (mk v) ↔ Except.ok w = Except.ok v
    rw [Except.ok.injEq, Except.ok.injEq, mk.injEq]

/-- An identifier stands in texts and documents as its word does. -/
theorem writtenInHex : WrittenInHex (some 32) (fun id : Identifier kind => id.word.toList)
    read write reader toJson where
  reads := by
    have hread (text : String) : (read text).map (fun id : Identifier kind => id.word.toList) =
        (decode32 text).map Bytes32.toList := by
      rw [read]
      cases decode32 text <;> rfl
    simp only [hread]
    exact writtenInHex_bytes32.reads
  writes := by
    refine .of_plain fun text id => ?_
    rw [read_eq_ok_iff]
    exact writtenInHex_bytes32.writes.plain_and_read_iff text id.word
  reader_string text := by
    show ((decode32 text).mapError ReadError.hex).map mk =
      ((decode32 text).map mk).mapError ReadError.hex
    cases decode32 text <;> rfl
  document_render id := Reader.document_render ((Reader.reads_bytes32 id.word).map mk)

end Identifier

/-- All marks in front of a text can be taken off in one way. What is left is read as the bytes that
it spells, or it is refused for its first fault; and bytes of any number, words and identifiers have
one written form each, which is read back. -/
theorem hex_text_is_marks_and_digits :
    (∀ text, ∃! rest, Hex.Stripped text rest) ∧
    Hex.WrittenInHex none id Hex.decode Hex.encode Reader.bytes Bytes.toJson ∧
    Hex.WrittenInHex (some 32) Bytes32.toList Hex.decode32 Bytes32.toHex Reader.bytes32 toJson ∧
    ∀ kind, Hex.WrittenInHex (some 32) (fun id : Identifier kind => id.word.toList)
      Identifier.read Identifier.write Identifier.reader toJson :=
  ⟨Hex.existsUnique_stripped, Hex.writtenInHex_bytes, Hex.writtenInHex_bytes32,
    fun _ => Identifier.writtenInHex⟩

/-- Marks may be many or none, and a byte that is no digit is named with its place behind them. -/
example : Hex.decode "0x0x00Ff" = .ok [0, 255] ∧ Hex.decode "0xé" = .error (.invalidByte 0xc3 0) ∧
    Hex.decode32 "0x0X" = .error .wrongLength := by decide +kernel

end Reactions
