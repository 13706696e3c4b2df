import Mathlib.Data.List.Basic
import Reactions.Bytes.Bytes32

/-!
# Bytes of texts

The bytes of a text in UTF-8, as a list. A text is what its bytes are the text of
(`fromUTF8?_toUTF8`), and a text of the first 128 characters has one byte for each of them
(`toList_toUTF8_ofList`). The other way round, bytes below 128 stand for these characters wherever
they occur, so that a text can be taken apart behind them (`exists_of_lowBytes`).
-/

namespace Reactions

/-- The bytes from an index on are put behind those already taken. -/
theorem toList_loop_byteArray (bytes : ByteArray) (i : Nat) (acc : Bytes) :
    ByteArray.toList.loop bytes i acc = acc.reverse ++ bytes.data.toList.drop i := by
  fun_induction ByteArray.toList.loop bytes i acc with
  | case1 i acc h ih =>
    have hdrop : bytes.data.toList.drop i = bytes.get! i :: bytes.data.toList.drop (i + 1) := by
      rw [List.drop_eq_getElem_cons h, ByteArray.get!, getElem!_pos bytes.data i h,
        Array.getElem_toList]
    rw [ih, hdrop, List.reverse_cons, List.append_assoc]
    rfl
  | case2 i acc h =>
    have hdrop : bytes.data.toList.drop i = [] := List.drop_of_length_le (Nat.le_of_not_lt h)
    rw [hdrop, List.append_nil]

/-- The bytes of a text are those of its encoding. -/
theorem toList_toUTF8 (s : String) : s.toUTF8.toList = s.toByteArray.data.toList := by
  rw [ByteArray.toList, toList_loop_byteArray]
  rfl

/-- There are as many as the text is long in bytes. -/
theorem length_toUTF8 (s : String) : s.toUTF8.toList.length = s.utf8ByteSize := by
  rw [toList_toUTF8]
  rfl

/-- A text is what its bytes are the text of. -/
theorem fromUTF8?_toUTF8 (s : String) : String.fromUTF8? ⟨s.toUTF8.toList.toArray⟩ = some s := by
  have hbytes : (⟨s.toUTF8.toList.toArray⟩ : ByteArray) = s.toByteArray := by
    rw [toList_toUTF8]
  rw [hbytes, String.fromUTF8?, dif_pos s.isValidUTF8]
  rfl

/-- The bytes of a text are those of its characters. -/
theorem toUTF8_eq_flatMap (s : String) :
    s.toUTF8.toList = s.toList.flatMap String.utf8EncodeChar := by
  have hbytes : s.toByteArray = s.toList.utf8Encode := by
    rw [← String.toByteArray_ofList, String.ofList_toList]
  rw [toList_toUTF8, hbytes, List.utf8Encode, List.data_toByteArray, List.toList_toArray]

/-- The byte of a character that has only one. -/
def asciiByte (c : Char) : UInt8 := UInt8.ofNat c.toNat

/-- Characters below 128 have one byte each. -/
theorem toList_toUTF8_ofList {cs : List Char} (h : ∀ c ∈ cs, c.toNat < 128) :
    (String.ofList cs).toUTF8.toList = cs.map asciiByte := by
  have hchar : ∀ c ∈ cs, String.utf8EncodeChar c = [asciiByte c] := by
    intro c hc
    have hlow : c.val ≤ 0x7f := Nat.le_of_lt_succ (h c hc)
    have hsize : c.utf8Size = 1 := if_pos hlow
    rw [String.utf8EncodeChar_eq_singleton hsize]
    rfl
  rw [toUTF8_eq_flatMap, String.toList_ofList, List.map_eq_flatMap]
  exact List.flatMap_congr hchar

/-! ## Bytes that are characters -/

/-- The character of the number of a byte. -/
def charOf (b : UInt8) : Char := Char.ofNat b.toNat

/-- A byte and its character have the same number. -/
theorem toNat_charOf (b : UInt8) : (charOf b).toNat = b.toNat := by
  have hvalid : b.toNat.isValidChar := .inl (Nat.lt_trans b.toNat_lt (by decide))
  rw [charOf, Char.ofNat, dif_pos hvalid]
  rfl

/-- The character of a byte has that byte. -/
theorem asciiByte_charOf (b : UInt8) : asciiByte (charOf b) = b := by
  rw [asciiByte, toNat_charOf, UInt8.ofNat_toNat]

/-- The byte of a character below 128 has that character. -/
theorem charOf_asciiByte {c : Char} (h : c.toNat < 128) : charOf (asciiByte c) = c := by
  have hbyte : (asciiByte c).toNat = c.toNat := by
    rw [asciiByte, UInt8.toNat_ofNat']
    omega
  rw [charOf, hbyte, Char.ofNat_toNat]

/-- Every byte of a longer encoding has its highest bit set. -/
theorem le_toNat_of_mem_utf8EncodeChar {c : Char} (hc : ¬ c.val.toNat ≤ 127) {b : UInt8}
    (hb : b ∈ String.utf8EncodeChar c) : 128 ≤ b.toNat := by
  simp only [String.utf8EncodeChar, hc, if_false] at hb
  split at hb
  · simp only [List.mem_cons, List.not_mem_nil, or_false] at hb
    rcases hb with rfl | rfl <;> rw [UInt8.toNat_ofNat'] <;> omega
  · split at hb
    · simp only [List.mem_cons, List.not_mem_nil, or_false] at hb
      rcases hb with rfl | rfl | rfl <;> rw [UInt8.toNat_ofNat'] <;> omega
    · simp only [List.mem_cons, List.not_mem_nil, or_false] at hb
      rcases hb with rfl | rfl | rfl | rfl <;> rw [UInt8.toNat_ofNat'] <;> omega

/-- A character with a byte below 128 has no other byte. -/
theorem utf8EncodeChar_of_mem_of_lt {c : Char} {b : UInt8} (hb : b ∈ String.utf8EncodeChar c)
    (hlow : b.toNat < 128) : String.utf8EncodeChar c = [b] ∧ c = charOf b := by
  have hc : c.val.toNat ≤ 127 := by
    by_contra hc
    exact absurd (le_toNat_of_mem_utf8EncodeChar hc hb) (Nat.not_le_of_lt hlow)
  have hone : String.utf8EncodeChar c = [asciiByte c] := if_pos hc
  rw [hone, List.mem_singleton] at hb
  subst hb
  exact ⟨hone, (charOf_asciiByte (Nat.lt_succ_of_le hc)).symm⟩

/-- The bytes below 128 at the front of a text are the characters at its front. -/
theorem exists_of_lowBytes {low more : Bytes} {cs : List Char} (hlow : ∀ b ∈ low, b.toNat < 128)
    (h : cs.flatMap String.utf8EncodeChar = low ++ more) :
    ∃ rest, cs = low.map charOf ++ rest ∧ rest.flatMap String.utf8EncodeChar = more := by
  induction low generalizing cs with
  | nil => exact ⟨cs, rfl, h⟩
  | cons b low ih =>
    cases cs with
    | nil => cases h
    | cons c cs =>
      rw [List.flatMap_cons] at h
      obtain ⟨b', tail, hchar⟩ := List.exists_cons_of_ne_nil (String.utf8EncodeChar_ne_nil (c := c))
      have hb : b' = b := by
        rw [hchar] at h
        exact (List.cons.inj h).1
      have hmem : b ∈ String.utf8EncodeChar c := by
        rw [hchar, hb]
        exact List.mem_cons_self
      obtain ⟨hone, rfl⟩ := utf8EncodeChar_of_mem_of_lt hmem (hlow b List.mem_cons_self)
      rw [hone] at h
      obtain ⟨rest, rfl, hrest⟩ := ih (fun b hb => hlow b (List.mem_cons_of_mem _ hb))
        (List.cons.inj h).2
      exact ⟨rest, rfl, hrest⟩

/-- A text whose bytes are all below 128 is made of their characters. -/
theorem map_charOf_of_lowBytes {s : String} (h : ∀ b ∈ s.toUTF8.toList, b.toNat < 128) :
    s.toUTF8.toList.map charOf = s.toList := by
  have hbytes : s.toList.flatMap String.utf8EncodeChar = s.toUTF8.toList ++ [] := by
    rw [List.append_nil, toUTF8_eq_flatMap]
  obtain ⟨rest, hs, hrest⟩ := exists_of_lowBytes h hbytes
  cases rest with
  | nil => rw [hs, List.append_nil]
  | cons c cs =>
    rw [List.flatMap_cons, List.append_eq_nil_iff] at hrest
    exact absurd hrest.1 String.utf8EncodeChar_ne_nil

/-- A text of characters below 128 is known by its bytes. -/
theorem map_charOf_of_ascii {s : String} (h : ∀ c ∈ s.toList, c.toNat < 128) :
    s.toUTF8.toList.map charOf = s.toList := by
  have hbytes : s.toUTF8.toList = s.toList.map asciiByte := by
    rw [← toList_toUTF8_ofList h, String.ofList_toList]
  rw [hbytes, List.map_map]
  exact (List.map_congr_left fun c hc => charOf_asciiByte (h c hc)).trans (List.map_id _)

end Reactions
