import Mathlib.Data.Option.Basic
import Reactions.Json.Node
import Reactions.Json.Value
import Reactions.Proofs.Text.Digits

/-!
# Rendered text is read as its own tree

The compact form of a value is JSON, and the tree that is made of it is the one that the value
itself has (`Json.tree`): strings lose their escapes again, and every number keeps the digits that
were written of it. A value is followed by a comma, a closing bracket or nothing (`Stops`), and by
that its end is known: no such character could go on with a number (`number?_digits`). The statement
about values, `value_renderChars`, goes by recursion on the value beside those about items and
members, and the fuel that it asks for is counted in characters of the text.
-/

namespace Reactions

/-- What may follow a value inside a document: the mark that ends its item or member, or nothing. -/
def Stops (rest : List Char) : Prop := ∀ c ∈ rest.head?, c = ',' ∨ c = ']' ∨ c = '\x7d'

theorem stops_nil : Stops [] := by simp [Stops]

theorem stops_comma (rest : List Char) : Stops (',' :: rest) := by simp [Stops]

theorem stops_bracket (rest : List Char) : Stops (']' :: rest) := by simp [Stops]

theorem stops_brace (rest : List Char) : Stops ('\x7d' :: rest) := by simp [Stops]

namespace JsonText

variable {rest : List Char}

/-! ## Strings -/

/-- The digit of a value is read as that value. -/
theorem hexValue?_digit : ∀ v < 16, hexValue? (Hex.digit v) = some v := by decide

/-- The four digits of a control character are its code unit. -/
theorem codeUnit?_control {c : Char} (h : c.toNat < 32) (rest : List Char) :
    codeUnit? ('0' :: '0' :: Hex.digit (c.toNat / 16) :: Hex.digit (c.toNat % 16) :: rest) =
      some (c.toNat, rest) := by
  have hzero : hexValue? '0' = some 0 := rfl
  have hnumber : ((16 * 0 + 0) * 16 + c.toNat / 16) * 16 + c.toNat % 16 = c.toNat := by omega
  rw [codeUnit?, hzero, hexValue?_digit _ (by omega), hexValue?_digit _ (by omega)]
  exact congrArg (fun n => some (n, rest)) hnumber

/-- A character is read back from its escaped form, whichever that is. -/
theorem stringStep_escape (c : Char) (rest : List Char) :
    stringStep (Json.escape c ++ rest) = .char c rest := by
  rw [Json.escape]
  -- the seven characters that have an escape of one letter
  iterate 7
    split
    · next h => rw [h]; rfl
  split
  · next hcontrol =>
    have hlow : ¬ (0xdc00 ≤ c.toNat ∧ c.toNat < 0xe000) := by omega
    have hhigh : ¬ (0xd800 ≤ c.toNat ∧ c.toNat < 0xdc00) := by omega
    simp only [Json.controlEscape, List.cons_append, List.nil_append]
    rw [stringStep, codeUnit?_control hcontrol]
    simp only [hlow, hhigh, if_false, Char.ofNat_toNat]
  · next hquote hbackslash _ _ _ _ _ hplain =>
    rw [List.singleton_append, stringStep.eq_def]
    split <;> simp_all

/-- No character vanishes when it is escaped. -/
theorem length_escape_pos (c : Char) : 0 < (Json.escape c).length := by
  rw [Json.escape]
  repeat' split
  all_goals simp

/-- The characters of a string are read up to the closing quote. -/
theorem stringRest_escaped (cs sofar rest : List Char) {fuel : Nat}
    (h : (cs.flatMap Json.escape).length < fuel) :
    stringRest fuel (some sofar) (cs.flatMap Json.escape ++ '"' :: rest) =
      some (some (String.ofList (sofar.reverse ++ cs)), rest) := by
  induction cs generalizing sofar fuel with
  | nil =>
    obtain ⟨fuel, rfl⟩ := Nat.exists_eq_succ_of_ne_zero (Nat.ne_of_gt (Nat.zero_lt_of_lt h))
    simp [stringRest, stringStep]
  | cons c cs ih =>
    obtain ⟨fuel, rfl⟩ := Nat.exists_eq_succ_of_ne_zero (Nat.ne_of_gt (Nat.zero_lt_of_lt h))
    have hone := length_escape_pos c
    rw [List.flatMap_cons, List.length_append] at h
    rw [List.flatMap_cons, List.append_assoc, stringRest, stringStep_escape]
    simp only [Option.map_some]
    rw [ih (c :: sofar) (by omega), List.reverse_cons, List.append_assoc, List.singleton_append]

/-- A quoted string is read back up to its closing quote. -/
theorem string?_quote (s : String) (rest : List Char) :
    string? (s.toList.flatMap Json.escape ++ '"' :: rest) = some (some s, rest) := by
  have hfuel : (s.toList.flatMap Json.escape).length <
      (s.toList.flatMap Json.escape ++ '"' :: rest).length + 1 := by
    rw [List.length_append]
    omega
  rw [string?, stringRest_escaped s.toList [] rest hfuel, List.reverse_nil, List.nil_append,
    String.ofList_toList]

/-! ## Numbers -/

/-- A number ends where no digit follows. -/
theorem noDigitAhead_of_stops (h : Stops rest) : Decimal.NoDigitAhead rest := by
  intro c hc
  rcases h c hc with rfl | rfl | rfl <;> decide

/-- No fraction is read there. -/
theorem fraction?_of_stops (h : Stops rest) : fraction? rest = some (none, rest) := by
  cases rest with
  | nil => rfl
  | cons c rest => rcases h c rfl with rfl | rfl | rfl <;> rfl

theorem exponent?_of_stops (h : Stops rest) : exponent? rest = some (none, rest) := by
  cases rest with
  | nil => rfl
  | cons c rest => rcases h c rfl with rfl | rfl | rfl <;> rfl

/-- The digits of a number are read as they stand. -/
theorem number?_digits (n : Nat) (h : Stops rest) :
    number? (Decimal.digits n ++ rest) = some (⟨false, Decimal.digits n, none, none⟩, rest) := by
  have hrun := Decimal.isRun_digits n
  have hend := noDigitAhead_of_stops h
  have hdigits : digitRun (Decimal.digits n ++ rest) = (Decimal.digits n, rest) := by
    rw [digitRun, Decimal.takeWhile_run hrun hend, Decimal.dropWhile_run hrun hend]
  have hguard : ¬ (Decimal.digits n).isEmpty ∧
      ((Decimal.digits n).head? = some '0' → (Decimal.digits n).length = 1) := by
    refine ⟨by simpa using Decimal.digits_ne_nil n, fun hzero => ?_⟩
    cases n with
    | zero => rfl
    | succ n => exact absurd hzero (Decimal.head?_digits n.succ_pos)
  have hsign : ∀ tail, Decimal.digits n ++ rest ≠ '-' :: tail := by
    intro tail htail
    obtain ⟨c, run, hcons, hdigit⟩ := Decimal.exists_digits_eq_cons n
    rw [hcons, List.cons_append] at htail
    rw [(List.cons.inj htail).1] at hdigit
    exact absurd hdigit (by decide)
  rw [number?, hdigits]
  · refine bind_of_eq_some (if_pos hguard) ?_
    refine bind_of_eq_some (fraction?_of_stops h) ?_
    refine bind_of_eq_some (exponent?_of_stops h) ?_
    rfl
  · exact hsign

end JsonText

/-! ## Values -/

namespace Json

mutual

/-- The tree of a value: what its text is read as. -/
def tree : Json → JsonNode
  | .null => .null
  | .bool b => .bool b
  | .number n => .number ⟨false, Decimal.digits n, none, none⟩
  | .string s => .string (some s)
  | .array items => .array (treeItems items) true
  | .object members => .object (treeMembers members) true

/-- The trees of some items. -/
def treeItems : List Json → List JsonNode
  | [] => []
  | x :: rest => x.tree :: treeItems rest

/-- The trees of some members, with their names. -/
def treeMembers : List (String × Json) → List (Option String × JsonNode)
  | [] => []
  | (k, v) :: rest => (some k, v.tree) :: treeMembers rest

end

/-- The items of an array are taken for their trees one by one. -/
theorem treeItems_eq_map (items : List Json) : treeItems items = items.map tree := by
  induction items with
  | nil => rfl
  | cons x rest ih => rw [treeItems, ih, List.map_cons]

theorem treeMembers_eq_map (members : List (String × Json)) :
    treeMembers members = members.map fun (k, v) => (some k, v.tree) := by
  induction members with
  | nil => rfl
  | cons member rest ih => rw [treeMembers, ih, List.map_cons]

end Json

namespace JsonNode

open Json JsonText

/-- A character that can stand at the beginning of a value. -/
def Begins (c : Char) : Prop :=
  c = '"' ∨ c = '[' ∨ c = '\x7b' ∨ c = 'n' ∨ c = 't' ∨ c = 'f' ∨ Decimal.isDigit c

instance (c : Char) : Decidable (Begins c) := inferInstanceAs (Decidable (_ ∨ _))

/-- A rendered value begins with a character that is no space. -/
theorem renderChars_begins (j : Json) : ∃ c cs, renderChars j = c :: cs ∧ Begins c := by
  cases j with
  | null => exact ⟨_, _, rfl, by decide⟩
  | bool b => cases b <;> exact ⟨_, _, rfl, by decide⟩
  | number n =>
    obtain ⟨c, run, hdigits, hdigit⟩ := Decimal.exists_digits_eq_cons n
    exact ⟨c, run, by rw [renderChars, hdigits], by simp [Begins, hdigit]⟩
  | string s => exact ⟨_, _, rfl, by decide⟩
  | array items => exact ⟨'[', renderItems items ++ [']'], by rw [renderChars]; rfl, by decide⟩
  | object members =>
    exact ⟨'\x7b', renderMembers members ++ ['\x7d'], by rw [renderChars]; rfl, by decide⟩

variable {c : Char} {cs rest : List Char} {fuel : Nat}

/-- Where a value begins there is no space to skip. -/
theorem skipSpace_begins (h : Begins c) : skipSpace (c :: cs) = c :: cs := by
  have hblank : ¬ (c = ' ' || c = '\n' || c = '\t' || c = '\r') := by
    intro hc
    simp only [Bool.or_eq_true, decide_eq_true_eq] at hc
    rcases hc with ((rfl | rfl) | rfl) | rfl <;> exact absurd h (by decide)
  exact List.dropWhile_cons_of_neg hblank

/-- A quoted string is read as a value. -/
theorem value_string (s : String) (rest : List Char) :
    value (fuel + 1) (quote s ++ rest) = (.string (some s), some rest) := by
  have htext : skipSpace (quote s ++ rest) = '"' :: (s.toList.flatMap escape ++ '"' :: rest) := by
    rw [quote, List.append_assoc]
    rfl
  rw [value, htext]
  simp only [string?_quote]

/-- The digits of a number are read as a value, if the number ends behind them. -/
theorem value_number (n : Nat) (h : Stops rest) :
    value (fuel + 1) (Decimal.digits n ++ rest) =
      (.number ⟨false, Decimal.digits n, none, none⟩, some rest) := by
  obtain ⟨c, run, hdigits, hdigit⟩ := Decimal.exists_digits_eq_cons n
  have htext : skipSpace (Decimal.digits n ++ rest) = c :: (run ++ rest) := by
    rw [hdigits, List.cons_append]
    exact skipSpace_begins (by simp [Begins, hdigit])
  have hnumber := number?_digits n h
  rw [hdigits, List.cons_append] at hnumber
  rw [value, htext]
  split
  case h_8 => simp only [hnumber, hdigits]
  all_goals
    next hmark => cases hmark <;> exact absurd hdigit (by decide)

/-- An array goes on with its items unless its bracket is closed at once. -/
theorem value_array (hbegins : Begins c) :
    value (fuel + 1) ('[' :: c :: cs) =
      (.array (items fuel (c :: cs)).1 (items fuel (c :: cs)).2.isSome,
        (items fuel (c :: cs)).2) := by
  have htext : skipSpace ('[' :: c :: cs) = '[' :: c :: cs := rfl
  rw [value, htext]
  simp only [skipSpace_begins hbegins]
  split
  · next heq =>
    obtain rfl := (List.cons.inj heq).1
    exact absurd hbegins (by decide)
  · rfl

/-- An object goes on with its members unless its brace is closed at once. -/
theorem value_object (cs : List Char) :
    value (fuel + 1) ('\x7b' :: '"' :: cs) =
      (.object (members fuel ('"' :: cs)).1 (members fuel ('"' :: cs)).2.isSome,
        (members fuel ('"' :: cs)).2) := rfl

/-- No value is rendered as nothing. -/
theorem length_renderChars_pos (j : Json) : 0 < (renderChars j).length := by
  obtain ⟨c, cs, htext, -⟩ := renderChars_begins j
  simp [htext]

/-- The items of an array begin with a character that is no space. -/
theorem renderItems_begins (x : Json) (xs : List Json) :
    ∃ c cs, renderItems (x :: xs) = c :: cs ∧ Begins c := by
  obtain ⟨c, cs, htext, hbegins⟩ := renderChars_begins x
  cases xs with
  | nil => exact ⟨c, cs, by rw [renderItems, htext], hbegins⟩
  | cons y ys =>
    exact ⟨c, cs ++ ',' :: renderItems (y :: ys), by simp [renderItems, htext], hbegins⟩

/-- A quoted string begins with its opening quote. -/
theorem quote_append (s : String) (rest : List Char) :
    quote s ++ rest = '"' :: (s.toList.flatMap escape ++ '"' :: rest) := by
  simp [quote]

/-- The members of an object begin with a quote. -/
theorem renderMembers_begins (m : String × Json) (ms : List (String × Json)) :
    ∃ cs, renderMembers (m :: ms) = '"' :: cs := by
  cases ms with
  | nil => exact ⟨_, by rw [renderMembers, quote_append]⟩
  | cons m' ms => exact ⟨_, by rw [renderMembers, List.append_assoc, quote_append]; simp⟩

/-- A member before the closing brace is the last one. -/
theorem members_last {k : String} {text : List Char} {node : JsonNode}
    (hvalue : value fuel text = (node, some ('\x7d' :: rest))) :
    members (fuel + 1) (quote k ++ ':' :: text) = ([(some k, node)], some rest) := by
  rw [quote_append, members]
  simp [skipSpace, string?_quote, hvalue]

/-- A member before a comma is followed by others. -/
theorem members_more {k : String} {text more : List Char} {node : JsonNode}
    (hvalue : value fuel text = (node, some (',' :: more))) :
    members (fuel + 1) (quote k ++ ':' :: text) =
      ((some k, node) :: (members fuel more).1, (members fuel more).2) := by
  rw [quote_append, members]
  simp [skipSpace, string?_quote, hvalue]

mutual

/-- The text of a value is read as its tree, with what follows left over. -/
theorem value_renderChars : ∀ (j : Json) (fuel : Nat) (rest : List Char),
    2 * (renderChars j).length ≤ fuel → Stops rest →
      value fuel (renderChars j ++ rest) = (j.tree, some rest)
  | j, 0, _, hfuel, _ => by
    have := length_renderChars_pos j
    omega
  | .null, fuel + 1, _, _, _ | .bool true, fuel + 1, _, _, _ | .bool false, fuel + 1, _, _, _ => rfl
  | .number n, fuel + 1, _, _, hstops => value_number n hstops
  | .string s, fuel + 1, rest, _, _ => value_string s rest
  | .array [], fuel + 1, _, _, _ | .object [], fuel + 1, _, _, _ => rfl
  | .array (x :: xs), fuel + 1, rest, hfuel, _ => by
    -- the brackets are two characters more, which pays for the step from the value to its items
    rw [renderChars, List.length_append, List.length_cons, List.length_singleton] at hfuel
    have hitems := items_renderItems (x :: xs) fuel rest (by simp) (by omega)
    obtain ⟨c, cs, htext, hbegins⟩ := renderItems_begins x xs
    rw [htext, List.cons_append] at hitems
    rw [renderChars, htext, List.append_assoc, List.cons_append, List.cons_append,
      List.singleton_append, value_array hbegins, hitems, tree]
    rfl
  | .object (m :: ms), fuel + 1, rest, hfuel, _ => by
    rw [renderChars, List.length_append, List.length_cons, List.length_singleton] at hfuel
    have hmembers := members_renderMembers (m :: ms) fuel rest (by simp) (by omega)
    obtain ⟨cs, htext⟩ := renderMembers_begins m ms
    rw [htext, List.cons_append] at hmembers
    rw [renderChars, htext, List.append_assoc, List.cons_append, List.cons_append,
      List.singleton_append, value_object, hmembers, tree]
    rfl

/-- The text of some items is read up to the bracket behind it. -/
theorem items_renderItems : ∀ (xs : List Json) (fuel : Nat) (rest : List Char), xs ≠ [] →
    2 * (renderItems xs).length + 1 ≤ fuel →
      items fuel (renderItems xs ++ ']' :: rest) = (treeItems xs, some rest)
  | [], _, _, hne, _ => absurd rfl hne
  | _ :: _, 0, _, _, hfuel => by omega
  | [x], fuel + 1, rest, _, hfuel => by
    rw [renderItems] at hfuel
    have hvalue := value_renderChars x fuel (']' :: rest) (by omega) (stops_bracket rest)
    rw [renderItems, items, hvalue]
    simp [skipSpace, treeItems]
  | x :: y :: ys, fuel + 1, rest, _, hfuel => by
    have htext : renderItems (x :: y :: ys) = renderChars x ++ ',' :: renderItems (y :: ys) := by
      rw [renderItems]
      simp
    rw [htext, List.length_append, List.length_cons] at hfuel
    have hvalue := value_renderChars x fuel (',' :: (renderItems (y :: ys) ++ ']' :: rest))
      (by omega) (stops_comma _)
    have hrest := items_renderItems (y :: ys) fuel rest (by simp) (by omega)
    rw [htext, List.append_assoc, List.cons_append, items, hvalue]
    simp [skipSpace, hrest, treeItems]

/-- The text of some members is read up to the brace behind it. -/
theorem members_renderMembers : ∀ (ms : List (String × Json)) (fuel : Nat) (rest : List Char),
    ms ≠ [] → 2 * (renderMembers ms).length + 1 ≤ fuel →
      members fuel (renderMembers ms ++ '\x7d' :: rest) = (treeMembers ms, some rest)
  | [], _, _, hne, _ => absurd rfl hne
  | _ :: _, 0, _, _, hfuel => by omega
  | [(k, v)], fuel + 1, rest, _, hfuel => by
    rw [renderMembers, List.length_append, List.length_cons] at hfuel
    have hvalue := value_renderChars v fuel ('\x7d' :: rest) (by omega) (stops_brace rest)
    rw [renderMembers, List.append_assoc, List.cons_append, members_last hvalue]
    rfl
  | (k, v) :: m :: ms, fuel + 1, rest, _, hfuel => by
    have htext : renderMembers ((k, v) :: m :: ms) =
        quote k ++ ':' :: renderChars v ++ ',' :: renderMembers (m :: ms) := by
      rw [renderMembers]
      simp
    rw [htext, List.length_append, List.length_append, List.length_cons, List.length_cons] at hfuel
    have hvalue := value_renderChars v fuel (',' :: (renderMembers (m :: ms) ++ '\x7d' :: rest))
      (by omega) (stops_comma _)
    have hrest := members_renderMembers (m :: ms) fuel rest (by simp) (by omega)
    rw [htext]
    simp only [List.append_assoc, List.cons_append]
    rw [members_more hvalue, hrest]
    rfl

end

/-- The compact form of a value is a document: it is read as the tree of the value, and nothing is
left. -/
theorem ofText_render (j : Json) : ofText j.render = (j.tree, true) := by
  have hvalue := value_renderChars j (2 * (renderChars j).length + 2) [] (by omega) stops_nil
  rw [List.append_nil] at hvalue
  rw [ofText, render, String.toList_ofList, hvalue]
  rfl

end JsonNode

end Reactions
