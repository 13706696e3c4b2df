import Reactions.Proofs.Json.ReadBack

/-!
# Records that name their kind are read back

The members beside the tag of a record are kept aside until the kind is known, and only values
within bounds can be kept: numbers that have a double, and nesting of limited depth. Numbers of
sixty-four bits do (`JsonNumber.tooLarge_digits`), so a record is read back if its kind is known and
the members beside the tag are the record of that kind, not nested too deeply
(`Reader.reads_tagged`).
-/

namespace Reactions

/-! ## Numbers -/

namespace JsonNumber

/-- More digits make no smaller number. -/
theorem le_ofDigitChars (cs : List Char) (significand : Nat) :
    significand ≤ Nat.ofDigitChars 10 cs significand := by
  induction cs generalizing significand with
  | nil => rfl
  | cons c rest ih =>
    rw [Nat.ofDigitChars_cons]
    exact Nat.le_trans (by omega) (ih _)

/-- All digits of a number of sixty-four bits fit into the significand. -/
theorem appendDigits_of_lt {cs : List Char} {significand : Nat} (hrun : Decimal.IsRun cs)
    (h : Nat.ofDigitChars 10 cs significand < UInt64.size) :
    appendDigits significand cs = (Nat.ofDigitChars 10 cs significand, 0) := by
  induction cs generalizing significand with
  | nil => rfl
  | cons c rest ih =>
    rw [Nat.ofDigitChars_cons] at h ⊢
    have hlonger := Nat.lt_of_le_of_lt (le_ofDigitChars rest _) h
    rw [appendDigits, Decimal.value?_of_isDigit (hrun c List.mem_cons_self), if_pos hlonger,
      ih (fun d hd => hrun d (List.mem_cons_of_mem _ hd)) h]

/-- Rounding to a double at most doubles a number. -/
theorem roundToDouble_le (n : Nat) : roundToDouble n ≤ 2 * n := by
  rcases Nat.eq_zero_or_pos n with rfl | hpos
  · decide
  rw [roundToDouble]
  generalize hunit : Nat.pow 2 (n.log2 - 52) = unit
  have hle : unit ≤ n := by
    rw [← hunit]
    exact Nat.le_trans (Nat.pow_le_pow_right (by decide) (Nat.sub_le _ _))
      (Nat.log2_self_le (Nat.ne_of_gt hpos))
  have hfloor : n / unit * unit ≤ n := Nat.div_mul_le_self n unit
  split
  · rw [Nat.add_mul, Nat.one_mul]
    omega
  · omega

/-- What is written of a number of sixty-four bits can be kept. -/
theorem tooLarge_digits {n : Nat} (h : n < UInt64.size) :
    tooLarge ⟨false, Decimal.digits n, none, none⟩ = false := by
  have hvalue : Nat.ofDigitChars 10 (Decimal.digits n) 0 = n := by
    rw [Decimal.digits, Nat.ofDigitChars_ten_toDigits]
  have hdigits : appendDigits 0 (Decimal.digits n) = (n, 0) := by
    rw [appendDigits_of_lt (Decimal.isRun_digits n) (hvalue.symm ▸ h), hvalue]
  have hscaled : scaled ⟨false, Decimal.digits n, none, none⟩ = (n, 0) := by
    rw [scaled, hdigits]
    rfl
  have hone : roundToDouble (Nat.pow 10 0) = 1 := by decide
  have hbound : 2 * UInt64.size ≤ Nat.pow 2 1024 - Nat.pow 2 970 := by decide +kernel
  have hround := roundToDouble_le n
  rw [tooLarge, hscaled]
  cases n with
  | zero => rfl
  | succ n =>
    change (if 308 < 0 then true else decide (Nat.pow 2 1024 - Nat.pow 2 970 ≤
      roundToDouble (n + 1) * roundToDouble (Nat.pow 10 0))) = false
    rw [if_neg (by decide), hone, Nat.mul_one, decide_eq_false_iff_not]
    omega

end JsonNumber

/-! ## Trees that can be kept -/

namespace Json

/-- A value that can be kept inside `depth` others. -/
def Keepable (depth : Nat) (j : Json) : Prop := j.tree.keepable depth = true

variable {depth : Nat}

/-- A string is kept at any depth. -/
theorem keepable_string (s : String) : Keepable depth (.string s) := rfl

/-- A number that fits a word is kept at any depth. -/
theorem keepable_nat {n : Nat} (h : n < UInt64.size) : Keepable depth (toJson n) := by
  change (!JsonNumber.tooLarge _) = true
  rw [JsonNumber.tooLarge_digits h]
  rfl

/-- An array can be kept if its items can be kept one level deeper. -/
theorem keepable_array {items : List Json} (h : ∀ j ∈ items, Keepable depth j) :
    Keepable (depth + 1) (.array items) := by
  have hitems : JsonNode.keepableItems depth (treeItems items) = true := by
    induction items with
    | nil => rfl
    | cons j rest ih =>
      rw [treeItems, JsonNode.keepableItems, ih fun j hj => h j (List.mem_cons_of_mem _ hj),
        Bool.and_true]
      exact h j List.mem_cons_self
  rw [Keepable, tree, JsonNode.keepable, hitems]
  rfl

/-- An object can be kept if its members can be kept one level deeper. -/
theorem keepable_object {members : List (String × Json)}
    (h : ∀ member ∈ members, Keepable depth member.2) : Keepable (depth + 1) (.object members) := by
  have hmembers : JsonNode.keepableMembers depth (treeMembers members) = true := by
    induction members with
    | nil => rfl
    | cons member rest ih =>
      obtain ⟨name, j⟩ := member
      rw [treeMembers, JsonNode.keepableMembers,
        ih fun member hmember => h member (List.mem_cons_of_mem _ hmember), Bool.and_true]
      exact h (name, j) List.mem_cons_self
  rw [Keepable, tree, JsonNode.keepable, hmembers]
  rfl

end Json

/-! ## Records -/

namespace Reader

open Fields

variable {α : Type} {tag name : String} {members : List (String × Json)}

/-- A name that is known is read as what it stands for. -/
theorem reads_named {known : List (String × α)} {a : α} (h : known.lookup name = some a) :
    Reads (named known) (.string name) a := by
  refine (reads_string name).bind ?_
  rw [h]
  rfl

/-- Members that can be kept are no fault. -/
theorem unkept_treeMembers
    (hkept : ∀ member ∈ members, member.1 = tag ∨ member.2.Keepable (maxDepth - 1)) :
    unkept tag (Json.treeMembers members) true = .ok () := by
  rw [unkept]
  split
  · rename_i entry place hfind
    obtain ⟨hkeepable, hmem⟩ := And.intro (List.find?_some hfind) (List.mem_of_find?_eq_some hfind)
    obtain ⟨member, hmember, rfl⟩ := exists_of_mem_zipIdx hmem
    rcases hkept member hmember with htag | hkeep
    · simp [htag] at hkeepable
    · have hkeep : member.2.tree.keepable (maxDepth - 1) = true := hkeep
      simp [keepableMember, hkeep] at hkeepable
  · rfl

/-- A record whose kind is named first is read back if the members beside the tag are a record of
the kind. -/
theorem reads_tagged {known : List (String × Reader α)} {reader : Reader α} {a : α}
    (hknown : known.lookup name = some reader) (hnodup : (tag :: members.map Prod.fst).Nodup)
    (hkept : ∀ member ∈ members, member.2.Keepable (maxDepth - 1))
    (h : Reads reader (.object members) a) :
    Reads (tagged tag known) (.object ((tag, .string name) :: members)) a := by
  have hread : reader (.object (Json.treeMembers members) true) = .ok a := h
  have hkind : (required tag (named known)).fromMembers
      (Json.treeMembers ((tag, .string name) :: members)) = .ok reader :=
    takes_required List.mem_cons_self (reads_named hknown) hnodup
  have hothers : (Json.treeMembers members).filter (fun m => m.1 != some tag) =
      Json.treeMembers members := by
    refine List.filter_eq_self.2 fun entry hentry => ?_
    rw [Json.treeMembers_eq_map] at hentry
    obtain ⟨member, hmember, rfl⟩ := List.mem_map.1 hentry
    have hother : member.1 ≠ tag := fun htag =>
      (List.nodup_cons.1 hnodup).1 (List.mem_map.2 ⟨member, hmember, htag⟩)
    simpa using hother
  have hunkept : unkept tag (Json.treeMembers ((tag, .string name) :: members)) true = .ok () := by
    refine unkept_treeMembers fun member hmember => ?_
    rcases List.mem_cons.1 hmember with rfl | hmember
    · exact .inl rfl
    · exact .inr (hkept member hmember)
  rw [Reads, Json.tree, tagged]
  simp only [hkind, hunkept]
  rw [Json.treeMembers, List.filter_cons_of_neg (by simp), hothers]
  exact hread

end Reader

end Reactions
