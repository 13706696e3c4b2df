import Mathlib.Data.List.Forall2

/-!
# General facts

Facts about computations that may fail and about lists that say nothing of reactions: what a
computation in several steps comes to, lists that are read element by element, and lists that are
longer by one.
-/

namespace Reactions

variable {ε α β : Type}

/-! ## Computations that may fail -/

/-- A computation in two parts comes to a value only if the first part does. -/
theorem ok_of_bind {x : Except ε α} {f : α → Except ε β} {b : β} (h : x >>= f = .ok b) :
    ∃ a, x = .ok a ∧ f a = .ok b := by
  cases x with
  | error e => cases h
  | ok a => exact ⟨a, rfl, h⟩

/-- It comes to a value exactly if both parts do. -/
theorem bind_eq_ok_iff {x : Except ε α} {f : α → Except ε β} {b : β} :
    x >>= f = .ok b ↔ ∃ a, x = .ok a ∧ f a = .ok b := by
  refine ⟨ok_of_bind, ?_⟩
  rintro ⟨a, rfl, h⟩
  exact h

/-- A value that is only given out if it passes a check. -/
theorem checked_eq_ok_iff {p : α → Prop} [DecidablePred p] {a b : α} {e : ε} :
    (if p a then pure a else throw e : Except ε α) = .ok b ↔ p a ∧ a = b := by
  split
  · rename_i ha
    constructor
    · intro h
      cases h
      exact ⟨ha, rfl⟩
    · rintro ⟨-, rfl⟩
      rfl
  · rename_i ha
    constructor
    · intro h
      cases h
    · rintro ⟨ha', -⟩
      exact absurd ha' ha

/-- What has been given out after a check has passed it. -/
theorem of_checked {p : α → Prop} [DecidablePred p] {a b : α} {e : ε}
    (h : (if p a then pure a else throw e : Except ε α) = .ok b) : p b := by
  obtain ⟨ha, rfl⟩ := checked_eq_ok_iff.1 h
  exact ha

/-- Errors can be renamed without a difference to values. -/
theorem mapError_eq_ok_iff {ε' : Type} {f : ε → ε'} {x : Except ε α} {a : α} :
    x.mapError f = .ok a ↔ x = .ok a := by
  cases x <;> simp [Except.mapError]

/-- A list of computations comes to a list of values exactly if each comes to the value at its
place. -/
theorem mapM_eq_ok_iff {f : α → Except ε β} {xs : List α} {ys : List β} :
    xs.mapM f = .ok ys ↔ List.Forall₂ (fun x y => f x = .ok y) xs ys := by
  constructor
  · intro h
    induction xs generalizing ys with
    | nil =>
      cases h
      exact .nil
    | cons x rest ih =>
      rw [List.mapM_cons] at h
      obtain ⟨y, hy, h⟩ := ok_of_bind h
      obtain ⟨ys', hrest, h⟩ := ok_of_bind h
      cases h
      exact .cons hy (ih hrest)
  · intro h
    induction h with
    | nil => rfl
    | cons hxy _ ih =>
      rw [List.mapM_cons, hxy, ih]
      rfl

/-- One step of a reader that goes well. -/
theorem bind_of_eq_some {o : Option α} {a : α} {f : α → Option β} {b : Option β}
    (h : o = some a) (hf : f a = b) : (o >>= f) = b := by
  rw [h]
  exact hf

/-! ## Lists -/

/-- Lists that agree side by side on what is searched for have related first finds. -/
theorem find?_of_forall₂ {r : α → β → Prop} {p : α → Bool} {q : β → Bool} {xs : List α}
    {ys : List β} (h : List.Forall₂ r xs ys) (hpq : ∀ x y, r x y → p x = q y) :
    Option.Rel r (xs.find? p) (ys.find? q) := by
  induction h with
  | nil => exact .none
  | @cons x y xs ys hxy _ ih =>
    rw [List.find?_cons, List.find?_cons, hpq x y hxy]
    cases q y with
    | false => exact ih
    | true => exact .some hxy

/-- What is left of a list once duplicates are erased has none. -/
theorem nodup_eraseDups [BEq α] [LawfulBEq α] (l : List α) : l.eraseDups.Nodup := by
  induction hn : l.length using Nat.strongRecOn generalizing l with
  | ind n ih =>
    cases l with
    | nil => exact List.nodup_nil
    | cons a rest =>
      rw [List.eraseDups_cons, List.nodup_cons]
      refine ⟨by simp, ih _ ?_ _ rfl⟩
      have hlength := List.length_filter_le (fun b => !b == a) rest
      rw [← hn, List.length_cons]
      omega

/-- What stands at a position of a list that is longer by one. -/
theorem getElem?_append_singleton (l : List α) (a b : α) (index : Nat) :
    (l ++ [a])[index]? = some b ↔ l[index]? = some b ∨ b = a ∧ index = l.length := by
  rcases Nat.lt_trichotomy index l.length with hlt | rfl | hgt
  · rw [List.getElem?_append_left hlt]
    exact (or_iff_left fun h => Nat.ne_of_lt hlt h.2).symm
  · simp [eq_comm]
  · have hlength : (l ++ [a]).length ≤ index := by
      rw [List.length_append, List.length_singleton]
      omega
    rw [List.getElem?_eq_none hlength, List.getElem?_eq_none (Nat.le_of_lt hgt)]
    simp [Nat.ne_of_gt hgt]

/-- What holds of an element and of those before it holds somewhere in a longer list if it does so
in the list, or at its end. -/
theorem exists_append_singleton {P : List α → α → Prop} {xs : List α} {x : α} :
    (∃ before y after, xs ++ [x] = before ++ y :: after ∧ P before y) ↔
      (∃ before y after, xs = before ++ y :: after ∧ P before y) ∨ P xs x := by
  constructor
  · rintro ⟨before, y, after, heq, hy⟩
    rcases List.eq_nil_or_concat after with rfl | ⟨after, last, rfl⟩
    · obtain ⟨rfl, hlast⟩ := List.append_inj' heq rfl
      cases hlast
      exact .inr hy
    · have heq' : xs ++ [x] = (before ++ y :: after) ++ [last] := by
        simpa using heq
      obtain ⟨rfl, -⟩ := List.append_inj' heq' rfl
      exact .inl ⟨before, y, after, rfl, hy⟩
  · rintro (⟨before, y, after, rfl, hy⟩ | hx)
    · exact ⟨before, y, after ++ [x], by simp, hy⟩
    · exact ⟨xs, x, [], rfl, hx⟩

end Reactions
