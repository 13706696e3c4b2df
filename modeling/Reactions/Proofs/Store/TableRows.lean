import Mathlib.Algebra.GroupWithZero.Nat
import Mathlib.Data.List.Nodup
import Reactions.Store.Table

/-!
# The rows of a table

Since no two rows of a table share a key, finding the row of a key is the same as knowing a row with
that key (`Table.find?_eq_some_iff`). Saving a row either appends it or puts it exactly where the
row with its key was (`Table.rows_save_of_none`, `Table.rows_save_of_some`), which is what a sum
over all rows needs to know about it.
-/

namespace Reactions

namespace Table

variable {κ α : Type} [DecidableEq κ] {key : α → κ}

/-- No row is found exactly if none has the key. -/
theorem find?_eq_none_iff {t : Table key} {k : κ} :
    t.find? k = none ↔ ∀ row ∈ t.rows, key row ≠ k := by
  simp [find?]

/-- A row is found under a key if and only if it is a row with that key. -/
theorem find?_eq_some_iff {t : Table key} {k : κ} {row : α} :
    t.find? k = some row ↔ row ∈ t.rows ∧ key row = k := by
  constructor
  · intro h
    exact ⟨List.mem_of_find?_eq_some h, by simpa using List.find?_some h⟩
  · rintro ⟨hmem, rfl⟩
    cases hfind : t.find? (key row) with
    | none => exact absurd rfl (find?_eq_none_iff.1 hfind row hmem)
    | some other =>
      have hother := List.mem_of_find?_eq_some hfind
      have hkey : key other = key row := by simpa using List.find?_some hfind
      rw [List.inj_on_of_nodup_map t.nodup hother hmem hkey]

/-- The row that is found under a key has that key. -/
theorem key_of_find? {t : Table key} {k : κ} {row : α} (h : t.find? k = some row) : key row = k :=
  (find?_eq_some_iff.1 h).2

/-- Tables that find the same rows have the same rows. -/
theorem perm_rows {t t' : Table key} (h : ∀ k, t.find? k = t'.find? k) : t.rows.Perm t'.rows := by
  refine (List.perm_ext_iff_of_nodup (.of_map key t.nodup) (.of_map key t'.nodup)).2 fun row => ?_
  have hmem : t.find? (key row) = some row ↔ t'.find? (key row) = some row := by rw [h]
  simpa [find?_eq_some_iff] using hmem

/-- A row with a new key is appended. -/
theorem rows_save_of_none {t : Table key} {row : α} (h : t.find? (key row) = none) :
    (t.save row).rows = t.rows ++ [row] := by
  have hne := find?_eq_none_iff.1 h
  change put key row t.rows = _
  generalize t.rows = rows at hne
  induction rows with
  | nil => rfl
  | cons r rest ih =>
    rw [List.forall_mem_cons] at hne
    rw [put, if_neg hne.1, ih hne.2, List.cons_append]

/-- A row with the key of another takes its place. -/
theorem rows_save_of_some {t : Table key} {row old : α} (h : t.find? (key row) = some old) :
    ∃ before after, t.rows = before ++ old :: after ∧
      (t.save row).rows = before ++ row :: after := by
  change ∃ before after, t.rows = _ ∧ put key row t.rows = _
  rw [find?] at h
  generalize t.rows = rows at h
  induction rows with
  | nil => cases h
  | cons r rest ih =>
    by_cases hr : key r = key row
    · rw [List.find?_cons_of_pos (by simpa using hr), Option.some.injEq] at h
      exact ⟨[], rest, by rw [h, List.nil_append], by rw [put, if_pos hr, List.nil_append]⟩
    · rw [List.find?_cons_of_neg (by simpa using hr)] at h
      obtain ⟨before, after, hrest, hput⟩ := ih h
      exact ⟨r :: before, after, by rw [hrest, List.cons_append],
        by rw [put, if_neg hr, hput, List.cons_append]⟩

/-- The rows after one is saved: that one, and old ones. -/
theorem mem_rows_save {t : Table key} {row r : α} (h : r ∈ (t.save row).rows) :
    r = row ∨ r ∈ t.rows := by
  cases hfind : t.find? (key row) with
  | none =>
    rw [rows_save_of_none hfind, List.mem_append, List.mem_singleton] at h
    exact h.symm
  | some old =>
    obtain ⟨before, after, hrows, hsave⟩ := rows_save_of_some hfind
    rw [hsave, List.mem_append, List.mem_cons] at h
    rw [hrows, List.mem_append, List.mem_cons]
    rcases h with h | h | h
    · exact .inr (.inl h)
    · exact .inl h
    · exact .inr (.inr (.inr h))

/-- Saving a row changes a sum over all rows by what the row has more than the one it replaces. -/
theorem sum_map_save (t : Table key) (row : α) (f : α → Nat) :
    ((t.save row).rows.map f).sum + ((t.find? (key row)).map f).getD 0 =
      (t.rows.map f).sum + f row := by
  cases hfind : t.find? (key row) with
  | none =>
    rw [rows_save_of_none hfind]
    simp
  | some old =>
    obtain ⟨before, after, hrows, hsave⟩ := rows_save_of_some hfind
    rw [hrows, hsave]
    simp
    omega

end Table

namespace Assoc

variable {κ α : Type} [DecidableEq κ]

/-- A saved value is found under its key, and every other key keeps its value. -/
theorem get?_save (t : Assoc κ α) (k k' : κ) (v : α) :
    get? (t.save (k, v)) k' = if k = k' then some v else get? t k' := by
  rw [get?, Table.find?_save]
  split
  · rfl
  · rfl

/-- A pair is a row if its value is found under its key. -/
theorem mem_rows_iff {t : Assoc κ α} {k : κ} {v : α} : (k, v) ∈ t.rows ↔ get? t k = some v := by
  rw [get?, Option.map_eq_some_iff]
  constructor
  · intro h
    exact ⟨(k, v), Table.find?_eq_some_iff.2 ⟨h, rfl⟩, rfl⟩
  · rintro ⟨⟨k', v'⟩, hfind, rfl⟩
    obtain ⟨hmem, rfl⟩ := Table.find?_eq_some_iff.1 hfind
    exact hmem

end Assoc

end Reactions
