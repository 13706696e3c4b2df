/-!
# Tables

A table holds rows of which no two share a key. Saving a row puts it in the place of the row
with its key, or behind all others if there is none.
-/

namespace Reactions

/-- Rows of which no two share a key. -/
structure Table {κ α : Type} (key : α → κ) where
  rows : List α
  nodup : (rows.map key).Nodup

namespace Table

variable {κ α : Type} [DecidableEq κ] {key : α → κ}

/-- The table without rows. -/
def empty : Table key := ⟨[], List.nodup_nil⟩

instance : EmptyCollection (Table key) := ⟨empty⟩
instance : Inhabited (Table key) := ⟨empty⟩

/-- The row of a key. -/
def find? (t : Table key) (k : κ) : Option α := t.rows.find? (key · = k)

/-- Puts a row in the place of the first with its key, or at the end. -/
def put (key : α → κ) (row : α) : List α → List α
  | [] => [row]
  | r :: rest => if key r = key row then row :: rest else r :: put key row rest

/-- The keys after a row is put: the same, or one more at the end. -/
theorem map_put (row : α) (rows : List α) :
    (put key row rows).map key =
      if key row ∈ rows.map key then rows.map key else rows.map key ++ [key row] := by
  induction rows with
  | nil => rfl
  | cons r rest ih =>
    by_cases h : key r = key row
    · simp [put, h]
    · have h' : key row ≠ key r := fun e => h e.symm
      by_cases hm : key row ∈ rest.map key <;> simp_all [put]

/-- Saves a row under its key. -/
def save (t : Table key) (row : α) : Table key where
  rows := put key row t.rows
  nodup := by
    rw [map_put]
    split
    · exact t.nodup
    · rename_i h
      refine List.nodup_append.2 ⟨t.nodup, by simp, fun a ha b hb e => h ?_⟩
      rwa [← List.mem_singleton.1 hb, ← e]

/-- The row that is found after a row is put. -/
theorem find?_put (row : α) (k : κ) (rows : List α) :
    (put key row rows).find? (key · = k) =
      if key row = k then some row else rows.find? (key · = k) := by
  induction rows with
  | nil => by_cases h : key row = k <;> simp [put, h]
  | cons r rest ih =>
    by_cases h : key r = key row
    · by_cases hk : key row = k <;> simp [put, h, hk]
    · by_cases hr : key r = k
      · have hk : key row ≠ k := fun e => h (hr.trans e.symm)
        rw [put, if_neg h, List.find?_cons, List.find?_cons]
        simp [hr, hk]
      · simp [put, h, hr, ih]

/-- A saved row is found under its key, and every other key keeps its row. -/
theorem find?_save (t : Table key) (row : α) (k : κ) :
    (t.save row).find? k = if key row = k then some row else t.find? k :=
  find?_put row k t.rows

@[simp] theorem find?_empty (k : κ) : (∅ : Table key).find? k = none := rfl

end Table

/-- A table of pairs of a key and a value. -/
abbrev Assoc (κ α : Type) := Table (Prod.fst : κ × α → κ)

namespace Assoc

variable {κ α : Type} [DecidableEq κ]

/-- The value of a key. -/
def get? (t : Assoc κ α) (k : κ) : Option α := (t.find? k).map Prod.snd

end Assoc

end Reactions
