import Reactions.Json.Record
import Reactions.Proofs.Bytes.HexText
import Reactions.Proofs.Json.RenderedText
import Reactions.Proofs.Text.Timestamps

/-!
# Readers take back what was written

A reader stands against the JSON value that it takes: `Reader.Reads reader j a` says that the tree
of `j` is read as `a`, which makes the text of `j` a document of `a` (`Reader.document_render`).
There is one lemma for every kind of scalar and one for sequences. A record is put together from its
fields, each of which is found under its name whatever the others are (`Fields.Takes`), since no
name occurs twice; and because a tree that was made of a value is complete, nothing in it counts as
a fault (`Reader.reads_record`).
-/

namespace Reactions

variable {α β : Type}

namespace Reader

/-- What is written as `j` is read as `a`. -/
def Reads (reader : Reader α) (j : Json) (a : α) : Prop := reader j.tree = .ok a

variable {reader : Reader α} {j : Json} {a : α}

/-- What is read back may be changed by a function. -/
theorem Reads.map (f : α → β) (h : Reads reader j a) :
    Reads (fun node => (reader node).map f) j (f a) :=
  congrArg (Except.map f) h

/-- What has been read is gone on with. -/
theorem Reads.bind {next : α → Except ReadError β} {b : β} (h : Reads reader j a)
    (hnext : next a = .ok b) : Reads (fun node => reader node >>= next) j b := by
  have hread : reader j.tree = .ok a := h
  show (reader j.tree >>= next) = .ok b
  rw [hread]
  exact hnext

/-- A value that is read back from its tree is read back from its text. -/
theorem document_render (h : Reads reader j a) : document reader j.render = .ok a := by
  rw [document, JsonNode.ofText_render]
  simp only [show reader j.tree = .ok a from h]
  rfl

/-! ## Scalars -/

theorem reads_string (s : String) : Reads string (.string s) s := rfl

/-- A number below the bound is read back. -/
theorem reads_natBelow {bound n : Nat} (h : n < bound) : Reads (natBelow bound) (.number n) n := by
  have hnat : (⟨false, Decimal.digits n, none, none⟩ : JsonNumber).nat? = some n :=
    congrArg some (Decimal.ofDigits_digits n)
  rw [Reads, Json.tree, natBelow, hnat]
  exact if_pos h

theorem reads_nat64 {n : Nat} (h : n < UInt64.size) : Reads nat64 (toJson n) n := reads_natBelow h

/-- A word of bytes is read back. -/
theorem reads_bytes32 (w : Bytes32) : Reads bytes32 (toJson w) w :=
  (reads_string w.toHex).bind (congrArg (Except.mapError ReadError.hex) (Hex.decode32_toHex w))

/-- A blob is read back. -/
theorem reads_bytes (b : Bytes) : Reads bytes b.toJson b :=
  (reads_string (Hex.encode b)).bind
    (congrArg (Except.mapError ReadError.hex) (Hex.decode_encode b))

/-- A time is read back. -/
theorem reads_timestamp (t : Timestamp) : Reads timestamp (.string t.write) t := by
  refine (reads_string t.write).bind ?_
  rw [Timestamp.read?_write]
  rfl

/-! ## Sequences -/

/-- Items that are read back one by one are read back together. -/
theorem mapM_treeItems [ToJson α] {item : Reader α} {xs : List α}
    (h : ∀ x ∈ xs, Reads item (toJson x) x) :
    (Json.treeItems (xs.map toJson)).mapM item = .ok xs := by
  induction xs with
  | nil => rfl
  | cons x xs ih =>
    have hx : item (toJson x).tree = .ok x := h x (by simp)
    rw [List.map_cons, Json.treeItems, List.mapM_cons, hx, ih fun y hy => h y (by simp [hy])]
    rfl

/-- A list is read back if its elements are. -/
theorem reads_list [ToJson α] {item : Reader α} {xs : List α}
    (h : ∀ x ∈ xs, Reads item (toJson x) x) : Reads (list item) (toJson xs) xs := by
  have htree : (toJson xs).tree = .array (Json.treeItems (xs.map toJson)) true := rfl
  rw [Reads, htree, list, mapM_treeItems h]
  rfl

theorem reads_vector [ToJson α] {n : Nat} {item : Reader α} {xs : Vector α n}
    (h : ∀ x ∈ xs, Reads item (toJson x) x) : Reads (vector n item) (toJson xs) xs := by
  have hitems := mapM_treeItems fun x hx => h x (Vector.mem_toList_iff.1 hx)
  have hlength : (Json.treeItems (xs.toList.map toJson)).length = n := by
    simp [Json.treeItems_eq_map]
  have htree : (toJson xs).tree = .array (Json.treeItems (xs.toList.map toJson)) true := rfl
  rw [Reads, htree, vector, List.take_of_length_le (Nat.le_of_eq hlength), hitems]
  have hsize : xs.toList.toArray.size = n := by simp
  simp only [bind, Except.bind, hsize, hlength, dite_true, and_self, if_true]
  rfl

end Reader

/-! ## Fields -/

namespace Fields

open Reader

variable {members : List (String × Json)} {name : String} {j : Json} {a : α}

/-- Among members of different names the fields are found and read as `a`. -/
def Takes (fields : Fields α) (members : List (String × Json)) (a : α) : Prop :=
  (members.map Prod.fst).Nodup → fields.fromMembers (Json.treeMembers members) = .ok a

/-- What is taken of some members may be changed by a function. -/
theorem Takes.map {fields : Fields α} (f : α → β) (h : fields.Takes members a) :
    (f <$> fields).Takes members (f a) := by
  intro hnodup
  show both (.ok f) (fields.fromMembers (Json.treeMembers members)) = .ok (f a)
  rw [h hnodup]
  rfl

/-- Fields are taken one after the other. -/
theorem Takes.seq {more : Fields (α → β)} {fields : Fields α} {f : α → β}
    (hf : more.Takes members f) (h : fields.Takes members a) :
    (more <*> fields).Takes members (f a) := by
  intro hnodup
  show both (more.fromMembers (Json.treeMembers members))
    (fields.fromMembers (Json.treeMembers members)) = .ok (f a)
  rw [hf hnodup, h hnodup]
  rfl

/-- A place of a written object holds the tree of one of its members. -/
theorem exists_of_mem_zipIdx {entry : (Option String × JsonNode) × Nat} {start : Nat}
    (h : entry ∈ (Json.treeMembers members).zipIdx start) :
    ∃ member ∈ members, entry.1 = (some member.1, member.2.tree) := by
  have hmem := List.fst_mem_of_mem_zipIdx h
  rw [Json.treeMembers_eq_map] at hmem
  obtain ⟨member, hmember, heq⟩ := List.mem_map.1 hmem
  exact ⟨member, hmember, heq.symm⟩

/-- A name that does not occur has no place, from whatever number the members are counted. -/
theorem places_of_not_mem (h : name ∉ members.map Prod.fst) (start : Nat) :
    ((Json.treeMembers members).zipIdx start).filterMap (fun ((key, node), place) =>
      if key = some name then some (place, node) else none) = [] := by
  rw [List.filterMap_eq_nil_iff]
  rintro ⟨⟨key, node⟩, place⟩ hentry
  obtain ⟨member, hmember, heq⟩ := exists_of_mem_zipIdx hentry
  obtain ⟨rfl, rfl⟩ := Prod.mk.inj heq
  have hother : member.1 ≠ name := fun hname => h (List.mem_map.2 ⟨member, hmember, hname⟩)
  simp [hother]

/-- A name that occurs once has one place. -/
theorem exists_placesOf (hnodup : (members.map Prod.fst).Nodup) (hmem : (name, j) ∈ members) :
    ∃ place, placesOf name (Json.treeMembers members) = [(place, j.tree)] := by
  obtain ⟨before, after, rfl⟩ := List.append_of_mem hmem
  rw [List.map_append, List.map_cons, List.nodup_append, List.nodup_cons] at hnodup
  obtain ⟨-, ⟨hafter, -⟩, hdisjoint⟩ := hnodup
  have hbefore : name ∉ before.map Prod.fst := fun h =>
    hdisjoint name h name (List.mem_cons_self) rfl
  refine ⟨before.length, ?_⟩
  have htree : Json.treeMembers (before ++ (name, j) :: after) =
      Json.treeMembers before ++ (some name, j.tree) :: Json.treeMembers after := by
    simp [Json.treeMembers_eq_map]
  rw [placesOf, htree, List.zipIdx_append, List.filterMap_append, places_of_not_mem hbefore,
    List.zipIdx_cons, List.filterMap_cons]
  simp only [if_true]
  rw [places_of_not_mem hafter]
  simp [Json.treeMembers_eq_map]

/-- A field is read from the member of its name, which is the only one. -/
theorem takes_required {reader : Reader α} (hmem : (name, j) ∈ members) (h : Reads reader j a) :
    (required name reader).Takes members a := by
  intro hnodup
  obtain ⟨place, hplace⟩ := exists_placesOf hnodup hmem
  have hread : reader j.tree = .ok a := h
  simp only [required, field, hplace, hread]

end Fields

namespace Reader

open Fields

/-! ## Records -/

mutual

/-- A tree that was made of a value has no breaks. -/
theorem complete_tree : ∀ j : Json, j.tree.complete = true
  | .null | .bool _ | .number _ | .string _ => rfl
  | .array xs => by rw [Json.tree, JsonNode.complete, completeItems_treeItems xs]; rfl
  | .object ms => by rw [Json.tree, JsonNode.complete, completeMembers_treeMembers ms]; rfl

/-- The items of a tree that comes of a value are complete. -/
theorem completeItems_treeItems : ∀ xs : List Json,
    JsonNode.completeItems (Json.treeItems xs) = true
  | [] => rfl
  | x :: xs => by
    rw [Json.treeItems, JsonNode.completeItems, complete_tree x, completeItems_treeItems xs]
    rfl

theorem completeMembers_treeMembers : ∀ ms : List (String × Json),
    JsonNode.completeMembers (Json.treeMembers ms) = true
  | [] => rfl
  | (_, v) :: ms => by
    rw [Json.treeMembers, JsonNode.completeMembers, complete_tree v, completeMembers_treeMembers ms]
    rfl

end

/-- No member of a written object is a fault of its own. -/
theorem straying_treeMembers (names : List String) (members : List (String × Json)) :
    straying names (Json.treeMembers members) true = .ok () := by
  rw [straying]
  split
  · next entry place others hstrays =>
    have hstray := List.mem_cons_self (a := (entry, place)) (l := others)
    rw [← hstrays, List.mem_filter] at hstray
    obtain ⟨member, -, heq⟩ := exists_of_mem_zipIdx hstray.1
    obtain rfl : entry = (some member.1, member.2.tree) := heq
    simp [complete_tree] at hstray
  · rfl

/-- A record is read back if its fields are, and no two of its members have one name. -/
theorem reads_record {fields : Fields α} {members : List (String × Json)} {a : α}
    (hnodup : (members.map Prod.fst).Nodup) (h : fields.Takes members a) :
    Reads (record fields) (.object members) a := by
  rw [Reads, Json.tree, record, h hnodup, straying_treeMembers]
  rfl

end Reader

end Reactions
