import Reactions.Node.Log
import Reactions.Proofs.Json.Tagged
import Reactions.Proofs.Rows.RoundTrip

/-!
# Logs are read back

Records can be written as a log, each as a JSON object on a line of its own that names its kind
first (`Log.write`). The text of an object has no line feed in it, so the lines of the log are those
texts (`Log.lines_write`), and each of them is read back as its record (`LogRecord.reads`). So
whatever records a log is to have, if their points lie on the curve and their counters fit into
sixty-four bits, then there is one that has them (`Log.records_write`).
-/

namespace Reactions

/-! ## Line feeds -/

namespace Json

/-- A newline is escaped. -/
theorem newline_not_mem_escape (c : Char) : '\n' ∉ escape c := by
  have hdigit : ∀ v < 32, Hex.digit (v / 16) ≠ '\n' ∧ Hex.digit (v % 16) ≠ '\n' := by decide
  rw [escape]
  split
  · decide
  split
  · decide
  split
  · decide
  split
  · decide
  split
  · decide
  split
  · decide
  split
  · decide
  split
  · rename_i hcontrol
    obtain ⟨hhigh, hlow⟩ := hdigit c.toNat hcontrol
    simp [controlEscape, hhigh.symm, hlow.symm]
  · rename_i hnewline _ _ _ _ _
    simpa using Ne.symm hnewline

/-- There is no newline in a quoted string. -/
theorem newline_not_mem_quote (s : String) : '\n' ∉ quote s := by
  simp [quote, newline_not_mem_escape]

mutual

/-- A value is written on one line. -/
theorem newline_not_mem_renderChars : ∀ j : Json, '\n' ∉ renderChars j
  | .null => by rw [renderChars]; decide
  | .bool b => by cases b <;> rw [renderChars] <;> decide
  | .number n => by
    rw [renderChars]
    exact fun h => absurd (Decimal.isRun_digits n _ h) (by decide)
  | .string s => by rw [renderChars]; exact newline_not_mem_quote s
  | .array items => by simp [renderChars, newline_not_mem_renderItems items]
  | .object members => by simp [renderChars, newline_not_mem_renderMembers members]

/-- The items of an array are written on one line. -/
theorem newline_not_mem_renderItems : ∀ items : List Json, '\n' ∉ renderItems items
  | [] => by simp [renderItems]
  | [j] => by simp [renderItems, newline_not_mem_renderChars j]
  | j :: j' :: rest => by
    simp [renderItems, newline_not_mem_renderChars j, newline_not_mem_renderItems (j' :: rest)]

/-- The members of an object are written on one line. -/
theorem newline_not_mem_renderMembers : ∀ members : List (String × Json),
    '\n' ∉ renderMembers members
  | [] => by simp [renderMembers]
  | [(k, j)] => by simp [renderMembers, newline_not_mem_quote k, newline_not_mem_renderChars j]
  | (k, j) :: member :: rest => by
    simp [renderMembers, newline_not_mem_quote k, newline_not_mem_renderChars j,
      newline_not_mem_renderMembers (member :: rest)]

end

/-- The bytes of what is written have no line feed. -/
theorem newline_not_mem_render (j : Json) : (10 : UInt8) ∉ j.render.toUTF8.toList := by
  rw [toUTF8_eq_flatMap, render, String.toList_ofList, List.mem_flatMap]
  rintro ⟨c, hc, hbyte⟩
  obtain ⟨-, rfl⟩ := utf8EncodeChar_of_mem_of_lt hbyte (by decide)
  exact newline_not_mem_renderChars j hc

end Json

/-! ## Records -/

namespace LogRecord

/-- The name of a record's kind. -/
def kind : LogRecord → String
  | .feedKey .. => "feed_key"
  | .message .. => "message"
  | .membership _ => "membership"
  | .reaction _ => "reaction"

/-- What a record holds beside its kind. -/
def members : LogRecord → List (String × Json)
  | .feedKey feed key => [("feed_id", toJson feed), ("public_key", toJson key)]
  | .message feed id author => [
    ("feed_id", toJson feed),
    ("message_id", toJson id),
    ("author_address", .string author)]
  | .membership event => [
    ("kind", .string event.kind.name),
    ("feed_id", toJson event.feedId),
    ("member_address", .string event.address),
    ("key_generation", toJson event.keyGeneration),
    ("block_height", toJson event.blockHeight)]
  | .reaction indexed => [
    ("transaction", toJson indexed.transaction),
    ("block_height", toJson indexed.blockHeight)]

instance : ToJson LogRecord :=
  ⟨fun record => .object (("type", .string record.kind) :: record.members)⟩

/-- A record that a log can hold: its points lie on the curve, and its counters fit into sixty-four
bits. -/
def Writable : LogRecord → Prop
  | .feedKey _ key => key.OnCurve
  | .message .. => True
  | .membership event =>
    event.keyGeneration < UInt64.size ∧ event.blockHeight < UInt64.size
  | .reaction indexed =>
    (∀ p ∈ indexed.transaction.c1, p.OnCurve) ∧ (∀ p ∈ indexed.transaction.c2, p.OnCurve) ∧
      indexed.blockHeight < UInt64.size

/-- No two members of a record share a name, and none is named like its type. -/
theorem nodup_members (record : LogRecord) :
    ("type" :: record.members.map Prod.fst).Nodup := by
  cases record <;> simp [members]

/-- A point is nested once. -/
theorem keepable_point (depth : Nat) (p : Point) : (toJson p).Keepable (depth + 1) := by
  refine Json.keepable_object fun member hmember => ?_
  simp only [List.mem_cons, List.not_mem_nil, or_false] at hmember
  rcases hmember with rfl | rfl <;> exact Json.keepable_string _

/-- The points of a vote are shallow enough to be kept. -/
theorem keepable_points (depth : Nat) {n : Nat} (points : Vector Point n) :
    (toJson points).Keepable (depth + 2) := by
  refine Json.keepable_array fun j hj => ?_
  obtain ⟨p, -, rfl⟩ := List.mem_map.1 hj
  exact keepable_point depth p

/-- A reaction is shallow enough to be kept. -/
theorem keepable_reaction (depth : Nat) (tx : Reaction) :
    (toJson tx).Keepable (depth + 3) := by
  refine Json.keepable_object fun member hmember => ?_
  simp only [List.mem_cons, List.not_mem_nil, or_false] at hmember
  rcases hmember with rfl | rfl | rfl | rfl | rfl | rfl | rfl | rfl | rfl
  · exact Json.keepable_string _
  · exact Json.keepable_string _
  · exact Json.keepable_string _
  · exact keepable_points depth tx.c1
  · exact keepable_points depth tx.c2
  · exact Json.keepable_string _
  · exact Json.keepable_string _
  · exact Json.keepable_string _
  · exact Json.keepable_string _

/-- What stands beside the kind of a record can be kept until the kind is known. -/
theorem keepable_members {record : LogRecord} (h : record.Writable) :
    ∀ member ∈ record.members, member.2.Keepable (Reader.maxDepth - 1) := by
  intro member hmember
  cases record with
  | feedKey feed key =>
    simp only [members, List.mem_cons, List.not_mem_nil, or_false] at hmember
    rcases hmember with rfl | rfl
    · exact Json.keepable_string _
    · exact keepable_point _ key
  | message feed id author =>
    simp only [members, List.mem_cons, List.not_mem_nil, or_false] at hmember
    rcases hmember with rfl | rfl | rfl <;> exact Json.keepable_string _
  | membership event =>
    simp only [members, List.mem_cons, List.not_mem_nil, or_false] at hmember
    rcases hmember with rfl | rfl | rfl | rfl | rfl
    · exact Json.keepable_string _
    · exact Json.keepable_string _
    · exact Json.keepable_string _
    · exact Json.keepable_nat h.1
    · exact Json.keepable_nat h.2
  | reaction indexed =>
    simp only [members, List.mem_cons, List.not_mem_nil, or_false] at hmember
    rcases hmember with rfl | rfl
    · exact keepable_reaction _ indexed.transaction
    · exact Json.keepable_nat h.2.2

open Reader Fields in
/-- A record is read back from its line. -/
theorem reads {record : LogRecord} (h : record.Writable) :
    Reads reader (toJson record) record := by
  have hkept := keepable_members h
  have hnodup := nodup_members record
  cases record with
  | feedKey feed key =>
    refine reads_tagged rfl hnodup hkept (reads_record (by simp [members]) (.seq (.map _ ?_) ?_))
    · exact takes_required (by simp [members]) (Identifier.reads feed)
    · exact takes_required (by simp [members]) (Point.reads h)
  | message feed id author =>
    refine reads_tagged rfl hnodup hkept
      (reads_record (by simp [members]) (.seq (.seq (.map _ ?_) ?_) ?_))
    · exact takes_required (by simp [members]) (Identifier.reads feed)
    · exact takes_required (by simp [members]) (Identifier.reads id)
    · exact takes_required (by simp [members]) (reads_string author)
  | membership event =>
    exact reads_tagged rfl hnodup hkept ((MembershipEvent.reads true h.1 h.2).map membership)
  | reaction indexed =>
    exact reads_tagged rfl hnodup hkept
      ((IndexedReaction.reads h.1 h.2.1 h.2.2).map LogRecord.reaction)

end LogRecord

/-! ## Lines -/

namespace Log

/-- The bytes of a record's line. -/
def line (record : LogRecord) : Bytes := (toJson record).render.toUTF8.toList

/-- Writes records, each on a line of its own. -/
def write (records : List LogRecord) : Bytes := records.flatMap fun record => line record ++ [10]

/-- How the lines of bytes are found: the first one, and those after it. -/
def gather (bytes : Bytes) : Bytes × List Bytes :=
  bytes.foldr (fun b (line, done) => if b = 10 then ([], line :: done) else (b :: line, done))
    ([], [])

/-- What stands before the first newline is the first line. -/
theorem gather_line {first : Bytes} (h : 10 ∉ first) (rest : Bytes) :
    gather (first ++ 10 :: rest) = (first, (gather rest).1 :: (gather rest).2) := by
  induction first with
  | nil => rfl
  | cons b first ih =>
    have hb : b ≠ 10 := fun hb => h (hb ▸ List.mem_cons_self)
    have hrest := ih fun hmem => h (List.mem_cons_of_mem _ hmem)
    rw [gather] at hrest ⊢
    rw [List.cons_append, List.foldr_cons, hrest]
    exact if_neg hb

/-- Lines that are each ended by a line feed are found, and an empty one after the last. -/
theorem gather_lines {ls : List Bytes} (h : ∀ l ∈ ls, (10 : UInt8) ∉ l) :
    (gather (ls.flatMap (· ++ [10]))).1 :: (gather (ls.flatMap (· ++ [10]))).2 = ls ++ [[]] := by
  induction ls with
  | nil => rfl
  | cons l rest ih =>
    have hrest := ih fun l hl => h l (List.mem_cons_of_mem _ hl)
    rw [List.flatMap_cons, List.append_assoc, List.singleton_append,
      gather_line (h l List.mem_cons_self), hrest]
    rfl

/-- Nothing after the last line feed is no line. -/
theorem lines_flatMap {ls : List Bytes} (h : ∀ l ∈ ls, (10 : UInt8) ∉ l) :
    lines (ls.flatMap (· ++ [10])) = ls := by
  have hgather := gather_lines h
  have hlines (bytes : Bytes) : lines bytes =
      if bytes.getLast? = some 10 then ((gather bytes).1 :: (gather bytes).2).dropLast
      else if bytes.isEmpty then [] else (gather bytes).1 :: (gather bytes).2 := rfl
  rw [hlines, hgather]
  rcases List.eq_nil_or_concat ls with rfl | ⟨front, last, rfl⟩
  · rfl
  · rw [if_pos (by simp), List.dropLast_concat]

/-! ## Logs -/

/-- The line of a record is read as the record. -/
theorem recordOf_line {record : LogRecord} (h : record.Writable) (number : Nat) :
    recordOf number (line record) = .ok (some record) := by
  have hblank : (toJson record).render.toList.all isBlank = false := by
    rw [Json.render, String.toList_ofList]
    change ('\x7b' :: _).all isBlank = false
    rw [List.all_cons, show isBlank '\x7b' = false by decide, Bool.false_and]
  rw [recordOf, line, fromUTF8?_toUTF8]
  dsimp only
  rw [hblank, if_neg Bool.false_ne_true, Reader.document_render (LogRecord.reads h)]
  rfl

/-- Lines in a row are read as their records, each under its number. -/
theorem recordsFrom_lines {records : List LogRecord} (h : ∀ record ∈ records, record.Writable)
    (number : Nat) : recordsFrom number (records.map line) =
      .ok ((records.zipIdx number).map Prod.swap) := by
  induction records generalizing number with
  | nil => rfl
  | cons record rest ih =>
    rw [List.map_cons, recordsFrom, recordOf_line (h record List.mem_cons_self)]
    simp only [bind, Except.bind,
      ih fun record hrecord => h record (List.mem_cons_of_mem _ hrecord)]
    rfl

/-- The log of some records has just those records, each with the number of its line. -/
theorem records_write {records : List LogRecord} (h : ∀ record ∈ records, record.Writable) :
    Log.records (.bytes (write records)) = .ok ((records.zipIdx 1).map Prod.swap) := by
  have hwrite : write records = (records.map line).flatMap (· ++ [10]) := by
    rw [write, List.flatMap_map]
  have hlines : ∀ l ∈ records.map line, (10 : UInt8) ∉ l := by
    intro l hl
    obtain ⟨record, -, rfl⟩ := List.mem_map.1 hl
    exact Json.newline_not_mem_render _
  rw [Log.records, hwrite, lines_flatMap hlines, recordsFrom_lines h]

end Log

end Reactions
