import Reactions.Node.File
import Reactions.Rows.MembershipEvent
import Reactions.Rows.Reaction

/-!
# Logs

A log has one JSON record a line. A record gives the key of a feed, the author of a message, an
event about a member, or a reaction. Blank lines are passed over, and the first line that holds no
record ends the reading.
-/

namespace Reactions

/-- A record of a log. -/
inductive LogRecord
  | feedKey (feed : FeedId) (key : Point)
  | message (feed : FeedId) (message : MessageId) (author : String)
  | membership (event : MembershipEvent)
  | reaction (reaction : IndexedReaction)

/-- Why a log cannot be read. -/
inductive LogError
  /-- There is no log, or a line that is no text. -/
  | unreadable
  /-- A line that holds no record. -/
  | record (line : Nat) (error : ReadError)
deriving DecidableEq, Repr

open Fields in
/-- Reads a record. Its kind is named by its member `type`. -/
def LogRecord.reader : Reader LogRecord :=
  .tagged "type" [
    ("feed_key", record (feedKey <$> required "feed_id" Identifier.reader
      <*> required "public_key" Point.reader)),
    ("message", record (message <$> required "feed_id" Identifier.reader
      <*> required "message_id" Identifier.reader <*> required "author_address" .string)),
    ("membership", fun node => (MembershipEvent.reader true node).map membership),
    ("reaction", fun node => (IndexedReaction.reader node).map reaction)]

namespace Log

/-- The lines of a log. A line feed ends a line, and nothing after the last one is no line. -/
def lines (bytes : Bytes) : List Bytes :=
  let (line, done) := bytes.foldr
    (fun b (line, done) => if b = 10 then ([], line :: done) else (b :: line, done)) ([], [])
  if bytes.getLast? = some 10 then (line :: done).dropLast
  else if bytes.isEmpty then []
  else line :: done

/-- The record in a line, if the line is not blank. -/
def recordOf (number : Nat) (line : Bytes) : Except LogError (Option LogRecord) :=
  match String.fromUTF8? ⟨line.toArray⟩ with
  | none => .error .unreadable
  | some text =>
    if text.toList.all isBlank then .ok none
    else ((LogRecord.reader.document text).map some).mapError (.record number)

/-- The records of lines, with the numbers of their lines from `number` on. -/
def recordsFrom : (number : Nat) → List Bytes → Except LogError (List (Nat × LogRecord))
  | _, [] => .ok []
  | number, line :: rest => do
    match ← recordOf number line with
    | none => recordsFrom (number + 1) rest
    | some record => return (number, record) :: (← recordsFrom (number + 1) rest)

/-- The records of a log, with the numbers of their lines, the first of which is one. -/
def records : FileContent → Except LogError (List (Nat × LogRecord))
  | .bytes content => recordsFrom 1 (lines content)
  | _ => .error .unreadable

end Log

end Reactions
