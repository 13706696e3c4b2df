import Reactions.Rows.Identifier
import Reactions.Rows.VoteJson

/-!
# Votes on record

Two rows that tell of single votes. The ledger has one for every nullifier, with the latest vote
behind it; the audit log has one for every reaction that was accepted, changes of vote included.
-/

namespace Reactions

open Fields

/-- The vote recorded behind a nullifier. -/
structure LedgerRow where
  nullifier : Nullifier
  messageId : MessageId
  vote : Vote
  /-- The member's own encrypted copy of the choice. -/
  backup : Bytes
  createdAt : Timestamp
  updatedAt : Timestamp
deriving DecidableEq

namespace LedgerRow

instance : ToJson LedgerRow := ⟨fun row => .object [
  ("nullifier", toJson row.nullifier),
  ("message_id", toJson row.messageId),
  ("vote", toJson row.vote),
  ("encrypted_emoji_backup", row.backup.toJson),
  ("created_at", .string row.createdAt.write),
  ("updated_at", .string row.updatedAt.write)]⟩

/-- Reads a ledger row. -/
def reader : Reader LedgerRow :=
  record (mk <$> required "nullifier" Identifier.reader <*> required "message_id" Identifier.reader
    <*> required "vote" Vote.reader <*> required "encrypted_emoji_backup" .bytes
    <*> required "created_at" .timestamp <*> required "updated_at" .timestamp)

/-- The row of a first vote. -/
def firstVote (nullifier : Nullifier) (messageId : MessageId) (vote : Vote) (backup : Bytes)
    (now : Timestamp) : LedgerRow :=
  ⟨nullifier, messageId, vote, backup, now, now⟩

/-- The same nullifier and message with another vote. -/
def withVote (row : LedgerRow) (vote : Vote) (backup : Bytes) (now : Timestamp) : LedgerRow :=
  { row with vote, backup, updatedAt := now }

end LedgerRow

/-- An accepted reaction in the audit log, changes of vote included. -/
structure AuditRow where
  id : Nat
  blockHeight : Nat
  feedId : FeedId
  messageId : MessageId
  nullifier : Nullifier
  vote : Vote
  proof : Bytes
  circuitVersion : String
  createdAt : Timestamp
deriving DecidableEq

namespace AuditRow

instance : ToJson AuditRow := ⟨fun row => .object [
  ("id", toJson row.id),
  ("block_height", toJson row.blockHeight),
  ("feed_id", toJson row.feedId),
  ("message_id", toJson row.messageId),
  ("nullifier", toJson row.nullifier),
  ("vote", toJson row.vote),
  ("zk_proof", row.proof.toJson),
  ("circuit_version", .string row.circuitVersion),
  ("created_at", .string row.createdAt.write)]⟩

/-- Reads an audit row. -/
def reader : Reader AuditRow :=
  record (mk <$> required "id" .nat64 <*> required "block_height" .nat64
    <*> required "feed_id" Identifier.reader <*> required "message_id" Identifier.reader
    <*> required "nullifier" Identifier.reader <*> required "vote" Vote.reader
    <*> required "zk_proof" .bytes <*> required "circuit_version" .string
    <*> required "created_at" .timestamp)

end AuditRow

end Reactions
