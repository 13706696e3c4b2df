import Reactions.Rows.Identifier
import Reactions.Rows.VoteJson

/-!
# Tallies

The row of a message: the sum of all votes on it that count, still encrypted, and how many they
are. A vote is never changed inside the sum; the old one is subtracted and the new one added.
-/

namespace Reactions

open Fields

/-- The running encrypted tally of a message. -/
structure Tally where
  messageId : MessageId
  feedId : FeedId
  tally : Vote
  totalCount : Nat
  /-- Counts the writes of the row. -/
  version : Nat
  lastUpdated : Timestamp
deriving DecidableEq

namespace Tally

instance : ToJson Tally := ⟨fun row => .object [
  ("message_id", toJson row.messageId),
  ("feed_id", toJson row.feedId),
  ("tally", toJson row.tally),
  ("total_count", toJson row.totalCount),
  ("version", toJson row.version),
  ("last_updated", .string row.lastUpdated.write)]⟩

/-- Reads a tally's row. -/
def reader : Reader Tally :=
  record (mk <$> required "message_id" Identifier.reader <*> required "feed_id" Identifier.reader
    <*> required "tally" Vote.reader <*> required "total_count" .nat64
    <*> required "version" .nat64 <*> required "last_updated" .timestamp)

/-- The tally of a message before any vote: every slot neutral. -/
def empty (messageId : MessageId) (feedId : FeedId) (now : Timestamp) : Tally :=
  ⟨messageId, feedId, .identity, 0, 0, now⟩

/-- Adds a vote of a member who has none yet. -/
def addVote (row : Tally) (vote : Vote) (now : Timestamp) : Tally :=
  { row with
    tally := row.tally + vote
    totalCount := row.totalCount + 1
    version := row.version + 1
    lastUpdated := now }

/-- Puts a member's new vote in the place of the recorded one. The count stays. -/
def replaceVote (row : Tally) (old new : Vote) (now : Timestamp) : Tally :=
  { row with
    tally := row.tally - old + new
    version := row.version + 1
    lastUpdated := now }

end Tally

end Reactions
