import Reactions.Json.Record
import Reactions.Rows.Identifier

/-!
# Members and roots

The rows of a feed's membership: one for every member, whose commitment is a leaf of the feed's
tree, and one for every root that the tree has had. Neither is ever changed.
-/

namespace Reactions

open Fields

/-- A member's leaf in a feed's tree. -/
structure MemberCommitment where
  feedId : FeedId
  commitment : Commitment
  registeredAt : Timestamp
deriving DecidableEq

namespace MemberCommitment

instance : ToJson MemberCommitment := ⟨fun row => .object [
  ("feed_id", toJson row.feedId),
  ("commitment", toJson row.commitment),
  ("registered_at", .string row.registeredAt.write)]⟩

/-- Reads a member's row. -/
def reader : Reader MemberCommitment :=
  record (mk <$> required "feed_id" Identifier.reader <*> required "commitment" Commitment.reader
    <*> required "registered_at" .timestamp)

end MemberCommitment

/-- One entry of a feed's root history. -/
structure RootEntry where
  feedId : FeedId
  root : Bytes32
  blockHeight : Nat
  createdAt : Timestamp
deriving DecidableEq

namespace RootEntry

/-- The root as a field element. -/
def rootField? (row : RootEntry) : Option ScalarField := Residue.ofBytes? row.root

instance : ToJson RootEntry := ⟨fun row => .object [
  ("feed_id", toJson row.feedId),
  ("root", toJson row.root),
  ("block_height", toJson row.blockHeight),
  ("created_at", .string row.createdAt.write)]⟩

/-- Reads a root's row. -/
def reader : Reader RootEntry :=
  record (mk <$> required "feed_id" Identifier.reader <*> required "root" .bytes32
    <*> required "block_height" .nat64 <*> required "created_at" .timestamp)

end RootEntry

end Reactions
