import Reactions.Rows.Identifier
import Reactions.Rows.VoteJson

/-!
# Reactions

What a member sends: an encrypted vote on a message, the proof that it may be cast, and the
nullifier that ties it to the other votes of the same member on that message.
-/

namespace Reactions

open Fields

/-- A reaction whose signature the chain has checked. -/
structure Reaction where
  feedId : FeedId
  messageId : MessageId
  nullifier : Nullifier
  c1 : Vector Point emojiSlots
  c2 : Vector Point emojiSlots
  proof : Bytes
  circuitVersion : String
  backup : Bytes
  sender : String
deriving DecidableEq

namespace Reaction

/-- The vote that the reaction carries. -/
def vote (r : Reaction) : Vote := .ofParts r.c1 r.c2

instance : ToJson Reaction := ⟨fun r => .object [
  ("feed_id", toJson r.feedId),
  ("message_id", toJson r.messageId),
  ("nullifier", toJson r.nullifier),
  ("ciphertext_c1", toJson r.c1),
  ("ciphertext_c2", toJson r.c2),
  ("zk_proof", r.proof.toJson),
  ("circuit_version", .string r.circuitVersion),
  ("encrypted_emoji_backup", r.backup.toJson),
  ("sender_address", .string r.sender)]⟩

/-- Reads a reaction. -/
def reader : Reader Reaction :=
  record (mk <$> required "feed_id" Identifier.reader <*> required "message_id" Identifier.reader
    <*> required "nullifier" Identifier.reader
    <*> required "ciphertext_c1" (.vector emojiSlots Point.reader)
    <*> required "ciphertext_c2" (.vector emojiSlots Point.reader)
    <*> required "zk_proof" .bytes <*> required "circuit_version" .string
    <*> required "encrypted_emoji_backup" .bytes <*> required "sender_address" .string)

end Reaction

/-- A reaction with the height of its block. -/
structure IndexedReaction where
  transaction : Reaction
  blockHeight : Nat
deriving DecidableEq

namespace IndexedReaction

instance : ToJson IndexedReaction := ⟨fun r => .object [
  ("transaction", toJson r.transaction),
  ("block_height", toJson r.blockHeight)]⟩

/-- Reads an indexed reaction. -/
def reader : Reader IndexedReaction :=
  record (mk <$> required "transaction" Reaction.reader <*> required "block_height" .nat64)

end IndexedReaction

end Reactions
