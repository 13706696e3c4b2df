import Reactions.Json.Record
import Reactions.Rows.Identifier

/-!
# Events about members

What the chain tells of a member of a feed, with the height of the block that says so.
-/

namespace Reactions

open Fields

/-- What happened to a member of a feed. -/
inductive MembershipKind
  | joined
  | left
  | banned
  | unbanned
deriving DecidableEq, Repr

namespace MembershipKind

/-- The name of each kind. -/
def name : MembershipKind → String
  | .joined => "joined"
  | .left => "left"
  | .banned => "banned"
  | .unbanned => "unbanned"

/-- Reads a kind; `kept` if the event was kept before it was known to be one. -/
def reader (kept : Bool) : Reader MembershipKind :=
  .variant kept ([joined, left, banned, unbanned].map fun k => (k.name, k))

end MembershipKind

/-- A notice of the chain about a member. -/
structure MembershipEvent where
  kind : MembershipKind
  feedId : FeedId
  address : String
  keyGeneration : Nat
  blockHeight : Nat
deriving DecidableEq

namespace MembershipEvent

instance : ToJson MembershipEvent := ⟨fun e => .object [
  ("kind", .string e.kind.name),
  ("feed_id", toJson e.feedId),
  ("member_address", .string e.address),
  ("key_generation", toJson e.keyGeneration),
  ("block_height", toJson e.blockHeight)]⟩

/-- Reads an event; `kept` as for its kind. -/
def reader (kept : Bool) : Reader MembershipEvent :=
  record (mk <$> required "kind" (MembershipKind.reader kept)
    <*> required "feed_id" Identifier.reader <*> required "member_address" .string
    <*> required "key_generation" .nat64 <*> required "block_height" .nat64)

end MembershipEvent

end Reactions
