import Reactions.Rows.Identifier
import Reactions.Store.Table

/-!
# Secrets of feeds

Two parts of a statement do not come with the reaction: the feed's public key, and the commitment
of the message's author.
-/

namespace Reactions

/-- What is known of feeds and messages. -/
structure FeedSecrets where
  keys : Assoc FeedId Point := ∅
  authors : Assoc (FeedId × MessageId) Commitment := ∅

namespace FeedSecrets

/-- Sets the public key of a feed. -/
def setKey (secrets : FeedSecrets) (feed : FeedId) (key : Point) : FeedSecrets :=
  { secrets with keys := secrets.keys.save (feed, key) }

/-- Sets the author of a message. -/
def setAuthor (secrets : FeedSecrets) (feed : FeedId) (message : MessageId) (author : Commitment) :
    FeedSecrets :=
  { secrets with authors := secrets.authors.save ((feed, message), author) }

/-- The public key of a feed. -/
def key? (secrets : FeedSecrets) (feed : FeedId) : Option Point := secrets.keys.get? feed

/-- The author of a message. -/
def author? (secrets : FeedSecrets) (feed : FeedId) (message : MessageId) : Option Commitment :=
  secrets.authors.get? (feed, message)

end FeedSecrets

end Reactions
