import Reactions.Digest.Sha256
import Reactions.Arithmetic.Fields

/-!
# Secrets derived from a feed key

A feed's symmetric key gives one secret for every message and one for the feed, by HKDF over
HMAC-SHA-256: the identifier is the salt and a fixed context string keeps the purposes apart.
-/

namespace Reactions

/-- HMAC over SHA-256, for keys of at most one block. -/
def hmac (key message : Bytes) : Bytes32 :=
  let padded := key ++ List.replicate (64 - key.length) 0
  let inner := Sha256.digest (padded.map (· ^^^ 0x36) ++ message)
  Sha256.digest (padded.map (· ^^^ 0x5c) ++ inner.toList)

/-- The first thirty-two bytes of HKDF output: extract with the salt, then expand one block. -/
def hkdf (salt key context : Bytes) : Bytes32 :=
  hmac (hmac salt key).toList (context ++ [1])

/-- The length that a feed's symmetric key must have. -/
def feedKeyLength : Nat := 32

/-- A feed key of another length than `feedKeyLength`. -/
structure InvalidKeyLength where
  actual : Nat
deriving DecidableEq, Repr

/-- The wording of a refused key. -/
def InvalidKeyLength.message (e : InvalidKeyLength) : String :=
  "feed key must be " ++ toString feedKeyLength ++ " bytes, got " ++ toString e.actual

/-- What a secret is derived for, with the identifier that salts it. -/
inductive Purpose
  /-- The reaction key of a message. -/
  | messageKey (message : Bytes32)
  /-- The secret of a feed. -/
  | feedSecret (feed : Bytes32)

namespace Purpose

/-- The context string of a purpose. -/
def context : Purpose → String
  | .messageKey _ => "omega/reactions/message-key/v1"
  | .feedSecret _ => "omega/reactions/feed-secret/v1"

/-- The identifier that salts a secret. -/
def salt : Purpose → Bytes32
  | .messageKey message => message
  | .feedSecret feed => feed

/-- The secret of a purpose under a feed key. -/
def derive (purpose : Purpose) (feedKey : Bytes) : Except InvalidKeyLength Bytes32 :=
  if feedKey.length = feedKeyLength then
    .ok (hkdf purpose.salt.toList feedKey purpose.context.toUTF8.toList)
  else
    .error ⟨feedKey.length⟩

end Purpose

end Reactions
