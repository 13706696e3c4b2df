import Reactions.Store.Program

/-!
# Lookups

What clients may ask of the ledger. Every question is a read-only unit of work of its own.
-/

namespace Reactions.Ledger

/-- Asks one question. -/
def ask (query : Query) : Program query.Answer := .begin .readOnly (.call (.read query) .done)

/-- The tallies of those messages that belong to the feed and have any reaction. -/
def tallies (feed : FeedId) (messages : List MessageId) : Program (List Tally) :=
  ask (.tallies feed messages)

/-- Whether a nullifier has voted. -/
def nullifierExists (nullifier : Nullifier) : Program Bool := do
  return (← ask (.nullifier nullifier)).isSome

/-- The member's own encrypted copy of the latest choice. -/
def backup? (nullifier : Nullifier) : Program (Option Bytes) := do
  return (← ask (.nullifier nullifier)).map (·.backup)

/-- The audit rows of a message, in the order in which they were committed. -/
def transactions (message : MessageId) : Program (List AuditRow) := ask (.transactions message)

end Reactions.Ledger
