import Reactions.Rows.Reaction
import Reactions.Store.Work

/-!
# Processing of reactions

A reaction changes three things at once: the tally of its message, the ledger row of its
nullifier, and the audit log. A nullifier without a row casts a new vote; one with a row changes
its vote, so that the recorded one is taken out of the tally and the new one put in.
-/

namespace Reactions

/-- Why a reaction is not processed. -/
inductive ProcessingError
  /-- Every attempt that the policy allows lost a race. -/
  | retriesExhausted (attempts : Nat) (cause : StoreError)
  /-- The nullifier has voted on another message. -/
  | nullifierMismatch (nullifier : Nullifier) (recorded claimed : MessageId)
  /-- The message belongs to another feed. -/
  | feedMismatch (message : MessageId) (recorded claimed : FeedId)
  | store (error : StoreError)
deriving DecidableEq

namespace ProcessingError

/-- The wording of a failure. -/
def message : ProcessingError → String
  | .retriesExhausted attempts _ =>
    "gave up after " ++ Decimal.write attempts ++ " conflicting attempts"
  | .nullifierMismatch nullifier recorded claimed =>
    "nullifier " ++ nullifier.write ++ " was recorded for message " ++ recorded.write ++
      ", not " ++ claimed.write
  | .feedMismatch message recorded claimed =>
    "message " ++ message.write ++ " belongs to feed " ++ recorded.write ++
      ", not " ++ claimed.write
  | .store e => e.message

instance : StoreFailure ProcessingError where
  ofStore := .store
  store?
    | .store e => some e
    | _ => none

end ProcessingError

/-- What a reaction did to the ledger. -/
inductive ReactionKind
  | newVote
  | updated
deriving DecidableEq, Repr

/-- The name of a kind. -/
def ReactionKind.name : ReactionKind → String
  | .newVote => "new_vote"
  | .updated => "updated"

/-- A reaction that was processed. -/
structure Processed where
  kind : ReactionKind
  /-- The tally as it was committed. -/
  tally : Tally
  /-- The number of the audit row. -/
  transactionId : Nat
  attempts : Nat
deriving DecidableEq

namespace Ledger

/-- The audit row of a reaction, before it has a number. -/
def auditRow (tx : Reaction) (height : Nat) (now : Timestamp) : AuditRow where
  id := 0
  blockHeight := height
  feedId := tx.feedId
  messageId := tx.messageId
  nullifier := tx.nullifier
  vote := tx.vote
  proof := tx.proof
  circuitVersion := tx.circuitVersion
  createdAt := now

/-- Which way a vote takes. -/
inductive VoteRoute
  /-- The nullifier has cast no vote yet. -/
  | fresh
  /-- The vote takes the place of the one on record. -/
  | update (recorded : LedgerRow)
deriving DecidableEq

namespace VoteRoute

/-- The row that a nullifier has decides. -/
def ofRecorded : Option LedgerRow → VoteRoute
  | some recorded => .update recorded
  | none => .fresh

/-- Whether a vote on record is changed. -/
def isUpdate : VoteRoute → Bool
  | .update _ => true
  | .fresh => false

/-- The kind of a reaction that takes the route. -/
def kind (route : VoteRoute) : ReactionKind := if route.isUpdate then .updated else .newVote

end VoteRoute

/-- The kind of a reaction, with the tally and the ledger row after it, given the tally before it
and the row that its nullifier has. -/
def tallied (tx : Reaction) (now : Timestamp) (current : Tally) (recorded : Option LedgerRow) :
    Except ProcessingError (ReactionKind × Tally × LedgerRow) :=
  let route := VoteRoute.ofRecorded recorded
  match route with
  | .fresh =>
    .ok (route.kind, current.addVote tx.vote now,
      .firstVote tx.nullifier tx.messageId tx.vote tx.backup now)
  | .update existing =>
    if existing.messageId = tx.messageId then
      .ok (route.kind, current.replaceVote existing.vote tx.vote now,
        existing.withVote tx.vote tx.backup now)
    else
      .error (.nullifierMismatch tx.nullifier existing.messageId tx.messageId)

/-- A nullifier without a row casts a new vote. -/
theorem tallied_none (tx : Reaction) (now : Timestamp) (current : Tally) :
    tallied tx now current none = .ok (.newVote, current.addVote tx.vote now,
      .firstVote tx.nullifier tx.messageId tx.vote tx.backup now) := rfl

/-- One with a row changes the vote there, if that is a vote on the same message. -/
theorem tallied_some (tx : Reaction) (now : Timestamp) (current : Tally) (existing : LedgerRow) :
    tallied tx now current (some existing) =
      if existing.messageId = tx.messageId then
        .ok (.updated, current.replaceVote existing.vote tx.vote now,
          existing.withVote tx.vote tx.backup now)
      else .error (.nullifierMismatch tx.nullifier existing.messageId tx.messageId) := rfl

/-- One attempt to process a reaction. -/
def tryProcess (tx : Reaction) (height : Nat) (now : Timestamp) (attempt : Nat) :
    Work ProcessingError Processed := do
  Work.begin .serializable
  let current := (← Work.read (.tally tx.messageId)).getD (.empty tx.messageId tx.feedId now)
  if current.feedId ≠ tx.feedId then
    throw (.feedMismatch tx.messageId current.feedId tx.feedId)
  let recorded ← Work.read (.nullifier tx.nullifier)
  let (kind, tally, row) ← liftExcept (tallied tx now current recorded)
  Work.save (.nullifier row)
  Work.save (.tally tally)
  let audit ← Work.append (auditRow tx height now)
  Work.commit
  return { kind, tally, transactionId := audit.id, attempts := attempt }

/-- The error of a reaction that was tried some times: races lost to the end have an error of
their own. -/
def finalError : Failed ProcessingError → ProcessingError
  | ⟨attempts, .store .conflict⟩ => .retriesExhausted attempts .conflict
  | ⟨_, e⟩ => e

/-- Processes a reaction of a block. -/
def process (policy : RetryPolicy) (clock : Clock) (tx : Reaction) (height : Nat) :
    Work ProcessingError Processed :=
  (Work.retried policy fun attempt => tryProcess tx height (clock attempt) attempt).adapt finalError

/-- How many reactions were new votes, changes of a vote, or failed. -/
structure IndexStats where
  newVotes : Nat := 0
  updates : Nat := 0
  failed : Nat := 0
deriving DecidableEq, Repr

instance : ToJson IndexStats := ⟨fun stats => .object [
  ("new_votes", toJson stats.newVotes),
  ("updates", toJson stats.updates),
  ("failed", toJson stats.failed)]⟩

/-- Counts the outcome of one reaction. -/
def IndexStats.count (stats : IndexStats) : Except ProcessingError Processed → IndexStats
  | .ok { kind := .newVote, .. } => { stats with newVotes := stats.newVotes + 1 }
  | .ok { kind := .updated, .. } => { stats with updates := stats.updates + 1 }
  | .error _ => { stats with failed := stats.failed + 1 }

/-- Processes one indexed reaction and counts its outcome. -/
def index (policy : RetryPolicy) (clock : Clock) (stats : IndexStats) (reaction : IndexedReaction) :
    Program IndexStats := do
  return stats.count (← (process policy clock reaction.transaction reaction.blockHeight).run)

/-- Processes indexed reactions in order. `clocks` has one clock for every reaction. -/
def indexAll (policy : RetryPolicy) (clocks : Nat → Clock) (reactions : List IndexedReaction) :
    Program IndexStats :=
  reactions.zipIdx.foldlM (fun stats (reaction, i) => index policy (clocks i) stats reaction) {}

end Ledger

end Reactions
