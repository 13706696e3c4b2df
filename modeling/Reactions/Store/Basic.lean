import Reactions.Rows.LedgerRow
import Reactions.Rows.Member
import Reactions.Rows.Tally
import Reactions.Store.Table

/-!
# The store

The committed state of a node: the members and roots of all feeds and the audit log as logs that
only grow, the tallies and the ledger as tables. Every part of it that a unit of work can contend
for has a version, which is the number of the commit that wrote it last; what was never written
has version zero.
-/

namespace Reactions

/-- Why an operation on the store fails. -/
inductive StoreError
  /-- A row that was read has been written by someone else since. -/
  | conflict
  /-- A write in a unit of work that only reads. -/
  | readOnly
  | backend (text : String)
deriving DecidableEq, Repr

/-- The wording of a failure. -/
def StoreError.message : StoreError → String
  | .conflict => "serialization conflict with a concurrent writer"
  | .readOnly => "write attempted in a read-only unit of work"
  | .backend text => "storage backend failure: " ++ text

/-- What a version is kept for: the members of a feed, its roots, one tally, one ledger row. -/
inductive RowKey
  | commitments (feed : FeedId)
  | roots (feed : FeedId)
  | tally (message : MessageId)
  | nullifier (nullifier : Nullifier)
deriving DecidableEq

/-- A row to be written. -/
inductive Write
  | commitment (row : MemberCommitment)
  | root (row : RootEntry)
  | tally (row : Tally)
  | nullifier (row : LedgerRow)
deriving DecidableEq

/-- What a write counts as a write of. -/
def Write.key : Write → RowKey
  | .commitment row => .commitments row.feedId
  | .root row => .roots row.feedId
  | .tally row => .tally row.messageId
  | .nullifier row => .nullifier row.nullifier

/-- The state of a store. -/
structure Store where
  /-- The members of all feeds, the last one first. -/
  commitments : List MemberCommitment := []
  /-- The roots of all feeds, the newest first. -/
  roots : List RootEntry := []
  tallies : Table Tally.messageId := ∅
  nullifiers : Table LedgerRow.nullifier := ∅
  /-- The audit log, the last row first. -/
  transactions : List AuditRow := []
  versions : Assoc RowKey Nat := ∅
  /-- The number of commits so far. -/
  clock : Nat := 0
  /-- The number that the last audit row was given, be it committed or not. -/
  lastTransactionId : Nat := 0
  /-- Errors that the next commits are made to fail with. -/
  failures : List StoreError := []

namespace Store

/-- The store before any write. -/
def empty : Store := {}

instance : Inhabited Store := ⟨empty⟩

/-- The version of what a key stands for. -/
def version (s : Store) (key : RowKey) : Nat := (s.versions.get? key).getD 0

/-- The rows of a feed's members, in the order of registration. -/
def members (s : Store) (feed : FeedId) : List MemberCommitment :=
  (s.commitments.filter (·.feedId = feed)).reverse

/-- The root history of a feed, newest first. -/
def history (s : Store) (feed : FeedId) : List RootEntry := s.roots.filter (·.feedId = feed)

/-- The audit rows of a message, in the order in which they were committed. -/
def trail (s : Store) (message : MessageId) : List AuditRow :=
  (s.transactions.filter (·.messageId = message)).reverse

/-- Writes one row as a part of the commit `stamp`. -/
def apply (stamp : Nat) (write : Write) (s : Store) : Store :=
  let s := { s with versions := s.versions.save (write.key, stamp) }
  match write with
  | .commitment row => { s with commitments := row :: s.commitments }
  | .root row => { s with roots := row :: s.roots }
  | .tally row => { s with tallies := s.tallies.save row }
  | .nullifier row => { s with nullifiers := s.nullifiers.save row }

/-- Makes the next commits fail, one with each of the errors in order. -/
def failNextCommits (s : Store) (errors : List StoreError) : Store :=
  { s with failures := s.failures ++ errors }

end Store

end Reactions
