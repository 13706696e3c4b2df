import Reactions.Store.Basic

/-!
# Units of work

A unit of work reads the store as it stands at the moment, together with the unit's own pending
writes, and keeps its writes to itself until it commits. It remembers the version of everything
it has read from the store at the first time it did so. A commit publishes all writes at once,
provided that none of those versions has moved; else it fails with a conflict.

Two reads record nothing: that of the audit log, and that of a tally or ledger row which the unit
has itself written. Numbers for audit rows are given out at once and never taken back.
-/

namespace Reactions

/-- What a unit of work may do. -/
inductive Isolation
  | readOnly
  | serializable
deriving DecidableEq, Repr

/-- The state of a unit of work. -/
structure UnitOfWork where
  isolation : Isolation
  /-- The version of everything read, as it was at the first read. -/
  reads : Assoc RowKey Nat := ∅
  /-- The pending writes, the last one first. -/
  writes : List Write := []
  /-- The pending audit rows, the last one first. -/
  audit : List AuditRow := []

/-- A question to the store. -/
inductive Query
  /-- The members of a feed, in the order of registration. -/
  | commitments (feed : FeedId)
  /-- Whether a commitment is registered. -/
  | contains (feed : FeedId) (commitment : Commitment)
  /-- The newest roots of a feed, newest first. -/
  | recentRoots (feed : FeedId) (count : Nat)
  | tally (message : MessageId)
  /-- The tallies of those of the messages that belong to a feed. -/
  | tallies (feed : FeedId) (messages : List MessageId)
  | nullifier (nullifier : Nullifier)
  /-- The audit rows of a message, in order. -/
  | transactions (message : MessageId)

/-- The type of the answer to a question. -/
abbrev Query.Answer : Query → Type
  | .commitments _ => List MemberCommitment
  | .contains _ _ => Bool
  | .recentRoots _ _ => List RootEntry
  | .tally _ => Option Tally
  | .tallies _ _ => List Tally
  | .nullifier _ => Option LedgerRow
  | .transactions _ => List AuditRow

namespace UnitOfWork

/-- A unit of work before its first call. -/
def opened (isolation : Isolation) : UnitOfWork := { isolation }

instance : Inhabited UnitOfWork := ⟨opened .readOnly⟩

/-! ## Pending rows -/

/-- The pending members of a feed, the last one first. -/
def pendingCommitments (u : UnitOfWork) (feed : FeedId) : List MemberCommitment :=
  u.writes.filterMap fun
    | .commitment row => if row.feedId = feed then some row else none
    | _ => none

/-- The pending roots of a feed, newest first. -/
def pendingRoots (u : UnitOfWork) (feed : FeedId) : List RootEntry :=
  u.writes.filterMap fun
    | .root row => if row.feedId = feed then some row else none
    | _ => none

/-- The last pending tally of a message. -/
def pendingTally (u : UnitOfWork) (message : MessageId) : Option Tally :=
  u.writes.findSome? fun
    | .tally row => if row.messageId = message then some row else none
    | _ => none

/-- The last pending ledger row of a nullifier. -/
def pendingNullifier (u : UnitOfWork) (nullifier : Nullifier) : Option LedgerRow :=
  u.writes.findSome? fun
    | .nullifier row => if row.nullifier = nullifier then some row else none
    | _ => none

/-! ## Reads -/

/-- The tally of a message. -/
def tally (u : UnitOfWork) (s : Store) (message : MessageId) : Option Tally :=
  (u.pendingTally message).or (s.tallies.find? message)

/-- The answer to a question. -/
def answer (u : UnitOfWork) (s : Store) : (q : Query) → q.Answer
  | .commitments feed => s.members feed ++ (u.pendingCommitments feed).reverse
  | .contains feed commitment =>
    (u.pendingCommitments feed).any (·.commitment = commitment) ||
      s.commitments.any fun row => row.feedId = feed && row.commitment = commitment
  | .recentRoots feed count => (u.pendingRoots feed ++ s.history feed).take count
  | .tally message => u.tally s message
  | .tallies feed messages => (messages.filterMap (u.tally s)).filter (·.feedId = feed)
  | .nullifier nullifier => (u.pendingNullifier nullifier).or (s.nullifiers.find? nullifier)
  | .transactions message => s.trail message ++ (u.audit.filter (·.messageId = message)).reverse

/-- What a question asks the store for and has to see unchanged at the commit. -/
def touched (u : UnitOfWork) : Query → List RowKey
  | .commitments feed | .contains feed _ => [.commitments feed]
  | .recentRoots feed _ => [.roots feed]
  | .tally message => if (u.pendingTally message).isSome then [] else [.tally message]
  | .tallies _ messages =>
    (messages.filter fun m => (u.pendingTally m).isNone).map RowKey.tally
  | .nullifier n => if (u.pendingNullifier n).isSome then [] else [.nullifier n]
  | .transactions _ => []

/-- Remembers the version of what is read for the first time. -/
def touch (s : Store) (u : UnitOfWork) (key : RowKey) : UnitOfWork :=
  if (u.reads.get? key).isSome then u
  else { u with reads := u.reads.save (key, s.version key) }

/-- Asks a question. -/
def read (u : UnitOfWork) (s : Store) (q : Query) : q.Answer × UnitOfWork :=
  (u.answer s q, (u.touched q).foldl (touch s) u)

/-! ## Writes -/

/-- Whether the unit may write. -/
def writable (u : UnitOfWork) : Except StoreError Unit :=
  match u.isolation with
  | .readOnly => .error .readOnly
  | .serializable => .ok ()

/-- Keeps a row to be written at the commit. -/
def save (u : UnitOfWork) (write : Write) : Except StoreError UnitOfWork := do
  u.writable
  return { u with writes := write :: u.writes }

/-- Keeps an audit row to be written at the commit, under a number that the store gives it. -/
def append (u : UnitOfWork) (s : Store) (row : AuditRow) :
    Except StoreError (AuditRow × Store × UnitOfWork) := do
  u.writable
  let row := { row with id := s.lastTransactionId + 1 }
  return (row, { s with lastTransactionId := row.id }, { u with audit := row :: u.audit })

end UnitOfWork

namespace Store

/-- Nothing that the unit has read was written since. -/
def unmoved (s : Store) (u : UnitOfWork) : Bool :=
  u.reads.rows.all fun (key, seen) => s.version key = seen

/-- Writes everything that a unit has pending. -/
def publish (s : Store) (u : UnitOfWork) : Store :=
  let stamp := s.clock + 1
  let s := u.writes.foldr (apply stamp) { s with clock := stamp }
  { s with transactions := u.audit ++ s.transactions }

/-- Ends a unit of work by publishing its writes, all or none. One that only reads has nothing to
publish; any other meets the failures that commits are made to have, and then its conflicts. -/
def commit (s : Store) (u : UnitOfWork) : Except StoreError Unit × Store :=
  match u.isolation with
  | .readOnly => (.ok (), s)
  | .serializable =>
    match s.failures with
    | e :: rest => (.error e, { s with failures := rest })
    | [] => if s.unmoved u then (.ok (), s.publish u) else (.error .conflict, s)

end Store

end Reactions
