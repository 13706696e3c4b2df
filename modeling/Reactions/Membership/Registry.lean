import Reactions.Store.Work
import Reactions.Merkle.Tree

/-!
# The registry of members

Every feed has a tree whose leaves are its members' commitments in the order of registration. A
commitment is registered once and keeps its leaf for ever; a member who leaves or is banned keeps
it too. Each registration logs the new root, and the root can be logged again at any height.
-/

namespace Reactions

/-- Why an operation on the registry fails. -/
inductive MembershipError
  | treeFull (feed : FeedId)
  | store (error : StoreError)
deriving DecidableEq

namespace MembershipError

/-- The wording of a failure. -/
def message : MembershipError → String
  | .treeFull feed => "membership tree of feed " ++ feed.write ++ " is full"
  | .store e => e.message

/-- Whether the same call may succeed later. -/
def isRetryable : MembershipError → Bool
  | .treeFull _ => false
  | .store .readOnly => false
  | .store _ => true

instance : StoreFailure MembershipError where
  ofStore := .store
  store?
    | .store e => some e
    | .treeFull _ => none

end MembershipError

/-- What came of a registration. -/
inductive Registration
  /-- The commitment is a leaf already. -/
  | alreadyRegistered
  | registered (root : ScalarField) (leafIndex : Nat)
deriving DecidableEq

/-- A witness that a commitment is a leaf of a feed's tree. -/
structure MembershipProof where
  root : ScalarField
  leafIndex : Nat
  path : Merkle.Path
  /-- The number of levels of the tree. -/
  depth : Nat
  /-- The height of the newest entry of the root history, zero if there is none. -/
  blockHeight : Nat
deriving DecidableEq

/-- Whether the path leads from a leaf to the root. -/
def MembershipProof.verifies (proof : MembershipProof) (leaf : Commitment) : Bool :=
  proof.path.root leaf.value = proof.root

namespace Membership

/-- The leaves that rows of members stand for. -/
def leavesOf (rows : List MemberCommitment) : List ScalarField := rows.map (·.commitment.value)

/-- One attempt to register a commitment. -/
def tryRegister (feed : FeedId) (commitment : Commitment) (height : Nat) (now : Timestamp) :
    Work MembershipError Registration := do
  Work.begin .serializable
  if ← Work.read (.contains feed commitment) then return .alreadyRegistered
  let leaves := leavesOf (← Work.read (.commitments feed))
  if Merkle.treeCapacity ≤ leaves.length then throw (.treeFull feed)
  let root := Merkle.root (leaves ++ [commitment.value])
  Work.save (.commitment ⟨feed, commitment, now⟩)
  Work.save (.root ⟨feed, root.toBytes, height, now⟩)
  Work.commit
  return .registered root leaves.length

/-- Makes a commitment the next leaf of a feed and logs the new root. -/
def register (policy : RetryPolicy) (clock : Clock) (feed : FeedId) (commitment : Commitment)
    (height : Nat) : Work MembershipError Registration :=
  (Work.retried policy fun attempt => tryRegister feed commitment height (clock attempt)).adapt
    Failed.error

/-- Whether a commitment is registered. -/
def isRegistered (feed : FeedId) (commitment : Commitment) : Work MembershipError Bool := do
  Work.begin .readOnly
  Work.read (.contains feed commitment)

/-- The witness of a commitment, if it is registered. -/
def proof? (feed : FeedId) (commitment : Commitment) :
    Work MembershipError (Option MembershipProof) := do
  Work.begin .readOnly
  if !(← Work.read (.contains feed commitment)) then return none
  let rows ← Work.read (.commitments feed)
  let some index := rows.findIdx? (·.commitment = commitment) | return none
  let leaves := leavesOf rows
  let some path := Merkle.Path.ofLeaves? leaves index | return none
  let newest ← Work.read (.recentRoots feed 1)
  return some {
    root := Merkle.root leaves
    leafIndex := index
    path
    depth := Merkle.treeDepth
    blockHeight := (newest.head?.map (·.blockHeight)).getD 0 }

/-- One attempt to log a feed's root. -/
def tryUpdateRoot (feed : FeedId) (height : Nat) (now : Timestamp) :
    Work MembershipError ScalarField := do
  Work.begin .serializable
  let root := Merkle.root (leavesOf (← Work.read (.commitments feed)))
  Work.save (.root ⟨feed, root.toBytes, height, now⟩)
  Work.commit
  return root

/-- Logs the root of a feed's present leaves at a height. -/
def updateRoot (policy : RetryPolicy) (clock : Clock) (feed : FeedId) (height : Nat) :
    Work MembershipError ScalarField :=
  (Work.retried policy fun attempt => tryUpdateRoot feed height (clock attempt)).adapt
    Failed.error

/-- The newest roots of a feed, newest first. For a feed that has members and no root yet, one is
logged first, at height zero. -/
def recentRoots (policy : RetryPolicy) (clock : Clock) (feed : FeedId) (count : Nat) :
    Work MembershipError (List RootEntry) := do
  Work.begin .readOnly
  let rows ← Work.read (.recentRoots feed count)
  if !rows.isEmpty then return rows
  if (← Work.read (.commitments feed)).isEmpty then return rows
  let _ ← updateRoot policy clock feed 0
  Work.begin .readOnly
  Work.read (.recentRoots feed count)

end Membership

end Reactions
