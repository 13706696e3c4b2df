import Reactions.Admission.Secrets
import Reactions.Membership.Registry
import Reactions.Rows.Reaction
import Reactions.Verifier.Verdict

/-!
# Admission

A reaction is admitted if its proof is accepted for one of the newest membership roots of its
feed. The policy on versions comes first and the form of the identifiers second; then the
statements are put together, one for every root, and the verifier is asked about them from the
newest root on until an answer can not depend on the root.
-/

namespace Reactions

/-- Why no verdict on a reaction can be reached. -/
inductive AdmissionError
  | unknownFeed (feed : FeedId)
  | unknownMessage (message : MessageId)
  | noMembershipRoot (feed : FeedId)
  /-- The examination of the proof broke off and left a text. -/
  | verifier (text : String)
  | membership (error : MembershipError)
deriving DecidableEq

namespace AdmissionError

/-- The wording of a failure. -/
def message : AdmissionError → String
  | .unknownFeed feed => "no public key known for feed " ++ feed.write
  | .unknownMessage message => "no author known for message " ++ message.write
  | .noMembershipRoot feed => "feed " ++ feed.write ++ " has no membership root yet"
  | .verifier text => "verifier task failed: " ++ text
  | .membership e => e.message

end AdmissionError

namespace Admission

/-- The refusal of identifiers that stand for no field element. -/
def nonCanonical : Rejection :=
  ⟨.invalidFormat, "nullifier and message id must be canonical field elements"⟩

/-- The statement of a reaction about one root. -/
def statement (tx : Reaction) (nullifier messageId : ScalarField) (key : Point)
    (author : Commitment) (root : ScalarField) : Statement where
  nullifier
  messageId
  membersRoot := root
  authorCommitment := author.value
  feedKey := key
  c1 := tx.c1
  c2 := tx.c2

/-- What can be said of a reaction before its proof is looked at: a refusal, or the statements to
ask the verifier about, newest root first. -/
def assess (verifier : Verifier) (secrets : FeedSecrets) (window : Nat) (policy : RetryPolicy)
    (clock : Clock) (tx : Reaction) : Work AdmissionError (Except Rejection (List Statement)) := do
  if let some rejection := verifier.policyRejection tx.circuitVersion then
    return .error rejection
  let some nullifier := tx.nullifier.toField? | return .error nonCanonical
  let some messageId := tx.messageId.toField? | return .error nonCanonical
  let some key := secrets.key? tx.feedId | throw (.unknownFeed tx.feedId)
  let some author := secrets.author? tx.feedId tx.messageId | throw (.unknownMessage tx.messageId)
  let roots ← (Membership.recentRoots policy clock tx.feedId (max window 1)).adapt .membership
  return .ok ((roots.filterMap (·.rootField?)).map (statement tx nullifier messageId key author))

/-- Whether another root might get another answer: only a failed proof check depends on it. -/
def isOpen : Except String Verdict → Bool
  | .ok (.reject r) => r.code = .invalidProof
  | _ => false

/-- The verifier's answers to statements, up to the first that settles the matter. -/
def answers (examine : Statement → Except String Verdict) :
    List Statement → List (Except String Verdict)
  | [] => []
  | s :: rest =>
    let answer := examine s
    if isOpen answer then answer :: answers examine rest else [answer]

/-- The verdict of a list of answers: the last of them. -/
def conclude (feed : FeedId) (answers : List (Except String Verdict)) :
    Except AdmissionError Verdict :=
  match answers.getLast? with
  | none => .error (.noMembershipRoot feed)
  | some (.error text) => .error (.verifier text)
  | some (.ok verdict) => .ok verdict

/-- Decides whether a reaction may enter. -/
def verdict (verifier : Verifier) (secrets : FeedSecrets) (window : Nat) (policy : RetryPolicy)
    (clock : Clock) (tx : Reaction) : Work AdmissionError Verdict := do
  match ← assess verifier secrets window policy clock tx with
  | .error rejection => return .reject rejection
  | .ok statements =>
    liftExcept (conclude tx.feedId
      (answers (verifier.examine tx.circuitVersion tx.proof) statements))

end Admission

end Reactions
