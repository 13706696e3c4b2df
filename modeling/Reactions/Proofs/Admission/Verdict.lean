import Reactions.Admission.Decision
import Reactions.Proofs.Membership.Attempt

/-!
# How a verdict comes about

Admission asks the verifier about one statement after the other and stops at the first answer that
settles the matter, so its verdict is that answer, or the last one if there is none
(`getLast?_answers`). It gets that far only if the policy, the identifiers and the secrets allow it
(`Known`), and then the roots of the feed are all that it asks the store for:
`finish_verdict_of_known` and `finish_verdict_of_not_known`.
-/

namespace Reactions.Admission

/-! ## The answers of a verifier -/

variable {examine : Statement → Except String Verdict}

/-- The last answer is the first that settles the matter, or the one to the last statement. -/
theorem getLast?_answers (examine : Statement → Except String Verdict)
    (statements : List Statement) :
    (answers examine statements).getLast? =
      ((statements.map examine).find? fun answer => !isOpen answer).or
        (statements.map examine).getLast? := by
  induction statements with
  | nil => rfl
  | cons s rest ih =>
    rw [answers, List.map_cons]
    cases hopen : isOpen (examine s) with
    | false => simp [hopen]
    | true =>
      simp only [if_true, List.getLast?_cons, ih, List.find?_cons, hopen, Bool.not_true]
      cases (rest.map examine).find? fun answer => !isOpen answer <;> simp

/-- If the first answer accepts then it is the verdict, and no other statement is asked about. -/
theorem conclude_answers_of_accepts (feed : FeedId) {st : Statement} {verdict : Verdict}
    (h : examine st = .ok verdict) (haccepts : verdict.accepts = true) (rest : List Statement) :
    conclude feed (answers examine (st :: rest)) = .ok verdict := by
  have hclosed : isOpen (.ok verdict) = false := by
    cases verdict with
    | reject r => cases haccepts
    | accept | acceptWithWarning _ => rfl
  rw [answers, h, hclosed]
  rfl

/-! ## What admission has to know -/

variable {verifier : Verifier} {secrets : FeedSecrets} {window : Nat} {policy : RetryPolicy}
  {clock : Clock} {tx : Reaction} {nullifier messageId : ScalarField} {key : Point}
  {author : Commitment} {u u' : UnitOfWork} {s s' : Store}

/-- Nothing but the roots is missing for the statements of a reaction: the policy lets its version
pass, its identifiers stand for field elements, and the secrets of feed and message are known. -/
structure Known (verifier : Verifier) (secrets : FeedSecrets) (tx : Reaction)
    (nullifier messageId : ScalarField) (key : Point) (author : Commitment) : Prop where
  policy : verifier.policyRejection tx.circuitVersion = none
  nullifier : tx.nullifier.toField? = some nullifier
  messageId : tx.messageId.toField? = some messageId
  key : secrets.key? tx.feedId = some key
  author : secrets.author? tx.feedId tx.messageId = some author

/-- The reaction is let in. -/
def Accepted (outcome : Except AdmissionError Verdict) : Prop :=
  ∃ verdict, outcome = .ok verdict ∧ verdict.accepts = true

/-- If nothing but the roots is missing, then the roots are all that the store is asked for. -/
theorem assess_of_known (h : Known verifier secrets tx nullifier messageId key author) :
    assess verifier secrets window policy clock tx = do
      let roots ← (Membership.recentRoots policy clock tx.feedId (max window 1)).adapt .membership
      return .ok ((roots.filterMap (·.rootField?)).map
        (statement tx nullifier messageId key author)) := by
  rw [assess, h.policy, h.nullifier, h.messageId, h.key, h.author]

/-- What can be said of a reaction either does not depend on the store, and then there are no
statements, or nothing but the roots is missing. -/
theorem assess_cases (verifier : Verifier) (secrets : FeedSecrets) (window : Nat)
    (policy : RetryPolicy) (clock : Clock) (tx : Reaction) :
    (∃ outcome, (∀ statements, outcome ≠ .ok (.ok statements)) ∧
      assess verifier secrets window policy clock tx = ExceptT.mk (pure outcome)) ∨
    ∃ nullifier messageId key author,
      Known verifier secrets tx nullifier messageId key author := by
  rw [assess]
  cases hpolicy : verifier.policyRejection tx.circuitVersion with
  | some rejection => exact .inl ⟨_, by rintro _ ⟨⟩, rfl⟩
  | none =>
    cases hnullifier : tx.nullifier.toField? with
    | none => exact .inl ⟨_, by rintro _ ⟨⟩, rfl⟩
    | some nullifier =>
      cases hmessage : tx.messageId.toField? with
      | none => exact .inl ⟨_, by rintro _ ⟨⟩, rfl⟩
      | some messageId =>
        cases hkey : secrets.key? tx.feedId with
        | none => exact .inl ⟨_, by rintro _ ⟨⟩, rfl⟩
        | some key =>
          cases hauthor : secrets.author? tx.feedId tx.messageId with
          | none => exact .inl ⟨_, by rintro _ ⟨⟩, rfl⟩
          | some author =>
            exact .inr
              ⟨nullifier, messageId, key, author, hpolicy, hnullifier, hmessage, hkey, hauthor⟩

/-- The statements of a reaction are about the roots of its feed that can be read. -/
theorem finish_assess_of_roots (h : Known verifier secrets tx nullifier messageId key author)
    {rows : List RootEntry}
    (hroots : Work.finish (Membership.recentRoots policy clock tx.feedId (max window 1)) u s =
      (.ok rows, u', s')) :
    Work.finish (assess verifier secrets window policy clock tx) u s =
      (.ok (.ok ((rows.filterMap (·.rootField?)).map
        (statement tx nullifier messageId key author))), u', s') := by
  have hadapt : Work.finish ((Membership.recentRoots policy clock tx.feedId (max window 1)).adapt
      AdmissionError.membership) u s = (.ok rows, u', s') := by
    rw [Work.finish_adapt, hroots]
    rfl
  rw [assess_of_known h, Work.finish_bind_ok _ hadapt]
  exact Work.finish_pure _

/-- If a reaction's statements can be put together, then its verdict is drawn from the answers to
them. -/
theorem finish_verdict_of_known (h : Known verifier secrets tx nullifier messageId key author)
    {rows : List RootEntry}
    (hroots : Work.finish (Membership.recentRoots policy clock tx.feedId (max window 1)) u s =
      (.ok rows, u', s')) :
    Work.finish (verdict verifier secrets window policy clock tx) u s =
      (conclude tx.feedId (answers (verifier.examine tx.circuitVersion tx.proof)
        ((rows.filterMap (·.rootField?)).map (statement tx nullifier messageId key author))),
        u', s') := by
  rw [verdict, Work.finish_bind_ok _ (finish_assess_of_roots h hroots)]
  exact Work.finish_liftExcept _

/-- The store is asked one question first. If the answer has roots then the verdict is drawn from
the answers to the statements about them. -/
theorem exists_run_verdict (window : Nat) (policy : RetryPolicy) (clock : Clock)
    (h : Known verifier secrets tx nullifier messageId key author) :
    ∃ next : List RootEntry → Program (Except AdmissionError Verdict),
      (verdict verifier secrets window policy clock tx).run =
        .begin .readOnly (.call (.read (.recentRoots tx.feedId (max window 1))) next) ∧
      ∀ row rows, next (row :: rows) =
        (liftExcept (conclude tx.feedId (answers (verifier.examine tx.circuitVersion tx.proof)
          (((row :: rows).filterMap (·.rootField?)).map
            (statement tx nullifier messageId key author)))) :
              Work AdmissionError Verdict).run := by
  rw [verdict, assess_of_known h]
  exact ⟨_, rfl, fun _ _ => rfl⟩

/-- If the roots of the feed cannot be had, then there is no verdict. -/
theorem finish_verdict_of_error (h : Known verifier secrets tx nullifier messageId key author)
    {e : MembershipError}
    (hroots : Work.finish (Membership.recentRoots policy clock tx.feedId (max window 1)) u s =
      (.error e, u', s')) :
    Work.finish (verdict verifier secrets window policy clock tx) u s =
      (.error (.membership e), u', s') := by
  have hadapt : Work.finish ((Membership.recentRoots policy clock tx.feedId (max window 1)).adapt
      AdmissionError.membership) u s = (.error (.membership e), u', s') := by
    rw [Work.finish_adapt, hroots]
    rfl
  rw [verdict]
  refine Work.finish_bind_error _ ?_
  rw [assess_of_known h]
  exact Work.finish_bind_error _ hadapt

/-- Otherwise the reaction is not let in, and the store is not asked. -/
theorem finish_verdict_of_not_known (window : Nat) (policy : RetryPolicy) (clock : Clock)
    (u : UnitOfWork) (s : Store)
    (h : ∀ nullifier messageId key author,
      ¬ Known verifier secrets tx nullifier messageId key author) :
    ∃ outcome, ¬ Accepted outcome ∧
      Work.finish (verdict verifier secrets window policy clock tx) u s = (outcome, u, s) := by
  have hreject (r : Rejection) : ¬ Accepted (.ok (.reject r)) := by
    rintro ⟨_, hok, haccepts⟩
    cases hok
    cases haccepts
  have herror (e : AdmissionError) : ¬ Accepted (.error e) := by
    rintro ⟨_, hok, -⟩
    cases hok
  rcases assess_cases verifier secrets window policy clock tx with
    ⟨outcome, hnone, hassess⟩ | ⟨nullifier, messageId, key, author, hknown⟩
  · rw [verdict, hassess]
    match outcome, hnone with
    | .error e, _ => exact ⟨_, herror e, rfl⟩
    | .ok (.error r), _ => exact ⟨_, hreject r, rfl⟩
    | .ok (.ok statements), hnone => exact absurd rfl (hnone statements)
  · exact absurd hknown (h nullifier messageId key author)

/-- Admission leaves all rows as they are, or logs the root of the leaves of the feed. -/
theorem finish_verdict_cases (verifier : Verifier) (secrets : FeedSecrets) (window : Nat)
    (policy : RetryPolicy) (clock : Clock) (tx : Reaction) (u : UnitOfWork) (s : Store) :
    ∃ outcome u' s', Work.finish (verdict verifier secrets window policy clock tx) u s =
        (outcome, u', s') ∧
      (s.Quiet s' ∨ ∃ attempt t, s.Quiet t ∧ s' = t.logRoot tx.feedId 0 (clock attempt)) := by
  by_cases h : ∃ nullifier messageId key author,
      Known verifier secrets tx nullifier messageId key author
  · obtain ⟨nullifier, messageId, key, author, h⟩ := h
    obtain ⟨outcome, u', s', hroots, hcases⟩ :=
      Membership.finish_recentRoots_cases policy clock tx.feedId (max window 1) u s
    cases outcome with
    | ok rows => exact ⟨_, u', s', finish_verdict_of_known h hroots, hcases⟩
    | error e => exact ⟨_, u', s', finish_verdict_of_error h hroots, hcases⟩
  · obtain ⟨outcome, -, hfinish⟩ := finish_verdict_of_not_known window policy clock u s
      fun nullifier messageId key author hknown => h ⟨nullifier, messageId, key, author, hknown⟩
    exact ⟨outcome, u, s, hfinish, .inl (.refl s)⟩

end Reactions.Admission
