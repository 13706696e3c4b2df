import Reactions.Ledger.Processing
import Reactions.Proofs.Store.Alone

/-!
# One attempt to process a reaction

What a reaction comes to depends on two rows of the store, the tally of its message and the ledger
row of its nullifier: `judge` says whether it is refused, and otherwise which rows it writes.
`Accepts` has the two ways in which that can go well. An attempt that runs alone does exactly what
`judge` says, except that its commit may be made to fail: `finish_tryProcess_of_error`,
`finish_tryProcess_of_failure` and `finish_tryProcess_of_ok`. `process_cases` has what is left of
that when attempts are repeated.
-/

namespace Reactions

/-- Commits a tally, a ledger row and an audit row. -/
def Store.record (s : Store) (tally : Tally) (row : LedgerRow) (audit : AuditRow) : Store :=
  { s with lastTransactionId := audit.id }.publish
    { isolation := .serializable, writes := [.tally tally, .nullifier row], audit := [audit] }

namespace Store

variable (s : Store) (tally : Tally) (row : LedgerRow) (audit : AuditRow)

@[simp] theorem tallies_record : (s.record tally row audit).tallies = s.tallies.save tally := rfl

@[simp] theorem nullifiers_record :
    (s.record tally row audit).nullifiers = s.nullifiers.save row := rfl

@[simp] theorem transactions_record :
    (s.record tally row audit).transactions = audit :: s.transactions := rfl

end Store

namespace Ledger

/-! ## The judgement -/

/-- The tally that a reaction starts from: that of its message, or one without votes. -/
def current (s : Store) (tx : Reaction) (now : Timestamp) : Tally :=
  (s.tallies.find? tx.messageId).getD (.empty tx.messageId tx.feedId now)

/-- What a reaction comes to on a store: a refusal, or its kind with the tally and the ledger row
after it. -/
def judge (s : Store) (tx : Reaction) (now : Timestamp) :
    Except ProcessingError (ReactionKind × Tally × LedgerRow) :=
  if (current s tx now).feedId ≠ tx.feedId then
    .error (.feedMismatch tx.messageId (current s tx now).feedId tx.feedId)
  else
    tallied tx now (current s tx now) (s.nullifiers.find? tx.nullifier)

/-- The two ways in which a reaction is accepted: its nullifier has no ledger row yet, or one for
the same message. Either way the message belongs to the reaction's feed. -/
inductive Accepts (s : Store) (tx : Reaction) (now : Timestamp) :
    ReactionKind → Tally → LedgerRow → Prop
  | first (hfeed : (current s tx now).feedId = tx.feedId)
    (hrow : s.nullifiers.find? tx.nullifier = none) :
    Accepts s tx now .newVote ((current s tx now).addVote tx.vote now)
      (.firstVote tx.nullifier tx.messageId tx.vote tx.backup now)
  | change {old : LedgerRow} (hfeed : (current s tx now).feedId = tx.feedId)
    (hrow : s.nullifiers.find? tx.nullifier = some old) (hmessage : old.messageId = tx.messageId) :
    Accepts s tx now .updated ((current s tx now).replaceVote old.vote tx.vote now)
      (old.withVote tx.vote tx.backup now)

variable {s : Store} {tx : Reaction} {now : Timestamp} {kind : ReactionKind} {tally : Tally}
  {row : LedgerRow}

/-- A reaction is accepted exactly in one of the two ways. -/
theorem accepts_iff :
    judge s tx now = .ok (kind, tally, row) ↔ Accepts s tx now kind tally row := by
  rw [judge]
  constructor
  · intro h
    by_cases hfeed : (current s tx now).feedId = tx.feedId
    · rw [if_neg (not_not.2 hfeed)] at h
      cases hrow : s.nullifiers.find? tx.nullifier with
      | none =>
        rw [hrow] at h
        cases h
        exact .first hfeed hrow
      | some old =>
        rw [hrow, tallied_some] at h
        split at h
        · rename_i hmessage
          cases h
          exact .change hfeed hrow hmessage
        · cases h
    · rw [if_pos hfeed] at h
      cases h
  · rintro (⟨hfeed, hrow⟩ | ⟨hfeed, hrow, hmessage⟩)
    · rw [if_neg (not_not.2 hfeed), hrow, tallied_none]
    · rw [if_neg (not_not.2 hfeed), hrow, tallied_some, if_pos hmessage]

/-- The judgement does not change with what no row depends on. -/
theorem judge_quiet {s' : Store} (h : s.Quiet s') : judge s' tx now = judge s tx now := by
  obtain ⟨failures, id, rfl⟩ := h
  rfl

/-! ## The tally and the row that a reaction finds and leaves -/

/-- The tally that a reaction starts from is that of its message. -/
@[simp] theorem messageId_current : (current s tx now).messageId = tx.messageId := by
  rw [current]
  cases h : s.tallies.find? tx.messageId with
  | none => rfl
  | some t => exact Table.key_of_find? h

/-- An accepted reaction writes the tally of its message. -/
theorem Accepts.messageId (h : Accepts s tx now kind tally row) :
    tally.messageId = tx.messageId := by
  cases h <;> exact messageId_current

/-- The tally that it writes is on its feed. -/
theorem Accepts.feedId (h : Accepts s tx now kind tally row) : tally.feedId = tx.feedId := by
  cases h with
  | first hfeed _ => exact hfeed
  | change hfeed _ _ => exact hfeed

/-- It writes the ledger row of its nullifier. -/
theorem Accepts.nullifier (h : Accepts s tx now kind tally row) :
    row.nullifier = tx.nullifier := by
  cases h with
  | first => rfl
  | change hfeed hrow hmessage =>
    have hold := Table.key_of_find? hrow
    exact hold

/-- Of the tallies, an accepted reaction changes the one of its message. -/
theorem find?_tallies_record (h : Accepts s tx now kind tally row) (audit : AuditRow)
    (message : MessageId) :
    (s.record tally row audit).tallies.find? message =
      if tx.messageId = message then some tally else s.tallies.find? message := by
  rw [Store.tallies_record, Table.find?_save, h.messageId]

/-- Of the ledger rows, an accepted reaction changes the one of its nullifier. -/
theorem find?_nullifiers_record (h : Accepts s tx now kind tally row) (audit : AuditRow)
    (nullifier : Nullifier) :
    (s.record tally row audit).nullifiers.find? nullifier =
      if tx.nullifier = nullifier then some row else s.nullifiers.find? nullifier := by
  rw [Store.nullifiers_record, Table.find?_save, h.nullifier]

end Ledger

/-! ## One attempt -/

namespace Ledger

variable {s : Store} {u : UnitOfWork} {tx : Reaction} {now : Timestamp} {kind : ReactionKind}
  {tally : Tally} {row : LedgerRow} {height attempt : Nat}

/-- The second half of an attempt: writes what the judgement says, and commits. -/
def settle (tx : Reaction) (height : Nat) (now : Timestamp) (attempt : Nat) :
    ReactionKind × Tally × LedgerRow → Work ProcessingError Processed
  | (kind, tally, row) => do
    Work.save (.nullifier row)
    Work.save (.tally tally)
    let audit ← Work.append (auditRow tx height now)
    Work.commit
    return { kind, tally, transactionId := audit.id, attempts := attempt }

/-- The audit row of a reaction under the next number. -/
def nextAudit (s : Store) (tx : Reaction) (height : Nat) (now : Timestamp) : AuditRow :=
  { auditRow tx height now with id := s.lastTransactionId + 1 }

/-- The first half of an attempt reads the two rows that the judgement depends on. -/
theorem finish_tryProcess (tx : Reaction) (height : Nat) (now : Timestamp) (attempt : Nat)
    (u : UnitOfWork) (s : Store) : ∃ u', u'.Reading s ∧
      Work.finish (tryProcess tx height now attempt) u s =
        Work.finish (liftExcept (judge s tx now) >>= settle tx height now attempt) u' s := by
  have hopened := UnitOfWork.Reading.opened s
  have hcurrent : ((UnitOfWork.opened .serializable).answer s (.tally tx.messageId)).getD
      (.empty tx.messageId tx.feedId now) = current s tx now := rfl
  have hread := hopened.read (.tally tx.messageId)
  rw [tryProcess, Work.finish_bind_ok _ (Work.finish_begin _),
    Work.finish_bind_ok _ (Work.finish_read _)]
  simp only [hcurrent]
  generalize ((UnitOfWork.opened .serializable).read s (.tally tx.messageId)).2 = u₁ at hread ⊢
  by_cases hfeed : (current s tx now).feedId = tx.feedId
  · refine ⟨_, hread.read (.nullifier tx.nullifier), ?_⟩
    have hrow : u₁.answer s (.nullifier tx.nullifier) = s.nullifiers.find? tx.nullifier := by
      simp [UnitOfWork.answer, UnitOfWork.pendingNullifier, hread.writes]
    rw [if_neg (not_not.2 hfeed), Work.finish_bind_ok _ (Work.finish_read _), hrow, judge,
      if_neg (not_not.2 hfeed)]
    rfl
  · refine ⟨u₁, hread, ?_⟩
    rw [if_pos hfeed, judge, if_pos hfeed, Work.finish_bind_error _ (Work.finish_throw _),
      Work.finish_bind_error _ (Work.finish_liftExcept _)]

/-- The second half of an attempt comes down to one commit. -/
theorem finish_settle (hu : u.Reading s) (tx : Reaction) (height : Nat) (now : Timestamp)
    (attempt : Nat) (kind : ReactionKind) (tally : Tally) (row : LedgerRow) :
    ∃ u', u'.isolation = .serializable ∧ u'.writes = [.tally tally, .nullifier row] ∧
      u'.audit = [nextAudit s tx height now] ∧
      s.unmoved u' ∧
      Work.finish (settle tx height now attempt (kind, tally, row)) u s =
        Work.finish (Work.commit >>= fun _ => pure
          ⟨kind, tally, s.lastTransactionId + 1, attempt⟩) u'
          { s with lastTransactionId := s.lastTransactionId + 1 } := by
  let u₁ : UnitOfWork := { u with writes := .nullifier row :: u.writes }
  let u₂ : UnitOfWork := { u₁ with writes := .tally tally :: u₁.writes }
  have h₁ : u₁.isolation = .serializable := hu.isolation
  have h₂ : u₂.isolation = .serializable := hu.isolation
  refine ⟨{ u₂ with
    audit := nextAudit s tx height now :: u₂.audit },
    hu.isolation, ?_, ?_, Store.unmoved_iff.2 hu.unmoved, ?_⟩
  · change .tally tally :: .nullifier row :: u.writes = _
    rw [hu.writes]
  · change _ :: u.audit = _
    rw [hu.audit]
  · rw [settle, Work.finish_bind_ok _ (Work.finish_save _ hu.isolation),
      Work.finish_bind_ok _ (Work.finish_save _ h₁),
      Work.finish_bind_ok _ (Work.finish_append _ h₂)]
    rfl

/-- A reaction that the store refuses leaves it as it is. -/
theorem finish_tryProcess_of_error {e : ProcessingError} (h : judge s tx now = .error e) :
    ∃ u', Work.finish (tryProcess tx height now attempt) u s = (.error e, u', s) := by
  obtain ⟨u', -, hfinish⟩ := finish_tryProcess tx height now attempt u s
  refine ⟨u', ?_⟩
  rw [hfinish, h, Work.finish_bind_error _ (Work.finish_liftExcept _)]

/-- If the commit is made to fail, then a number for an audit row is lost and nothing else. -/
theorem finish_tryProcess_of_failure (h : judge s tx now = .ok (kind, tally, row))
    {e : StoreError} {rest : List StoreError} (hfailures : s.failures = e :: rest) :
    Work.finish (tryProcess tx height now attempt) u s =
      (.error (.store e), default,
        { s with failures := rest, lastTransactionId := s.lastTransactionId + 1 }) := by
  obtain ⟨u₁, hu₁, hfinish⟩ := finish_tryProcess tx height now attempt u s
  obtain ⟨u', hisolation, -, -, -, hsettle⟩ :=
    finish_settle hu₁ tx height now attempt kind tally row
  rw [hfinish, h, Work.finish_bind_ok _ (Work.finish_liftExcept _), hsettle]
  exact Work.finish_bind_error _ (Work.finish_commit_of_failure hisolation hfailures)

/-- Otherwise the rows are recorded, with the next number for the audit row. -/
theorem finish_tryProcess_of_ok (h : judge s tx now = .ok (kind, tally, row))
    (hfailures : s.failures = []) :
    Work.finish (tryProcess tx height now attempt) u s =
      (.ok ⟨kind, tally, s.lastTransactionId + 1, attempt⟩, default,
        s.record tally row (nextAudit s tx height now)) := by
  obtain ⟨u₁, hu₁, hfinish⟩ := finish_tryProcess tx height now attempt u s
  obtain ⟨u', hisolation, hwrites, haudit, hunmoved, hsettle⟩ :=
    finish_settle hu₁ tx height now attempt kind tally row
  rw [hfinish, h, Work.finish_bind_ok _ (Work.finish_liftExcept _), hsettle]
  have hnumbered : { s with lastTransactionId := s.lastTransactionId + 1 }.failures = [] :=
    hfailures
  rw [Work.finish_bind_ok _ (Work.finish_commit_of_unmoved hisolation hnumbered hunmoved),
    Work.finish_pure]
  exact Prod.ext rfl (Prod.ext rfl (Store.publish_congr _ hwrites haudit))

/-- An attempt fails and changes no row, or it records what the judgement says. -/
theorem finish_tryProcess_cases (tx : Reaction) (height : Nat) (now : Timestamp) (attempt : Nat)
    (u : UnitOfWork) (s : Store) :
    (∃ e u' s', Work.finish (tryProcess tx height now attempt) u s = (.error e, u', s') ∧
      s.Quiet s') ∨
    ∃ kind tally row, Accepts s tx now kind tally row ∧
      Work.finish (tryProcess tx height now attempt) u s =
        (.ok ⟨kind, tally, s.lastTransactionId + 1, attempt⟩, default,
          s.record tally row (nextAudit s tx height now)) := by
  cases hjudge : judge s tx now with
  | error e =>
    obtain ⟨u', hfinish⟩ := finish_tryProcess_of_error hjudge
    exact .inl ⟨e, u', s, hfinish, .refl s⟩
  | ok judgement =>
    obtain ⟨kind, tally, row⟩ := judgement
    cases hfailures : s.failures with
    | nil =>
      exact .inr ⟨kind, tally, row, accepts_iff.1 hjudge, finish_tryProcess_of_ok hjudge hfailures⟩
    | cons e rest =>
      exact .inl ⟨_, _, _, finish_tryProcess_of_failure hjudge hfailures, rest,
        s.lastTransactionId + 1, rfl⟩

/-! ## All attempts -/

/-- A reaction that is processed alone fails and changes no row, or one of its attempts records what
the reaction comes to on the store that it was given. -/
theorem process_cases (policy : RetryPolicy) (clock : Clock) (tx : Reaction) (height : Nat)
    (s : Store) :
    (∃ e s', (process policy clock tx height).run.run s = (.error e, s') ∧ s.Quiet s') ∨
    ∃ attempt kind tally row s', s.Quiet s' ∧ Accepts s tx (clock attempt) kind tally row ∧
      (process policy clock tx height).run.run s =
        (.ok ⟨kind, tally, s'.lastTransactionId + 1, attempt⟩,
          s'.record tally row (nextAudit s' tx height (clock attempt))) := by
  have herror : ∀ attempt u s e u' s',
      Work.finish (tryProcess tx height (clock attempt) attempt) u s = (.error e, u', s') →
        s.Quiet s' := by
    intro attempt u s e u' s' h
    rcases finish_tryProcess_cases tx height (clock attempt) attempt u s with
      ⟨e', u'', s'', herror, hquiet⟩ | ⟨kind, tally, row, -, hrecord⟩
    · cases herror.symm.trans h
      exact hquiet
    · cases hrecord.symm.trans h
  rw [Work.run_run, process, Work.finish_adapt]
  rcases Work.finish_retried_cases policy _ .refl (fun _ _ _ => .trans) herror default s with
    ⟨failed, u', s', hfinish, hquiet⟩ | ⟨attempt, processed, u₁, s₁, u', s', hfinish, hquiet, hok⟩
  · rw [hfinish]
    exact .inl ⟨_, s', rfl, hquiet⟩
  · rw [hfinish]
    rcases finish_tryProcess_cases tx height (clock attempt) attempt u₁ s₁ with
      ⟨e, u'', s'', herror, -⟩ | ⟨kind, tally, row, haccepts, hrecord⟩
    · cases herror.symm.trans hok
    · cases hrecord.symm.trans hok
      rw [← accepts_iff, judge_quiet hquiet, accepts_iff] at haccepts
      exact .inr ⟨attempt, kind, tally, row, s₁, hquiet, haccepts, rfl⟩

/-- If no commit is made to fail, then a reaction that is acceptable on the first attempt is
recorded by it. -/
theorem run_process_of_accepts {policy : RetryPolicy} {clock : Clock}
    (h : Accepts s tx (clock 1) kind tally row) (hfailures : s.failures = []) :
    (process policy clock tx height).run.run s =
      (.ok ⟨kind, tally, s.lastTransactionId + 1, 1⟩,
        s.record tally row (nextAudit s tx height (clock 1))) := by
  have hfinish : Work.finish
      (Work.retried policy fun attempt => tryProcess tx height (clock attempt) attempt) default s =
        (.ok ⟨kind, tally, s.lastTransactionId + 1, 1⟩, default,
          s.record tally row (nextAudit s tx height (clock 1))) :=
    Work.finish_retried_of_ok policy _ (finish_tryProcess_of_ok (accepts_iff.2 h) hfailures)
  rw [Work.run_run, process, Work.finish_adapt, hfinish]
  rfl

end Ledger

end Reactions
