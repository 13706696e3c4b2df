import Reactions.Proofs.Ledger.Attempt
import Reactions.Proofs.Store.DueFailures

/-!
# What comes of a reaction

A reaction that is processed alone is refused if its message has a tally of another feed, or else if
its nullifier has a ledger row of another message; a refusal is at once and uses up no failure that
is due. A reaction that fits both rows is tried as long as races are lost: until the attempts are
used up (`run_process_of_exhausted`), until another error comes (`run_process_of_failure`), or until
a commit goes through (`run_process_of_ok`). `reaction_ends_in_one_way` has all of it, with the rows
that are there at the end.
-/

namespace Reactions

instance : LawfulStoreFailure ProcessingError := ⟨fun _ => rfl⟩

namespace Ledger

variable {s : Store} {tx : Reaction}

/-! ## The rows that a reaction has to fit -/

/-- The message of a reaction has no tally of another feed. -/
def FitsTally (s : Store) (tx : Reaction) : Prop :=
  ∀ tally, s.tallies.find? tx.messageId = some tally → tally.feedId = tx.feedId

/-- The nullifier of a reaction has no ledger row of another message. -/
def FitsRow (s : Store) (tx : Reaction) : Prop :=
  ∀ row, s.nullifiers.find? tx.nullifier = some row → row.messageId = tx.messageId

/-- A tally that is there decides about the feed of its message. -/
theorem feedId_current {now : Timestamp} {tally : Tally}
    (h : s.tallies.find? tx.messageId = some tally) :
    (current s tx now).feedId = tally.feedId := by
  rw [current, h, Option.getD_some]

/-- A reaction that fits the tally has its feed. -/
theorem FitsTally.feedId_current (h : FitsTally s tx) (now : Timestamp) :
    (current s tx now).feedId = tx.feedId := by
  cases htally : s.tallies.find? tx.messageId with
  | none => rw [current, htally, Option.getD_none, Tally.empty]
  | some tally => rw [Ledger.feedId_current htally, h tally htally]

/-- A tally of another feed is a reason to refuse, whatever the ledger row. -/
theorem judge_of_other_feed {tally : Tally} (now : Timestamp)
    (htally : s.tallies.find? tx.messageId = some tally) (hfeed : tally.feedId ≠ tx.feedId) :
    judge s tx now = .error (.feedMismatch tx.messageId tally.feedId tx.feedId) := by
  rw [judge, feedId_current htally, if_pos hfeed]

/-- A ledger row of another message is the other reason. -/
theorem judge_of_other_message {row : LedgerRow} (now : Timestamp) (h : FitsTally s tx)
    (hrow : s.nullifiers.find? tx.nullifier = some row) (hmessage : row.messageId ≠ tx.messageId) :
    judge s tx now = .error (.nullifierMismatch tx.nullifier row.messageId tx.messageId) := by
  rw [judge, if_neg (not_not.2 (h.feedId_current now)), hrow, tallied_some, if_neg hmessage]

/-- There is no third one. -/
theorem exists_accepts (now : Timestamp) (h : FitsTally s tx) (hrow : FitsRow s tx) :
    ∃ kind tally row, Accepts s tx now kind tally row := by
  have hfeed := h.feedId_current now
  cases hfind : s.nullifiers.find? tx.nullifier with
  | none => exact ⟨_, _, _, .first hfeed hfind⟩
  | some old => exact ⟨_, _, _, .change hfeed hfind (hrow old hfind)⟩

/-- A reaction changes a vote if its nullifier has a ledger row already. -/
theorem Accepts.kind_eq_updated_iff {now : Timestamp} {kind : ReactionKind} {tally : Tally}
    {row : LedgerRow} (h : Accepts s tx now kind tally row) :
    kind = .updated ↔ ∃ old, s.nullifiers.find? tx.nullifier = some old := by
  cases h with
  | first _ hrow => simp [hrow]
  | change _ hrow _ => simp [hrow]

/-! ## The ways in which a reaction ends -/

/-- A store on which some attempts to process a reaction have failed: each has used up a failure
that was due and a number for an audit row. -/
def afterAttempts (s : Store) (k : Nat) : Store :=
  { s.dropFailures k with lastTransactionId := s.lastTransactionId + k }

/-- Attempts that fail change no row. -/
theorem quiet_afterAttempts (s : Store) (k : Nat) : s.Quiet (afterAttempts s k) :=
  ⟨s.failures.drop k, s.lastTransactionId + k, rfl⟩

section Ways

variable (policy : RetryPolicy) (clock : Clock) (height : Nat)

/-- A refusal ends the first attempt and changes nothing. -/
theorem run_process_of_refusal {e : ProcessingError} (h : judge s tx (clock 1) = .error e)
    (he : StoreFailure.isConflict e = false) (hfinal : ∀ attempts, finalError ⟨attempts, e⟩ = e) :
    (process policy clock tx height).run.run s = (.error e, s) := by
  have hrefused : ∃ u', Work.finish (tryProcess tx height (clock 1) 1) default s =
      (.error e, u', s) := finish_tryProcess_of_error h
  obtain ⟨u', hattempt⟩ := hrefused
  have hretried := Work.finish_retried_of_error policy
    (fun attempt => tryProcess tx height (clock attempt) attempt) he hattempt
  rw [← hfinal 1]
  exact Work.run_adapt_of_eq finalError hretried

/-- A failure that is due ends an attempt to process a reaction that fits. -/
theorem stages_tryProcess (h : FitsTally s tx) (hrow : FitsRow s tx) :
    Work.Stages (fun attempt => tryProcess tx height (clock attempt) attempt) s.failures
      (afterAttempts s) where
  fails attempt u k e he := by
    obtain ⟨kind, tally, row, haccepts⟩ := exists_accepts (clock attempt) h hrow
    have hjudge : judge (afterAttempts s k) tx (clock attempt) = .ok (kind, tally, row) :=
      (judge_quiet (quiet_afterAttempts s k)).trans (accepts_iff.2 haccepts)
    exact finish_tryProcess_of_failure hjudge (Store.failures_dropFailures he)

variable {policy}

/-- If every attempt loses its race, the reaction fails for that. -/
theorem run_process_of_exhausted (h : FitsTally s tx) (hrow : FitsRow s tx)
    (hlost : policy.attempts ≤ lostRaces s.failures) :
    (process policy clock tx height).run.run s =
      (.error (.retriesExhausted policy.attempts .conflict), afterAttempts s policy.attempts) := by
  have hretried := (stages_tryProcess clock height h hrow).finish_of_exhausted policy hlost default
  exact Work.run_adapt_of_eq finalError hretried

/-- If the last attempt fails for another reason, the reaction fails for that. -/
theorem run_process_of_failure (h : FitsTally s tx) (hrow : FitsRow s tx)
    (hlost : lostRaces s.failures < policy.attempts) {e : StoreError}
    (he : s.failures[lostRaces s.failures]? = some e) :
    (process policy clock tx height).run.run s =
      (.error (.store e), afterAttempts s (lostRaces s.failures + 1)) := by
  have hretried := (stages_tryProcess clock height h hrow).finish_of_error policy hlost he default
  have hfinal : finalError ⟨lostRaces s.failures + 1, .store e⟩ = .store e := by
    cases e with
    | conflict => exact absurd rfl (ne_conflict_of_getElem?_lostRaces he)
    | readOnly => rfl
    | backend text => rfl
  rw [← hfinal]
  exact Work.run_adapt_of_eq finalError hretried

/-- If the last attempt meets no failure, the reaction is booked. -/
theorem run_process_of_ok {kind : ReactionKind} {tally : Tally} {row : LedgerRow}
    (h : FitsTally s tx) (hrow : FitsRow s tx)
    (haccepts : Accepts s tx (clock (lostRaces s.failures + 1)) kind tally row)
    (hlost : lostRaces s.failures < policy.attempts)
    (hlength : s.failures.length = lostRaces s.failures) :
    let before := afterAttempts s (lostRaces s.failures)
    (process policy clock tx height).run.run s =
      (.ok ⟨kind, tally, before.lastTransactionId + 1, lostRaces s.failures + 1⟩,
        before.record tally row
          (nextAudit before tx height (clock (lostRaces s.failures + 1)))) := by
  intro before
  have hjudge : judge before tx (clock (lostRaces s.failures + 1)) = .ok (kind, tally, row) :=
    (judge_quiet (quiet_afterAttempts s _)).trans (accepts_iff.2 haccepts)
  have hnone : before.failures = [] := Store.failures_dropFailures_of_length hlength
  have hretried := (stages_tryProcess clock height h hrow).finish_of_ok policy hlost
    (fun _ => finish_tryProcess_of_ok hjudge hnone) default
  exact Work.run_adapt_of_eq finalError hretried

end Ways

/-! ## All of them -/

/-- What a reaction has done to a store on which it was processed by some attempt: its message has a
new tally, its nullifier a new ledger row, and there is one more audit row. -/
structure Booked (s : Store) (tx : Reaction) (height : Nat) (now : Timestamp) (attempt : Nat)
    (processed : Processed) (s' : Store) : Prop where
  attempts : processed.attempts = attempt
  kind : processed.kind = .updated ↔ ∃ row, s.nullifiers.find? tx.nullifier = some row
  tallies : ∀ message, s'.tallies.find? message =
    if tx.messageId = message then some processed.tally else s.tallies.find? message
  nullifiers : ∃ row, Accepts s tx now processed.kind processed.tally row ∧
    ∀ nullifier, s'.nullifiers.find? nullifier =
      if tx.nullifier = nullifier then some row else s.nullifiers.find? nullifier
  transactions : s'.transactions =
    { auditRow tx height now with id := processed.transactionId } :: s.transactions
  commitments : s'.commitments = s.commitments
  roots : s'.roots = s.roots

/-- What is recorded then is what has to be booked. -/
theorem booked_record {now : Timestamp} {kind : ReactionKind} {tally : Tally} {row : LedgerRow}
    (h : Accepts s tx now kind tally row) (height attempt k : Nat) :
    let before := afterAttempts s k
    Booked s tx height now attempt ⟨kind, tally, before.lastTransactionId + 1, attempt⟩
      (before.record tally row (nextAudit before tx height now)) where
  attempts := rfl
  kind := h.kind_eq_updated_iff
  tallies message := by
    rw [Store.tallies_record, Table.find?_save, h.messageId]
    rfl
  nullifiers := by
    refine ⟨row, h, fun nullifier => ?_⟩
    rw [Store.nullifiers_record, Table.find?_save, h.nullifier]
    rfl
  transactions := rfl
  commitments := rfl
  roots := rfl

/-- What a reaction that is processed alone comes to on a store, and the store after it. -/
structure Ends (policy : RetryPolicy) (clock : Clock) (tx : Reaction) (height : Nat) (s : Store)
    (outcome : Except ProcessingError Processed) (s' : Store) : Prop where
  /-- A message of another feed is the first reason to refuse. -/
  otherFeed : ∀ tally, s.tallies.find? tx.messageId = some tally → tally.feedId ≠ tx.feedId →
    outcome = .error (.feedMismatch tx.messageId tally.feedId tx.feedId) ∧ s' = s
  /-- A nullifier of another message is the second. -/
  otherMessage : FitsTally s tx → ∀ row, s.nullifiers.find? tx.nullifier = some row →
    row.messageId ≠ tx.messageId →
      outcome = .error (.nullifierMismatch tx.nullifier row.messageId tx.messageId) ∧ s' = s
  /-- As many lost races as attempts. -/
  exhausted : FitsTally s tx → FitsRow s tx → policy.attempts ≤ lostRaces s.failures →
    outcome = .error (.retriesExhausted policy.attempts .conflict) ∧
      s'.failures = s.failures.drop policy.attempts
  /-- Another error, after fewer lost races than attempts. -/
  failed : FitsTally s tx → FitsRow s tx → lostRaces s.failures < policy.attempts →
    ∀ e, s.failures[lostRaces s.failures]? = some e →
      outcome = .error (.store e) ∧ s'.failures = s.failures.drop (lostRaces s.failures + 1)
  /-- Nothing but fewer lost races than attempts. -/
  booked : FitsTally s tx → FitsRow s tx → lostRaces s.failures < policy.attempts →
    s.failures.length = lostRaces s.failures →
      ∃ processed, outcome = .ok processed ∧ s'.failures = [] ∧
        Booked s tx height (clock (lostRaces s.failures + 1)) (lostRaces s.failures + 1)
          processed s'
  /-- A reaction that fails changes no row at all. -/
  quiet : ∀ e, outcome = .error e → s.Quiet s'

/-- However a reaction that is processed alone ends, it does so in one of five ways, with the
outcome and the rows that this way has. -/
theorem reaction_ends_in_one_way (policy : RetryPolicy) (clock : Clock) (tx : Reaction)
    (height : Nat) (s : Store) :
    let r := (process policy clock tx height).run.run s
    Ends policy clock tx height s r.1 r.2 := by
  intro r
  constructor
  case otherFeed =>
    intro tally htally hfeed
    have hrun := run_process_of_refusal policy clock height
      (judge_of_other_feed (clock 1) htally hfeed) rfl fun _ => rfl
    exact Prod.mk.inj hrun
  case otherMessage =>
    intro h row hrow hmessage
    have hrun := run_process_of_refusal policy clock height
      (judge_of_other_message (clock 1) h hrow hmessage) rfl fun _ => rfl
    exact Prod.mk.inj hrun
  case exhausted =>
    intro h hrow hlost
    have hrun := run_process_of_exhausted clock height h hrow hlost
    obtain ⟨houtcome, hstore⟩ := Prod.mk.inj hrun
    exact ⟨houtcome, congrArg Store.failures hstore⟩
  case failed =>
    intro h hrow hlost e he
    have hrun := run_process_of_failure clock height h hrow hlost he
    obtain ⟨houtcome, hstore⟩ := Prod.mk.inj hrun
    exact ⟨houtcome, congrArg Store.failures hstore⟩
  case booked =>
    intro h hrow hlost hlength
    obtain ⟨kind, tally, row, haccepts⟩ := exists_accepts (clock (lostRaces s.failures + 1)) h hrow
    have hrun := run_process_of_ok clock height h hrow haccepts hlost hlength
    obtain ⟨houtcome, hstore⟩ := Prod.mk.inj hrun
    refine ⟨_, houtcome, ?_, hstore ▸ booked_record haccepts height _ _⟩
    exact (congrArg Store.failures hstore).trans (Store.failures_dropFailures_of_length hlength)
  case quiet =>
    intro e he
    rcases process_cases policy clock tx height s with ⟨_, s', hrun, hquiet⟩ |
      ⟨attempt, kind, tally, row, s', -, -, hrun⟩
    · exact congrArg Prod.snd hrun ▸ hquiet
    · cases he.symm.trans (congrArg Prod.fst hrun)

end Ledger

end Reactions
