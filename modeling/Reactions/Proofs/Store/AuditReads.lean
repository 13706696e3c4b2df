import Mathlib.Data.List.Induction
import Reactions.Proofs.Store.Serializability

/-!
# Reads of the audit log

A unit of work remembers a version of all that it has read, except of the audit log, for which there
is none. So the audit rows that it was shown are those of the moment at which it asked
(`System.exists_past_of_audit_read`), and its commit succeeds whatever was appended since. What it
has missed by then are the rows of the units of work that were committed in between, and nothing
else (`System.trail_after_append`).

The law that holds of all other reads therefore fails for this one: two units can each be shown a
log without rows, append a row to it, and both be committed
(`System.unseen_audit_row_is_no_conflict`).
-/

namespace Reactions

/-- The audit rows of a message that calls leave pending, in the order in which they were appended.
-/
def trailOf (message : MessageId) (made : List Made) : List AuditRow :=
  ((auditOf made).filter (·.messageId = message)).reverse

namespace System

variable {α : Type} (programs : Nat → Program α)

/-! ## How the log grows -/

/-- A turn leaves the log as it is and commits nothing, or it commits one unit of work and appends
the rows of that. -/
theorem Sound.log_step {σ : System α} (h : σ.Sound) (turn : Turn) :
    ((σ.step turn).committed = σ.committed ∧
      (σ.step turn).store.transactions = σ.store.transactions) ∨
    ∃ made, (σ.step turn).committed = made :: σ.committed ∧
      (σ.step turn).store.transactions = auditOf made ++ σ.store.transactions := by
  cases turn with
  | failNext errors => exact .inl ⟨rfl, rfl⟩
  | client i =>
    rcases (σ.clients i).step_cases σ.store with
      ⟨hcommits, hisolation, -, hstore⟩ | ⟨hcommits, failures, id, hstore⟩
    · refine .inr ⟨(σ.clients i).made, if_pos hcommits, ?_⟩
      rw [← (h.clients i hisolation).follows.audit]
      exact (congrArg Store.transactions hstore).trans (Store.transactions_publish ..)
    · exact .inl ⟨if_neg (by simp [hcommits]), by rw [System.step, hstore]⟩

/-- From one time to another the log of a message grows by the rows of the units of work that are
committed in between, in the order of their commits. -/
theorem trail_after_append (past later : List Turn) :
    ∃ units, (after programs (past ++ later)).committed = units ++ (after programs past).committed ∧
      ∀ message, (after programs (past ++ later)).store.trail message =
        (after programs past).store.trail message ++ units.reverse.flatMap (trailOf message) := by
  induction later using List.reverseRecOn with
  | nil =>
    rw [List.append_nil]
    exact ⟨[], rfl, fun message => (List.append_nil _).symm⟩
  | append_singleton later turn ih =>
    obtain ⟨units, hcommitted, htrail⟩ := ih
    rw [← List.append_assoc, after_append_singleton]
    rcases (Sound.after programs (past ++ later)).log_step turn with
      ⟨hsame, hlog⟩ | ⟨made, hmore, hlog⟩
    · refine ⟨units, hsame.trans hcommitted, fun message => ?_⟩
      rw [Store.trail, hlog]
      exact htrail message
    · refine ⟨made :: units, ?_, fun message => ?_⟩
      · rw [hmore, hcommitted, List.cons_append]
      · have hbefore := htrail message
        rw [Store.trail] at hbefore
        rw [Store.trail, hlog, List.filter_append, List.reverse_append, hbefore, List.append_assoc,
          List.reverse_cons, List.flatMap_append, List.flatMap_singleton]
        rfl

/-! ## When a question for the log was answered -/

/-- Each question for the log in the transcript of an open unit of work was asked at some turn of
its client. The answer was the rows that were committed by then, with those that the unit had
appended. -/
theorem exists_past_of_audit_read (turns : List Turn) (i : Nat) {message : MessageId}
    {rows : List AuditRow} {later earlier : List Made}
    (hisolation : ((after programs turns).clients i).process.unit.isolation = .serializable)
    (hmade : ((after programs turns).clients i).made =
      later ++ ⟨.read (.transactions message), rows⟩ :: earlier) :
    ∃ past, past ++ [.client i] <+: turns ∧
      rows = (after programs past).store.trail message ++ trailOf message earlier := by
  induction turns using List.reverseRecOn generalizing later with
  | nil =>
    have hlength := congrArg List.length hmade
    simp [after] at hlength
  | append_singleton turns turn ih =>
    have hsound := (Sound.after programs turns).clients i
    rw [after_append_singleton] at hisolation hmade
    generalize hclient : (after programs turns).clients i = c at hsound ih
    -- the question was asked before this turn
    have hbefore {later : List Made} (hunit : c.process.unit.isolation = .serializable)
        (hsame : c.made = later ++ ⟨.read (.transactions message), rows⟩ :: earlier) :
        ∃ past, past ++ [.client i] <+: turns ++ [turn] ∧
          rows = (after programs past).store.trail message ++ trailOf message earlier := by
      obtain ⟨past, hpast, hrows⟩ := ih hunit hsame
      exact ⟨past, hpast.trans (List.prefix_append _ _), hrows⟩
    rcases clients_step_cases (after programs turns) turn i with rfl | hother
    · rw [clients_step_self, hclient] at hisolation hmade
      obtain ⟨⟨program, u⟩, made⟩ := c
      cases program with
      | done a => exact hbefore hisolation hmade
      | wait ms next => exact hbefore hisolation hmade
      | begin isolation next => cases later <;> cases hmade
      | commit next => cases later <;> cases hmade
      | call call next =>
        have hu : u.isolation = .serializable := by
          rw [← u.isolation_perform (after programs turns).store call]
          exact hisolation
        cases later with
        | nil =>
          obtain ⟨hread, rfl⟩ := List.cons.inj hmade
          obtain rfl : call = .read (.transactions message) := congrArg Made.call hread
          refine ⟨turns, List.prefix_refl _, ?_⟩
          cases hread
          exact congrArg (fun audit => (after programs turns).store.trail message ++
            (audit.filter (·.messageId = message)).reverse) (hsound hu).follows.audit
        | cons made' later => exact hbefore hu (List.cons.inj hmade).2
    · rw [hother, hclient] at hisolation hmade
      exact hbefore hisolation hmade

/-- The audit rows of a message that a unit of work was shown are those that were committed when it
asked. At any later time, that of its commit among them, the log of the message has just the rows
more that were committed in between, and the unit was shown all of it only if there are none. -/
theorem shown_audit_rows_are_those_of_the_read (turns : List Turn) (i : Nat) {message : MessageId}
    {rows : List AuditRow} {later earlier : List Made}
    (hisolation : ((after programs turns).clients i).process.unit.isolation = .serializable)
    (hmade : ((after programs turns).clients i).made =
      later ++ ⟨.read (.transactions message), rows⟩ :: earlier) :
    ∃ past units, past ++ [.client i] <+: turns ∧
      (after programs turns).committed = units ++ (after programs past).committed ∧
      rows = (after programs past).store.trail message ++ trailOf message earlier ∧
      (after programs turns).store.trail message =
        (after programs past).store.trail message ++ units.reverse.flatMap (trailOf message) ∧
      (rows = (after programs turns).store.trail message ++ trailOf message earlier ↔
        ∀ made ∈ units, trailOf message made = []) := by
  obtain ⟨past, hpast, hrows⟩ := exists_past_of_audit_read programs turns i hisolation hmade
  obtain ⟨later', rfl⟩ := (List.prefix_append past [Turn.client i]).trans hpast
  obtain ⟨units, hcommitted, htrail⟩ := trail_after_append programs past later'
  refine ⟨past, units, hpast, hcommitted, hrows, htrail message, ?_⟩
  rw [hrows, htrail, List.append_left_inj, List.self_eq_append_right]
  simp

/-! ### Two units that do not see each other's rows -/

/-- Asks for the audit rows of a message, appends one if there are none, and commits. -/
def appendingFirst (row : AuditRow) : Program (Except StoreError Unit) :=
  .begin .serializable <| .call (.read (.transactions row.messageId)) fun rows =>
    if rows.isEmpty then .call (.append row) fun _ => .commit .done else .done (.ok ())

/-- Two clients that append the first audit row of a message, in turns. -/
def appendingInTurns : List Turn :=
  [.client 0, .client 1, .client 0, .client 1, .client 0, .client 1, .client 0]

/-- The row that both append. -/
def firstRow : AuditRow := ⟨0, 7, default, default, default, .identity, [], "", default⟩

/-- The second client was shown the log before the first one was committed, and has missed its row.
-/
theorem unseen_audit_row_is_missed :
    let σ := after (fun _ => appendingFirst firstRow) appendingInTurns
    (σ.clients 1).process.unit.isolation = .serializable ∧
    (σ.clients 1).made = [⟨.append firstRow, .ok { firstRow with id := 2 }⟩] ++
      ⟨.read (.transactions default), ([] : List AuditRow)⟩ :: [] ∧
    ∃ past units, past ++ [.client 1] <+: appendingInTurns ∧
      σ.committed = units ++ (after (fun _ => appendingFirst firstRow) past).committed ∧
      ¬ ∀ made ∈ units, trailOf default made = [] := by
  intro σ
  have hmade : (σ.clients 1).made = [⟨.append firstRow, .ok { firstRow with id := 2 }⟩] ++
      ⟨.read (.transactions default), ([] : List AuditRow)⟩ :: [] := rfl
  obtain ⟨past, units, hpast, hcommitted, -, -, hall⟩ :=
    shown_audit_rows_are_those_of_the_read _ appendingInTurns 1 rfl hmade
  refine ⟨rfl, hmade, past, units, hpast, hcommitted, fun hnone => ?_⟩
  cases hall.2 hnone

/-- Still its commit succeeds, though the rows that it was shown are not those of the message by
then. So both clients have appended the first row of the message. -/
theorem unseen_audit_row_is_no_conflict :
    let σ := after (fun _ => appendingFirst firstRow) appendingInTurns
    ∃ next u s, (σ.clients 1).process = ⟨.commit next, u⟩ ∧ u.isolation = .serializable ∧
      σ.store.commit u = (.ok (), s) ∧
      ∃ rows later earlier,
        (σ.clients 1).made = later ++ ⟨.read (.transactions default), rows⟩ :: earlier ∧
        rows ≠ σ.store.trail default ++ trailOf default earlier ∧
        (s.trail default).map AuditRow.id = [1, 2] := by
  intro σ
  refine ⟨_, _, _, rfl, rfl, rfl, [], [_], [], rfl, ?_, rfl⟩
  intro hrows
  cases hrows

end System

end Reactions
