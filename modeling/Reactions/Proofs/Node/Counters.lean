import Reactions.Proofs.Node.Accounts
import Reactions.Proofs.Node.Clients

/-!
# Counters stay within a word

The clock of a store, the versions, the numbers of audit rows and the counts of tallies and of
reports are kept in words, and are plain numbers here. That makes no difference as long as none of
them leaves the range of a word, and none does in fewer steps than a word has values. A turn of a
client moves the clock and the last number by one at most (`System.moved_after`). No version is
above the clock, and no tally counts more votes than writes or more writes than there were commits
(`Store.Paced`), whatever clients use a node and on whatever schedule (`Errand.counters_lt_size`). A
report counts no more than there are records in the log (`Replay.report_counters_lt_size`).
-/

namespace Reactions

/-! ## The clock and the numbers of audit rows -/

/-- The clock and the last number of an audit row have moved on, each by one at most. -/
structure Store.Moved (s s' : Store) : Prop where
  clock : s'.clock ≤ s.clock + 1
  lastTransactionId : s'.lastTransactionId ≤ s.lastTransactionId + 1

/-- A call gives out one number at most, and counts as no commit. -/
theorem UnitOfWork.moved_perform (u : UnitOfWork) (s : Store) (c : Call) :
    s.Moved (u.perform s c).2.1 := by
  have hstay : s.Moved s := ⟨Nat.le_succ _, Nat.le_succ _⟩
  cases c with
  | read q => exact hstay
  | save write =>
    rw [perform_save]
    cases u.isolation <;> exact hstay
  | append row =>
    cases hisolation : u.isolation with
    | readOnly =>
      have hperform : (u.perform s (.append row)).2.1 = s := by
        simp [perform, append, writable, hisolation, bind, Except.bind]
      rwa [hperform]
    | serializable =>
      rw [perform_append_of_serializable hisolation]
      exact ⟨Nat.le_succ _, Nat.le_refl _⟩

/-- A commit counts as one, if it succeeds. -/
theorem Store.moved_commit (s : Store) (u : UnitOfWork) : s.Moved (s.commit u).2 := by
  rcases s.commit_cases u with ⟨-, -, -, hcommit⟩ | ⟨outcome, failures, hcommit, -⟩
  · rw [hcommit]
    exact ⟨Nat.le_of_eq (s.clock_publish u),
      (Nat.le_of_eq (s.lastTransactionId_publish u)).trans (Nat.le_succ _)⟩
  · rw [hcommit]
    exact ⟨Nat.le_succ _, Nat.le_succ _⟩

/-- A step of a process counts as one at most. -/
theorem Process.moved_step {α : Type} (s : Store) (p : Process α) : s.Moved (p.step s).1 := by
  obtain ⟨program, u⟩ := p
  cases program with
  | done a => exact ⟨Nat.le_succ _, Nat.le_succ _⟩
  | begin isolation next => exact ⟨Nat.le_succ _, Nat.le_succ _⟩
  | call c next => exact u.moved_perform s c
  | commit next => exact s.moved_commit u
  | wait ms next => exact ⟨Nat.le_succ _, Nat.le_succ _⟩

namespace System

variable {α : Type}

/-- A turn counts as one at most. -/
theorem moved_step (σ : System α) (turn : Turn) : σ.store.Moved (σ.step turn).store := by
  cases turn with
  | client i => exact Process.moved_step σ.store (σ.clients i).process
  | failNext errors => exact ⟨Nat.le_succ _, Nat.le_succ _⟩

/-- There have been no more commits than turns, and no more numbers of audit rows. -/
theorem moved_after (programs : Nat → Program α) (turns : List Turn) :
    (after programs turns).store.clock ≤ turns.length ∧
      (after programs turns).store.lastTransactionId ≤ turns.length := by
  induction turns using List.reverseRecOn with
  | nil => exact ⟨Nat.le_refl 0, Nat.le_refl 0⟩
  | append_singleton turns turn ih =>
    have hmoved := moved_step (after programs turns) turn
    rw [after_append_singleton, List.length_append, List.length_singleton]
    exact ⟨hmoved.clock.trans (Nat.succ_le_succ ih.1),
      hmoved.lastTransactionId.trans (Nat.succ_le_succ ih.2)⟩

end System

/-! ## Tallies -/

/-- No tally counts more votes than writes, or more writes than there were commits. -/
def Store.Paced (s : Store) : Prop :=
  ∀ t ∈ s.tallies.rows, t.totalCount ≤ t.version ∧ t.version ≤ s.clock

namespace Store.Paced

variable {s s' : Store}

theorem empty : Store.empty.Paced := List.forall_mem_nil _

/-- A quiet change touches no tally. -/
theorem quiet (h : s.Paced) (hquiet : s.Quiet s') : s'.Paced := by
  obtain ⟨failures, id, rfl⟩ := hquiet
  exact h

/-- A commit may write a tally once more than there were commits before. -/
theorem publish (h : s.Paced) {u : UnitOfWork} (hwrites : ∀ t, .tally t ∈ u.writes →
    t.totalCount ≤ t.version ∧ t.version ≤ s.clock + 1) : (s.publish u).Paced := by
  intro t ht
  rw [clock_publish]
  rcases mem_tallies_publish ht with hnew | hold
  · exact hwrites t hnew
  · exact ⟨(h t hold).1, (h t hold).2.trans (Nat.le_succ _)⟩

end Store.Paced

namespace Ledger

variable {s : Store} {tx : Reaction} {now : Timestamp} {kind : ReactionKind} {tally : Tally}
  {row : LedgerRow}

/-- The tally that a reaction starts from. -/
theorem paced_current (h : s.Paced) (tx : Reaction) (now : Timestamp) :
    (current s tx now).totalCount ≤ (current s tx now).version ∧
      (current s tx now).version ≤ s.clock := by
  rw [current]
  cases hfind : s.tallies.find? tx.messageId with
  | none => exact ⟨Nat.le_refl 0, Nat.zero_le _⟩
  | some t => exact h t (Table.find?_eq_some_iff.1 hfind).1

/-- An accepted reaction writes the tally once more, and counts one vote more or none. -/
theorem Accepts.paced (haccepts : Accepts s tx now kind tally row) (h : s.Paced) :
    tally.totalCount ≤ tally.version ∧ tally.version ≤ s.clock + 1 := by
  obtain ⟨hcount, hversion⟩ := paced_current h tx now
  cases haccepts with
  | first => exact ⟨Nat.succ_le_succ hcount, Nat.succ_le_succ hversion⟩
  | change => exact ⟨Nat.le_succ_of_le hcount, Nat.succ_le_succ hversion⟩

end Ledger

namespace Errand

variable {s : Store} {made : List Made}

/-- Whatever a client commits, the tallies keep the pace. -/
theorem Commits.paced {errand : Errand} (h : errand.Commits made) (hs : s.Paced)
    (hanswered : AnsweredBy s made) : (s.publish (.ofMade made)).Paced := by
  refine hs.publish fun t ht => ?_
  change .tally t ∈ writesOf made at ht
  cases errand with
  | process policy clock tx height =>
    obtain ⟨now, kind, tally, row, haccepts, hwrites⟩ := h s hanswered
    rw [hwrites] at ht
    rcases List.mem_pair.1 ht with ht | ht
    · cases ht
      exact haccepts.paced hs
    · cases ht
  | registry | event | ask | admission => exact absurd ht (WritesOn.tally_not_mem h t)

/-- Whatever clients use a node and on whatever schedule, its tallies keep the pace. -/
theorem paced_after (errands : Nat → Errand) (turns : List Turn) :
    (after errands turns).store.Paced := by
  have hcommits (i : Nat) (_ : .client i ∈ turns) : (errands i).program.Commits
      (fun made => ∃ errand : Errand, errand.Commits made) (fun _ _ => True) [] :=
    (errands i).commits_program.weaken fun _ hmade => ⟨_, hmade⟩
  refine System.after_append_induction [] hcommits .empty (fun _ _ => .quiet) ?_
  rintro s made hs ⟨errand, hmade⟩ hanswered
  exact hmade.paced hs hanswered

/-- Whatever clients use a node and on whatever schedule: in fewer turns than a word has values, no
counter of the store leaves the range of a word. -/
theorem counters_lt_size (errands : Nat → Errand) (turns : List Turn)
    (h : turns.length < UInt64.size) :
    let s := (after errands turns).store
    s.clock < UInt64.size ∧ (∀ key, s.version key < UInt64.size) ∧
      s.lastTransactionId < UInt64.size ∧
      ∀ t ∈ s.tallies.rows, t.totalCount < UInt64.size ∧ t.version < UInt64.size := by
  intro s
  obtain ⟨hclock, hlast⟩ := System.moved_after (fun i => (errands i).program) turns
  have hsound := (System.Sound.after (fun i => (errands i).program) turns).clock
  have hword : s.clock < UInt64.size := Nat.lt_of_le_of_lt hclock h
  refine ⟨hword, fun key => Nat.lt_of_le_of_lt (hsound key) hword,
    Nat.lt_of_le_of_lt hlast h, fun t ht => ?_⟩
  obtain ⟨hcount, hversion⟩ := paced_after errands turns t ht
  have ht : t.version < UInt64.size := Nat.lt_of_le_of_lt hversion hword
  exact ⟨Nat.lt_of_le_of_lt hcount ht, ht⟩

end Errand

/-! ## Reports -/

namespace Replay

variable {setting : Setting}

/-- A record is at most one failure in the registry of members. -/
theorem membershipFailures_take_le (setting : Setting) (state : ReaderState) (line : Nat)
    (record : LogRecord) (s : Store) :
    ((take setting state line record).run s).1.1.membershipFailures ≤
      state.membershipFailures + 1 := by
  cases record with
  | feedKey feed key => exact Nat.le_succ _
  | message feed message author => exact Nat.le_succ _
  | membership event =>
    rw [run_take_membership]
    cases ((Membership.handle setting.retry (setting.clocks line) event).run.run s).1 with
    | ok => exact Nat.le_succ _
    | error => exact Nat.le_refl _
  | reaction reaction =>
    rw [run_take_reaction, ReaderState.afterVerdict]
    split <;> exact Nat.le_succ _

/-- There are no more failures in the registry than records. -/
theorem membershipFailures_reading_le (setting : Setting) (state : ReaderState)
    (records : List (Nat × LogRecord)) (s : Store) :
    ((reading setting state records).run s).1.1.membershipFailures ≤
      state.membershipFailures + records.length := by
  induction records generalizing state s with
  | nil => exact Nat.le_refl _
  | cons record rest ih =>
    obtain ⟨line, record⟩ := record
    rw [run_reading_cons, run_readingAfter, List.length_cons]
    have htake := membershipFailures_take_le setting state line record s
    have hrest := ih ((take setting state line record).run s).1.1
      ((take setting state line record).run s).2
    dsimp only
    omega

/-- Whatever the schedule, a report counts no more than there are records. -/
theorem counters_le_of_finished {records : List (Nat × LogRecord)} {schedule : List Task}
    {states : ReaderState × Ledger.IndexStats}
    (h : (Pipeline.after setting records schedule).Finished states) :
    let report := ((report states).run (Pipeline.after setting records schedule).store).1
    report.admitted + report.refused.length ≤ records.length ∧
      report.membershipFailures ≤ records.length ∧ report.indexer.total ≤ records.length := by
  intro report
  have haccounts : Accounts records report _ := accounts_of_finished h
  have hreactions : report.admitted + report.refused.length ≤ records.length :=
    haccounts.reactions ▸ List.length_filterMap_le ..
  have hadmitted : report.admitted = report.indexer.total := haccounts.admitted
  have hstates := (Pipeline.finished_eq h).1
  have hfailures := membershipFailures_reading_le setting {} records .empty
  have hreport : report.membershipFailures = states.1.membershipFailures :=
    congrArg (·.1.membershipFailures) (run_report states _)
  rw [Nat.zero_add] at hfailures
  exact ⟨hreactions, by rwa [hreport, hstates], by omega⟩

/-- A report on a log with fewer records than a word has values: no count of it leaves the range of
a word. -/
theorem report_counters_lt_size (read : ReadFile Id) (clocks : Nat → Clock) (config : Config)
    (log : String) (report : ReplayReport) (records : List (Nat × LogRecord))
    (h : Node.replay read clocks config log = .ok report)
    (hrecords : Log.records (read log) = .ok records) (hlength : records.length < UInt64.size) :
    report.admitted < UInt64.size ∧ report.membershipFailures < UInt64.size ∧
      report.indexer.newVotes < UInt64.size ∧ report.indexer.updates < UInt64.size ∧
      report.indexer.failed < UInt64.size := by
  obtain ⟨verifier, records', -, hread, rfl⟩ := Node.replay_eq_ok h
  obtain rfl : records' = records := Except.ok.inj (hread.symm.trans hrecords)
  obtain ⟨schedule, states, hfinished, hrun⟩ := Pipeline.exists_schedule
    { verifier, retry := config.retry, rootWindow := config.rootWindow, clocks } records'
  obtain ⟨hreactions, hfailures, htotal⟩ := counters_le_of_finished hfinished
  rw [← hrun] at hreactions hfailures htotal
  rw [Ledger.IndexStats.total] at htotal
  omega

end Replay

end Reactions
