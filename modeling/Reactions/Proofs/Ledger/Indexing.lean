import Reactions.Proofs.Ledger.Attempt
import Reactions.Proofs.Store.Separation

/-!
# Indexing one reaction

The indexer processes a reaction and counts what came of it (`index_cases`). Its counts agree with
the tallies: as many new votes as all tallies count, and as many new votes and updates together as
they have versions (`IndexStats.Counts`).
-/

namespace Reactions

/-- An audit row is the one of a reaction, its number and its time aside. -/
structure AuditRow.Of (audit : AuditRow) (reaction : IndexedReaction) : Prop where
  blockHeight : audit.blockHeight = reaction.blockHeight
  feedId : audit.feedId = reaction.transaction.feedId
  messageId : audit.messageId = reaction.transaction.messageId
  nullifier : audit.nullifier = reaction.transaction.nullifier
  vote : audit.vote = reaction.transaction.vote
  proof : audit.proof = reaction.transaction.proof
  circuitVersion : audit.circuitVersion = reaction.transaction.circuitVersion

namespace Ledger

/-- The next audit row is of the reaction. -/
theorem nextAudit_of (s : Store) (reaction : IndexedReaction) (now : Timestamp) :
    (nextAudit s reaction.transaction reaction.blockHeight now).Of reaction :=
  ⟨rfl, rfl, rfl, rfl, rfl, rfl, rfl⟩

namespace IndexStats

/-- The number of all reactions that were counted. -/
def total (stats : IndexStats) : Nat := stats.newVotes + stats.updates + stats.failed

/-- Each outcome is counted once. -/
theorem total_count (stats : IndexStats) (outcome : Except ProcessingError Processed) :
    (stats.count outcome).total = stats.total + 1 := by
  rcases outcome with e | ⟨kind, tally, id, attempts⟩
  · rfl
  · cases kind <;> simp only [count, total] <;> omega

end IndexStats

/-! ## One reaction -/

/-- All work of the indexer is about the ledger. -/
theorem on_index (policy : RetryPolicy) (clock : Clock) (stats : IndexStats)
    (reaction : IndexedReaction) : (index policy clock stats reaction).On .ledger := by
  refine Program.on_bind ?_ fun _ => trivial
  refine Work.on_adapt _ (Work.on_retried policy fun attempt => ?_)
  refine Work.on_bind (Work.on_begin _) fun _ => Work.on_bind (Work.on_read _ rfl) fun tally => ?_
  dsimp only
  split
  · trivial
  · exact Work.on_bind (Work.on_read _ rfl) fun row => Work.on_bind (Work.on_liftExcept _) fun _ =>
      Work.on_bind (Work.on_save _ rfl) fun _ => Work.on_bind (Work.on_save _ rfl) fun _ =>
      Work.on_bind (Work.on_append _) fun _ => Work.on_bind Work.on_commit fun _ => Work.on_pure _

/-- It begins with a unit of work of its own. -/
theorem opens_index (policy : RetryPolicy) (clock : Clock) (stats : IndexStats)
    (reaction : IndexedReaction) : (index policy clock stats reaction).Opens :=
  Program.opens_bind (Work.opens_adapt _ (Work.opens_retried policy fun _ => trivial))
    fun _ => trivial

variable {policy : RetryPolicy} {clock : Clock} {stats : IndexStats} {reaction : IndexedReaction}
  {s : Store}

/-- Indexing a reaction is processing it and counting what came of it. -/
theorem run_index (policy : RetryPolicy) (clock : Clock) (stats : IndexStats)
    (reaction : IndexedReaction) (s : Store) :
    (index policy clock stats reaction).run s =
      (stats.count ((process policy clock reaction.transaction reaction.blockHeight).run.run s).1,
        ((process policy clock reaction.transaction reaction.blockHeight).run.run s).2) := by
  rw [index]
  exact Program.run_bind_pure _ _ s

/-- A reaction is counted as failed and no row changes, or it is accepted, recorded, and counted by
its kind. -/
theorem index_cases (policy : RetryPolicy) (clock : Clock) (stats : IndexStats)
    (reaction : IndexedReaction) (s : Store) :
    (∃ e t, s.Quiet t ∧ (index policy clock stats reaction).run s = (stats.count (.error e), t)) ∨
    ∃ attempt kind tally row t, s.Quiet t ∧
      Accepts t reaction.transaction (clock attempt) kind tally row ∧
      (index policy clock stats reaction).run s =
        (stats.count (.ok ⟨kind, tally, t.lastTransactionId + 1, attempt⟩),
          t.record tally row
            (nextAudit t reaction.transaction reaction.blockHeight (clock attempt))) := by
  rw [run_index]
  rcases process_cases policy clock reaction.transaction reaction.blockHeight s with
    ⟨e, t, hprocess, hquiet⟩ | ⟨attempt, kind, tally, row, t, hquiet, haccepts, hprocess⟩
  · rw [hprocess]
    exact .inl ⟨e, t, hquiet, rfl⟩
  · rw [hprocess]
    rw [← accepts_iff, ← judge_quiet hquiet, accepts_iff] at haccepts
    exact .inr ⟨attempt, kind, tally, row, t, hquiet, haccepts, rfl⟩

/-- If no commit is made to fail, then a reaction that is acceptable on the first attempt is
recorded and counted by its kind. -/
theorem run_index_of_accepts {kind : ReactionKind} {tally : Tally} {row : LedgerRow}
    (h : Accepts s reaction.transaction (clock 1) kind tally row) (hfailures : s.failures = []) :
    (index policy clock stats reaction).run s =
      (stats.count (.ok ⟨kind, tally, s.lastTransactionId + 1, 1⟩),
        s.record tally row
          (nextAudit s reaction.transaction reaction.blockHeight (clock 1))) := by
  rw [run_index, run_process_of_accepts h hfailures]

/-- Each reaction is counted once. -/
theorem total_index : ((index policy clock stats reaction).run s).1.total = stats.total + 1 := by
  rcases index_cases policy clock stats reaction s with
    ⟨e, t, -, hrun⟩ | ⟨attempt, kind, tally, row, t, -, -, hrun⟩
  · rw [hrun, IndexStats.total_count]
  · rw [hrun, IndexStats.total_count]

/-- The counts of new votes and updates agree with the tallies. -/
structure IndexStats.Counts (stats : IndexStats) (s : Store) : Prop where
  totalCounts : (s.tallies.rows.map (·.totalCount)).sum = stats.newVotes
  versions : (s.tallies.rows.map (·.version)).sum = stats.newVotes + stats.updates

/-- The sum of some number over all tallies, when a reaction is recorded. -/
theorem sum_tallies_record {now : Timestamp} {kind : ReactionKind} {tally : Tally} {row : LedgerRow}
    {tx : Reaction} (h : Accepts s tx now kind tally row) (audit : AuditRow) (f : Tally → Nat)
    (hempty : ∀ message feed now, f (.empty message feed now) = 0) :
    ((s.record tally row audit).tallies.rows.map f).sum + f (current s tx now) =
      (s.tallies.rows.map f).sum + f tally := by
  have hsum := s.tallies.sum_map_save tally f
  rw [h.messageId] at hsum
  rw [Store.tallies_record, ← hsum, current]
  cases s.tallies.find? tx.messageId with
  | none => rw [Option.getD_none, hempty]; rfl
  | some old => rfl

/-- A new vote raises the count of its tally, an update does not; either raises the version. -/
theorem Accepts.counts {now : Timestamp} {kind : ReactionKind} {tally : Tally} {row : LedgerRow}
    {tx : Reaction} (h : Accepts s tx now kind tally row) :
    tally.version = (current s tx now).version + 1 ∧
      (kind = .newVote ∧ tally.totalCount = (current s tx now).totalCount + 1 ∨
        kind = .updated ∧ tally.totalCount = (current s tx now).totalCount) := by
  cases h with
  | first => exact ⟨rfl, .inl ⟨rfl, rfl⟩⟩
  | change => exact ⟨rfl, .inr ⟨rfl, rfl⟩⟩

/-- Counting an accepted reaction keeps the counts in agreement with the tallies. -/
theorem IndexStats.Counts.record (h : stats.Counts s) {now : Timestamp} {kind : ReactionKind}
    {tally : Tally} {row : LedgerRow} {tx : Reaction} (haccepts : Accepts s tx now kind tally row)
    (audit : AuditRow) (id attempts : Nat) :
    (stats.count (.ok ⟨kind, tally, id, attempts⟩)).Counts (s.record tally row audit) := by
  have hcounts := sum_tallies_record haccepts audit (·.totalCount) fun _ _ _ => rfl
  have hversions := sum_tallies_record haccepts audit (·.version) fun _ _ _ => rfl
  have htotal := h.totalCounts
  have hversion := h.versions
  obtain ⟨htally, ⟨rfl, hcount⟩ | ⟨rfl, hcount⟩⟩ := haccepts.counts
  · constructor
    · simp only [IndexStats.count]
      omega
    · simp only [IndexStats.count]
      omega
  · constructor
    · simp only [IndexStats.count]
      omega
    · simp only [IndexStats.count]
      omega

/-- Processing any reaction keeps the counts in agreement with the tallies. -/
theorem IndexStats.Counts.index (h : stats.Counts s) :
    ((index policy clock stats reaction).run s).1.Counts
      ((index policy clock stats reaction).run s).2 := by
  have hquiet {t : Store} (ht : s.Quiet t) : stats.Counts t := by
    obtain ⟨failures, id, rfl⟩ := ht
    exact ⟨h.totalCounts, h.versions⟩
  rcases index_cases policy clock stats reaction s with
    ⟨e, t, ht, hrun⟩ | ⟨attempt, kind, tally, row, t, ht, haccepts, hrun⟩
  · rw [hrun]
    exact ⟨(hquiet ht).totalCounts, (hquiet ht).versions⟩
  · rw [hrun]
    exact (hquiet ht).record haccepts _ _ _

/-- The tallies after a reaction belong to the feed of the reaction, or are old ones. -/
theorem mem_tallies_index {t : Tally}
    (h : t ∈ ((index policy clock stats reaction).run s).2.tallies.rows) :
    (t.feedId, t.messageId) = (reaction.transaction.feedId, reaction.transaction.messageId) ∨
      t ∈ s.tallies.rows := by
  rcases index_cases policy clock stats reaction s with
    ⟨e, s', ⟨failures, id, rfl⟩, hrun⟩ |
    ⟨attempt, kind, tally, row, s', ⟨failures, id, rfl⟩, haccepts, hrun⟩
  · rw [hrun] at h
    exact .inr h
  · rw [hrun, Store.tallies_record] at h
    rcases Table.mem_rows_save h with rfl | hold
    · exact .inl (Prod.ext haccepts.feedId haccepts.messageId)
    · exact .inr hold

end Ledger

end Reactions
