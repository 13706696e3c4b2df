import Reactions.Proofs.Node.Accounts

/-!
# What a replay audits was admissible where it stood

The reader hands on the reactions that are admissible where they stand in the log, and the indexer
writes an audit row for some of those, in their order (`Audited`). Nothing else reaches the ledger.
-/

namespace Reactions

namespace Replay

variable {setting : Setting} {ring : KeyRing} {records : List (Nat × LogRecord)} {items : List Item}

/-! ## The indexer audits some of what it is handed -/

/-- Some of the items, in their order, are what the audit log has grown by. -/
def Audits (items : List Item) (s s' : Store) : Prop :=
  ∃ applied audited, applied.Sublist items ∧ s'.transactions = audited ++ s.transactions ∧
    List.Forall₂ (fun item audit => AuditRow.Of audit item.2) applied audited.reverse

/-- Processing a reaction audits it or not. -/
theorem audits_index (setting : Setting) (stats : Ledger.IndexStats) (item : Item) (s : Store) :
    Audits [item] s
      ((Ledger.index setting.retry (setting.clocks item.1) stats item.2).run s).2 := by
  rcases Ledger.index_cases setting.retry (setting.clocks item.1) stats item.2 s with
    ⟨e, t, ⟨failures, id, rfl⟩, hrun⟩ |
    ⟨attempt, kind, tally, row, t, ⟨failures, id, rfl⟩, -, hrun⟩
  · rw [hrun]
    exact ⟨[], [], List.nil_sublist _, rfl, .nil⟩
  · rw [hrun]
    exact ⟨[item], [_], List.Sublist.refl _, Store.transactions_record _ _ _ _,
      .cons (Ledger.nextAudit_of _ item.2 _) .nil⟩

/-- Processing reactions audits some of them, in order. -/
theorem audits_indexing (setting : Setting) (stats : Ledger.IndexStats) (items : List Item)
    (s : Store) :
    Audits items s ((indexing setting stats items).run s).2 := by
  induction items generalizing stats s with
  | nil => exact ⟨[], [], .slnil, rfl, .nil⟩
  | cons item rest ih =>
    obtain ⟨applied, audited, hsublist, hlog, hof⟩ := audits_index setting stats item s
    rw [run_indexing_cons]
    obtain ⟨applied', audited', hsublist', hlog', hof'⟩ := ih _ _
    refine ⟨applied ++ applied', audited' ++ audited, hsublist.append hsublist', ?_, ?_⟩
    · rw [hlog', hlog, List.append_assoc]
    · rw [List.reverse_append]
      exact List.rel_append hof hof'

/-! ## The audit log of a replay -/

/-- What a replay leaves in a store comes from reactions of the log that may enter where they stand.
The ledger is what processing exactly those makes of an empty store, and the audit log has a row for
each of some of them, in the order of the log. -/
def Audited (ring : KeyRing) (setting : Setting) (records : List (Nat × LogRecord)) (s : Store) :
    Prop :=
  ∃ admitted : List Occurrence, admitted.Sublist (occurrences [] records) ∧
    (∀ o ∈ occurrences [] records, o ∈ admitted ↔ o.Admissible ring setting) ∧
    s.SameOn ((indexing setting {} (admitted.map Occurrence.item)).run .empty).2 .ledger ∧
    ∃ applied, applied.Sublist admitted ∧
      List.Forall₂ (fun o audit => AuditRow.Of audit o.reaction) applied s.transactions.reverse

/-- Whatever the schedule, what is audited are admissible reactions of the log, in order. -/
theorem audited_of_finished (hring : setting.verifier = ring.verifier) {schedule : List Task}
    {states : ReaderState × Ledger.IndexStats}
    (h : (Pipeline.after setting records schedule).Finished states) :
    Audited ring setting records (Pipeline.after setting records schedule).store := by
  classical
  obtain ⟨-, -, hledger⟩ := Pipeline.finished_eq h
  rw [(Reflects.start setting).handed_reading hring] at hledger
  refine ⟨(occurrences [] records).filter (·.Admissible ring setting), List.filter_sublist,
    fun o ho => ?_, hledger, ?_⟩
  · simp [ho]
  · obtain ⟨applied, audited, hsublist, hlog, hof⟩ := audits_indexing setting {}
      (((occurrences [] records).filter (·.Admissible ring setting)).map Occurrence.item) .empty
    obtain ⟨origins, horigins, rfl⟩ := List.sublist_map_iff.1 hsublist
    refine ⟨origins, horigins, ?_⟩
    rw [hledger.2.2.1, hlog]
    exact (List.append_nil audited).symm ▸ List.forall₂_map_left_iff.1 hof

end Replay

end Reactions
