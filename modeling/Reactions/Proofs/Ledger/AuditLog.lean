import Reactions.Proofs.Ledger.History

/-!
# The audit log determines the ledger

Every accepted reaction leaves one row in the audit log, and the ledger and the tallies can be read
off the log: `log_determines_ledger`. The ledger row of a nullifier has the message of all entries
of that nullifier, the vote of the last and the time of the first (`LedgerRow.Logged`); the tally of
a message has the feed of all entries of that message and as many versions as there are entries
(`Tally.Logged`). From then on the log only grows, and rows keep what identifies them
(`History.ExtendedBy`).
-/

namespace Reactions

/-- The audit rows of a nullifier, in the order in which they were committed. -/
def Store.entries (s : Store) (nullifier : Nullifier) : List AuditRow :=
  (s.transactions.filter (·.nullifier = nullifier)).reverse

namespace Store

variable {s : Store} (tally : Tally) (row : LedgerRow) (audit : AuditRow)

/-- A record appends its audit row to the entries of that row's nullifier. -/
theorem entries_record (nullifier : Nullifier) :
    (s.record tally row audit).entries nullifier =
      s.entries nullifier ++ if audit.nullifier = nullifier then [audit] else [] := by
  by_cases h : audit.nullifier = nullifier <;> simp [entries, h]

/-- A record appends its audit row to the trail of that row's message. -/
theorem trail_record (message : MessageId) :
    (s.record tally row audit).trail message =
      s.trail message ++ if audit.messageId = message then [audit] else [] := by
  by_cases h : audit.messageId = message <;> simp [trail, h]

end Store

/-! ## What the log says of a row -/

/-- A ledger row as the audit rows of its nullifier and the last accepted reaction have it. -/
structure LedgerRow.Logged (row : LedgerRow) (entries : List AuditRow)
    (latest? : Option Reaction) : Prop where
  /-- All entries are on the message of the row. -/
  message : ∀ audit ∈ entries, audit.messageId = row.messageId
  /-- The vote is that of the last entry. -/
  vote : entries.getLast?.map AuditRow.vote = some row.vote
  /-- The row is as old as the first entry. -/
  createdAt : entries.head?.map AuditRow.createdAt = some row.createdAt
  /-- Message, vote and backup are those of the last accepted reaction. -/
  latest : ∃ tx, latest? = some tx ∧ tx.messageId = row.messageId ∧ tx.vote = row.vote ∧
    tx.backup = row.backup

/-- A tally as the audit rows of its message have it. -/
structure Tally.Logged (t : Tally) (trail : List AuditRow) : Prop where
  /-- All entries belong to the feed of the tally. -/
  feed : ∀ audit ∈ trail, audit.feedId = t.feedId
  /-- Every entry has raised the version by one. -/
  version : t.version = trail.length

namespace Ledger

/-- The ledger and the tallies are as the audit log has them. -/
structure History.Logged (h : History) : Prop where
  row_isSome : ∀ nullifier, (h.store.nullifiers.find? nullifier).isSome ↔
    h.store.entries nullifier ≠ []
  row : ∀ nullifier row, h.store.nullifiers.find? nullifier = some row →
    row.Logged (h.store.entries nullifier) (h.latest? nullifier)
  tally_isSome : ∀ message, (h.store.tallies.find? message).isSome ↔ h.store.trail message ≠ []
  tally : ∀ message t, h.store.tallies.find? message = some t → t.Logged (h.store.trail message)

/-! ## One accepted reaction -/

section
variable {s : Store} {tx : Reaction} {now : Timestamp} {kind : ReactionKind} {tally : Tally}
  {row : LedgerRow} {height : Nat}

/-- The ledger row that an accepted reaction leaves. -/
theorem logged_row (h : Accepts s tx now kind tally row) {entries : List AuditRow}
    {latest? : Option Reaction}
    (hnone : s.nullifiers.find? tx.nullifier = none → entries = [])
    (hsome : ∀ old, s.nullifiers.find? tx.nullifier = some old → old.Logged entries latest?) :
    row.Logged (entries ++ [nextAudit s tx height now]) (some tx) := by
  cases h with
  | first hfeed hrow =>
    rw [hnone hrow]
    exact ⟨by simp [nextAudit, auditRow, LedgerRow.firstVote], rfl, rfl, tx, rfl, rfl, rfl, rfl⟩
  | @change old hfeed hrow hmessage =>
    obtain ⟨holdMessage, -, hcreated, -⟩ := hsome old hrow
    refine ⟨?_, ?_, ?_, tx, rfl, hmessage.symm, rfl, rfl⟩
    · rw [List.forall_mem_append]
      exact ⟨holdMessage, by simpa [nextAudit, auditRow, LedgerRow.withVote] using hmessage.symm⟩
    · rw [List.getLast?_concat]
      rfl
    · -- the first entry is an older one, so the row keeps its age
      cases hentries : entries with
      | nil => rw [hentries] at hcreated; cases hcreated
      | cons first rest => rw [hentries] at hcreated; exact hcreated

/-- The tally that an accepted reaction leaves. -/
theorem logged_tally (h : Accepts s tx now kind tally row) {trail : List AuditRow}
    (hnone : s.tallies.find? tx.messageId = none → trail = [])
    (hsome : ∀ t, s.tallies.find? tx.messageId = some t → t.Logged trail) :
    tally.Logged (trail ++ [nextAudit s tx height now]) := by
  have hcurrent : (current s tx now).Logged trail := by
    rw [current]
    cases ht : s.tallies.find? tx.messageId with
    | some t => exact hsome t ht
    | none =>
      rw [hnone ht]
      exact ⟨by simp, rfl⟩
  have hfields : tally.feedId = tx.feedId ∧ (current s tx now).feedId = tx.feedId ∧
      tally.version = (current s tx now).version + 1 := by
    cases h with
    | first hfeed _ => exact ⟨hfeed, hfeed, rfl⟩
    | change hfeed _ _ => exact ⟨hfeed, hfeed, rfl⟩
  obtain ⟨htally, hfeed, hversion⟩ := hfields
  refine ⟨?_, ?_⟩
  · rw [List.forall_mem_append, htally, ← hfeed]
    exact ⟨hcurrent.feed, by simp [nextAudit, auditRow, hfeed]⟩
  · rw [hversion, hcurrent.version, List.length_append]
    rfl

/-- An accepted reaction is logged. -/
theorem History.Logged.record {h : History} (hlogged : h.Logged)
    (haccepts : Accepts h.store tx now kind tally row) :
    Logged ⟨h.store.record tally row (nextAudit h.store tx height now), tx :: h.accepted⟩ := by
  have hnullifier : (nextAudit h.store tx height now).nullifier = tx.nullifier := rfl
  have hmessage : (nextAudit h.store tx height now).messageId = tx.messageId := rfl
  refine ⟨fun nullifier => ?_, fun nullifier row' hrow => ?_, fun message => ?_,
    fun message t ht => ?_⟩
  · rw [find?_nullifiers_record haccepts, Store.entries_record, hnullifier]
    by_cases hn : tx.nullifier = nullifier
    · simp [hn]
    · simpa [hn] using hlogged.row_isSome nullifier
  · rw [find?_nullifiers_record haccepts] at hrow
    rw [Store.entries_record, hnullifier, latest?_cons]
    by_cases hn : tx.nullifier = nullifier
    · subst hn
      simp only [if_true, Option.some.injEq] at hrow ⊢
      subst hrow
      exact logged_row haccepts
        (fun hnone => by simpa [hnone] using hlogged.row_isSome tx.nullifier)
        (hlogged.row tx.nullifier)
    · simp only [if_neg hn, List.append_nil] at hrow ⊢
      exact hlogged.row nullifier row' hrow
  · rw [find?_tallies_record haccepts, Store.trail_record, hmessage]
    by_cases hm : tx.messageId = message
    · simp [hm]
    · simpa [hm] using hlogged.tally_isSome message
  · rw [find?_tallies_record haccepts] at ht
    rw [Store.trail_record, hmessage]
    by_cases hm : tx.messageId = message
    · subst hm
      simp only [if_true, Option.some.injEq] at ht ⊢
      subst ht
      exact logged_tally haccepts
        (fun hnone => by simpa [hnone] using hlogged.tally_isSome tx.messageId)
        (hlogged.tally tx.messageId)
    · simp only [if_neg hm, List.append_nil] at ht ⊢
      exact hlogged.tally message t ht

end

/-- Every history is logged. -/
theorem History.Logged.of (events : List Event) : (History.of events).Logged := by
  refine History.extend_induction (Q := fun _ => True) (fun _ _ => trivial) ?_
    (fun h s hlogged hquiet => ?_)
    fun h tx height now kind tally row hlogged _ haccepts => hlogged.record haccepts
  · exact ⟨fun _ => ⟨(nomatch ·), fun h => absurd rfl h⟩, fun _ _ h => (nomatch h),
      fun _ => ⟨(nomatch ·), fun h => absurd rfl h⟩, fun _ _ h => (nomatch h)⟩
  · obtain ⟨failures, id, rfl⟩ := hquiet
    exact ⟨hlogged.row_isSome, hlogged.row, hlogged.tally_isSome, hlogged.tally⟩

/-! ## What stays -/

/-- What a later state keeps of an earlier one: the log only grows at its end, a ledger row keeps
its nullifier, message and age, and a tally its feed. -/
structure History.ExtendedBy (h h' : History) : Prop where
  log : ∃ new, h'.store.transactions = new ++ h.store.transactions
  row : ∀ nullifier row, h.store.nullifiers.find? nullifier = some row →
    ∃ row', h'.store.nullifiers.find? nullifier = some row' ∧ row'.nullifier = row.nullifier ∧
      row'.messageId = row.messageId ∧ row'.createdAt = row.createdAt
  tally : ∀ message t, h.store.tallies.find? message = some t →
    ∃ t', h'.store.tallies.find? message = some t' ∧ t'.feedId = t.feedId

namespace History.ExtendedBy

variable {h h' h'' : History}

theorem refl (h : History) : h.ExtendedBy h where
  log := ⟨[], rfl⟩
  row _ row hrow := ⟨row, hrow, rfl, rfl, rfl⟩
  tally _ t ht := ⟨t, ht, rfl⟩

/-- Extension carries over. -/
theorem trans (hfirst : h.ExtendedBy h') (hsecond : h'.ExtendedBy h'') : h.ExtendedBy h'' where
  log := by
    obtain ⟨new, hnew⟩ := hfirst.log
    obtain ⟨new', hnew'⟩ := hsecond.log
    exact ⟨new' ++ new, by rw [hnew', hnew, List.append_assoc]⟩
  row nullifier row hrow := by
    obtain ⟨row', hrow', hnullifier, hmessage, hcreated⟩ := hfirst.row nullifier row hrow
    obtain ⟨row'', hrow'', hnullifier', hmessage', hcreated'⟩ := hsecond.row nullifier row' hrow'
    exact ⟨row'', hrow'', hnullifier'.trans hnullifier, hmessage'.trans hmessage,
      hcreated'.trans hcreated⟩
  tally message t ht := by
    obtain ⟨t', ht', hfeed⟩ := hfirst.tally message t ht
    obtain ⟨t'', ht'', hfeed'⟩ := hsecond.tally message t' ht'
    exact ⟨t'', ht'', hfeed'.trans hfeed⟩

/-- A quiet change extends a history by nothing. -/
theorem quiet {s : Store} (hquiet : h.store.Quiet s) : h.ExtendedBy { h with store := s } := by
  obtain ⟨failures, id, rfl⟩ := hquiet
  exact ⟨(refl h).log, (refl h).row, (refl h).tally⟩

/-- An accepted reaction on a row or a tally that exists keeps what identifies it. -/
theorem record {tx : Reaction} {now : Timestamp} {kind : ReactionKind} {tally : Tally}
    {row : LedgerRow} (haccepts : Accepts h.store tx now kind tally row) (audit : AuditRow) :
    h.ExtendedBy ⟨h.store.record tally row audit, tx :: h.accepted⟩ where
  log := ⟨[audit], rfl⟩
  row nullifier old hold := by
    rw [find?_nullifiers_record haccepts]
    by_cases hn : tx.nullifier = nullifier
    · subst hn
      refine ⟨row, if_pos rfl, ?_⟩
      cases haccepts with
      | first hfeed hrow => cases hrow.symm.trans hold
      | change hfeed hrow hmessage =>
        obtain rfl := Option.some.inj (hrow.symm.trans hold)
        exact ⟨rfl, rfl, rfl⟩
    · exact ⟨old, (if_neg hn).trans hold, rfl, rfl, rfl⟩
  tally message old hold := by
    rw [find?_tallies_record haccepts]
    by_cases hm : tx.messageId = message
    · subst hm
      refine ⟨tally, if_pos rfl, ?_⟩
      have hfeed : (current h.store tx now).feedId = old.feedId := by
        rw [current, hold]
        rfl
      cases haccepts with
      | first => exact hfeed
      | change => exact hfeed
    · exact ⟨old, (if_neg hm).trans hold, rfl⟩

/-- Whatever happens next extends a history. -/
theorem extend (h : History) (events : List Event) : h.ExtendedBy (h.extend events) :=
  History.extend_induction (Q := fun _ => True) (fun _ _ => trivial) (refl h)
    (fun _ _ hextended hquiet => hextended.trans (quiet hquiet))
    fun _ _ _ _ _ _ _ hextended _ haccepts => hextended.trans (record haccepts _)

end History.ExtendedBy

/-- At any time, ledger and tallies are as the audit log has them: a nullifier has a row, and a
message a tally, exactly when there is an entry, and the rows agree with the entries. And whatever
happens then, the log only grows at its end and rows keep what identifies them. -/
theorem log_determines_ledger (events more : List Event) :
    (History.of events).Logged ∧ (History.of events).ExtendedBy (History.of (events ++ more)) := by
  rw [History.of_append]
  exact ⟨.of events, .extend _ more⟩

end Ledger

end Reactions
