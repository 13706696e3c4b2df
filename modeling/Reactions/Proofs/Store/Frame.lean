import Mathlib.Data.List.Basic
import Reactions.Proofs.Store.TableRows
import Reactions.Store.Program

/-!
# What reads depend on and commits change

A read depends on the store only through the rows that it touches (`UnitOfWork.answer_congr`). A
commit changes the rows of the keys it writes and no others (`Store.agreesAt_publish`), and gives
exactly those keys the next version (`Store.version_publish`). Between the two stand the versions
that a unit of work remembers: it has not moved as long as each of them is still the present one
(`Store.unmoved_iff`).
-/

namespace Reactions

/-- An audit row without its number. -/
def AuditRow.unnumbered (row : AuditRow) : AuditRow := { row with id := 0 }

/-- The reads that a unit of work keeps track of: all but those of the audit log. -/
def Query.Tracked : Query → Prop
  | .transactions _ => False
  | _ => True

namespace Store

/-! ## Agreement of stores -/

/-- Two stores have the same rows under a key. -/
def AgreesAt (s s' : Store) : RowKey → Prop
  | .commitments feed => s.members feed = s'.members feed
  | .roots feed => s.history feed = s'.history feed
  | .tally message => s.tallies.find? message = s'.tallies.find? message
  | .nullifier nullifier => s.nullifiers.find? nullifier = s'.nullifiers.find? nullifier

theorem AgreesAt.refl (s : Store) (key : RowKey) : s.AgreesAt s key := by
  cases key <;> rfl

/-- Agreement under a key carries over. -/
theorem AgreesAt.trans {s s' s'' : Store} {key : RowKey} (h : s.AgreesAt s' key)
    (h' : s'.AgreesAt s'' key) : s.AgreesAt s'' key := by
  cases key <;> exact Eq.trans h h'

/-- Nothing changes between two stores but the errors that commits are made to fail with and the
number that the last audit row was given. -/
def Quiet (s s' : Store) : Prop :=
  ∃ failures id, s' = { s with failures, lastTransactionId := id }

theorem Quiet.refl (s : Store) : s.Quiet s := ⟨s.failures, s.lastTransactionId, rfl⟩

theorem Quiet.symm {s s' : Store} (h : s.Quiet s') : s'.Quiet s := by
  obtain ⟨failures, id, rfl⟩ := h
  exact ⟨s.failures, s.lastTransactionId, rfl⟩

theorem Quiet.trans {s s' s'' : Store} (h : s.Quiet s') (h' : s'.Quiet s'') : s.Quiet s'' := by
  obtain ⟨failures, id, rfl⟩ := h
  obtain ⟨failures', id', rfl⟩ := h'
  exact ⟨failures', id', rfl⟩

/-- A quiet change leaves the rows of every key. -/
theorem Quiet.agreesAt {s s' : Store} (h : s.Quiet s') (key : RowKey) : s.AgreesAt s' key := by
  obtain ⟨failures, id, rfl⟩ := h
  cases key <;> rfl

/-- Two stores hold the same rows, the numbers of audit rows aside. -/
structure SameRows (s s' : Store) : Prop where
  commitments : s.commitments = s'.commitments
  roots : s.roots = s'.roots
  tallies : s.tallies = s'.tallies
  nullifiers : s.nullifiers = s'.nullifiers
  transactions : s.transactions.map AuditRow.unnumbered = s'.transactions.map AuditRow.unnumbered

theorem SameRows.refl (s : Store) : s.SameRows s := ⟨rfl, rfl, rfl, rfl, rfl⟩

theorem SameRows.symm {s s' : Store} (h : s.SameRows s') : s'.SameRows s :=
  ⟨h.1.symm, h.2.symm, h.3.symm, h.4.symm, h.5.symm⟩

theorem SameRows.trans {s s' s'' : Store} (h : s.SameRows s') (h' : s'.SameRows s'') :
    s.SameRows s'' :=
  ⟨h.1.trans h'.1, h.2.trans h'.2, h.3.trans h'.3, h.4.trans h'.4, h.5.trans h'.5⟩

/-- A quiet change leaves all rows. -/
theorem Quiet.sameRows {s s' : Store} (h : s.Quiet s') : s.SameRows s' := by
  obtain ⟨failures, id, rfl⟩ := h
  exact ⟨rfl, rfl, rfl, rfl, rfl⟩

/-- Stores with the same rows agree under every key. -/
theorem SameRows.agreesAt {s s' : Store} (h : s.SameRows s') (key : RowKey) :
    s.AgreesAt s' key := by
  cases key with
  | commitments feed => rw [AgreesAt, members, members, h.commitments]
  | roots feed => rw [AgreesAt, history, history, h.roots]
  | tally message => rw [AgreesAt, h.tallies]
  | nullifier nullifier => rw [AgreesAt, h.nullifiers]

/-- Whether a feed has a commitment can be read off the feed's members. -/
theorem any_members (s : Store) (feed : FeedId) (commitment : Commitment) :
    (s.commitments.any fun row => row.feedId = feed && row.commitment = commitment) =
      (s.members feed).any (·.commitment = commitment) := by
  rw [members, List.any_reverse, List.any_filter]

end Store

/-! ## Reads -/

namespace UnitOfWork

variable {u u' : UnitOfWork} {s s' : Store}

/-- The pending tally of a message depends on the pending writes alone. -/
theorem pendingTally_congr (hw : u.writes = u'.writes) (message : MessageId) :
    u.pendingTally message = u'.pendingTally message := by
  rw [pendingTally, pendingTally, hw]

theorem pendingNullifier_congr (hw : u.writes = u'.writes) (nullifier : Nullifier) :
    u.pendingNullifier nullifier = u'.pendingNullifier nullifier := by
  rw [pendingNullifier, pendingNullifier, hw]

/-- What a question has to see unchanged depends on the pending writes alone. -/
theorem touched_congr (hw : u.writes = u'.writes) (q : Query) : u.touched q = u'.touched q := by
  cases q <;> simp only [touched, pendingTally_congr hw, pendingNullifier_congr hw]

/-- A tally is read off the pending writes or off the row that the read touches. -/
theorem tally_congr (hw : u.writes = u'.writes) {message : MessageId}
    (h : u.pendingTally message = none → s.AgreesAt s' (.tally message)) :
    u.tally s message = u'.tally s' message := by
  rw [tally, tally, ← pendingTally_congr hw]
  cases hpending : u.pendingTally message with
  | none => rw [h hpending]
  | some row => rfl

/-- The answer to a tracked read depends on the pending writes and on the rows that the read
touches, and on nothing else. -/
theorem answer_congr (hw : u.writes = u'.writes) {q : Query} (hq : q.Tracked)
    (h : ∀ key ∈ u.touched q, s.AgreesAt s' key) : u.answer s q = u'.answer s' q := by
  cases q with
  | commitments feed =>
    have hkey : s.members feed = s'.members feed := h _ (.head _)
    simp only [answer, pendingCommitments, hw, hkey]
  | contains feed commitment =>
    have hkey : s.members feed = s'.members feed := h _ (.head _)
    simp only [answer, pendingCommitments, hw, Store.any_members, hkey]
  | recentRoots feed count =>
    have hkey : s.history feed = s'.history feed := h _ (.head _)
    simp only [answer, pendingRoots, hw, hkey]
  | tally message =>
    refine tally_congr hw fun hnone => h _ ?_
    simp [touched, hnone]
  | tallies feed messages =>
    have hmap : messages.filterMap (u.tally s) = messages.filterMap (u'.tally s') := by
      refine List.filterMap_congr fun message hm => tally_congr hw fun hnone => h _ ?_
      simp [touched, hm, hnone]
    simp only [answer, hmap]
  | nullifier nullifier =>
    simp only [answer, ← pendingNullifier_congr hw]
    cases hpending : u.pendingNullifier nullifier with
    | none =>
      have hkey : s.AgreesAt s' (.nullifier nullifier) := h _ (by simp [touched, hpending])
      rw [hkey]
    | some row => rfl
  | transactions message => exact hq.elim

/-! ## Remembered versions -/

/-- A key that was touched before keeps the version it was first seen with; another is remembered
with its present one. -/
theorem get?_touch (s : Store) (u : UnitOfWork) (key key' : RowKey) :
    (touch s u key).reads.get? key' =
      (u.reads.get? key').or (if key = key' then some (s.version key) else none) := by
  cases hseen : u.reads.get? key with
  | some v =>
    by_cases hk : key = key'
    · subst hk
      simp [touch, hseen]
    · simp [touch, hseen, hk]
  | none =>
    by_cases hk : key = key'
    · subst hk
      simp [touch, hseen, Assoc.get?_save]
    · simp [touch, hseen, hk, Assoc.get?_save]

/-- What is remembered after some keys are touched. -/
theorem get?_foldl_touch (s : Store) (u : UnitOfWork) (keys : List RowKey) (key : RowKey) :
    (keys.foldl (touch s) u).reads.get? key =
      (u.reads.get? key).or (if key ∈ keys then some (s.version key) else none) := by
  induction keys generalizing u with
  | nil => simp
  | cons k rest ih =>
    rw [List.foldl_cons, ih, get?_touch, Option.or_assoc]
    congr 1
    by_cases hk : k = key
    · subst hk
      simp
    · simp [hk, Ne.symm hk]

/-- Remembering versions leaves a unit's isolation. -/
@[simp] theorem isolation_touch (s : Store) (u : UnitOfWork) (keys : List RowKey) :
    (keys.foldl (touch s) u).isolation = u.isolation := by
  induction keys generalizing u with
  | nil => rfl
  | cons k rest ih => rw [List.foldl_cons, ih, touch]; split <;> rfl

@[simp] theorem writes_touch (s : Store) (u : UnitOfWork) (keys : List RowKey) :
    (keys.foldl (touch s) u).writes = u.writes := by
  induction keys generalizing u with
  | nil => rfl
  | cons k rest ih => rw [List.foldl_cons, ih, touch]; split <;> rfl

@[simp] theorem audit_touch (s : Store) (u : UnitOfWork) (keys : List RowKey) :
    (keys.foldl (touch s) u).audit = u.audit := by
  induction keys generalizing u with
  | nil => rfl
  | cons k rest ih => rw [List.foldl_cons, ih, touch]; split <;> rfl

/-! ## What is kept to be written -/

/-- A write is kept by a unit that may write, and refused by one that only reads. -/
theorem perform_save (s : Store) (u : UnitOfWork) (write : Write) :
    u.perform s (.save write) =
      match u.isolation with
      | .readOnly => (.error .readOnly, s, u)
      | .serializable => (.ok (), s, { u with writes := write :: u.writes }) := by
  cases hu : u.isolation <;>
    simp [perform, save, writable, hu, bind, Except.bind, pure, Except.pure]

/-- An audit row gets the next number, unless the unit only reads. -/
theorem perform_append (s : Store) (u : UnitOfWork) (row : AuditRow) :
    u.perform s (.append row) =
      match u.isolation with
      | .readOnly => (.error .readOnly, s, u)
      | .serializable =>
        (.ok { row with id := s.lastTransactionId + 1 },
          { s with lastTransactionId := s.lastTransactionId + 1 },
          { u with audit := { row with id := s.lastTransactionId + 1 } :: u.audit }) := by
  cases hu : u.isolation <;>
    simp [perform, append, writable, hu, bind, Except.bind, pure, Except.pure]

/-- A unit of work that may write keeps a row to be written. -/
theorem perform_save_of_serializable (hu : u.isolation = .serializable) (s : Store)
    (write : Write) :
    u.perform s (.save write) = (.ok (), s, { u with writes := write :: u.writes }) := by
  simp only [perform_save, hu]

/-- It keeps an audit row under the next number. -/
theorem perform_append_of_serializable (hu : u.isolation = .serializable) (s : Store)
    (row : AuditRow) :
    u.perform s (.append row) =
      (.ok { row with id := s.lastTransactionId + 1 },
        { s with lastTransactionId := s.lastTransactionId + 1 },
        { u with audit := { row with id := s.lastTransactionId + 1 } :: u.audit }) := by
  simp only [perform_append, hu]

end UnitOfWork

/-! ## Commits -/

namespace Store

variable {s : Store} {u : UnitOfWork}

/-- A unit of work has not moved if and only if everything it remembers has the version it was
first seen with. -/
theorem unmoved_iff :
    s.unmoved u ↔ ∀ key seen, u.reads.get? key = some seen → s.version key = seen := by
  simp only [unmoved, List.all_eq_true, decide_eq_true_eq, Prod.forall, Assoc.mem_rows_iff]

/-- A write moves the version of its own key and of no other. -/
theorem version_apply (stamp : Nat) (write : Write) (s : Store) (key : RowKey) :
    (s.apply stamp write).version key = if write.key = key then stamp else s.version key := by
  have h : (s.apply stamp write).versions = s.versions.save (write.key, stamp) := by
    cases write <;> rfl
  rw [version, h, Assoc.get?_save]
  split <;> rfl

/-- A write leaves the rows of every other key as they are. -/
theorem agreesAt_apply (stamp : Nat) {write : Write} (s : Store) {key : RowKey}
    (h : write.key ≠ key) : s.AgreesAt (s.apply stamp write) key := by
  cases write <;> cases key <;>
    simp_all [AgreesAt, apply, Write.key, members, history, Table.find?_save]

/-- The writes of a commit move the versions of just the keys that they write. -/
theorem version_foldr_apply (stamp : Nat) (writes : List Write) (s : Store) (key : RowKey) :
    (writes.foldr (apply stamp) s).version key =
      if key ∈ writes.map Write.key then stamp else s.version key := by
  induction writes with
  | nil => simp
  | cons write rest ih =>
    rw [List.foldr_cons, version_apply, ih]
    by_cases hk : write.key = key
    · simp [hk]
    · simp [hk, Ne.symm hk]

/-- Writes leave the rows of a key that none of them writes. -/
theorem agreesAt_foldr_apply (stamp : Nat) (writes : List Write) (s : Store) {key : RowKey}
    (h : key ∉ writes.map Write.key) : s.AgreesAt (writes.foldr (apply stamp) s) key := by
  induction writes with
  | nil => exact .refl s key
  | cons write rest ih =>
    rw [List.map_cons, List.mem_cons, not_or] at h
    exact (ih h.2).trans (agreesAt_apply stamp _ (Ne.symm h.1))

/-- A commit gives what it writes the next version and leaves all other versions alone. -/
theorem version_publish (s : Store) (u : UnitOfWork) (key : RowKey) :
    (s.publish u).version key =
      if key ∈ u.writes.map Write.key then s.clock + 1 else s.version key :=
  version_foldr_apply (s.clock + 1) u.writes { s with clock := s.clock + 1 } key

/-- A commit changes only the rows of the keys it writes. -/
theorem agreesAt_publish (s : Store) {u : UnitOfWork} {key : RowKey}
    (h : key ∉ u.writes.map Write.key) : s.AgreesAt (s.publish u) key :=
  agreesAt_foldr_apply (s.clock + 1) u.writes { s with clock := s.clock + 1 } h

/-- A commit counts as one, whatever it writes. -/
theorem clock_publish (s : Store) (u : UnitOfWork) : (s.publish u).clock = s.clock + 1 := by
  rw [publish]
  induction u.writes with
  | nil => rfl
  | cons write rest ih => cases write <;> exact ih

/-- A commit leaves the failures that are still due. -/
theorem failures_publish (s : Store) (u : UnitOfWork) :
    (s.publish u).failures = s.failures := by
  rw [publish]
  induction u.writes with
  | nil => rfl
  | cons write rest ih => cases write <;> exact ih

/-- A commit puts the pending audit rows before all others. -/
theorem transactions_publish (s : Store) (u : UnitOfWork) :
    (s.publish u).transactions = u.audit ++ s.transactions := by
  rw [publish]
  refine congrArg (u.audit ++ ·) ?_
  induction u.writes with
  | nil => rfl
  | cons write rest ih => cases write <;> exact ih

/-- A tally after some writes is one of theirs, or an old one. -/
theorem mem_tallies_foldr_apply {stamp : Nat} {writes : List Write} {s : Store} {t : Tally}
    (h : t ∈ (writes.foldr (apply stamp) s).tallies.rows) :
    .tally t ∈ writes ∨ t ∈ s.tallies.rows := by
  induction writes with
  | nil => exact .inr h
  | cons write rest ih =>
    rw [List.foldr_cons] at h
    cases write with
    | commitment row => exact (ih h).imp_left (List.mem_cons_of_mem _)
    | root row => exact (ih h).imp_left (List.mem_cons_of_mem _)
    | nullifier row => exact (ih h).imp_left (List.mem_cons_of_mem _)
    | tally row =>
      rcases Table.mem_rows_save h with rfl | hold
      · exact .inl List.mem_cons_self
      · exact (ih hold).imp_left (List.mem_cons_of_mem _)

/-- A ledger row after some writes is one of theirs, or an old one. -/
theorem mem_nullifiers_foldr_apply {stamp : Nat} {writes : List Write} {s : Store}
    {row : LedgerRow} (h : row ∈ (writes.foldr (apply stamp) s).nullifiers.rows) :
    .nullifier row ∈ writes ∨ row ∈ s.nullifiers.rows := by
  induction writes with
  | nil => exact .inr h
  | cons write rest ih =>
    rw [List.foldr_cons] at h
    cases write with
    | commitment row => exact (ih h).imp_left (List.mem_cons_of_mem _)
    | root row => exact (ih h).imp_left (List.mem_cons_of_mem _)
    | tally row => exact (ih h).imp_left (List.mem_cons_of_mem _)
    | nullifier row =>
      rcases Table.mem_rows_save h with rfl | hold
      · exact .inl List.mem_cons_self
      · exact (ih hold).imp_left (List.mem_cons_of_mem _)

/-- The tallies after a commit: those that it writes, and old ones. -/
theorem mem_tallies_publish {s : Store} {u : UnitOfWork} {t : Tally}
    (h : t ∈ (s.publish u).tallies.rows) : .tally t ∈ u.writes ∨ t ∈ s.tallies.rows :=
  mem_tallies_foldr_apply (s := { s with clock := s.clock + 1 }) h

/-- The ledger rows after a commit: those that it writes, and old ones. -/
theorem mem_nullifiers_publish {s : Store} {u : UnitOfWork} {row : LedgerRow}
    (h : row ∈ (s.publish u).nullifiers.rows) :
    .nullifier row ∈ u.writes ∨ row ∈ s.nullifiers.rows :=
  mem_nullifiers_foldr_apply (s := { s with clock := s.clock + 1 }) h

/-- A commit gives out no numbers. -/
theorem lastTransactionId_publish (s : Store) (u : UnitOfWork) :
    (s.publish u).lastTransactionId = s.lastTransactionId := by
  rw [publish]
  induction u.writes with
  | nil => rfl
  | cons write rest ih => cases write <;> exact ih

/-- If no version is newer than the clock, then none is after a commit. -/
theorem version_publish_le {s : Store} (h : ∀ key, s.version key ≤ s.clock) (u : UnitOfWork)
    (key : RowKey) : (s.publish u).version key ≤ (s.publish u).clock := by
  have hpast := h key
  rw [version_publish, clock_publish]
  split <;> omega

/-- The same writes on the same rows lead to the same rows, whatever their stamps. -/
theorem SameRows.foldr_apply {s s' : Store} (h : s.SameRows s') (stamp stamp' : Nat)
    (writes : List Write) :
    (writes.foldr (apply stamp) s).SameRows (writes.foldr (apply stamp') s') := by
  induction writes with
  | nil => exact h
  | cons write rest ih =>
    obtain ⟨hcommitments, hroots, htallies, hnullifiers, htransactions⟩ := ih
    rw [List.foldr_cons, List.foldr_cons]
    generalize rest.foldr (apply stamp) s = t at *
    generalize rest.foldr (apply stamp') s' = t' at *
    cases write with
    | commitment row =>
      exact ⟨congrArg (row :: ·) hcommitments, hroots, htallies, hnullifiers, htransactions⟩
    | root row =>
      exact ⟨hcommitments, congrArg (row :: ·) hroots, htallies, hnullifiers, htransactions⟩
    | tally row =>
      exact ⟨hcommitments, hroots, congrArg (·.save row) htallies, hnullifiers, htransactions⟩
    | nullifier row =>
      exact ⟨hcommitments, hroots, htallies, congrArg (·.save row) hnullifiers, htransactions⟩

/-- Units that hold the same rows publish the same rows. -/
theorem SameRows.publish {s s' : Store} {u u' : UnitOfWork} (h : s.SameRows s')
    (hw : u.writes = u'.writes)
    (ha : u.audit.map AuditRow.unnumbered = u'.audit.map AuditRow.unnumbered) :
    (s.publish u).SameRows (s'.publish u') := by
  have hclock : SameRows { s with clock := s.clock + 1 } { s' with clock := s'.clock + 1 } :=
    ⟨h.1, h.2, h.3, h.4, h.5⟩
  have hfold := hclock.foldr_apply (s.clock + 1) (s'.clock + 1) u.writes
  obtain ⟨hcommitments, hroots, htallies, hnullifiers, htransactions⟩ := hfold
  rw [Store.publish, Store.publish, ← hw]
  refine ⟨hcommitments, hroots, htallies, hnullifiers, ?_⟩
  rw [List.map_append, List.map_append, ha, htransactions]

/-- What a unit publishes depends on its pending rows alone. -/
theorem publish_congr (s : Store) {u u' : UnitOfWork} (hw : u.writes = u'.writes)
    (ha : u.audit = u'.audit) : s.publish u = s.publish u' := by
  rw [publish, publish, hw, ha]

/-- A commit that is made to fail does so, and uses that failure up. -/
theorem commit_of_failure (hu : u.isolation = .serializable) {e : StoreError}
    {rest : List StoreError} (h : s.failures = e :: rest) :
    s.commit u = (.error e, { s with failures := rest }) := by
  rw [commit, hu, h]

/-- A commit succeeds if no failure is due and nothing that was read has moved. -/
theorem commit_of_unmoved (hu : u.isolation = .serializable) (h : s.failures = [])
    (hunmoved : s.unmoved u) : s.commit u = (.ok (), s.publish u) := by
  rw [commit, hu, h]
  exact if_pos hunmoved

/-- What comes of a commit: it publishes everything that a unit which may write has pending,
provided that nothing the unit remembers was written since and no failure is due; otherwise no row
and no version changes, and a unit which may write gets an error. -/
theorem commit_cases (s : Store) (u : UnitOfWork) :
    (u.isolation = .serializable ∧ s.failures = [] ∧ s.unmoved u ∧
      s.commit u = (.ok (), s.publish u)) ∨
    ∃ outcome failures, s.commit u = (outcome, { s with failures }) ∧
      (u.isolation = .serializable → ∃ e, outcome = .error e) := by
  rw [commit]
  cases u.isolation with
  | readOnly => exact .inr ⟨_, s.failures, rfl, fun h => nomatch h⟩
  | serializable =>
    cases hfailures : s.failures with
    | cons e rest => exact .inr ⟨_, rest, rfl, fun _ => ⟨e, rfl⟩⟩
    | nil =>
      by_cases hmoved : s.unmoved u
      · exact .inl ⟨rfl, rfl, hmoved, if_pos hmoved⟩
      · exact .inr ⟨_, s.failures, if_neg hmoved, fun _ => ⟨_, rfl⟩⟩

end Store

end Reactions
