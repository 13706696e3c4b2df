import Mathlib.Data.List.Pairwise
import Reactions.Proofs.Ledger.TallySum
import Reactions.Proofs.Store.Contracts

/-!
# The numbers of audit rows

The number of an audit row is given out when the row is appended and not when it is committed, so
across messages the numbers in the log need not rise, and those of lost attempts are missing. Still
`numbers_identify_rows`: however reactions are interleaved, no two committed rows share a number,
the rows of one message are numbered in the order of their commits, and the number that a processed
reaction is told is that of its own row.

The second part rests on what a unit of work has done before it appends a row: it has read the tally
of the row's message, and it is going to write it (`UnitOfWork.Holds`). Of two units with pending
rows of one message, the one that commits first therefore makes the other move, so a unit which has
not moved has numbers above all committed ones of the message (`UnitOfWork.Numbered`).
-/

namespace Reactions

namespace UnitOfWork

/-- A unit of work has read the tally of a message and is going to write it. -/
structure Holds (u : UnitOfWork) (message : MessageId) : Prop where
  isolation : u.isolation = .serializable
  read : ∃ seen, u.reads.get? (.tally message) = some seen
  written : .tally message ∈ u.writes.map Write.key

/-- Audit rows are appended only for a message that is held. -/
def Permits (u : UnitOfWork) : Call → Prop
  | .append row => u.Holds row.messageId
  | _ => True

/-- The pending audit rows of a unit of work are numbered apart from all committed ones, and unless
the unit has moved they come after all committed ones of the same message. -/
structure Numbered (s : Store) (u : UnitOfWork) : Prop where
  holds : ∀ row ∈ u.audit, u.Holds row.messageId
  given : ∀ row ∈ u.audit, row.id ≤ s.lastTransactionId
  falling : u.audit.Pairwise fun row row' => row'.id < row.id
  fresh : ∀ row ∈ u.audit, ∀ old ∈ s.transactions, row.id ≠ old.id
  later : s.unmoved u → ∀ row ∈ u.audit, ∀ old ∈ s.transactions,
    row.messageId = old.messageId → old.id < row.id

end UnitOfWork

/-- The committed audit rows have numbers that were given out, each only once, and those of one
message in the order of their commits. -/
structure Store.Numbered (s : Store) : Prop where
  given : ∀ row ∈ s.transactions, row.id ≤ s.lastTransactionId
  distinct : s.transactions.Pairwise fun row row' => row.id ≠ row'.id
  falling : s.transactions.Pairwise fun row row' =>
    row.messageId = row'.messageId → row'.id < row.id

/-! ## Units of work -/

namespace UnitOfWork

variable {s : Store} {u u' : UnitOfWork}

/-- A unit of work goes on holding what it holds. -/
theorem Holds.mono {message : MessageId} (h : u.Holds message)
    (hisolation : u'.isolation = u.isolation)
    (hreads : ∀ key seen, u.reads.get? key = some seen → u'.reads.get? key = some seen)
    (hwrites : ∀ write ∈ u.writes, write ∈ u'.writes) : u'.Holds message where
  isolation := hisolation.trans h.isolation
  read := by
    obtain ⟨seen, hseen⟩ := h.read
    exact ⟨seen, hreads _ seen hseen⟩
  written := by
    obtain ⟨write, hwrite, hkey⟩ := List.mem_map.1 h.written
    exact List.mem_map.2 ⟨write, hwrites write hwrite, hkey⟩

namespace Numbered

/-- A unit without pending rows has nothing to be numbered. -/
theorem of_audit_nil (s : Store) (hu : u.audit = []) : u.Numbered s := by
  refine ⟨?_, ?_, ?_, ?_, ?_⟩ <;> simp [hu]

/-- A unit that has no more rows pending, and remembers and writes no less. -/
theorem mono (h : u.Numbered s) (haudit : u'.audit = u.audit)
    (hisolation : u'.isolation = u.isolation)
    (hreads : ∀ key seen, u.reads.get? key = some seen → u'.reads.get? key = some seen)
    (hwrites : ∀ write ∈ u.writes, write ∈ u'.writes) : u'.Numbered s where
  holds row hrow := (h.holds row (haudit ▸ hrow)).mono hisolation hreads hwrites
  given := haudit ▸ h.given
  falling := haudit ▸ h.falling
  fresh := haudit ▸ h.fresh
  later hunmoved := by
    have hbefore : s.unmoved u := by
      rw [Store.unmoved_iff] at hunmoved ⊢
      exact fun key seen hseen => hunmoved key seen (hreads key seen hseen)
    exact haudit ▸ h.later hbefore

/-- Numbers that others take, and failures that are due, do not matter. -/
theorem quiet {s' : Store} (h : u.Numbered s) (hs : s.Quiet s')
    (hlast : s.lastTransactionId ≤ s'.lastTransactionId) : u.Numbered s' := by
  obtain ⟨failures, id, rfl⟩ := hs
  exact ⟨h.holds, fun row hrow => Nat.le_trans (h.given row hrow) hlast,
    h.falling, h.fresh, h.later⟩

/-- The next number is above all others. -/
theorem append (h : u.Numbered s) (hs : s.Numbered) {row : AuditRow}
    (hheld : u.Holds row.messageId) :
    Numbered { s with lastTransactionId := s.lastTransactionId + 1 }
      { u with audit := { row with id := s.lastTransactionId + 1 } :: u.audit } where
  holds := by
    have hkeep {message : MessageId} (hu : u.Holds message) :
        Holds { u with audit := { row with id := s.lastTransactionId + 1 } :: u.audit } message :=
      ⟨hu.isolation, hu.read, hu.written⟩
    rw [List.forall_mem_cons]
    exact ⟨hkeep hheld, fun old hold => hkeep (h.holds old hold)⟩
  given := by
    rw [List.forall_mem_cons]
    exact ⟨Nat.le_refl _, fun old hold => Nat.le_succ_of_le (h.given old hold)⟩
  falling := List.pairwise_cons.2
    ⟨fun old hold => Nat.lt_succ_of_le (h.given old hold), h.falling⟩
  fresh := by
    rw [List.forall_mem_cons]
    refine ⟨fun old hold => ?_, h.fresh⟩
    have hle := hs.given old hold
    dsimp only
    omega
  later hunmoved := by
    rw [List.forall_mem_cons]
    exact ⟨fun old hold _ => Nat.lt_succ_of_le (hs.given old hold), h.later hunmoved⟩

/-- A call that is permitted. -/
theorem perform (h : u.Numbered s) (hs : s.Numbered) {call : Call} (hpermits : u.Permits call) :
    (u.perform s call).2.2.Numbered (u.perform s call).2.1 := by
  cases call with
  | read q =>
    refine h.mono (audit_touch s u _) (isolation_touch s u _) (fun key seen hseen => ?_) ?_
    · simp only [UnitOfWork.perform, read, get?_foldl_touch, hseen, Option.some_or]
    · exact fun write hwrite => (writes_touch s u _).symm ▸ hwrite
  | save write =>
    cases hu : u.isolation with
    | readOnly => simpa [perform_save, hu] using h
    | serializable =>
      rw [perform_save_of_serializable hu]
      exact h.mono rfl rfl (fun _ _ hseen => hseen) fun _ => List.mem_cons_of_mem write
  | append row =>
    have hheld : u.Holds row.messageId := hpermits
    rw [perform_append_of_serializable hheld.isolation]
    exact h.append hs hheld

/-- Another unit is committed. If it has rows of a message that this one holds then this one has
moved, since the other has written the tally. -/
theorem publish {other : UnitOfWork} (h : u.Numbered s) (hother : other.Numbered s)
    (hapart : ∀ row ∈ u.audit, ∀ row' ∈ other.audit, row.id ≠ row'.id)
    (hseen : u.isolation = .serializable →
      ∀ key seen, u.reads.get? key = some seen → seen ≤ s.version key)
    (hclock : ∀ key, s.version key ≤ s.clock) : u.Numbered (s.publish other) where
  holds := h.holds
  given row hrow := by
    rw [Store.lastTransactionId_publish]
    exact h.given row hrow
  falling := h.falling
  fresh row hrow := by
    rw [Store.transactions_publish, List.forall_mem_append]
    exact ⟨hapart row hrow, h.fresh row hrow⟩
  later hunmoved row hrow := by
    have hheld := h.holds row hrow
    obtain ⟨hbefore, hunwritten⟩ :=
      Store.unmoved_of_publish (hseen hheld.isolation) hclock hunmoved
    rw [Store.transactions_publish, List.forall_mem_append]
    refine ⟨fun row' hrow' hmessage => ?_, h.later hbefore row hrow⟩
    obtain ⟨seen, hread⟩ := hheld.read
    refine absurd ?_ (hunwritten _ seen hread)
    rw [hmessage]
    exact (hother.holds row' hrow').written

end Numbered

end UnitOfWork

/-! ## The log -/

namespace Store.Numbered

variable {s : Store} {u : UnitOfWork}

/-- Numbers that are taken in vain leave the log as it is. -/
theorem quiet {s' : Store} (h : s.Numbered) (hs : s.Quiet s')
    (hlast : s.lastTransactionId ≤ s'.lastTransactionId) : s'.Numbered := by
  obtain ⟨failures, id, rfl⟩ := hs
  exact ⟨fun row hrow => Nat.le_trans (h.given row hrow) hlast, h.distinct, h.falling⟩

/-- A unit of work that has not moved is committed. -/
theorem publish (h : s.Numbered) (hu : u.Numbered s) (hunmoved : s.unmoved u) :
    (s.publish u).Numbered where
  given := by
    rw [transactions_publish, lastTransactionId_publish, List.forall_mem_append]
    exact ⟨hu.given, h.given⟩
  distinct := by
    rw [transactions_publish, List.pairwise_append]
    exact ⟨hu.falling.imp Nat.ne_of_gt, h.distinct, hu.fresh⟩
  falling := by
    rw [transactions_publish, List.pairwise_append]
    have hfalling : u.audit.Pairwise fun row row' =>
        row.messageId = row'.messageId → row'.id < row.id :=
      hu.falling.imp (by intro row row' hlt _; exact hlt)
    exact ⟨hfalling, h.falling, hu.later hunmoved⟩

/-- A committed row is the only one with its number. -/
theorem filter_id (h : s.Numbered) {row : AuditRow} (hrow : row ∈ s.transactions) :
    s.transactions.filter (·.id = row.id) = [row] := by
  have hdistinct := h.distinct
  generalize s.transactions = rows at hrow hdistinct
  induction rows with
  | nil => cases hrow
  | cons first rest ih =>
    obtain ⟨hfirst, hrest⟩ := List.pairwise_cons.1 hdistinct
    rcases List.mem_cons.1 hrow with rfl | hmem
    · have hnone : rest.filter (·.id = row.id) = [] := by
        simpa [List.filter_eq_nil_iff] using fun old hold => (hfirst old hold).symm
      rw [List.filter_cons_of_pos (by simp), hnone]
    · have hne : first.id ≠ row.id := hfirst row hmem
      rw [List.filter_cons_of_neg (by simpa using hne), ih hmem hrest]

/-- The rows of a message are numbered in the order of their commits. -/
theorem trail (h : s.Numbered) (message : MessageId) :
    ((s.trail message).map AuditRow.id).Pairwise (· < ·) := by
  have hfalling := h.falling.filter fun row => row.messageId = message
  rw [Store.trail, List.map_reverse, List.pairwise_reverse, List.pairwise_map]
  refine hfalling.imp_of_mem fun {row row'} hrow hrow' hlt => hlt ?_
  have hmessage : row.messageId = message := by simpa using (List.mem_filter.1 hrow).2
  have hmessage' : row'.messageId = message := by simpa using (List.mem_filter.1 hrow').2
  rw [hmessage, hmessage']

end Store.Numbered

/-! ## Clients -/

namespace Client

variable {α : Type} {s : Store} {c : Client α}

/-- A step takes no number back. -/
theorem lastTransactionId_step (s : Store) (c : Client α) :
    s.lastTransactionId ≤ (c.step s).1.lastTransactionId := by
  obtain ⟨⟨program, u⟩, made⟩ := c
  cases program with
  | done a => exact Nat.le_refl _
  | begin isolation next => exact Nat.le_refl _
  | wait ms next => exact Nat.le_refl _
  | commit next =>
    rcases s.commit_cases u with ⟨-, -, -, hcommit⟩ | ⟨outcome, failures, hcommit, -⟩
    · simp [step, Process.step, hcommit, Store.lastTransactionId_publish]
    · simp [step, Process.step, hcommit]
  | call call next =>
    cases call with
    | read q => exact Nat.le_refl _
    | save write =>
      simp only [step, Process.step, UnitOfWork.perform_save]
      split <;> exact Nat.le_refl _
    | append row =>
      simp only [step, Process.step, UnitOfWork.perform_append]
      split
      · exact Nat.le_refl _
      · exact Nat.le_succ _

/-- The rows that are pending after a step were pending before, or have a new number. -/
theorem mem_audit_step {row : AuditRow} (h : row ∈ (c.step s).2.process.unit.audit) :
    row ∈ c.process.unit.audit ∨ s.lastTransactionId < row.id := by
  obtain ⟨⟨program, u⟩, made⟩ := c
  cases program with
  | done a => exact .inl h
  | begin isolation next => cases h
  | wait ms next => exact .inl h
  | commit next => cases h
  | call call next =>
    cases call with
    | read q => exact .inl ((UnitOfWork.audit_touch s u _) ▸ h)
    | save write =>
      simp only [step, Process.step, UnitOfWork.perform_save] at h
      split at h <;> exact .inl h
    | append appended =>
      simp only [step, Process.step, UnitOfWork.perform_append] at h
      split at h
      · exact .inl h
      · rcases List.mem_cons.1 h with rfl | hold
        · exact .inr (Nat.lt_succ_self _)
        · exact .inl hold

variable {post : α → UnitOfWork → List AuditRow → Prop} {rows : List AuditRow}

/-- A client that keeps the contract keeps its pending rows numbered. -/
theorem numbered_unit_step (hkeeps : c.Keeps UnitOfWork.Permits post rows) (hs : s.Numbered)
    (hu : c.process.unit.Numbered s) :
    (c.step s).2.process.unit.Numbered (c.step s).1 := by
  obtain ⟨⟨program, u⟩, made⟩ := c
  cases program with
  | done a => exact hu
  | begin isolation next => exact .of_audit_nil s rfl
  | wait ms next => exact hu
  | commit next => exact .of_audit_nil _ rfl
  | call call next => exact hu.perform hs hkeeps.1

/-- It keeps the log numbered. -/
theorem numbered_step (hs : s.Numbered) (hu : c.process.unit.Numbered s) :
    (c.step s).1.Numbered := by
  rcases c.step_cases s with ⟨-, -, hunmoved, hstore⟩ | ⟨-, hquiet⟩
  · rw [hstore]
    exact hs.publish hu hunmoved
  · exact hs.quiet hquiet (lastTransactionId_step s c)

/-- The rows of which a client knows that they are committed are committed after a step too. -/
theorem rowsAfter_committed (hrows : ∀ row ∈ rows, row ∈ s.transactions) :
    ∀ row ∈ c.rowsAfter s rows, row ∈ (c.step s).1.transactions := by
  rw [rowsAfter]
  rcases c.step_cases s with ⟨hcommits, -, -, hstore⟩ | ⟨hcommits, failures, id, hstore⟩
  · rw [if_pos hcommits, hstore, Store.transactions_publish, List.forall_mem_append]
    exact ⟨fun row => List.mem_append_left _,
      fun row hrow => List.mem_append_right _ (hrows row hrow)⟩
  · rw [if_neg (by simp [hcommits]), hstore]
    exact hrows

/-- Committed rows stay. -/
theorem mem_transactions_step {row : AuditRow} (hrow : row ∈ s.transactions) :
    row ∈ (c.step s).1.transactions := by
  rcases c.step_cases s with ⟨-, -, -, hstore⟩ | ⟨-, failures, id, hstore⟩
  · rw [hstore, Store.transactions_publish]
    exact List.mem_append_right _ hrow
  · rw [hstore]
    exact hrow

end Client

/-! ## Runs -/

namespace System

variable {α : Type} {post : Nat → α → UnitOfWork → List AuditRow → Prop} {σ : System α}

/-- All rows of a system, committed or pending, are numbered apart, and every client keeps its
contract, with some of the committed rows to its credit. -/
structure Numbered (post : Nat → α → UnitOfWork → List AuditRow → Prop) (σ : System α) : Prop where
  log : σ.store.Numbered
  unit : ∀ i, (σ.clients i).process.unit.Numbered σ.store
  apart : ∀ i j, i ≠ j → ∀ row ∈ (σ.clients i).process.unit.audit,
    ∀ row' ∈ (σ.clients j).process.unit.audit, row.id ≠ row'.id
  keeps : ∀ i, ∃ rows, (∀ row ∈ rows, row ∈ σ.store.transactions) ∧
    (σ.clients i).Keeps UnitOfWork.Permits (post i) rows

namespace Numbered

/-- At the start nothing is numbered. -/
theorem start {programs : Nat → Program α}
    (h : ∀ i, (programs i).Keeps UnitOfWork.Permits (post i) default []) :
    Numbered post { clients := fun i => { process := ⟨programs i, default⟩ } } where
  log := ⟨fun _ hrow => (nomatch hrow), .nil, .nil⟩
  unit := fun _ => .of_audit_nil _ rfl
  apart := fun _ _ _ _ hrow => nomatch hrow
  keeps := fun i => ⟨[], fun _ hrow => (nomatch hrow), h i⟩

/-- Failures that are due do not matter. -/
theorem failNext (h : σ.Numbered post) (errors : List StoreError) :
    (σ.step (.failNext errors)).Numbered post := by
  have hquiet : σ.store.Quiet (σ.store.failNextCommits errors) :=
    ⟨_, σ.store.lastTransactionId, rfl⟩
  have hlast : σ.store.lastTransactionId ≤ (σ.store.failNextCommits errors).lastTransactionId :=
    Nat.le_refl _
  exact ⟨h.log.quiet hquiet hlast, fun i => (h.unit i).quiet hquiet hlast, h.apart, h.keeps⟩

/-- The unit of another client after a client's step. -/
theorem other_unit (h : σ.Numbered post) (hsound : σ.Sound) {i j : Nat} (hij : j ≠ i) :
    (σ.clients j).process.unit.Numbered ((σ.clients i).step σ.store).1 := by
  rcases (σ.clients i).step_cases σ.store with ⟨-, -, -, hstore⟩ | ⟨-, hquiet⟩
  · rw [hstore]
    exact (h.unit j).publish (h.unit i) (h.apart j i hij)
      (fun hisolation => (hsound.clients j hisolation).seen_le) hsound.clock
  · exact (h.unit j).quiet hquiet (Client.lastTransactionId_step _ _)

/-- A client's step. -/
theorem client (h : σ.Numbered post) (hsound : σ.Sound) (i : Nat) :
    (σ.step (.client i)).Numbered post where
  log := Client.numbered_step h.log (h.unit i)
  unit := fun j => by
    by_cases hj : j = i
    · subst hj
      rw [clients_step_self]
      obtain ⟨rows, -, hkeeps⟩ := h.keeps j
      exact Client.numbered_unit_step hkeeps h.log (h.unit j)
    · rw [clients_step_of_ne σ hj]
      exact h.other_unit hsound hj
  apart := by
    -- a row that is new in client `i` has a number above those of all pending rows
    have hnew : ∀ j, j ≠ i → ∀ row ∈ ((σ.clients i).step σ.store).2.process.unit.audit,
        ∀ row' ∈ (σ.clients j).process.unit.audit, row.id ≠ row'.id := by
      intro j hj row hrow row' hrow'
      rcases Client.mem_audit_step hrow with hold | hlt
      · exact h.apart i j (Ne.symm hj) row hold row' hrow'
      · have hle := (h.unit j).given row' hrow'
        omega
    intro j k hjk
    by_cases hj : j = i
    · have hk : k ≠ i := fun hk => hjk (hj.trans hk.symm)
      rw [hj, clients_step_self, clients_step_of_ne σ hk]
      exact hnew k hk
    · rw [clients_step_of_ne σ hj]
      by_cases hk : k = i
      · rw [hk, clients_step_self]
        exact fun row hrow row' hrow' => (hnew j hj row' hrow' row hrow).symm
      · rw [clients_step_of_ne σ hk]
        exact h.apart j k hjk
  keeps := fun j => by
    obtain ⟨rows, hrows, hkeeps⟩ := h.keeps j
    by_cases hj : j = i
    · subst hj
      rw [clients_step_self]
      exact ⟨_, Client.rowsAfter_committed hrows, hkeeps.step σ.store⟩
    · rw [clients_step_of_ne σ hj]
      exact ⟨rows, fun row hrow => Client.mem_transactions_step (hrows row hrow), hkeeps⟩

/-- The invariant holds after every schedule of programs that keep the contract. -/
theorem after {programs : Nat → Program α}
    (h : ∀ i, (programs i).Keeps UnitOfWork.Permits (post i) default []) (turns : List Turn) :
    (System.after programs turns).Numbered post := by
  have hboth : (System.after programs turns).Sound ∧
      (System.after programs turns).Numbered post := by
    rw [System.after]
    generalize hσ : ({ clients := _ } : System α) = σ
    have hsound : σ.Sound := hσ ▸ Sound.start programs
    have hnumbered : σ.Numbered post := hσ ▸ start h
    clear hσ
    induction turns generalizing σ with
    | nil => exact ⟨hsound, hnumbered⟩
    | cons turn rest ih =>
      refine ih _ (hsound.step turn) ?_
      cases turn with
      | failNext errors => exact hnumbered.failNext errors
      | client i => exact hnumbered.client hsound i
  exact hboth.2

end Numbered

end System

/-! ## Reactions -/

namespace Ledger

/-- Among some audit rows is the one of a processed reaction. -/
def Recorded (tx : Reaction) (processed : Processed) (rows : List AuditRow) : Prop :=
  ∃ row ∈ rows, row.id = processed.transactionId ∧ row.messageId = tx.messageId ∧
    row.nullifier = tx.nullifier ∧ row.vote = tx.vote

/-- A vote does not move a tally to another message. -/
theorem messageId_of_tallied {tx : Reaction} {now : Timestamp} {current tally : Tally}
    {recorded : Option LedgerRow} {kind : ReactionKind} {row : LedgerRow}
    (h : tallied tx now current recorded = .ok (kind, tally, row)) :
    tally.messageId = current.messageId := by
  cases recorded with
  | none => cases h; rfl
  | some existing =>
    rw [tallied_some] at h
    split at h
    · cases h; rfl
    · cases h

/-- The second half of an attempt, in a unit of work that has read the tally of the message: it
saves the tally before it appends the audit row, and ends well only with a commit. -/
theorem keeps_settle {tx : Reaction} {height : Nat} {now : Timestamp} {attempt : Nat}
    {kind : ReactionKind} {tally : Tally} {row : LedgerRow} {u : UnitOfWork}
    (hisolation : u.isolation = .serializable)
    (hread : ∃ seen, u.reads.get? (.tally tx.messageId) = some seen)
    (hmessage : tally.messageId = tx.messageId) (rows : List AuditRow) :
    (settle tx height now attempt (kind, tally, row)).Keeps UnitOfWork.Permits
      (fun processed _ rows => Recorded tx processed rows) u rows := by
  refine Work.keeps_bind (Work.keeps_save hisolation trivial ?_)
  refine Work.keeps_bind (Work.keeps_save hisolation trivial ?_)
  have hheld : UnitOfWork.Holds { u with writes := .tally tally :: .nullifier row :: u.writes }
      tx.messageId :=
    ⟨hisolation, hread, by simp [Write.key, hmessage]⟩
  refine Work.keeps_bind (Work.keeps_append hisolation hheld fun id => ?_)
  refine Work.keeps_bind (Work.keeps_commit hisolation (Work.keeps_pure ?_))
  exact ⟨{ auditRow tx height now with id }, List.mem_append_left _ (.head _), rfl, rfl, rfl, rfl⟩

/-- An attempt appends its audit row when it holds the message, and if it succeeds then the row is
committed. -/
theorem keeps_tryProcess (tx : Reaction) (height : Nat) (now : Timestamp) (attempt : Nat)
    (u : UnitOfWork) (rows : List AuditRow) :
    (tryProcess tx height now attempt).Keeps UnitOfWork.Permits
      (fun processed _ rows => Recorded tx processed rows) u rows := by
  refine Work.keeps_bind (Work.keeps_begin ?_)
  refine Work.keeps_bind (Work.keeps_read trivial fun s => ?_)
  have hisolation : ((UnitOfWork.opened .serializable).read s (.tally tx.messageId)).2.isolation =
      .serializable := UnitOfWork.isolation_touch s _ _
  have hread : ∃ seen, ((UnitOfWork.opened .serializable).read s
      (.tally tx.messageId)).2.reads.get? (.tally tx.messageId) = some seen := by
    refine ⟨s.version (.tally tx.messageId), ?_⟩
    rw [UnitOfWork.read, UnitOfWork.get?_foldl_touch]
    simp [UnitOfWork.touched, UnitOfWork.pendingTally, UnitOfWork.opened, Assoc.get?]
  have hcurrent : (((UnitOfWork.opened .serializable).answer s (.tally tx.messageId)).getD
      (.empty tx.messageId tx.feedId now)).messageId = tx.messageId := messageId_current
  generalize ((UnitOfWork.opened .serializable).read s (.tally tx.messageId)).2 = u₁
    at hisolation hread
  generalize ((UnitOfWork.opened .serializable).answer s (.tally tx.messageId)).getD
    (.empty tx.messageId tx.feedId now) = current at hcurrent
  dsimp only
  split
  · exact Work.keeps_throw _
  · refine Work.keeps_bind (Work.keeps_read trivial fun s' => ?_)
    refine Work.keeps_bind (Work.keeps_liftExcept fun judgement hjudgement => ?_)
    obtain ⟨kind, tally, row⟩ := judgement
    refine keeps_settle ?_ ?_ ((messageId_of_tallied hjudgement).trans hcurrent) rows
    · exact (UnitOfWork.isolation_touch s' u₁ _).trans hisolation
    · obtain ⟨seen, hseen⟩ := hread
      refine ⟨seen, ?_⟩
      rw [UnitOfWork.read, UnitOfWork.get?_foldl_touch, hseen, Option.some_or]

/-- However many attempts there are, each appends its audit row when it holds the message, and if
the last one succeeds then its row is committed. -/
theorem keeps_process (policy : RetryPolicy) (clock : Clock) (tx : Reaction) (height : Nat)
    (u : UnitOfWork) (rows : List AuditRow) :
    (process policy clock tx height).Keeps UnitOfWork.Permits
      (fun processed _ rows => Recorded tx processed rows) u rows :=
  Work.keeps_adapt _ <| Work.keeps_retried policy fun attempt u rows =>
    keeps_tryProcess tx height (clock attempt) attempt u rows

end Ledger

namespace System

/-- However reactions are processed side by side, interrupted and made to fail: no two committed
audit rows share a number, the committed rows of a message are numbered in the order of their
commits, and the number that a processed reaction is told belongs to one committed row, which has
its message, its nullifier and its vote. -/
theorem numbers_identify_rows (policies : Nat → RetryPolicy) (clocks : Nat → Clock)
    (reactions : Nat → Reaction) (heights : Nat → Nat) (turns : List Turn) :
    let σ := after (fun i => (Ledger.process (policies i) (clocks i) (reactions i) (heights i)).run)
      turns
    (σ.store.transactions.map AuditRow.id).Nodup ∧
    (∀ message, ((σ.store.trail message).map AuditRow.id).Pairwise (· < ·)) ∧
    ∀ i processed, (σ.clients i).process.program = .done (.ok processed) →
      ∃ row, σ.store.transactions.filter (·.id = processed.transactionId) = [row] ∧
        row.messageId = (reactions i).messageId ∧ row.nullifier = (reactions i).nullifier ∧
        row.vote = (reactions i).vote := by
  intro σ
  have h : σ.Numbered _ := Numbered.after
    (fun i => Ledger.keeps_process (policies i) (clocks i) (reactions i) (heights i) default [])
    turns
  refine ⟨?_, h.log.trail, fun i processed hdone => ?_⟩
  · exact List.pairwise_map.2 h.log.distinct
  · obtain ⟨rows, hrows, hkeeps⟩ := h.keeps i
    rw [Client.Keeps, hdone] at hkeeps
    obtain ⟨row, hrow, hid, hfields⟩ := hkeeps processed rfl
    have honly := h.log.filter_id (hrows row hrow)
    rw [hid] at honly
    exact ⟨row, honly, hfields⟩

/-- Client 1 loses a race: its first row, which has number 1, is gone, and the one it commits on the
second attempt has number 3, after the row of client 0. -/
theorem lost_number_is_skipped :
    let tx := fun i => Ledger.uniformReaction (if i = 0 then .generator else .identity)
    let turns := .replicate 6 (.client 1) ++ .replicate 7 (.client 0) ++ .replicate 9 (.client 1)
    let σ := after (fun i => (Ledger.process {} (fun _ => default) (tx i) i).run) turns
    σ.store.transactions.map AuditRow.id = [3, 2] ∧
      ∃ processed, (σ.clients 1).process.program = .done (.ok processed) ∧
        processed.transactionId = 3 ∧ ∃ row,
          σ.store.transactions.filter (·.id = processed.transactionId) = [row] ∧
            row.vote = (tx 1).vote := by
  intro tx turns σ
  have hids : σ.store.transactions.map AuditRow.id = [3, 2] := by decide +kernel
  have hnumber : ((σ.clients 1).process.program.result?.bind Except.toOption).map
      Processed.transactionId = some 3 := by
    decide +kernel
  obtain ⟨processed, hresult, hid⟩ := Option.map_eq_some_iff.1 hnumber
  obtain ⟨outcome, hdone, hok⟩ := Option.bind_eq_some_iff.1 hresult
  have hprogram : (σ.clients 1).process.program = .done (.ok processed) := by
    cases outcome with
    | error e => cases hok
    | ok processed' =>
      rw [← Option.some.inj hok]
      exact Program.eq_done hdone
  obtain ⟨row, honly, -, -, hvote⟩ :=
    (numbers_identify_rows (fun _ => {}) (fun _ _ => default) tx (fun i => i) turns).2.2 1 processed
      hprogram
  exact ⟨hids, processed, hprogram, hid, row, honly, hvote⟩

end System

end Reactions
