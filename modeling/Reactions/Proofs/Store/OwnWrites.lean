import Reactions.Proofs.Store.Separation
import Reactions.Proofs.Store.Serializability

/-!
# Own writes are read back

Before its commit a unit of work answers from the rows of the store together with the rows that it
has pending; its commit puts the pending rows into the store by code of its own. Part by part of the
store the two come to the same (`Store.members_publish` and the four theorems after it), so what a
unit sees of its writes is what everybody sees once it is committed (`UnitOfWork.answer_publish`).

A unit moves only by the commit of another one. So as long as nothing is committed it can be
committed itself, whatever calls it and all others make meanwhile (`System.unmoved_foldl_step`).
-/

namespace Reactions

/-! ## Pending rows and published rows -/

namespace Store

variable (s : Store) (u : UnitOfWork)

/-- The members that a commit adds come last, in the order in which they were inserted. -/
theorem members_publish (feed : FeedId) :
    (s.publish u).members feed = s.members feed ++ (u.pendingCommitments feed).reverse := by
  have hrows : (s.publish u).commitments.filter (·.feedId = feed) =
      u.pendingCommitments feed ++ s.commitments.filter (·.feedId = feed) := by
    rw [publish, UnitOfWork.pendingCommitments]
    induction u.writes with
    | nil => rfl
    | cons write rest ih =>
      cases write with
      | commitment row => by_cases h : row.feedId = feed <;> simpa [apply, h] using ih
      | root row => exact ih
      | tally row => exact ih
      | nullifier row => exact ih
  rw [members, hrows, List.reverse_append, members]

/-- The roots that a commit adds are the newest. -/
theorem history_publish (feed : FeedId) :
    (s.publish u).history feed = u.pendingRoots feed ++ s.history feed := by
  rw [history, publish, UnitOfWork.pendingRoots, history]
  induction u.writes with
  | nil => rfl
  | cons write rest ih =>
    cases write with
    | commitment row => exact ih
    | root row => by_cases h : row.feedId = feed <;> simpa [apply, h] using ih
    | tally row => exact ih
    | nullifier row => exact ih

/-- Of the pending tallies of a message the last one is the one that stays. -/
theorem find?_tallies_publish (message : MessageId) :
    (s.publish u).tallies.find? message = u.tally s message := by
  rw [publish, UnitOfWork.tally, UnitOfWork.pendingTally]
  induction u.writes with
  | nil => rfl
  | cons write rest ih =>
    cases write with
    | commitment row => exact ih
    | root row => exact ih
    | tally row =>
      by_cases h : row.messageId = message
      · simp [apply, Table.find?_save, h]
      · simpa [apply, Table.find?_save, h] using ih
    | nullifier row => exact ih

/-- Of the pending ledger rows of a nullifier the last one is the one that stays. -/
theorem find?_nullifiers_publish (nullifier : Nullifier) :
    (s.publish u).nullifiers.find? nullifier =
      (u.pendingNullifier nullifier).or (s.nullifiers.find? nullifier) := by
  rw [publish, UnitOfWork.pendingNullifier]
  induction u.writes with
  | nil => rfl
  | cons write rest ih =>
    cases write with
    | commitment row => exact ih
    | root row => exact ih
    | tally row => exact ih
    | nullifier row =>
      by_cases h : row.nullifier = nullifier
      · simp [apply, Table.find?_save, h]
      · simpa [apply, Table.find?_save, h] using ih

/-- The audit rows that a commit adds come last, in the order in which they were appended. -/
theorem trail_publish (message : MessageId) :
    (s.publish u).trail message =
      s.trail message ++ (u.audit.filter (·.messageId = message)).reverse := by
  rw [trail, transactions_publish, List.filter_append, List.reverse_append, trail]

end Store

namespace UnitOfWork

/-- What a unit of work answers is what any other one answers that is opened after the commit. -/
theorem answer_publish (u : UnitOfWork) (s : Store) (isolation : Isolation) (q : Query) :
    (opened isolation).answer (s.publish u) q = u.answer s q := by
  have htally (message : MessageId) :
      (opened isolation).tally (s.publish u) message = u.tally s message :=
    s.find?_tallies_publish u message
  cases q with
  | commitments feed => exact (List.append_nil _).trans (s.members_publish u feed)
  | contains feed commitment =>
    simp only [answer, Store.any_members, Store.members_publish, List.any_append, List.any_reverse]
    exact (Bool.false_or _).trans (Bool.or_comm _ _)
  | recentRoots feed count => exact congrArg (List.take count) (s.history_publish u feed)
  | tally message => exact htally message
  | tallies feed messages => simp only [answer, funext htally]
  | nullifier nullifier => exact s.find?_nullifiers_publish u nullifier
  | transactions message => exact (List.append_nil _).trans (s.trail_publish u message)

/-- A call makes a unit of work remember present versions only. -/
theorem unmoved_perform {u : UnitOfWork} {s : Store} (h : s.unmoved u) (call : Call) :
    (u.perform s call).2.1.unmoved (u.perform s call).2.2 := by
  cases call with
  | read q => exact unmoved_read h q
  | save write =>
    rw [perform_save]
    split <;> exact h
  | append row =>
    rw [perform_append]
    split <;> exact h

end UnitOfWork

/-! ## As long as nothing is committed -/

/-- A unit of work does not move by what changes no row and no version. -/
theorem Store.Quiet.unmoved {s s' : Store} (h : s.Quiet s') {u : UnitOfWork} (hu : s.unmoved u) :
    s'.unmoved u := by
  obtain ⟨failures, id, rfl⟩ := h
  exact hu

/-- The unit of work of a client does not move by the client's own steps, other than commits. -/
theorem Client.unmoved_step {α : Type} {c : Client α} {s : Store} (h : s.unmoved c.process.unit)
    (hcommits : c.commits s = false) : (c.step s).1.unmoved (c.step s).2.process.unit := by
  obtain ⟨⟨program, u⟩, made⟩ := c
  cases program with
  | done a => exact h
  | begin isolation next => rfl
  | call call next => exact UnitOfWork.unmoved_perform h call
  | commit next => rfl
  | wait ms next => exact h

namespace System

variable {α : Type} {σ : System α} {i : Nat}

theorem committed_step (σ : System α) (turn : Turn) : σ.committed <:+ (σ.step turn).committed := by
  cases turn with
  | failNext errors => exact List.suffix_refl _
  | client i =>
    rw [step]
    dsimp only
    split
    · exact List.suffix_cons _ _
    · exact List.suffix_refl _

/-- The list of what was committed only grows. -/
theorem committed_foldl_step (σ : System α) (turns : List Turn) :
    σ.committed <:+ (turns.foldl step σ).committed := by
  induction turns generalizing σ with
  | nil => exact List.suffix_refl _
  | cons turn rest ih => exact (committed_step σ turn).trans (ih (σ.step turn))

/-- A turn at which nothing is committed moves no unit of work. -/
theorem unmoved_step (h : σ.store.unmoved (σ.clients i).process.unit) {turn : Turn}
    (hnone : (σ.step turn).committed = σ.committed) :
    (σ.step turn).store.unmoved ((σ.step turn).clients i).process.unit := by
  cases turn with
  | failNext errors => exact h
  | client j =>
    have hcommits : (σ.clients j).commits σ.store = false := by
      cases hj : (σ.clients j).commits σ.store with
      | false => rfl
      | true => simp [step, hj] at hnone
    by_cases hij : i = j
    · subst hij
      rw [clients_step_self]
      exact Client.unmoved_step h hcommits
    · rw [clients_step_of_ne _ hij]
      rcases (σ.clients j).step_cases σ.store with ⟨htrue, -⟩ | ⟨-, hquiet⟩
      · rw [hcommits] at htrue
        cases htrue
      · exact hquiet.unmoved h

/-- Turns during which nothing is committed move no unit of work. -/
theorem unmoved_foldl_step {turns : List Turn} (h : σ.store.unmoved (σ.clients i).process.unit)
    (hnone : (turns.foldl step σ).committed = σ.committed) :
    (turns.foldl step σ).store.unmoved ((turns.foldl step σ).clients i).process.unit := by
  induction turns generalizing σ with
  | nil => exact h
  | cons turn rest ih =>
    rw [List.foldl_cons] at hnone ⊢
    -- what is committed after the first turn lies between the beginning and the end
    have hfirst : (σ.step turn).committed = σ.committed := by
      have hrest := committed_foldl_step (σ.step turn) rest
      rw [hnone] at hrest
      exact hrest.eq_of_length_le (committed_step σ turn).length_le
    exact ih (unmoved_step h hfirst) (hnone.trans hfirst.symm)

/-- Whatever the store and whatever calls a unit of work makes, with others making theirs in
between: if nothing is committed meanwhile, then its own commit can fail only by a failure that
commits are made to have, and once it has succeeded, every question gets the answer in a unit opened
afterwards that the unit itself got right before. -/
theorem own_writes_are_read_back (σ : System α) (i : Nat) (turns : List Turn)
    (hopened : (σ.clients i).process.unit = .opened .serializable)
    (hnone : (turns.foldl step σ).committed = σ.committed)
    (hisolation : ((turns.foldl step σ).clients i).process.unit.isolation = .serializable) :
    let s := (turns.foldl step σ).store
    let u := ((turns.foldl step σ).clients i).process.unit
    (s.failures = [] → ∃ t, s.commit u = (.ok (), t)) ∧
    ∀ t, s.commit u = (.ok (), t) → ∀ isolation q,
      (u.perform s (.read q)).1 = ((UnitOfWork.opened isolation).perform t (.read q)).1 := by
  intro s u
  have hstart : σ.store.unmoved (σ.clients i).process.unit := by
    rw [hopened]
    rfl
  have hunmoved : s.unmoved u := unmoved_foldl_step hstart hnone
  refine ⟨fun hfailures => ⟨_, Store.commit_of_unmoved hisolation hfailures hunmoved⟩,
    fun t hcommit isolation q => ?_⟩
  rcases s.commit_cases u with ⟨-, -, -, hok⟩ | ⟨outcome, failures, hfail, herror⟩
  · cases hok.symm.trans hcommit
    exact (u.answer_publish s isolation q).symm
  · obtain ⟨e, rfl⟩ := herror hisolation
    cases hfail.symm.trans hcommit

/-- Saves two tallies and appends an audit row in between. -/
def savingTwice (first second : Tally) (row : AuditRow) : Program (Except StoreError Unit) :=
  .begin .serializable <| .call (.save (.tally first)) fun _ => .call (.append row) fun _ =>
    .call (.save (.tally second)) fun _ => .commit .done

/-- A client saves two tallies of one message, while another one takes a number for an audit row of
the message and does not commit it. The second tally and the row with the second number are what the
first client sees, and what is there after its commit. -/
theorem rewritten_tally_is_read_back :
    let first : Tally := .empty default default default
    let second := first.addVote .identity default
    let row : AuditRow := ⟨0, 7, default, default, default, .identity, [], "", default⟩
    let σ := after (fun _ => savingTwice first second row) [.client 0]
    let turns : List Turn := [.client 0, .client 1, .client 1, .client 1, .client 0, .client 0]
    let s := (turns.foldl step σ).store
    let u := ((turns.foldl step σ).clients 0).process.unit
    (σ.clients 0).process.unit = .opened .serializable ∧
    (turns.foldl step σ).committed = σ.committed ∧ u.isolation = .serializable ∧
    u.answer s (.tally default) = some second ∧
    u.answer s (.transactions default) = [{ row with id := 2 }] ∧
    ∃ t, s.commit u = (.ok (), t) ∧ ∀ isolation q,
      (u.perform s (.read q)).1 = ((UnitOfWork.opened isolation).perform t (.read q)).1 := by
  intro first second row σ turns s u
  obtain ⟨hcommits, hagrees⟩ := own_writes_are_read_back σ 0 turns rfl rfl rfl
  obtain ⟨t, hcommit⟩ := hcommits rfl
  exact ⟨rfl, rfl, rfl, rfl, rfl, t, hcommit, hagrees t hcommit⟩

end System

end Reactions
