import Reactions.Proofs.Store.Frame
import Reactions.Store.Work

/-!
# Work that runs alone

A program that runs alone is followed call by call: `finish` tells its result, the unit of work that
is open at the end and the store, and the one of a program that goes on with another is that of the
two parts in turn (`finish_bind`). Each call of `Work` has its equation, so fallible work can be
carried out by rewriting. Work that is tried again ends with the outcome of one of its attempts;
the ones before have failed (`finish_retried_cases`).
-/

namespace Reactions

namespace Program

variable {α β : Type}

instance : LawfulMonad Program := .mk' Program
  (fun p => by
    change p.bind .done = p
    induction p with
    | done a => rfl
    | begin isolation next ih => exact congrArg (begin isolation) ih
    | call c next ih => exact congrArg (call c) (funext ih)
    | commit next ih => exact congrArg commit (funext ih)
    | wait ms next ih => exact congrArg (wait ms) ih)
  (fun _ _ => rfl)
  (fun p f g => by
    change (p.bind f).bind g = p.bind fun a => (f a).bind g
    induction p with
    | done a => rfl
    | begin isolation next ih => exact congrArg (begin isolation) ih
    | call c next ih => exact congrArg (call c) (funext ih)
    | commit next ih => exact congrArg commit (funext ih)
    | wait ms next ih => exact congrArg (wait ms) ih)

/-- The result of a program that has come to its end. -/
def result? : Program α → Option α
  | .done a => some a
  | _ => none

/-- A program with a result has ended. -/
theorem eq_done {p : Program α} {a : α} (h : p.result? = some a) : p = .done a := by
  cases p with
  | done b =>
    cases h
    rfl
  | begin _ _ | call _ _ | commit _ | wait _ _ => cases h

/-- Carries out a program alone, inside the unit of work that is open, up to the unit that is open
at the end. -/
def finish : Program α → UnitOfWork → Store → α × UnitOfWork × Store
  | .done a, u, s => (a, u, s)
  | .begin isolation next, _, s => next.finish (.opened isolation) s
  | .call c next, u, s =>
    let (answer, s, u) := u.perform s c
    (next answer).finish u s
  | .commit next, u, s =>
    let (outcome, s) := s.commit u
    (next outcome).finish default s
  | .wait _ next, u, s => next.finish u s

/-- Running a program is finishing it and dropping its unit of work. -/
theorem runIn_eq (p : Program α) (u : UnitOfWork) (s : Store) :
    p.runIn u s = ((p.finish u s).1, (p.finish u s).2.2) := by
  induction p generalizing u s with
  | done a => rfl
  | begin isolation next ih => exact ih (.opened isolation) s
  | call c next ih => exact ih _ _ _
  | commit next ih => exact ih _ default _
  | wait ms next ih => exact ih u s

/-- A program that goes on with another one. -/
theorem finish_bind (p : Program α) (f : α → Program β) (u : UnitOfWork) (s : Store) :
    (p >>= f).finish u s =
      (f (p.finish u s).1).finish (p.finish u s).2.1 (p.finish u s).2.2 := by
  change (p.bind f).finish u s = _
  induction p generalizing u s with
  | done a => rfl
  | begin isolation next ih => exact ih (.opened isolation) s
  | call c next ih => exact ih _ _ _
  | commit next ih => exact ih _ default _
  | wait ms next ih => exact ih u s

end Program

/-! ## Units of work that have only read -/

/-- Commits some writes, the last one first. -/
def Store.write (s : Store) (writes : List Write) : Store :=
  s.publish { isolation := .serializable, writes }

/-- A unit of work that has only read so far, and everything it read is as it was. -/
structure UnitOfWork.Reading (s : Store) (u : UnitOfWork) : Prop where
  isolation : u.isolation = .serializable
  writes : u.writes = []
  audit : u.audit = []
  unmoved : ∀ key seen, u.reads.get? key = some seen → s.version key = seen

/-- A unit that has just been opened has only read. -/
theorem UnitOfWork.Reading.opened (s : Store) : (UnitOfWork.opened .serializable).Reading s where
  isolation := rfl
  writes := rfl
  audit := rfl
  unmoved := fun _ _ h => nomatch h

/-- A unit that has only read may ask one question more. -/
theorem UnitOfWork.Reading.read {s : Store} {u : UnitOfWork} (h : u.Reading s) (q : Query) :
    (u.read s q).2.Reading s where
  isolation := (UnitOfWork.isolation_touch s u _).trans h.isolation
  writes := (UnitOfWork.writes_touch s u _).trans h.writes
  audit := (UnitOfWork.audit_touch s u _).trans h.audit
  unmoved := fun key seen hseen => by
    rw [UnitOfWork.read, UnitOfWork.get?_foldl_touch] at hseen
    cases hold : u.reads.get? key with
    | some v =>
      rw [hold, Option.some_or] at hseen
      exact h.unmoved key seen (hold.trans hseen)
    | none =>
      rw [hold, Option.none_or] at hseen
      split at hseen
      · exact Option.some.inj hseen
      · cases hseen

namespace Work

variable {ε ε' α β : Type} {u u' : UnitOfWork} {s s' : Store}

/-! ## Carrying out work -/

/-- Carries out work alone, inside the unit of work that is open. -/
def finish (w : Work ε α) (u : UnitOfWork) (s : Store) : Except ε α × UnitOfWork × Store :=
  Program.finish w.run u s

/-- Running fallible work is finishing it and dropping its unit of work. -/
theorem run_run (w : Work ε α) (s : Store) :
    w.run.run s = ((finish w default s).1, (finish w default s).2.2) :=
  Program.runIn_eq w.run default s

theorem finish_pure (a : α) : finish (pure a : Work ε α) u s = (.ok a, u, s) := rfl

theorem finish_throw (e : ε) : finish (throw e : Work ε α) u s = (.error e, u, s) := rfl

/-- An outcome that is at hand changes neither unit nor store. -/
theorem finish_liftExcept (outcome : Except ε α) :
    finish (liftExcept outcome : Work ε α) u s = (outcome, u, s) := by
  cases outcome <;> rfl

/-- Work goes on with the result of its first part. -/
theorem finish_bind_ok {w : Work ε α} (f : α → Work ε β) {a : α}
    (h : finish w u s = (.ok a, u', s')) : finish (w >>= f) u s = finish (f a) u' s' := by
  rw [finish] at h
  change Program.finish (w.run >>= _) u s = _
  rw [Program.finish_bind, h]
  rfl

/-- Work ends with the failure of its first part. -/
theorem finish_bind_error {w : Work ε α} (f : α → Work ε β) {e : ε}
    (h : finish w u s = (.error e, u', s')) : finish (w >>= f) u s = (.error e, u', s') := by
  rw [finish] at h
  change Program.finish (w.run >>= _) u s = _
  rw [Program.finish_bind, h]
  rfl

/-- Work whose result is not needed. -/
theorem finish_discard (w : Work ε α) (b : β) :
    finish (w >>= fun _ => pure b) u s =
      ((finish w u s).1.map fun _ => b, (finish w u s).2) := by
  rcases h : finish w u s with ⟨outcome, u', s'⟩
  cases outcome with
  | ok a => exact finish_bind_ok _ h
  | error e => exact finish_bind_error _ h

/-- Rewording a failure changes neither unit nor store. -/
theorem finish_adapt (f : ε → ε') (w : Work ε α) :
    finish (ExceptT.adapt f w) u s =
      ((finish w u s).1.mapError f, (finish w u s).2.1, (finish w u s).2.2) :=
  Program.finish_bind w.run _ u s

/-- Work whose failures are renamed ends as it does without that. -/
theorem finish_adapt_of_eq (f : ε → ε') {w : Work ε α} {outcome : Except ε α}
    (h : finish w u s = (outcome, u', s')) :
    finish (ExceptT.adapt f w) u s = (outcome.mapError f, u', s') := by
  rw [finish_adapt, h]

/-- The same of work that is carried out alone from its start. -/
theorem run_adapt_of_eq (f : ε → ε') {w : Work ε α} {outcome : Except ε α}
    (h : finish w default s = (outcome, u', s')) :
    (ExceptT.adapt f w).run.run s = (outcome.mapError f, s') := by
  rw [run_run, finish_adapt_of_eq f h]

/-! ## Calls -/

theorem finish_begin (isolation : Isolation) :
    finish (begin isolation : Work ε Unit) u s = (.ok (), .opened isolation, s) := rfl

theorem finish_read (q : Query) :
    finish (read q : Work ε q.Answer) u s = (.ok (u.answer s q), (u.read s q).2, s) := rfl

variable [StoreFailure ε]

/-- A unit that may write keeps a write. -/
theorem finish_save (write : Write) (h : u.isolation = .serializable) :
    finish (save write : Work ε Unit) u s =
      (.ok (), { u with writes := write :: u.writes }, s) := by
  have hsave := UnitOfWork.perform_save_of_serializable h s write
  simp [finish, save, Program.finish, hsave, ofStore, Except.mapError]

/-- A unit that may write gives an audit row the next number. -/
theorem finish_append (row : AuditRow) (h : u.isolation = .serializable) :
    finish (append row : Work ε AuditRow) u s =
      (.ok { row with id := s.lastTransactionId + 1 },
        { u with audit := { row with id := s.lastTransactionId + 1 } :: u.audit },
        { s with lastTransactionId := s.lastTransactionId + 1 }) := by
  have happend := UnitOfWork.perform_append_of_serializable h s row
  simp [finish, append, Program.finish, happend, ofStore, Except.mapError]

/-- A commit ends the unit, whatever comes of it. -/
theorem finish_commit :
    finish (commit : Work ε Unit) u s = (ofStore (s.commit u).1, default, (s.commit u).2) := rfl

/-- A commit that is made to fail uses that failure up. -/
theorem finish_commit_of_failure (hu : u.isolation = .serializable) {e : StoreError}
    {rest : List StoreError} (h : s.failures = e :: rest) :
    finish (commit : Work ε Unit) u s =
      (.error (StoreFailure.ofStore e), default, { s with failures := rest }) := by
  rw [finish_commit, Store.commit_of_failure hu h]
  rfl

/-- A commit publishes what is pending if no failure is due and nothing has moved. -/
theorem finish_commit_of_unmoved (hu : u.isolation = .serializable) (h : s.failures = [])
    (hunmoved : s.unmoved u) :
    finish (commit : Work ε Unit) u s = (.ok (), default, s.publish u) := by
  rw [finish_commit, Store.commit_of_unmoved hu h hunmoved]
  rfl

/-- Work alone fails at its commit if it is made to. -/
theorem finish_commit_of_reading_of_failure (hu : u.Reading s) {e : StoreError}
    {rest : List StoreError} (h : s.failures = e :: rest) (writes : List Write) :
    finish (commit : Work ε Unit) { u with writes } s =
      (.error (StoreFailure.ofStore e), default, { s with failures := rest }) :=
  have hisolation : { u with writes }.isolation = .serializable := hu.isolation
  finish_commit_of_failure hisolation h

/-- A unit that has written nothing but rows publishes them, if no commit is made to fail. -/
theorem finish_commit_of_reading (hu : u.Reading s) (h : s.failures = []) (writes : List Write) :
    finish (commit : Work ε Unit) { u with writes } s = (.ok (), default, s.write writes) := by
  have hisolation : { u with writes }.isolation = .serializable := hu.isolation
  have hunmoved : s.unmoved { u with writes } := Store.unmoved_iff.2 hu.unmoved
  have hpublish : s.publish { u with writes } = s.write writes :=
    Store.publish_congr s rfl hu.audit
  rw [finish_commit_of_unmoved hisolation h hunmoved, hpublish]

/-! ## Retries -/

/-- The attempts of `retried` from one on. -/
def retriedFrom (policy : RetryPolicy) (op : Nat → Work ε α) (retries attempt : Nat) :
    Work (Failed ε) α :=
  ExceptT.mk
    (retryFrom (fun ms => .wait ms (.done ())) policy (fun k => (op k).run) retries attempt)

section RetriedFrom

variable {policy : RetryPolicy} {op : Nat → Work ε α} {attempt : Nat}

/-- Trying work again is the loop over its attempts. -/
theorem finish_retriedFrom (retries : Nat) : finish (retriedFrom policy op retries attempt) u s =
    Program.finish (retryFrom (fun ms => .wait ms (.done ())) policy (fun k => (op k).run) retries
      attempt) u s := rfl

/-- An attempt that succeeds is the last one. -/
theorem finish_retriedFrom_of_ok (retries : Nat) {a : α}
    (h : finish (op attempt) u s = (.ok a, u', s')) :
    finish (retriedFrom policy op retries attempt) u s = (.ok a, u', s') := by
  have hrun : (op attempt).run.finish u s = (.ok a, u', s') := h
  rw [finish_retriedFrom]
  cases retries with
  | zero =>
    simp only [retryFrom, Program.finish_bind, hrun]
    rfl
  | succ retries =>
    simp only [retryFrom, Program.finish_bind, hrun]
    rfl

/-- An attempt that fails with anything but a lost race is the last one. -/
theorem finish_retriedFrom_of_error (retries : Nat) {e : ε}
    (he : StoreFailure.isConflict e = false) (h : finish (op attempt) u s = (.error e, u', s')) :
    finish (retriedFrom policy op retries attempt) u s = (.error ⟨attempt, e⟩, u', s') := by
  have hrun : (op attempt).run.finish u s = (.error e, u', s') := h
  rw [finish_retriedFrom]
  cases retries with
  | zero =>
    simp only [retryFrom, Program.finish_bind, hrun]
    rfl
  | succ retries =>
    simp only [retryFrom, Program.finish_bind, hrun, isConflict_eq, he, Bool.false_eq_true,
      if_false]
    rfl

/-- The last attempt that is allowed may fail in any way. -/
theorem finish_retriedFrom_zero {e : ε} (h : finish (op attempt) u s = (.error e, u', s')) :
    finish (retriedFrom policy op 0 attempt) u s = (.error ⟨attempt, e⟩, u', s') := by
  have hrun : (op attempt).run.finish u s = (.error e, u', s') := h
  rw [finish_retriedFrom]
  simp only [retryFrom, Program.finish_bind, hrun]
  rfl

/-- After a lost race the next attempt is made where this one has ended. -/
theorem finish_retriedFrom_succ (retries : Nat) {e : ε} (he : StoreFailure.isConflict e = true)
    (h : finish (op attempt) u s = (.error e, u', s')) :
    finish (retriedFrom policy op (retries + 1) attempt) u s =
      finish (retriedFrom policy op retries (attempt + 1)) u' s' := by
  have hrun : (op attempt).run.finish u s = (.error e, u', s') := h
  rw [finish_retriedFrom]
  simp only [retryFrom, Program.finish_bind, hrun, isConflict_eq, he, if_true]
  rfl

end RetriedFrom

/-- Work whose first attempt succeeds is not tried again. -/
theorem finish_retried_of_ok (policy : RetryPolicy) (op : Nat → Work ε α) {a : α}
    (h : finish (op 1) u s = (.ok a, u', s')) :
    finish (retried policy op) u s = (.ok a, u', s') :=
  finish_retriedFrom_of_ok (policy.attempts - 1) h

/-- Work whose first attempt fails with anything but a lost race is not tried again. -/
theorem finish_retried_of_error (policy : RetryPolicy) (op : Nat → Work ε α) {e : ε}
    (he : StoreFailure.isConflict e = false)
    (h : finish (op 1) u s = (.error e, u', s')) :
    finish (retried policy op) u s = (.error ⟨1, e⟩, u', s') :=
  finish_retriedFrom_of_error (policy.attempts - 1) he h

section Retried

variable {R : Store → Store → Prop} (policy : RetryPolicy) (op : Nat → Work ε α)
  (hrefl : ∀ s, R s s) (htrans : ∀ s s' s'', R s s' → R s' s'' → R s s'')
  (herror : ∀ attempt u s e u' s', finish (op attempt) u s = (.error e, u', s') → R s s')

include hrefl htrans herror

/-- `finish_retried_cases`, from any attempt on. -/
theorem finish_retriedFrom_cases (retries attempt : Nat) (u : UnitOfWork) (s : Store) :
    (∃ failed u' s', finish (retriedFrom policy op retries attempt) u s = (.error failed, u', s') ∧
      R s s') ∨
    ∃ k a u₁ s₁ u' s', finish (retriedFrom policy op retries attempt) u s = (.ok a, u', s') ∧
      R s s₁ ∧ finish (op k) u₁ s₁ = (.ok a, u', s') := by
  induction retries generalizing attempt u s with
  | zero =>
    rcases h : finish (op attempt) u s with ⟨outcome, u', s'⟩
    cases outcome with
    | error e => exact .inl ⟨_, u', s', finish_retriedFrom_zero h, herror attempt u s e u' s' h⟩
    | ok a => exact .inr ⟨attempt, a, u, s, u', s', finish_retriedFrom_of_ok 0 h, hrefl s, h⟩
  | succ retries ih =>
    rcases h : finish (op attempt) u s with ⟨outcome, u', s'⟩
    cases outcome with
    | ok a =>
      exact .inr ⟨attempt, a, u, s, u', s', finish_retriedFrom_of_ok (retries + 1) h, hrefl s, h⟩
    | error e =>
      have hR := herror attempt u s e u' s' h
      cases hconflict : StoreFailure.isConflict e with
      | true =>
        rw [finish_retriedFrom_succ retries hconflict h]
        rcases ih (attempt + 1) u' s' with ⟨failed, u'', s'', hrest, hR'⟩ |
          ⟨k, a, u₁, s₁, u'', s'', hrest, hR', hop⟩
        · exact .inl ⟨failed, u'', s'', hrest, htrans s s' s'' hR hR'⟩
        · exact .inr ⟨k, a, u₁, s₁, u'', s'', hrest, htrans s s' s₁ hR hR', hop⟩
      | false =>
        exact .inl ⟨_, u', s', finish_retriedFrom_of_error (retries + 1) hconflict h, hR⟩

/-- If failed attempts relate the stores before and after them by a relation that can be chained,
then work that is tried again either fails, with stores so related, or succeeds with one of its
attempts, which begins at such a store. -/
theorem finish_retried_cases (u : UnitOfWork) (s : Store) :
    (∃ failed u' s', finish (retried policy op) u s = (.error failed, u', s') ∧ R s s') ∨
    ∃ k a u₁ s₁ u' s', finish (retried policy op) u s = (.ok a, u', s') ∧ R s s₁ ∧
      finish (op k) u₁ s₁ = (.ok a, u', s') :=
  finish_retriedFrom_cases policy op hrefl htrans herror (policy.attempts - 1) 1 u s

end Retried

end Work

end Reactions
