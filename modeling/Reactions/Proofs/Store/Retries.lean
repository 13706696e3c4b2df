import Mathlib.Order.Bounds.Basic
import Reactions.Store.Retry

/-!
# How long an operation is tried again

An operation whose calls have the outcomes `o 1`, `o 2`, and so on without end is called until one
of them is no lost race, or until the policy allows no further attempt. This is said of a trial
(`Trial`), which has the outcomes in store and writes down every call and every wait:
`Trial.run_retryFrom` goes from attempt to attempt, and `retry_stops_when_settled_or_exhausted` says
what a whole run comes to.

The attempts are numbered by plain numbers. They stay so small that a counter of thirty-two bits,
which starts again from zero after its largest number, would count the same
(`retry_eq_retryCounted`).
-/

namespace Reactions

variable {ε α : Type}

/-! ## Trials -/

/-- What can be seen of a retried operation. -/
inductive Move
  | call (attempt : Nat)
  | wait (milliseconds : Nat)
deriving DecidableEq, Repr

/-- The moves of an operation that is called from an attempt on and is retried some times: after
each attempt but the last one, a wait that grows with its number. -/
def RetryPolicy.moves (policy : RetryPolicy) (first retries : Nat) : List Move :=
  .call first :: (List.range' first retries).flatMap fun attempt =>
    [.wait (min (policy.backoff.toNat * attempt) (UInt64.size - 1)), .call (attempt + 1)]

/-- One retry more is a call and a wait before the others. -/
theorem RetryPolicy.moves_succ (policy : RetryPolicy) (first retries : Nat) :
    policy.moves first (retries + 1) =
      .call first :: .wait (policy.delayAfter first) :: policy.moves (first + 1) retries := rfl

/-- An operation on trial: the outcomes that its calls are going to have, and the moves so far. -/
structure Trial (ε α : Type) where
  coming : Nat → Except ε α
  moves : List Move := []

namespace Trial

/-- A call is told its number, and has the next outcome whatever that number is. -/
def call (attempt : Nat) : StateM (Trial ε α) (Except ε α) := fun trial =>
  (trial.coming 0, ⟨fun i => trial.coming (i + 1), trial.moves ++ [.call attempt]⟩)

/-- A wait takes no outcome. -/
def wait (milliseconds : Nat) : StateM (Trial ε α) Unit := fun trial =>
  ((), ⟨trial.coming, trial.moves ++ [.wait milliseconds]⟩)

/-- The trial before call number `attempt`, where call number `i` is going to have the outcome
`outcomes i`. -/
def before (outcomes : Nat → Except ε α) (attempt : Nat) (moves : List Move) : Trial ε α :=
  ⟨fun i => outcomes (attempt + i), moves⟩

variable {outcomes : Nat → Except ε α} {attempt : Nat} {moves : List Move}

/-- A call takes the outcome of its attempt and is written down. -/
theorem run_call : (call attempt).run (before outcomes attempt moves) =
    (outcomes attempt, before outcomes (attempt + 1) (moves ++ [.call attempt])) := by
  have hrest : (fun i => outcomes (attempt + (i + 1))) = fun i => outcomes (attempt + 1 + i) := by
    funext i
    rw [Nat.add_right_comm, Nat.add_assoc]
  exact congrArg (fun coming =>
    (outcomes attempt, (⟨coming, moves ++ [.call attempt]⟩ : Trial ε α))) hrest

/-- What is done with the outcome of a call is done in the trial after it. -/
theorem run_call_bind {β : Type} (next : Except ε α → StateM (Trial ε α) β) :
    (call attempt >>= next).run (before outcomes attempt moves) =
      (next (outcomes attempt)).run (before outcomes (attempt + 1) (moves ++ [.call attempt])) := by
  rw [StateT.run_bind, run_call]
  rfl

end Trial

/-! ## Lost races -/

variable [Conflict ε]

/-- An attempt that may be worth another one. -/
def LosesRace (outcome : Except ε α) : Prop :=
  ∃ e, outcome = .error e ∧ Conflict.isConflict e = true

/-- A failure loses the race if it is a conflict. -/
theorem losesRace_error_iff {e : ε} :
    LosesRace (.error e : Except ε α) ↔ Conflict.isConflict e = true := by
  constructor
  · rintro ⟨e', he, h⟩
    cases he
    exact h
  · exact fun h => ⟨e, rfl, h⟩

namespace Trial

variable {policy : RetryPolicy} {outcomes : Nat → Except ε α} {attempt : Nat} {moves : List Move}

/-- The last attempt that is allowed ends the run. -/
theorem run_retryFrom_zero :
    (retryFrom wait policy call 0 attempt).run (before outcomes attempt moves) =
      ((outcomes attempt).mapError (Failed.mk attempt),
        before outcomes (attempt + 1) (moves ++ [.call attempt])) := by
  rw [retryFrom, run_call_bind]
  cases outcomes attempt <;> rfl

/-- An outcome that is no lost race ends the run. -/
theorem run_retryFrom_of_settled (retries : Nat) (h : ¬ LosesRace (outcomes attempt)) :
    (retryFrom wait policy call retries attempt).run (before outcomes attempt moves) =
      ((outcomes attempt).mapError (Failed.mk attempt),
        before outcomes (attempt + 1) (moves ++ [.call attempt])) := by
  cases retries with
  | zero => exact run_retryFrom_zero
  | succ retries =>
    rw [retryFrom, run_call_bind]
    cases houtcome : outcomes attempt with
    | ok a => rfl
    | error e =>
      rw [houtcome, losesRace_error_iff] at h
      dsimp only
      rw [if_neg h]
      rfl

/-- After a lost race there is a wait, and then the next attempt. -/
theorem run_retryFrom_succ (retries : Nat) (h : LosesRace (outcomes attempt)) :
    (retryFrom wait policy call (retries + 1) attempt).run (before outcomes attempt moves) =
      (retryFrom wait policy call retries (attempt + 1)).run (before outcomes (attempt + 1)
        (moves ++ [.call attempt] ++ [.wait (policy.delayAfter attempt)])) := by
  obtain ⟨e, houtcome, hconflict⟩ := h
  rw [retryFrom, run_call_bind, houtcome]
  dsimp only
  rw [if_pos hconflict]
  rfl

/-- The attempt that ends a run from `first` on: the first one that does not lose its race, and at
the latest the one after `retries` others. -/
def EndsAt (outcomes : Nat → Except ε α) (first retries k : Nat) : Prop :=
  IsLeast (insert (first + retries) {i | first ≤ i ∧ ¬ LosesRace (outcomes i)}) k

/-- It ends with the first attempt if there are no others, or that one settles the matter. -/
theorem endsAt_first (retries : Nat) (h : retries = 0 ∨ ¬ LosesRace (outcomes attempt)) :
    EndsAt outcomes attempt retries attempt := by
  refine ⟨?_, ?_⟩
  · rcases h with rfl | h
    · exact .inl rfl
    · exact .inr ⟨Nat.le_refl _, h⟩
  · rintro i (rfl | ⟨hi, -⟩)
    · exact Nat.le_add_right _ _
    · exact hi

/-- It does not end before the first attempt. -/
theorem EndsAt.first_le {retries k : Nat} (h : EndsAt outcomes attempt retries k) :
    attempt ≤ k := by
  rcases h.1 with rfl | ⟨hle, -⟩
  · exact Nat.le_add_right _ _
  · exact hle

/-- After an attempt that loses its race, it ends where the others do. -/
theorem EndsAt.of_losesRace {retries k : Nat} (h : EndsAt outcomes (attempt + 1) retries k)
    (hlost : LosesRace (outcomes attempt)) : EndsAt outcomes attempt (retries + 1) k := by
  refine ⟨?_, ?_⟩
  · rcases h.1 with rfl | ⟨hle, hsettled⟩
    · exact .inl (Nat.add_right_comm attempt 1 retries)
    · exact .inr ⟨Nat.le_of_succ_le hle, hsettled⟩
  · rintro i (rfl | ⟨hle, hsettled⟩)
    · exact h.2 (.inl (Nat.add_right_comm attempt retries 1))
    · -- The attempt itself is not settled, so the settled one comes after it.
      have hne : attempt ≠ i := by
        rintro rfl
        exact hsettled hlost
      exact h.2 (.inr ⟨Nat.lt_of_le_of_ne hle hne, hsettled⟩)

/-- A run calls the operation up to the attempt that ends it, and comes to the outcome of that one.
-/
theorem run_retryFrom (retries : Nat) : ∃ k, EndsAt outcomes attempt retries k ∧
    (retryFrom wait policy call retries attempt).run (before outcomes attempt moves) =
      ((outcomes k).mapError (Failed.mk k),
        before outcomes (k + 1) (moves ++ policy.moves attempt (k - attempt))) := by
  induction retries generalizing attempt moves with
  | zero =>
    refine ⟨attempt, endsAt_first 0 (.inl rfl), ?_⟩
    rw [run_retryFrom_zero, Nat.sub_self]
    rfl
  | succ retries ih =>
    by_cases hlost : LosesRace (outcomes attempt)
    · obtain ⟨k, hk, hrun⟩ := @ih (attempt + 1)
        (moves ++ [.call attempt] ++ [.wait (policy.delayAfter attempt)])
      have hle := hk.first_le
      refine ⟨k, hk.of_losesRace hlost, ?_⟩
      have hretries : k - attempt = k - (attempt + 1) + 1 := by omega
      rw [run_retryFrom_succ retries hlost, hrun, hretries, RetryPolicy.moves_succ,
        List.append_assoc, List.append_assoc]
      rfl
    · refine ⟨attempt, endsAt_first _ (.inr hlost), ?_⟩
      rw [run_retryFrom_of_settled _ hlost, Nat.sub_self]
      rfl

end Trial

/-! ## Counting in words -/

namespace RetryPolicy

variable (policy : RetryPolicy)

/-- The number of the last attempt that is allowed, as a word. -/
def lastAttempt : UInt32 := max policy.maxAttempts 1

/-- The last attempt has the number of all attempts. -/
theorem toNat_lastAttempt : policy.lastAttempt.toNat = policy.attempts := by
  rw [lastAttempt, attempts, UInt32.max_def, Nat.max_def]
  split
  · rename_i h
    exact (if_pos (UInt32.le_iff_toNat_le.1 h)).symm
  · rename_i h
    exact (if_neg (mt UInt32.le_iff_toNat_le.2 h)).symm

/-- The number of attempts fits the word. -/
theorem attempts_lt : policy.attempts < UInt32.size := by
  rw [← toNat_lastAttempt]
  exact policy.lastAttempt.toNat_lt

/-- There is always a first attempt. -/
theorem attempts_pos : 0 < policy.attempts := by
  rw [attempts]
  omega

/-- Before the last attempt the counter does not overflow. -/
theorem toNat_add_one {policy : RetryPolicy} {attempt : UInt32} (h : attempt < policy.lastAttempt) :
    (attempt + 1).toNat = attempt.toNat + 1 := by
  have hlast := policy.lastAttempt.toNat_lt
  have hlt := UInt32.lt_iff_toNat_lt.1 h
  rw [UInt32.toNat_add, UInt32.toNat_one]
  omega

end RetryPolicy

section Counted

variable {m : Type → Type} [Monad m]

/-- The loop with its counter in a word, which goes on while the attempt has lost its race and is
not the last one. -/
def retryCounted (sleep : Nat → m Unit) (policy : RetryPolicy) (op : UInt32 → m (Except ε α))
    (attempt : UInt32) : m (Except (Failed ε) α) := do
  match ← op attempt with
  | .ok a => return .ok a
  | .error e =>
    if _h : Conflict.isConflict e = true ∧ attempt < policy.lastAttempt then
      sleep (policy.delayAfter attempt.toNat)
      retryCounted sleep policy op (attempt + 1)
    else
      return .error ⟨attempt.toNat, e⟩
termination_by policy.attempts - attempt.toNat
decreasing_by
  have hlt := UInt32.lt_iff_toNat_lt.1 _h.2
  rw [policy.toNat_lastAttempt] at hlt
  rw [RetryPolicy.toNat_add_one _h.2]
  omega

variable (sleep : Nat → m Unit) (policy : RetryPolicy) (op : Nat → m (Except ε α))

/-- From any attempt on, as many retries are left as there are numbers up to the last attempt. -/
theorem retryFrom_eq_retryCounted (retries : Nat) (attempt : UInt32)
    (h : attempt.toNat + retries = policy.attempts) :
    retryFrom sleep policy op retries attempt.toNat =
      retryCounted sleep policy (fun attempt => op attempt.toNat) attempt := by
  induction retries generalizing attempt with
  | zero =>
    have hlast : ¬ attempt < policy.lastAttempt := by
      rw [UInt32.lt_iff_toNat_lt, policy.toNat_lastAttempt]
      omega
    rw [retryFrom, retryCounted]
    refine bind_congr fun outcome => ?_
    cases outcome with
    | ok a => rfl
    | error e =>
      dsimp only
      rw [dif_neg fun hretry => hlast hretry.2]
  | succ retries ih =>
    have hlast : attempt < policy.lastAttempt := by
      rw [UInt32.lt_iff_toNat_lt, policy.toNat_lastAttempt]
      omega
    have hnext := RetryPolicy.toNat_add_one hlast
    have hrest := ih (attempt + 1) (by omega)
    rw [hnext] at hrest
    rw [retryFrom, retryCounted]
    refine bind_congr fun outcome => ?_
    cases outcome with
    | ok a => rfl
    | error e =>
      dsimp only
      by_cases hconflict : Conflict.isConflict e = true
      · rw [if_pos hconflict, dif_pos ⟨hconflict, hlast⟩, hrest]
      · rw [if_neg hconflict, dif_neg fun hretry => hconflict hretry.1]

/-- Attempts can be counted in a word: its overflow is never met. -/
theorem retry_eq_retryCounted : retry sleep policy op =
    retryCounted sleep policy (fun attempt => op attempt.toNat) 1 :=
  retryFrom_eq_retryCounted sleep policy op (policy.attempts - 1) 1
    (Nat.add_sub_of_le policy.attempts_pos)

end Counted

/-- An operation is called with the numbers from one to `k` in order, where `k` is the number of
attempts that the policy allows, at least one, or that of the first outcome that is no lost race,
whichever is smaller. The run ends with the outcome of call `k`, an error together with that number,
and no later outcome is taken. Between two calls it waits in proportion to the number of the first
of them, within sixty-four bits. All the numbers fit into thirty-two bits, and a counter of that
size counts the same, whatever the operation does. -/
theorem retry_stops_when_settled_or_exhausted (policy : RetryPolicy) (outcomes : Nat → Except ε α) :
    (∃ k, IsLeast (insert (max 1 policy.maxAttempts.toNat)
        {i | 1 ≤ i ∧ ¬ LosesRace (outcomes i)}) k ∧
      (retry Trial.wait policy Trial.call).run (.before outcomes 1 []) =
        ((outcomes k).mapError (Failed.mk k), .before outcomes (k + 1) (policy.moves 1 (k - 1))) ∧
      k < UInt32.size) ∧
    ∀ (m : Type → Type) [Monad m] (sleep : Nat → m Unit) (op : Nat → m (Except ε α)),
      retry sleep policy op = retryCounted sleep policy (fun attempt => op attempt.toNat) 1 := by
  refine ⟨?_, fun m _ sleep op => retry_eq_retryCounted sleep policy op⟩
  obtain ⟨k, hk, hrun⟩ : ∃ k, Trial.EndsAt outcomes 1 (policy.attempts - 1) k ∧
      (retry Trial.wait policy Trial.call).run (.before outcomes 1 []) =
        ((outcomes k).mapError (Failed.mk k), .before outcomes (k + 1) (policy.moves 1 (k - 1))) :=
    Trial.run_retryFrom (policy.attempts - 1)
  rw [Trial.EndsAt, Nat.add_sub_of_le policy.attempts_pos] at hk
  have hlast : k ≤ policy.attempts := hk.2 (.inl rfl)
  refine ⟨k, ?_, hrun, Nat.lt_of_le_of_lt hlast policy.attempts_lt⟩
  rw [Nat.max_comm]
  exact hk

/-- The largest backoff is waited for as it is after the first attempt, and is not exceeded after
the second. -/
example : (⟨3, .ofNat (UInt64.size - 1)⟩ : RetryPolicy).moves 1 2 =
    [.call 1, .wait (UInt64.size - 1), .call 2, .wait (UInt64.size - 1), .call 3] := by
  decide +kernel

end Reactions
