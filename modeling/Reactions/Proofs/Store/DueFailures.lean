import Reactions.Proofs.Store.Alone

/-!
# Attempts against failures that are due

A store may hold errors that its next commits are made to fail with. Work that is tried again on its
own uses them up one by one, an attempt with each: the lost races at the head of them cost an
attempt (`Stages.skip`), and what comes after these decides. Either the policy allows no more
attempts (`Stages.finish_of_exhausted`), or another error ends the work (`Stages.finish_of_error`),
or none is due any more and the attempt is let through (`Stages.finish_of_ok`).
-/

namespace Reactions

/-! ## Lost races -/

/-- The number of lost races at the head of the errors that are due. -/
def lostRaces (failures : List StoreError) : Nat := (failures.takeWhile (· = .conflict)).length

section LostRaces

variable {failures : List StoreError}

/-- A conflict that is due first is one lost race more. -/
theorem lostRaces_cons_conflict : lostRaces (.conflict :: failures) = lostRaces failures + 1 := by
  simp [lostRaces]

/-- Any other failure that is due first settles the matter. -/
theorem lostRaces_cons_of_ne {e : StoreError} (h : e ≠ .conflict) :
    lostRaces (e :: failures) = 0 := by
  simp [lostRaces, h]

/-- The first errors that are due are lost races. -/
theorem getElem?_of_lt_lostRaces {k : Nat} (h : k < lostRaces failures) :
    failures[k]? = some .conflict := by
  induction failures generalizing k with
  | nil => cases h
  | cons e rest ih =>
    by_cases he : e = .conflict
    · subst he
      rw [lostRaces_cons_conflict] at h
      cases k with
      | zero => rfl
      | succ k => exact ih (Nat.lt_of_succ_lt_succ h)
    · rw [lostRaces_cons_of_ne he] at h
      cases h

/-- The error after them is another one. -/
theorem ne_conflict_of_getElem?_lostRaces {e : StoreError}
    (h : failures[lostRaces failures]? = some e) : e ≠ .conflict := by
  induction failures with
  | nil => cases h
  | cons e' rest ih =>
    by_cases he : e' = .conflict
    · subst he
      rw [lostRaces_cons_conflict] at h
      exact ih h
    · rw [lostRaces_cons_of_ne he] at h
      obtain rfl : e' = e := Option.some.inj h
      exact he

end LostRaces

namespace Store

/-- A store once some of the failures that are due have been used up. -/
def dropFailures (s : Store) (k : Nat) : Store := { s with failures := s.failures.drop k }

/-- The next failure that is due. -/
theorem failures_dropFailures {s : Store} {k : Nat} {e : StoreError}
    (h : s.failures[k]? = some e) :
    (s.dropFailures k).failures = e :: (s.dropFailures (k + 1)).failures := by
  obtain ⟨hk, rfl⟩ := List.getElem?_eq_some_iff.1 h
  exact List.drop_eq_getElem_cons hk

/-- No failure is left when all are used up. -/
theorem failures_dropFailures_of_length {s : Store} {k : Nat} (h : s.failures.length = k) :
    (s.dropFailures k).failures = [] :=
  List.drop_eq_nil_of_le (Nat.le_of_eq h)

end Store

/-- Errors that keep the failure of the store behind them. -/
class LawfulStoreFailure (ε : Type) [StoreFailure ε] : Prop where
  store?_ofStore : ∀ e : StoreError, StoreFailure.store? (StoreFailure.ofStore e : ε) = some e

/-- Conflicts of the store are lost races, and no other failures are. -/
theorem isConflict_ofStore {ε : Type} [StoreFailure ε] [LawfulStoreFailure ε] (e : StoreError) :
    StoreFailure.isConflict (StoreFailure.ofStore e : ε) = decide (e = .conflict) := by
  simp [StoreFailure.isConflict, LawfulStoreFailure.store?_ofStore]

namespace Work

variable {ε α : Type} [StoreFailure ε]

/-! ## One attempt for each failure -/

/-- Attempts that a failure which is due always ends. `stage k` is the store once `k` failures have
been used up. -/
structure Stages (op : Nat → Work ε α) (failures : List StoreError) (stage : Nat → Store) :
    Prop where
  fails : ∀ (attempt : Nat) (u : UnitOfWork) {k : Nat} {e : StoreError}, failures[k]? = some e →
    finish (op attempt) u (stage k) = (.error (StoreFailure.ofStore e), default, stage (k + 1))

namespace Stages

variable [LawfulStoreFailure ε] {op : Nat → Work ε α} {failures : List StoreError}
  {stage : Nat → Store} (h : Stages op failures stage) (policy : RetryPolicy)

include h

/-- Lost races cost an attempt each. -/
theorem skip {k : Nat} (hk : k < policy.attempts) (hlost : k ≤ lostRaces failures)
    (u : UnitOfWork) : ∃ u', finish (retried policy op) u (stage 0) =
      finish (retriedFrom policy op (policy.attempts - 1 - k) (k + 1)) u' (stage k) := by
  induction k with
  | zero => exact ⟨u, rfl⟩
  | succ k ih =>
    obtain ⟨u', hskip⟩ := ih (by omega) (by omega)
    have hattempt := h.fails (k + 1) u' (getElem?_of_lt_lostRaces hlost)
    have hconflict : StoreFailure.isConflict (StoreFailure.ofStore .conflict : ε) = true :=
      (isConflict_ofStore _).trans (decide_eq_true rfl)
    have hretries : policy.attempts - 1 - k = policy.attempts - 1 - (k + 1) + 1 := by omega
    exact ⟨default, by rw [hskip, hretries, finish_retriedFrom_succ _ hconflict hattempt]⟩

/-- As many lost races as there are attempts use them up. -/
theorem finish_of_exhausted (hlost : policy.attempts ≤ lostRaces failures) (u : UnitOfWork) :
    finish (retried policy op) u (stage 0) =
      (.error ⟨policy.attempts, StoreFailure.ofStore .conflict⟩, default,
        stage policy.attempts) := by
  have hpos : 0 < policy.attempts := by
    rw [RetryPolicy.attempts]
    omega
  have hlast : policy.attempts - 1 < lostRaces failures := by omega
  obtain ⟨u', hskip⟩ := h.skip policy (Nat.sub_one_lt_of_lt hpos) (Nat.le_of_lt hlast) u
  have hattempt := h.fails policy.attempts u' (getElem?_of_lt_lostRaces hlast)
  rw [Nat.sub_add_cancel hpos] at hskip hattempt
  rw [hskip, Nat.sub_self, finish_retriedFrom_zero hattempt]

/-- If fewer races are lost, then an error that is due after them is the work's own. -/
theorem finish_of_error (hlost : lostRaces failures < policy.attempts) {e : StoreError}
    (he : failures[lostRaces failures]? = some e) (u : UnitOfWork) :
    finish (retried policy op) u (stage 0) =
      (.error ⟨lostRaces failures + 1, StoreFailure.ofStore e⟩, default,
        stage (lostRaces failures + 1)) := by
  obtain ⟨u', hskip⟩ := h.skip policy hlost (Nat.le_refl _) u
  have hattempt := h.fails (lostRaces failures + 1) u' he
  have hconflict : StoreFailure.isConflict (StoreFailure.ofStore e : ε) = false :=
    (isConflict_ofStore _).trans (decide_eq_false (ne_conflict_of_getElem?_lostRaces he))
  rw [hskip, finish_retriedFrom_of_error _ hconflict hattempt]

/-- If no error is due after them, then the next attempt is the one that counts. -/
theorem finish_of_ok (hlost : lostRaces failures < policy.attempts) {a : α} {v : UnitOfWork}
    {t : Store} (hok : ∀ u, finish (op (lostRaces failures + 1)) u (stage (lostRaces failures)) =
      (.ok a, v, t)) (u : UnitOfWork) :
    finish (retried policy op) u (stage 0) = (.ok a, v, t) := by
  obtain ⟨u', hskip⟩ := h.skip policy hlost (Nat.le_refl _) u
  rw [hskip, finish_retriedFrom_of_ok _ (hok u')]

end Stages

end Work

end Reactions
