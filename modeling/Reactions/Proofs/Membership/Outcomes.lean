import Reactions.Proofs.Membership.Attempt
import Reactions.Proofs.Store.DueFailures

/-!
# What comes of a registration

A registration that is made alone ends in one of five ways, and the store decides which. The
commitment may be a leaf already, and then nothing is written; the same holds if the tree is full.
Otherwise the failures that are due decide: the attempts may be used up by lost races
(`finish_register_of_exhausted`), another error may come first (`finish_register_of_failure`), or
an attempt gets through and makes the commitment the next leaf (`finish_register_of_ok`).
`registration_ends_in_one_way` has all of them, with what stays as it is in each.
-/

namespace Reactions

instance : LawfulStoreFailure MembershipError := ⟨fun _ => rfl⟩

namespace Membership

/-- A commitment can become a leaf of a feed: it is not one yet, and there is room for it. -/
structure Admits (s : Store) (feed : FeedId) (commitment : Commitment) : Prop where
  fresh : commitment ∉ s.registered feed
  room : (s.leaves feed).length < Merkle.treeCapacity

variable {s : Store} {feed : FeedId} {commitment : Commitment}

/-! ## The five ways -/

section Ways

variable (policy : RetryPolicy) (clock : Clock) (height : Nat) (u : UnitOfWork)

/-- A commitment that is registered stays so, and nothing else happens. -/
theorem finish_register_of_mem (h : commitment ∈ s.registered feed) :
    ∃ u', Work.finish (register policy clock feed commitment height) u s =
      (.ok .alreadyRegistered, u', s) := by
  have hknown : ∃ u', Work.finish (tryRegister feed commitment height (clock 1)) u s =
      (.ok .alreadyRegistered, u', s) := finish_tryRegister_of_mem h
  obtain ⟨u', hattempt⟩ := hknown
  have hretried := Work.finish_retried_of_ok policy
    (fun attempt => tryRegister feed commitment height (clock attempt)) hattempt
  exact ⟨u', Work.finish_adapt_of_eq Failed.error hretried⟩

/-- A new commitment is refused if the tree is full. -/
theorem finish_register_of_full (h : commitment ∉ s.registered feed)
    (hfull : Merkle.treeCapacity ≤ (s.leaves feed).length) :
    ∃ u', Work.finish (register policy clock feed commitment height) u s =
      (.error (.treeFull feed), u', s) := by
  obtain ⟨u', hattempt⟩ := finish_tryRegister_of_full height (clock 1) u h hfull
  have hconflict : StoreFailure.isConflict (MembershipError.treeFull feed) = false := rfl
  have hretried := Work.finish_retried_of_error policy
    (fun attempt => tryRegister feed commitment height (clock attempt)) hconflict hattempt
  exact ⟨u', Work.finish_adapt_of_eq Failed.error hretried⟩

/-- A failure that is due ends an attempt to register a commitment that the feed admits. -/
theorem stages_tryRegister (h : Admits s feed commitment) :
    Work.Stages (fun attempt => tryRegister feed commitment height (clock attempt)) s.failures
      s.dropFailures where
  fails _ _ k _ he :=
    finish_tryRegister_of_failure (s := s.dropFailures k) h.fresh h.room
      (Store.failures_dropFailures he)

variable {policy}

/-- If every attempt loses its race, the registration fails for that. -/
theorem finish_register_of_exhausted (h : Admits s feed commitment)
    (hlost : policy.attempts ≤ lostRaces s.failures) :
    Work.finish (register policy clock feed commitment height) u s =
      (.error (.store .conflict), default, s.dropFailures policy.attempts) := by
  have hretried := (stages_tryRegister clock height h).finish_of_exhausted policy hlost u
  exact Work.finish_adapt_of_eq Failed.error hretried

/-- If the last attempt fails for another reason, the registration fails for that. -/
theorem finish_register_of_failure (h : Admits s feed commitment)
    (hlost : lostRaces s.failures < policy.attempts) {e : StoreError}
    (he : s.failures[lostRaces s.failures]? = some e) :
    Work.finish (register policy clock feed commitment height) u s =
      (.error (.store e), default, s.dropFailures (lostRaces s.failures + 1)) := by
  have hretried := (stages_tryRegister clock height h).finish_of_error policy hlost he u
  exact Work.finish_adapt_of_eq Failed.error hretried

/-- If the last attempt meets no failure, the member is enrolled. -/
theorem finish_register_of_ok (h : Admits s feed commitment)
    (hlost : lostRaces s.failures < policy.attempts)
    (hlength : s.failures.length = lostRaces s.failures) :
    Work.finish (register policy clock feed commitment height) u s =
      (.ok (.registered (Merkle.root (s.leaves feed ++ [commitment.value]))
        (s.leaves feed).length), default,
        (s.dropFailures (lostRaces s.failures)).enroll feed commitment height
          (clock (lostRaces s.failures + 1))) := by
  have hnone := Store.failures_dropFailures_of_length hlength
  have hretried := (stages_tryRegister clock height h).finish_of_ok policy hlost
    (fun _ => finish_tryRegister_of_ok (s := s.dropFailures _) h.fresh h.room hnone) u
  exact Work.finish_adapt_of_eq Failed.error hretried

end Ways

/-! ## All of them -/

/-- What a registration that is made alone comes to on a store, and the store after it. -/
structure Ends (policy : RetryPolicy) (clock : Clock) (feed : FeedId) (commitment : Commitment)
    (height : Nat) (s : Store) (outcome : Except MembershipError Registration) (s' : Store) :
    Prop where
  /-- A leaf is not registered again, be the tree full or not. -/
  again : commitment ∈ s.registered feed → outcome = .ok .alreadyRegistered ∧ s' = s
  /-- A full tree takes no other leaf. -/
  full : commitment ∉ s.registered feed → Merkle.treeCapacity ≤ (s.leaves feed).length →
    outcome = .error (.treeFull feed) ∧ s' = s
  /-- As many lost races as attempts: the last of them is what the caller is told. -/
  exhausted : Admits s feed commitment → policy.attempts ≤ lostRaces s.failures →
    outcome = .error (.store .conflict) ∧ s' = s.dropFailures policy.attempts
  /-- Another error, after fewer lost races than attempts. -/
  failed : Admits s feed commitment → lostRaces s.failures < policy.attempts →
    ∀ e, s.failures[lostRaces s.failures]? = some e →
      outcome = .error (.store e) ∧ s' = s.dropFailures (lostRaces s.failures + 1)
  /-- Nothing but fewer lost races than attempts: the commitment is the next leaf, and the root of
  all leaves is the newest entry of the history. -/
  enrolled : Admits s feed commitment → lostRaces s.failures < policy.attempts →
    s.failures.length = lostRaces s.failures →
      let root := Merkle.root (s.leaves feed ++ [commitment.value])
      let now := clock (lostRaces s.failures + 1)
      outcome = .ok (.registered root (s.leaves feed).length) ∧
        s'.members feed = s.members feed ++ [⟨feed, commitment, now⟩] ∧
        s'.history feed = ⟨feed, root.toBytes, height, now⟩ :: s.history feed ∧
        s'.failures = []
  /-- A registration that fails writes no row at all. -/
  quiet : ∀ e, outcome = .error e → s.Quiet s'
  /-- Nothing changes for other feeds. -/
  elsewhere : ∀ feed', feed' ≠ feed →
    s'.members feed' = s.members feed' ∧ s'.history feed' = s.history feed'
  tallies : s'.tallies = s.tallies
  nullifiers : s'.nullifiers = s.nullifiers
  transactions : s'.transactions = s.transactions

/-- However a registration that is made alone ends, it does so in one of five ways, with the outcome
and the rows that this way has. -/
theorem registration_ends_in_one_way (policy : RetryPolicy) (clock : Clock) (feed : FeedId)
    (commitment : Commitment) (height : Nat) (s : Store) :
    let r := (register policy clock feed commitment height).run.run s
    Ends policy clock feed commitment height s r.1 r.2 := by
  have hcases := finish_register_cases policy clock feed commitment height default s
  simp only [Work.run_run]
  constructor
  case again =>
    intro h
    obtain ⟨u', hfinish⟩ := finish_register_of_mem policy clock height default h
    rw [hfinish]
    exact ⟨rfl, rfl⟩
  case full =>
    intro h hfull
    obtain ⟨u', hfinish⟩ := finish_register_of_full policy clock height default h hfull
    rw [hfinish]
    exact ⟨rfl, rfl⟩
  case exhausted =>
    intro h hlost
    rw [finish_register_of_exhausted clock height default h hlost]
    exact ⟨rfl, rfl⟩
  case failed =>
    intro h hlost e he
    rw [finish_register_of_failure clock height default h hlost he]
    exact ⟨rfl, rfl⟩
  case enrolled =>
    intro h hlost hlength
    rw [finish_register_of_ok clock height default h hlost hlength]
    refine ⟨rfl, ?_, ?_, ?_⟩
    · rw [Store.members_enroll, if_pos rfl]
      rfl
    · rw [Store.history_enroll, if_pos rfl]
      rfl
    · exact Store.failures_dropFailures_of_length hlength
  case quiet =>
    intro e he
    obtain ⟨outcome, u', s', hfinish, ⟨hquiet, -⟩ | ⟨_, _, -, -, -, houtcome, -⟩⟩ := hcases
    · rw [hfinish]
      exact hquiet
    · rw [hfinish, houtcome] at he
      cases he
  case elsewhere =>
    intro feed' hfeed
    obtain ⟨outcome, u', s', hfinish, ⟨hquiet, -⟩ | ⟨_, t, hquiet, -, -, -, rfl⟩⟩ := hcases
    · rw [hfinish]
      exact ⟨congrFun hquiet.members feed', congrFun hquiet.history feed'⟩
    · rw [hfinish, Store.members_enroll, Store.history_enroll, if_neg hfeed.symm,
        if_neg hfeed.symm, List.append_nil]
      exact ⟨congrFun hquiet.members feed', congrFun hquiet.history feed'⟩
  all_goals
    obtain ⟨outcome, u', s', hfinish, ⟨⟨_, _, rfl⟩, -⟩ | ⟨_, t, ⟨_, _, rfl⟩, -, -, -, rfl⟩⟩ :=
      hcases
    · rw [hfinish]
    · rw [hfinish]
      rfl

end Membership

end Reactions
