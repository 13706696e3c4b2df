import Reactions.Proofs.Admission.Verdict
import Reactions.Proofs.Basic
import Reactions.Proofs.Ledger.Attempt

/-!
# Requests to a node

The stores that a node can come to are those that some sequence of requests leads to from an empty
store, one request after the other, while commits may be made to fail at any time (`Store.serving`).
One request changes the rows in at most one of three ways (`Store.Change`): it logs the root of a
feed's leaves, it makes a commitment the next leaf and logs the root, or it records a reaction
(`Store.serve_change`). So whatever holds at the beginning and is kept by all three holds of every
such store (`Store.serve_induction`).
-/

namespace Reactions

/-- What a node can be asked for, the failures that commits are made to have included. Retry
policies, clocks, secrets and verifiers may differ from one request to the next. -/
inductive Request
  | register (policy : RetryPolicy) (clock : Clock) (feed : FeedId) (commitment : Commitment)
    (height : Nat)
  | updateRoot (policy : RetryPolicy) (clock : Clock) (feed : FeedId) (height : Nat)
  | recentRoots (policy : RetryPolicy) (clock : Clock) (feed : FeedId) (count : Nat)
  | isRegistered (feed : FeedId) (commitment : Commitment)
  | proof (feed : FeedId) (commitment : Commitment)
  | membership (policy : RetryPolicy) (clock : Clock) (event : MembershipEvent)
  | verdict (verifier : Verifier) (secrets : FeedSecrets) (window : Nat) (policy : RetryPolicy)
    (clock : Clock) (tx : Reaction)
  | react (policy : RetryPolicy) (clock : Clock) (tx : Reaction) (height : Nat)
  | failNext (errors : List StoreError)

/-- The store after a request. -/
def Request.serve (s : Store) : Request → Store
  | .register policy clock feed commitment height =>
    ((Membership.register policy clock feed commitment height).run.run s).2
  | .updateRoot policy clock feed height =>
    ((Membership.updateRoot policy clock feed height).run.run s).2
  | .recentRoots policy clock feed count =>
    ((Membership.recentRoots policy clock feed count).run.run s).2
  | .isRegistered feed commitment => ((Membership.isRegistered feed commitment).run.run s).2
  | .proof feed commitment => ((Membership.proof? feed commitment).run.run s).2
  | .membership policy clock event => ((Membership.handle policy clock event).run.run s).2
  | .verdict verifier secrets window policy clock tx =>
    ((Admission.verdict verifier secrets window policy clock tx).run.run s).2
  | .react policy clock tx height => ((Ledger.process policy clock tx height).run.run s).2
  | .failNext errors => s.failNextCommits errors

namespace Store

/-- The store after requests, from an empty one. -/
def serving (requests : List Request) : Store := requests.foldl Request.serve .empty

/-- What one request does to the rows of a store. -/
inductive Change (s : Store) : Store → Prop
  | quiet {t : Store} (h : s.Quiet t) : Change s t
  | root {t : Store} (h : s.Quiet t) (feed : FeedId) (height : Nat) (now : Timestamp) :
    Change s (t.logRoot feed height now)
  | leaf {t : Store} (h : s.Quiet t) {feed : FeedId} {commitment : Commitment}
    (hfresh : commitment ∉ t.registered feed)
    (hroom : (t.leaves feed).length < Merkle.treeCapacity) (height : Nat) (now : Timestamp) :
    Change s (t.enroll feed commitment height now)
  | reaction {t : Store} (h : s.Quiet t) (tally : Tally) (row : LedgerRow) (audit : AuditRow) :
    Change s (t.record tally row audit)

/-- Registering a member changes the registry in one of the ways that there are. -/
theorem change_register (policy : RetryPolicy) (clock : Clock) (feed : FeedId)
    (commitment : Commitment) (height : Nat) (u : UnitOfWork) (s : Store) :
    s.Change (Work.finish (Membership.register policy clock feed commitment height) u s).2.2 := by
  obtain ⟨outcome, u', s', hfinish, ⟨hquiet, -⟩ | ⟨attempt, t, hquiet, hmem, hroom, -, rfl⟩⟩ :=
    Membership.finish_register_cases policy clock feed commitment height u s
  · rw [hfinish]
    exact .quiet hquiet
  · rw [hfinish]
    rw [← hquiet.registered] at hmem
    rw [leaves, ← hquiet.members] at hroom
    exact .leaf hquiet hmem hroom height (clock attempt)

/-- Logging the root of a feed again changes the registry in one of the ways that there are. -/
theorem change_updateRoot (policy : RetryPolicy) (clock : Clock) (feed : FeedId) (height : Nat)
    (u : UnitOfWork) (s : Store) :
    s.Change (Work.finish (Membership.updateRoot policy clock feed height) u s).2.2 := by
  obtain ⟨outcome, u', s', hfinish, ⟨hquiet, -⟩ | ⟨attempt, t, hquiet, -, rfl⟩⟩ :=
    Membership.finish_updateRoot_cases policy clock feed height u s
  · rw [hfinish]
    exact .quiet hquiet
  · rw [hfinish]
    exact .root hquiet feed height (clock attempt)

/-- Handling an event about a member changes the registry in one of the ways that there are. -/
theorem change_membership (policy : RetryPolicy) (clock : Clock) (event : MembershipEvent)
    (u : UnitOfWork) (s : Store) :
    s.Change (Work.finish (Membership.handle policy clock event) u s).2.2 := by
  have hregister := change_register policy clock event.feedId (.ofAddress event.address)
    event.blockHeight u s
  have hupdate := change_updateRoot policy clock event.feedId event.blockHeight u s
  rw [Membership.handle]
  cases event.kind with
  | joined | unbanned => rwa [Work.finish_discard]
  | left | banned => rwa [Work.finish_discard]

/-- A request changes the rows in at most one way. -/
theorem serve_change (s : Store) (request : Request) : s.Change (request.serve s) := by
  cases request with
  | register policy clock feed commitment height =>
    rw [Request.serve, Work.run_run]
    exact change_register policy clock feed commitment height default s
  | updateRoot policy clock feed height =>
    rw [Request.serve, Work.run_run]
    exact change_updateRoot policy clock feed height default s
  | recentRoots policy clock feed count =>
    obtain ⟨_, _, s', hfinish, hquiet | ⟨attempt, t, hquiet, rfl⟩⟩ :=
      Membership.finish_recentRoots_cases policy clock feed count default s
    · rw [Request.serve, Work.run_run, hfinish]
      exact .quiet hquiet
    · rw [Request.serve, Work.run_run, hfinish]
      exact .root hquiet feed 0 (clock attempt)
  | isRegistered feed commitment =>
    obtain ⟨_, hfinish⟩ := Membership.finish_isRegistered feed commitment default s
    rw [Request.serve, Work.run_run, hfinish]
    exact .quiet (.refl s)
  | proof feed commitment =>
    obtain ⟨_, hfinish⟩ := Membership.finish_proof? feed commitment default s
    rw [Request.serve, Work.run_run, hfinish]
    exact .quiet (.refl s)
  | membership policy clock event =>
    rw [Request.serve, Work.run_run]
    exact change_membership policy clock event default s
  | verdict verifier secrets window policy clock tx =>
    obtain ⟨_, _, s', hfinish, hquiet | ⟨attempt, t, hquiet, rfl⟩⟩ :=
      Admission.finish_verdict_cases verifier secrets window policy clock tx default s
    · rw [Request.serve, Work.run_run, hfinish]
      exact .quiet hquiet
    · rw [Request.serve, Work.run_run, hfinish]
      exact .root hquiet tx.feedId 0 (clock attempt)
  | react policy clock tx height =>
    rcases Ledger.process_cases policy clock tx height s with
      ⟨e, s', hrun, hquiet⟩ | ⟨attempt, kind, tally, row, t, hquiet, -, hrun⟩
    · rw [Request.serve, hrun]
      exact .quiet hquiet
    · rw [Request.serve, hrun]
      exact .reaction hquiet tally row _
  | failNext errors => exact .quiet ⟨_, s.lastTransactionId, rfl⟩

/-- Later requests are served after the others. -/
theorem serving_append (requests more : List Request) :
    serving (requests ++ more) = more.foldl Request.serve (serving requests) :=
  List.foldl_append

/-- What holds of a store holds of all that requests make of it, if it does not depend on what no
row depends on and is kept by the three ways in which rows are changed. -/
theorem serve_induction {P : Store → Prop} {s : Store} (hstart : P s)
    (hquiet : ∀ s t, P s → s.Quiet t → P t)
    (hroot : ∀ s feed height now, P s → P (s.logRoot feed height now))
    (hleaf : ∀ s feed commitment height now, P s → commitment ∉ s.registered feed →
      (s.leaves feed).length < Merkle.treeCapacity → P (s.enroll feed commitment height now))
    (hreaction : ∀ s tally row audit, P s → P (s.record tally row audit))
    (requests : List Request) : P (requests.foldl Request.serve s) := by
  induction requests generalizing s with
  | nil => exact hstart
  | cons request rest ih =>
    refine ih ?_
    have hchange := serve_change s request
    generalize request.serve s = s' at hchange
    cases hchange with
    | quiet h => exact hquiet s _ hstart h
    | root h feed height now => exact hroot _ feed height now (hquiet s _ hstart h)
    | leaf h hfresh hroom height now =>
      exact hleaf _ _ _ height now (hquiet s _ hstart h) hfresh hroom
    | reaction h tally row audit => exact hreaction _ tally row audit (hquiet s _ hstart h)

end Store

end Reactions
