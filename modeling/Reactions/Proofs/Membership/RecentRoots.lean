import Reactions.Proofs.Membership.Outcomes

/-!
# What a question for the newest roots does

The question writes too. If it reads no root although the feed has leaves, then it logs one and
reads again; and it reads no root if there is none, or if it is asked for none.
`question_logs_at_most_one_root` says when it writes and what, and that the answer is read off the
history as it is afterwards. A question for no root at all goes on to write if there are leaves,
however many roots they have already (`question_for_none_logs_root_again`).
-/

namespace Reactions

namespace Membership

variable {s : Store} {feed : FeedId}

/-- What a question for the newest roots of a feed comes to on a store, and the store after it. -/
structure Answers (clock : Clock) (feed : FeedId) (count : Nat) (s : Store)
    (outcome : Except MembershipError (List RootEntry)) (s' : Store) : Prop where
  /-- The answer has the newest roots that there are afterwards, newest first. -/
  newest : outcome = .ok ((s'.history feed).take count)
  /-- Without leaves, or with a root that was asked for, nothing is written. -/
  silent : s.members feed = [] ∨ s.history feed ≠ [] ∧ 0 < count → s' = s
  /-- With leaves, and no root or none asked for, the root of the leaves is logged at height zero.
  -/
  logged : s.members feed ≠ [] → s.history feed = [] ∨ count = 0 →
    s' = s.logRoot feed 0 (clock 1) ∧
      s'.history feed = ⟨feed, (Merkle.root (s.leaves feed)).toBytes, 0, clock 1⟩ :: s.history feed
  /-- Other feeds keep their roots. -/
  elsewhere : ∀ feed', feed' ≠ feed → s'.history feed' = s.history feed'
  commitments : s'.commitments = s.commitments
  tallies : s'.tallies = s.tallies
  nullifiers : s'.nullifiers = s.nullifiers
  transactions : s'.transactions = s.transactions

/-- A question that reads no root although there are leaves logs one and reads again. -/
theorem finish_recentRoots_of_unread (policy : RetryPolicy) (clock : Clock) {count : Nat}
    (u : UnitOfWork) (hfailures : s.failures = []) (hmembers : s.members feed ≠ [])
    (hunread : (s.history feed).take count = []) :
    ∃ u', Work.finish (recentRoots policy clock feed count) u s =
      (.ok (((s.logRoot feed 0 (clock 1)).history feed).take count), u',
        s.logRoot feed 0 (clock 1)) := by
  obtain ⟨u₁, hfinish⟩ := finish_recentRoots policy clock feed count u s
  refine ⟨((UnitOfWork.opened .readOnly).read (s.logRoot feed 0 (clock 1))
    (.recentRoots feed count)).2, ?_⟩
  rw [hfinish, if_pos ⟨hunread, hmembers⟩,
    Work.finish_bind_ok _ (finish_updateRoot_of_ok policy clock feed 0 u₁ hfailures),
    Work.finish_bind_ok _ (Work.finish_begin _), Work.finish_read, answer_recentRoots rfl]

theorem take_history_eq_nil_iff {count : Nat} :
    (s.history feed).take count = [] ↔ s.history feed = [] ∨ count = 0 := by
  rw [List.take_eq_nil_iff, or_comm]

/-- If no commit is made to fail, a question for the newest roots logs at most one root, that of the
leaves, and changes nothing else. It logs one exactly if there are leaves and it reads no root. -/
theorem question_logs_at_most_one_root (policy : RetryPolicy) (clock : Clock) (feed : FeedId)
    (count : Nat) (s : Store) (hfailures : s.failures = []) :
    let r := (recentRoots policy clock feed count).run.run s
    Answers clock feed count s r.1 r.2 := by
  simp only [Work.run_run]
  by_cases hunread : (s.history feed).take count = [] ∧ s.members feed ≠ []
  · obtain ⟨hrows, hmembers⟩ := hunread
    obtain ⟨u', hfinish⟩ :=
      finish_recentRoots_of_unread policy clock default hfailures hmembers hrows
    rw [hfinish]
    refine ⟨rfl, ?_, ?_, ?_, rfl, rfl, rfl, rfl⟩
    · rintro (hnone | ⟨hhistory, hcount⟩)
      · exact absurd hnone hmembers
      · rcases take_history_eq_nil_iff.1 hrows with hnil | hzero
        · exact absurd hnil hhistory
        · exact absurd hzero (Nat.ne_of_gt hcount)
    · intro _ _
      refine ⟨rfl, ?_⟩
      rw [Store.history_logRoot, if_pos rfl, Store.rootOf]
    · intro feed' hfeed
      rw [Store.history_logRoot, if_neg hfeed.symm]
  · have hread : (s.history feed).take count = [] → s.members feed = [] := fun hrows =>
      not_not.1 fun hmembers => hunread ⟨hrows, hmembers⟩
    obtain ⟨u', hfinish⟩ := finish_recentRoots_of_history policy clock hread default
    rw [hfinish]
    refine ⟨rfl, fun _ => rfl, ?_, fun _ _ => rfl, rfl, rfl, rfl, rfl⟩
    intro hmembers hcount
    exact absurd (hread (take_history_eq_nil_iff.2 hcount)) hmembers

/-- The leaf of a feed that has no root yet is given one by the first question. -/
theorem question_roots_unlogged_leaf :
    let s := Store.empty.write [.commitment ⟨default, default, default⟩]
    let r := (recentRoots {} (fun _ => default) default 5).run.run s
    s.failures = [] ∧ s.history default = [] ∧
      r.1 = .ok [Store.rootOf default [(default : Commitment).value] 0 default] := by
  intro s r
  have hanswers :=
    question_logs_at_most_one_root {} (fun _ => default) default 5 s rfl
  have hmembers : s.members default ≠ [] := List.cons_ne_nil _ _
  obtain ⟨-, hhistory⟩ := hanswers.logged hmembers (.inl rfl)
  refine ⟨rfl, rfl, hanswers.newest.trans ?_⟩
  rw [hhistory]
  rfl

/-- A member is registered, which logs a root. Being asked for no root, the feed then gets another
one at height zero, although its leaves are the same. -/
theorem question_for_none_logs_root_again :
    let clock : Clock := fun _ => default
    let leaf : Commitment := default
    let s := ((register {} clock default leaf 10).run.run .empty).2
    let s' := ((recentRoots {} clock default 0).run.run s).2
    s.failures = [] ∧ s.history default = [Store.rootOf default [leaf.value] 10 default] ∧
      s'.history default =
        [Store.rootOf default [leaf.value] 0 default,
          Store.rootOf default [leaf.value] 10 default] ∧
      s'.members default = s.members default := by
  intro clock leaf s s'
  have hs : s = Store.empty.enroll default leaf 10 default := by
    have hadmits : Admits .empty default leaf := ⟨List.not_mem_nil, by decide⟩
    have hpolicy : lostRaces Store.empty.failures < RetryPolicy.attempts {} := by decide
    change ((register {} clock default leaf 10).run.run .empty).2 = _
    rw [Work.run_run, finish_register_of_ok clock 10 default hadmits hpolicy rfl]
    rfl
  have hmembers : s.members default ≠ [] := by
    rw [hs]
    exact List.cons_ne_nil _ _
  have hs' : s' = s.logRoot default 0 default := by
    have hfailures : s.failures = [] := by
      rw [hs]
      rfl
    have hunread : (s.history default).take 0 = [] := rfl
    obtain ⟨u', hfinish⟩ :=
      finish_recentRoots_of_unread {} clock default hfailures hmembers hunread
    change ((recentRoots {} clock default 0).run.run s).2 = _
    rw [Work.run_run, hfinish]
  rw [hs', hs]
  exact ⟨rfl, rfl, rfl, rfl⟩

end Membership

end Reactions
