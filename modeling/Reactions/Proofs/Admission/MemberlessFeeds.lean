import Reactions.Proofs.Admission.RootWindow

/-!
# Feeds without members

A feed has no root before anybody is registered, unless its root is logged on its own: because an
update is asked for, or because of the notice that somebody leaves or is banned
(`Request.rootUpdate?`). This is done for every feed, members or not, whereas a question for the
newest roots logs none for a feed without members (`Store.logsAlone_serve`). So such a feed has
roots exactly if one was logged on its own (`Store.history_eq_nil_iff`).

What is logged for it is the root of the empty tree. All that admission can hold against a reaction
is then as many copies of that root as there are entries in the window
(`Admission.vacuousStatements`), and if none was logged, there is nothing to ask the verifier.
-/

namespace Reactions

/-! ## Updates of roots -/

/-- The update of a root that a request comes down to, with its answer: one that is asked for, or
that of the feed that an address leaves or is banned from. -/
def Request.rootUpdate? (s : Store) : Request → Option (FeedId × Except MembershipError ScalarField)
  | .updateRoot policy clock feed height =>
    some (feed, ((Membership.updateRoot policy clock feed height).run.run s).1)
  | .membership policy clock event =>
    match event.kind with
    | .joined | .unbanned => none
    | .left | .banned =>
      some (event.feedId,
        ((Membership.updateRoot policy clock event.feedId event.blockHeight).run.run s).1)
  | _ => none

/-- The update of a feed's root is answered with a root. -/
def Request.LogsRoot (s : Store) (request : Request) (feed : FeedId) : Prop :=
  ∃ root, request.rootUpdate? s = some (feed, .ok root)

/-- Among requests that are served one after the other, there is one that logs the root of a feed.
-/
def RootLogged (requests : List Request) (feed : FeedId) : Prop :=
  ∃ before request after, requests = before ++ request :: after ∧
    request.LogsRoot (.serving before) feed

/-! ## Questions about a feed without members -/

/-- For the newest roots of a feed without members the store is only read. -/
theorem Membership.finish_recentRoots_of_memberless (policy : RetryPolicy) (clock : Clock)
    {feed : FeedId} (count : Nat) (u : UnitOfWork) {s : Store} (h : s.members feed = []) :
    ∃ u', Work.finish (recentRoots policy clock feed count) u s =
      (.ok ((s.history feed).take count), u', s) :=
  finish_recentRoots_of_history policy clock (fun _ => h) u

/-- Admission to a feed without members leaves the store as it is. -/
theorem Admission.finish_verdict_of_memberless (verifier : Verifier) (secrets : FeedSecrets)
    (window : Nat) (policy : RetryPolicy) (clock : Clock) (tx : Reaction) (u : UnitOfWork)
    {s : Store}
    (h : s.members tx.feedId = []) :
    ∃ outcome u', Work.finish (verdict verifier secrets window policy clock tx) u s =
      (outcome, u', s) := by
  by_cases hknown : ∃ nullifier messageId key author,
      Known verifier secrets tx nullifier messageId key author
  · obtain ⟨nullifier, messageId, key, author, hknown⟩ := hknown
    obtain ⟨u', hroots⟩ :=
      Membership.finish_recentRoots_of_memberless policy clock (max window 1) u h
    exact ⟨_, u', finish_verdict_of_known hknown hroots⟩
  · obtain ⟨outcome, -, hfinish⟩ := finish_verdict_of_not_known window policy clock u s
      fun nullifier messageId key author h => hknown ⟨nullifier, messageId, key, author, h⟩
    exact ⟨outcome, u, hfinish⟩

namespace Store

variable {s t : Store} {feed feed' : FeedId} {request : Request} {u : UnitOfWork}

/-! ## One request -/

/-- What a request does to the history of a feed that has no members afterwards: nothing, or it logs
one more root. -/
inductive LogsAlone (s t : Store) (request : Request) (feed : FeedId) : Prop
  | none (hhistory : t.history feed = s.history feed) (hanswer : ¬ request.LogsRoot s feed)
  | root (row : RootEntry) (hhistory : t.history feed = row :: s.history feed)
    (hanswer : request.LogsRoot s feed)

/-- A request that updates no root logs none on its own if the roots stay. -/
theorem LogsAlone.of_history_eq (hupdate : request.rootUpdate? s = .none)
    (h : t.history feed = s.history feed) : LogsAlone s t request feed := by
  refine .none h ?_
  rintro ⟨root, hanswer⟩
  rw [hupdate] at hanswer
  cases hanswer

/-- An update logs a root if it is answered with one. -/
theorem LogsAlone.of_updateRoot (feed : FeedId) (request : Request) (policy : RetryPolicy)
    (clock : Clock) (feed' : FeedId) (height : Nat) (u : UnitOfWork) (s : Store)
    (hupdate : request.rootUpdate? s = some (feed',
      (Work.finish (Membership.updateRoot policy clock feed' height) u s).1)) :
    LogsAlone s (Work.finish (Membership.updateRoot policy clock feed' height) u s).2.2 request
      feed := by
  obtain ⟨outcome, u', s', hfinish, ⟨hquiet, e, rfl⟩ | ⟨attempt, t, hquiet, rfl, rfl⟩⟩ :=
    Membership.finish_updateRoot_cases policy clock feed' height u s
  · rw [hfinish] at hupdate ⊢
    refine .none (by rw [hquiet.history]) ?_
    rintro ⟨root, hanswer⟩
    rw [hupdate] at hanswer
    cases hanswer
  · rw [hfinish] at hupdate ⊢
    by_cases hfeed : feed' = feed
    · subst hfeed
      refine .root (rootOf feed' (t.leaves feed') height (clock attempt)) ?_ ⟨_, hupdate⟩
      rw [history_logRoot, if_pos rfl, hquiet.history]
    · refine .none ?_ ?_
      · rw [history_logRoot, if_neg hfeed, hquiet.history]
      · rintro ⟨root, hanswer⟩
        exact hfeed (congrArg Prod.fst (Option.some.inj (hupdate.symm.trans hanswer)))

/-- A registration leaves the history of a feed alone that has no members afterwards. -/
theorem history_register (policy : RetryPolicy) (clock : Clock) (feed' : FeedId)
    (commitment : Commitment) (height : Nat) (u : UnitOfWork) (s : Store)
    (hmembers : (Work.finish (Membership.register policy clock feed' commitment height) u
      s).2.2.members feed = []) :
    (Work.finish (Membership.register policy clock feed' commitment height) u s).2.2.history feed =
      s.history feed := by
  obtain ⟨outcome, u', s', hfinish, ⟨hquiet, -⟩ | ⟨attempt, t, hquiet, -, -, -, rfl⟩⟩ :=
    Membership.finish_register_cases policy clock feed' commitment height u s
  · rw [hfinish, hquiet.history]
  · rw [hfinish] at hmembers ⊢
    by_cases hfeed : feed' = feed
    · simp [hfeed] at hmembers
    · rw [history_enroll, if_neg hfeed, hquiet.history]

/-- What is logged for another feed does not matter. -/
theorem history_of_logRoot {height : Nat} {clock : Clock} (hfeed : feed' ≠ feed)
    (h : s.Quiet t ∨ ∃ attempt r, s.Quiet r ∧ t = r.logRoot feed' height (clock attempt)) :
    t.history feed = s.history feed := by
  rcases h with hquiet | ⟨attempt, r, hquiet, rfl⟩
  · rw [hquiet.history]
  · rw [history_logRoot, if_neg hfeed, hquiet.history]

/-- Every request leaves the history of a feed without members alone, or logs its root. -/
theorem logsAlone_serve (s : Store) (request : Request)
    (hmembers : s.members feed = []) (hafter : (request.serve s).members feed = []) :
    LogsAlone s (request.serve s) request feed := by
  cases request with
  | register policy clock feed' commitment height =>
    refine .of_history_eq rfl ?_
    rw [Request.serve, Work.run_run] at hafter ⊢
    exact history_register policy clock feed' commitment height default s hafter
  | updateRoot policy clock feed' height =>
    have hlogs := LogsAlone.of_updateRoot feed (.updateRoot policy clock feed' height) policy clock
      feed' height default s (by rw [Request.rootUpdate?, Work.run_run])
    rwa [Request.serve, Work.run_run]
  | recentRoots policy clock feed' count =>
    refine .of_history_eq rfl ?_
    rw [Request.serve, Work.run_run]
    by_cases hfeed : feed' = feed
    · subst hfeed
      obtain ⟨u', hfinish⟩ :=
        Membership.finish_recentRoots_of_memberless policy clock count default hmembers
      rw [hfinish]
    · obtain ⟨_, _, s', hfinish, hlog⟩ :=
        Membership.finish_recentRoots_cases policy clock feed' count default s
      rw [hfinish]
      exact history_of_logRoot hfeed hlog
  | isRegistered feed' commitment =>
    obtain ⟨_, hfinish⟩ := Membership.finish_isRegistered feed' commitment default s
    refine .of_history_eq rfl ?_
    rw [Request.serve, Work.run_run, hfinish]
  | proof feed' commitment =>
    obtain ⟨_, hfinish⟩ := Membership.finish_proof? feed' commitment default s
    refine .of_history_eq rfl ?_
    rw [Request.serve, Work.run_run, hfinish]
  | membership policy clock event =>
    rw [Request.serve, Work.run_run, Membership.handle] at hafter ⊢
    cases hkind : event.kind with
    | joined | unbanned =>
      refine .of_history_eq (by rw [Request.rootUpdate?, hkind]) ?_
      rw [hkind] at hafter
      rw [Work.finish_discard] at hafter ⊢
      exact history_register policy clock event.feedId (.ofAddress event.address) event.blockHeight
        default s hafter
    | left | banned =>
      have hlogs := LogsAlone.of_updateRoot feed (.membership policy clock event) policy clock
        event.feedId event.blockHeight default s (by rw [Request.rootUpdate?, hkind, Work.run_run])
      rwa [Work.finish_discard]
  | verdict verifier secrets window policy clock tx =>
    refine .of_history_eq rfl ?_
    rw [Request.serve, Work.run_run]
    by_cases hfeed : tx.feedId = feed
    · subst hfeed
      obtain ⟨_, _, hfinish⟩ :=
        Admission.finish_verdict_of_memberless verifier secrets window policy clock tx default
          hmembers
      rw [hfinish]
    · obtain ⟨_, _, s', hfinish, hlog⟩ :=
        Admission.finish_verdict_cases verifier secrets window policy clock tx default s
      rw [hfinish]
      exact history_of_logRoot hfeed hlog
  | react policy clock tx height =>
    refine .of_history_eq rfl ?_
    rcases Ledger.process_cases policy clock tx height s with
      ⟨e, s', hrun, hquiet⟩ | ⟨attempt, kind, tally, row, t, hquiet, -, hrun⟩
    · rw [Request.serve, hrun, hquiet.history]
    · rw [Request.serve, hrun]
      exact congrFun hquiet.history feed
  | failNext errors => exact .of_history_eq rfl rfl

/-! ## All requests -/

/-- As long as nobody is registered for a feed, it has roots exactly if one was logged on its own.
-/
theorem history_eq_nil_iff {requests : List Request} (h : (serving requests).members feed = []) :
    (serving requests).history feed = [] ↔ ¬ RootLogged requests feed := by
  induction requests using List.reverseRecOn with
  | nil =>
    refine iff_of_true rfl ?_
    rintro ⟨before, request, after, heq, -⟩
    simp at heq
  | append_singleton requests request ih =>
    have hserve : serving (requests ++ [request]) = request.serve (serving requests) :=
      serving_append requests [request]
    have hgrown :
        (serving requests).members feed <+: (serving (requests ++ [request])).members feed :=
      hserve ▸ (GrownInto.serve (serving requests) feed [request]).members
    have hbefore : (serving requests).members feed = [] := List.prefix_nil.1 (h ▸ hgrown)
    rw [RootLogged, exists_append_singleton, not_or, ← RootLogged, ← ih hbefore]
    rw [hserve] at h ⊢
    cases logsAlone_serve (serving requests) request hbefore h with
    | none hhistory hanswer => simp [hhistory, hanswer]
    | root row hhistory hanswer => simp [hhistory, hanswer]

/-- All roots of a feed without members are that of the empty tree. -/
theorem Rooted.rootField?_of_memberless (h : s.Rooted feed) (hmembers : s.members feed = [])
    {row : RootEntry} (hrow : row ∈ s.history feed) : row.rootField? = some (Merkle.root []) := by
  obtain ⟨sizes, -, -, hroots⟩ := h.sizes
  have hmem : row.root ∈ (s.history feed).map (·.root) := List.mem_map_of_mem hrow
  have hleaves : s.leaves feed = [] := by rw [leaves, hmembers]; rfl
  rw [hroots, hleaves] at hmem
  obtain ⟨size, -, hroot⟩ := List.mem_map.1 hmem
  rw [List.take_nil] at hroot
  rw [RootEntry.rootField?, ← hroot]
  exact Residue.ofBytes?_toBytes scalarOrder_le _

end Store

/-! ## Admission -/

namespace Admission

variable {verifier : Verifier} {secrets : FeedSecrets} {tx : Reaction}
  {nullifier messageId : ScalarField} {key : Point} {author : Commitment} {s : Store}

/-- What the verifier may be asked about a reaction on a feed without members: as many copies of the
statement about the empty tree as there are roots in the window. -/
def vacuousStatements (s : Store) (window : Nat) (tx : Reaction) (nullifier messageId : ScalarField)
    (key : Point) (author : Commitment) : List Statement :=
  List.replicate (min (max window 1) (s.history tx.feedId).length)
    (statement tx nullifier messageId key author (Merkle.root []))

/-- Nothing but such statements is put together for a feed without members. -/
theorem statements_of_memberless (hrooted : s.Rooted tx.feedId)
    (hmembers : s.members tx.feedId = []) (window : Nat) :
    (((s.history tx.feedId).take (max window 1)).filterMap (·.rootField?)).map
        (statement tx nullifier messageId key author) =
      vacuousStatements s window tx nullifier messageId key author := by
  have hroots : ∀ row ∈ (s.history tx.feedId).take (max window 1),
      row.rootField? = some (Merkle.root []) :=
    fun row hrow => hrooted.rootField?_of_memberless hmembers (List.mem_of_mem_take hrow)
  rw [List.filterMap_congr hroots]
  simp [vacuousStatements]

/-- For a feed without members, admission can put together the vacuous statements only. -/
theorem finish_assess_of_memberless
    (hknown : Known verifier secrets tx nullifier messageId key author)
    (hrooted : s.Rooted tx.feedId) (hmembers : s.members tx.feedId = []) (window : Nat)
    (policy : RetryPolicy) (clock : Clock) (u : UnitOfWork) :
    ∃ u', Work.finish (assess verifier secrets window policy clock tx) u s =
      (.ok (.ok (vacuousStatements s window tx nullifier messageId key author)), u', s) := by
  obtain ⟨u', hroots⟩ :=
    Membership.finish_recentRoots_of_memberless policy clock (max window 1) u hmembers
  refine ⟨u', ?_⟩
  rw [finish_assess_of_roots hknown hroots, statements_of_memberless hrooted hmembers]

/-- Its verdict is drawn from the answers on those. -/
theorem finish_verdict_of_vacuous
    (hknown : Known verifier secrets tx nullifier messageId key author)
    (hrooted : s.Rooted tx.feedId) (hmembers : s.members tx.feedId = []) (window : Nat)
    (policy : RetryPolicy) (clock : Clock) (u : UnitOfWork) :
    ∃ u', Work.finish (verdict verifier secrets window policy clock tx) u s =
      (conclude tx.feedId (answers (verifier.examine tx.circuitVersion tx.proof)
        (vacuousStatements s window tx nullifier messageId key author)), u', s) := by
  obtain ⟨u', hroots⟩ :=
    Membership.finish_recentRoots_of_memberless policy clock (max window 1) u hmembers
  refine ⟨u', ?_⟩
  rw [finish_verdict_of_known hknown hroots, statements_of_memberless hrooted hmembers]

/-! ### A reaction that lacks nothing but a root -/

/-- A verifier that accepts every proof under every version. -/
def credulous : Verifier where
  current := ""
  supports _ := true
  isVulnerable _ := false
  examine _ _ _ := .ok .accept

/-- The secrets of one feed and of one message on it. -/
def soleSecrets : FeedSecrets :=
  (({} : FeedSecrets).setKey default .identity).setAuthor default default default

/-- A reaction to that message. -/
def soleReaction : Reaction :=
  ⟨default, default, default, .replicate emojiSlots .identity, .replicate emojiSlots .identity, [],
    "", [], ""⟩

/-- All that admission needs to know of the reaction is known. -/
theorem known_soleReaction : Known credulous soleSecrets soleReaction 0 0 .identity default :=
  ⟨rfl, rfl, rfl, rfl, rfl⟩

/-! ### Roots and members -/

/-- As long as nobody is registered for a feed, it has roots exactly if one was logged on its own,
and these are roots of the empty tree. They are what is answered to a question for the newest roots,
and all that a reaction's statements are about. So if none was logged, there are no roots and no
statements, and a reaction for which nothing else is missing is refused for want of a root. -/
theorem memberless_feed_has_logged_roots (requests : List Request) (feed : FeedId)
    (hmembers : (Store.serving requests).registered feed = []) :
    let s := Store.serving requests
    (s.history feed = [] ↔ ¬ RootLogged requests feed) ∧
    (∀ row ∈ s.history feed, row.rootField? = some (Merkle.root [])) ∧
    (∀ policy clock count, (Membership.recentRoots policy clock feed count).run.run s =
      (.ok ((s.history feed).take count), s)) ∧
    ∀ verifier secrets window policy clock tx nullifier messageId key author,
      Known verifier secrets tx nullifier messageId key author → tx.feedId = feed →
      (assess verifier secrets window policy clock tx).run.run s =
        (.ok (.ok (vacuousStatements s window tx nullifier messageId key author)), s) ∧
      (¬ RootLogged requests feed →
        vacuousStatements s window tx nullifier messageId key author = [] ∧
        (verdict verifier secrets window policy clock tx).run.run s =
          (.error (.noMembershipRoot feed), s)) := by
  intro s
  have hrooted : s.Rooted feed := .serving requests feed
  replace hmembers : s.members feed = [] := List.map_eq_nil_iff.1 hmembers
  refine ⟨Store.history_eq_nil_iff hmembers,
    fun row hrow => hrooted.rootField?_of_memberless hmembers hrow,
    fun policy clock count => ?_, ?_⟩
  · obtain ⟨u', hroots⟩ :=
      Membership.finish_recentRoots_of_memberless policy clock count default hmembers
    rw [Work.run_run, hroots]
  · rintro verifier secrets window policy clock tx nullifier messageId key author hknown rfl
    obtain ⟨_, hassess⟩ :=
      finish_assess_of_memberless hknown hrooted hmembers window policy clock default
    obtain ⟨_, hverdict⟩ :=
      finish_verdict_of_vacuous hknown hrooted hmembers window policy clock default
    refine ⟨by rw [Work.run_run, hassess], fun hlogged => ?_⟩
    have hhistory : s.history tx.feedId = [] := (Store.history_eq_nil_iff hmembers).2 hlogged
    have hstatements : vacuousStatements s window tx nullifier messageId key author = [] := by
      simp [vacuousStatements, hhistory]
    refine ⟨hstatements, ?_⟩
    rw [Work.run_run, hverdict, hstatements]
    rfl

/-- A feed that was only asked about has no root, so a reaction on it is refused although nothing
else is missing. -/
theorem question_roots_no_feed :
    let s := Store.serving [.recentRoots {} (fun _ => default) default 5]
    s.registered default = [] ∧ s.history default = [] ∧
      (verdict credulous soleSecrets 1 {} (fun _ => default) soleReaction).run.run s =
        (.error (.noMembershipRoot default), s) := by
  intro s
  have hregistered : s.registered default = [] := rfl
  have hhistory : s.history default = [] := rfl
  obtain ⟨hroots, -, -, hadmission⟩ := memberless_feed_has_logged_roots
    [.recentRoots {} (fun _ => default) default 5] default hregistered
  obtain ⟨-, hrefused⟩ := hadmission credulous soleSecrets 1 {} (fun _ => default) soleReaction 0 0
    .identity default known_soleReaction rfl
  exact ⟨hregistered, hhistory, (hrefused (hroots.1 hhistory)).2⟩

/-- Somebody who was never registered leaves a feed without members. From then on the feed has a
root, that of the empty tree. The verifier is asked about it, and a reaction is let in for it. -/
theorem departure_roots_memberless_feed :
    let clock : Clock := fun _ => default
    let departure : MembershipEvent :=
      { kind := .left, feedId := default, address := "omega1bob", keyGeneration := 0,
        blockHeight := 3 }
    let s := Store.serving [.membership {} clock departure]
    s.registered default = [] ∧
    (∃ row, (Membership.recentRoots {} clock default 5).run.run s = (.ok [row], s) ∧
      row.rootField? = some (Merkle.root [])) ∧
    (assess credulous soleSecrets 1 {} clock soleReaction).run.run s =
      (.ok (.ok [statement soleReaction 0 0 .identity default (Merkle.root [])]), s) ∧
    (verdict credulous soleSecrets 1 {} clock soleReaction).run.run s = (.ok .accept, s) := by
  intro clock departure s
  have hs : s = Store.empty.logRoot default 3 (clock 1) := by
    change ((Membership.handle {} clock departure).run.run .empty).2 = _
    rw [Work.run_run, Membership.handle]
    change (Work.finish (Membership.updateRoot {} clock default 3 >>= fun _ => pure ()) default
      .empty).2.2 = _
    rw [Work.finish_discard, Membership.finish_updateRoot_of_ok {} clock default 3 default rfl]
  have hmembers : s.members default = [] := by
    rw [hs]
    rfl
  have hhistory : s.history default = [Store.rootOf default [] 3 (clock 1)] := by
    rw [hs, Store.history_logRoot, if_pos rfl]
    rfl
  have hrooted : s.Rooted default := .serving _ default
  have hstatements : vacuousStatements s 1 soleReaction 0 0 .identity default =
      [statement soleReaction 0 0 .identity default (Merkle.root [])] := by
    simp [vacuousStatements, soleReaction, hhistory]
  refine ⟨?_, ⟨Store.rootOf default [] 3 (clock 1), ?_, Store.rootField?_rootOf [] 3 (clock 1)⟩,
    ?_, ?_⟩
  · rw [Store.registered, hmembers]
    rfl
  · obtain ⟨u', hroots⟩ :=
      Membership.finish_recentRoots_of_memberless {} clock 5 default hmembers
    rw [Work.run_run, hroots, hhistory]
    rfl
  · obtain ⟨u', hassess⟩ :=
      finish_assess_of_memberless known_soleReaction hrooted hmembers 1 {} clock default
    rw [Work.run_run, hassess, hstatements]
  · obtain ⟨u', hverdict⟩ :=
      finish_verdict_of_vacuous known_soleReaction hrooted hmembers 1 {} clock default
    rw [Work.run_run, hverdict, hstatements]
    rfl

end Admission

end Reactions
