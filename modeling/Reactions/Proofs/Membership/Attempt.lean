import Reactions.Membership.Events
import Reactions.Proofs.Store.Alone

/-!
# What the registry does to a store

The registry writes in two ways. `Store.enroll` makes a commitment the next leaf of a feed and logs
the root that the tree has then; `Store.logRoot` logs the root of the present leaves. An attempt to
register does the first, unless the commitment is a leaf already or the tree is full, and an attempt
to update the root does the second, both provided that the commit is not made to fail. What is left
of this when attempts are repeated is said by `finish_register_cases`, `finish_updateRoot_cases` and
`finish_recentRoots_cases`; questions about members leave the store as it is.
-/

namespace Reactions

namespace Store

/-! ## Leaves and roots -/

/-- The commitments that are registered for a feed, in the order of registration. -/
def registered (s : Store) (feed : FeedId) : List Commitment := (s.members feed).map (·.commitment)

/-- The leaves of a feed's tree. -/
def leaves (s : Store) (feed : FeedId) : List ScalarField := Membership.leavesOf (s.members feed)

/-- The entry of the root history that is due when a feed has some leaves. -/
def rootOf (feed : FeedId) (leaves : List ScalarField) (height : Nat) (now : Timestamp) :
    RootEntry :=
  ⟨feed, (Merkle.root leaves).toBytes, height, now⟩

/-- Commits the root of a feed's present leaves. -/
def logRoot (s : Store) (feed : FeedId) (height : Nat) (now : Timestamp) : Store :=
  s.write [.root (rootOf feed (s.leaves feed) height now)]

/-- Commits a new leaf of a feed together with the root that the tree has then. -/
def enroll (s : Store) (feed : FeedId) (commitment : Commitment) (height : Nat)
    (now : Timestamp) : Store :=
  s.write [.root (rootOf feed (s.leaves feed ++ [commitment.value]) height now),
    .commitment ⟨feed, commitment, now⟩]

variable (s : Store) (feed feed' : FeedId) (commitment : Commitment) (height : Nat)
  (now : Timestamp)

/-- The leaves of a feed are its commitments. -/
theorem leaves_eq : s.leaves feed = (s.registered feed).map Commitment.value := by
  simp [leaves, registered, Membership.leavesOf]

/-- There are as many commitments as rows. -/
theorem length_registered : (s.registered feed).length = (s.members feed).length := by
  simp [registered]

theorem length_leaves : (s.leaves feed).length = (s.members feed).length := by
  simp [leaves, Membership.leavesOf]

/-- Logging a root puts it before those of its feed. -/
@[simp] theorem history_logRoot : (s.logRoot feed height now).history feed' =
    if feed = feed' then rootOf feed (s.leaves feed) height now :: s.history feed'
    else s.history feed' := by
  change (rootOf feed (s.leaves feed) height now :: s.roots).filter _ = _
  by_cases h : feed = feed' <;> simp [rootOf, history, h]

/-- Enrolling a member puts it behind those of its feed. -/
@[simp] theorem members_enroll : (s.enroll feed commitment height now).members feed' =
    s.members feed' ++ if feed = feed' then [⟨feed, commitment, now⟩] else [] := by
  change ((⟨feed, commitment, now⟩ :: s.commitments).filter _).reverse = _
  by_cases h : feed = feed' <;> simp [members, h]

/-- It logs the root with the new leaf. -/
@[simp] theorem history_enroll : (s.enroll feed commitment height now).history feed' =
    if feed = feed' then
      rootOf feed (s.leaves feed ++ [commitment.value]) height now :: s.history feed'
    else s.history feed' := by
  change (rootOf feed (s.leaves feed ++ [commitment.value]) height now :: s.roots).filter _ = _
  by_cases h : feed = feed' <;> simp [rootOf, history, h]

variable {s feed commitment} {s' : Store}

/-- A quiet change leaves the members. -/
theorem Quiet.members (h : s.Quiet s') : s'.members = s.members := by
  obtain ⟨failures, id, rfl⟩ := h
  rfl

theorem Quiet.history (h : s.Quiet s') : s'.history = s.history := by
  obtain ⟨failures, id, rfl⟩ := h
  rfl

theorem Quiet.registered (h : s.Quiet s') : s'.registered = s.registered := by
  obtain ⟨failures, id, rfl⟩ := h
  rfl

end Store

namespace Membership

variable {s : Store} {u : UnitOfWork} {feed : FeedId} {commitment : Commitment} {height : Nat}
  {now : Timestamp}

/-! ## Reads -/

/-- A unit of work that has written nothing sees the members as the store has them. -/
theorem answer_commitments (hu : u.writes = []) :
    u.answer s (.commitments feed) = s.members feed := by
  simp [UnitOfWork.answer, UnitOfWork.pendingCommitments, hu]

/-- A unit without writes is told whether a commitment is registered. -/
theorem answer_contains (hu : u.writes = []) :
    u.answer s (.contains feed commitment) = decide (commitment ∈ s.registered feed) := by
  have hpending : u.pendingCommitments feed = [] := by simp [UnitOfWork.pendingCommitments, hu]
  rw [UnitOfWork.answer, hpending, List.any_nil, Bool.false_or, Store.any_members,
    Store.registered, Bool.eq_iff_iff]
  simp

/-- A unit without writes is told the newest roots. -/
theorem answer_recentRoots (hu : u.writes = []) (count : Nat) :
    u.answer s (.recentRoots feed count) = (s.history feed).take count := by
  simp [UnitOfWork.answer, UnitOfWork.pendingRoots, hu]

/-! ## One attempt -/

/-- A commitment that is a leaf already is not registered again. -/
theorem finish_tryRegister_of_mem (h : commitment ∈ s.registered feed) :
    ∃ u', Work.finish (tryRegister feed commitment height now) u s =
      (.ok .alreadyRegistered, u', s) := by
  refine ⟨((UnitOfWork.opened .serializable).read s (.contains feed commitment)).2, ?_⟩
  rw [tryRegister, Work.finish_bind_ok _ (Work.finish_begin _),
    Work.finish_bind_ok _ (Work.finish_read _), answer_contains rfl, if_pos (decide_eq_true h)]
  exact Work.finish_pure _

/-- What an attempt does once the members of the feed are known. -/
def extend (feed : FeedId) (commitment : Commitment) (height : Nat) (now : Timestamp)
    (leaves : List ScalarField) : Work MembershipError Registration := do
  if Merkle.treeCapacity ≤ leaves.length then throw (.treeFull feed)
  let root := Merkle.root (leaves ++ [commitment.value])
  Work.save (.commitment ⟨feed, commitment, now⟩)
  Work.save (.root ⟨feed, root.toBytes, height, now⟩)
  Work.commit
  return .registered root leaves.length

/-- An attempt on a new commitment comes to the part that extends the tree. -/
theorem finish_tryRegister_of_not_mem (h : commitment ∉ s.registered feed) :
    ∃ u' : UnitOfWork, u'.Reading s ∧
      Work.finish (tryRegister feed commitment height now) u s =
        Work.finish (extend feed commitment height now (s.leaves feed)) u' s := by
  have hread := (UnitOfWork.Reading.opened s).read (.contains feed commitment)
  refine ⟨_, hread.read (.commitments feed), ?_⟩
  rw [tryRegister, Work.finish_bind_ok _ (Work.finish_begin _),
    Work.finish_bind_ok _ (Work.finish_read _), answer_contains rfl,
    if_neg (by simpa using h), Work.finish_bind_ok _ (Work.finish_read _),
    answer_commitments hread.writes]
  rfl

/-- A full tree takes no more leaves. -/
theorem finish_tryRegister_of_full (height : Nat) (now : Timestamp) (u : UnitOfWork)
    (h : commitment ∉ s.registered feed)
    (hfull : Merkle.treeCapacity ≤ (s.leaves feed).length) :
    ∃ u', Work.finish (tryRegister feed commitment height now) u s =
      (.error (.treeFull feed), u', s) := by
  obtain ⟨u', -, hfinish⟩ := finish_tryRegister_of_not_mem h
  refine ⟨u', ?_⟩
  rw [hfinish, extend, if_pos hfull]
  exact Work.finish_bind_error _ (Work.finish_throw _)

/-- If the commit is made to fail, then nothing is registered. -/
theorem finish_tryRegister_of_failure (h : commitment ∉ s.registered feed)
    (hroom : (s.leaves feed).length < Merkle.treeCapacity) {e : StoreError}
    {rest : List StoreError} (hfailures : s.failures = e :: rest) :
    Work.finish (tryRegister feed commitment height now) u s =
      (.error (.store e), default, { s with failures := rest }) := by
  obtain ⟨u', hu', hfinish⟩ := finish_tryRegister_of_not_mem h
  have hisolation :
      { u' with writes := .commitment ⟨feed, commitment, now⟩ :: u'.writes }.isolation =
        .serializable := hu'.isolation
  rw [hfinish, extend, if_neg (Nat.not_le.2 hroom),
    Work.finish_bind_ok _ (Work.finish_save _ hu'.isolation),
    Work.finish_bind_ok _ (Work.finish_save _ hisolation)]
  exact Work.finish_bind_error _ (Work.finish_commit_of_reading_of_failure hu' hfailures _)

/-- Otherwise the commitment is the next leaf. -/
theorem finish_tryRegister_of_ok (h : commitment ∉ s.registered feed)
    (hroom : (s.leaves feed).length < Merkle.treeCapacity) (hfailures : s.failures = []) :
    Work.finish (tryRegister feed commitment height now) u s =
      (.ok (.registered (Merkle.root (s.leaves feed ++ [commitment.value])) (s.leaves feed).length),
        default, s.enroll feed commitment height now) := by
  obtain ⟨u', hu', hfinish⟩ := finish_tryRegister_of_not_mem h
  have hisolation :
      { u' with writes := .commitment ⟨feed, commitment, now⟩ :: u'.writes }.isolation =
        .serializable := hu'.isolation
  rw [hfinish, extend, if_neg (Nat.not_le.2 hroom),
    Work.finish_bind_ok _ (Work.finish_save _ hu'.isolation),
    Work.finish_bind_ok _ (Work.finish_save _ hisolation), hu'.writes,
    Work.finish_bind_ok _ (Work.finish_commit_of_reading hu' hfailures _)]
  exact Work.finish_pure _

/-- An attempt to register fails and changes no row, finds the commitment among the leaves, or makes
it the next one. -/
theorem finish_tryRegister_cases (feed : FeedId) (commitment : Commitment) (height : Nat)
    (now : Timestamp) (u : UnitOfWork) (s : Store) :
    (∃ e u' s', Work.finish (tryRegister feed commitment height now) u s = (.error e, u', s') ∧
      s.Quiet s') ∨
    (commitment ∈ s.registered feed ∧
      ∃ u', Work.finish (tryRegister feed commitment height now) u s =
        (.ok .alreadyRegistered, u', s)) ∨
    commitment ∉ s.registered feed ∧ (s.leaves feed).length < Merkle.treeCapacity ∧
      Work.finish (tryRegister feed commitment height now) u s =
        (.ok (.registered (Merkle.root (s.leaves feed ++ [commitment.value]))
          (s.leaves feed).length), default, s.enroll feed commitment height now) := by
  by_cases h : commitment ∈ s.registered feed
  · exact .inr (.inl ⟨h, finish_tryRegister_of_mem h⟩)
  · rcases Nat.lt_or_ge (s.leaves feed).length Merkle.treeCapacity with hroom | hfull
    · cases hfailures : s.failures with
      | nil => exact .inr (.inr ⟨h, hroom, finish_tryRegister_of_ok h hroom hfailures⟩)
      | cons e rest =>
        exact .inl ⟨_, _, _, finish_tryRegister_of_failure h hroom hfailures, rest,
          s.lastTransactionId, rfl⟩
    · obtain ⟨u', hfinish⟩ := finish_tryRegister_of_full height now u h hfull
      exact .inl ⟨_, u', s, hfinish, .refl s⟩

/-- Unless the commit is made to fail, an update logs the root of the leaves. -/
theorem finish_tryUpdateRoot_of_ok (hfailures : s.failures = []) :
    Work.finish (tryUpdateRoot feed height now) u s =
      (.ok (Merkle.root (s.leaves feed)), default, s.logRoot feed height now) := by
  have hread := (UnitOfWork.Reading.opened s).read (.commitments feed)
  rw [tryUpdateRoot, Work.finish_bind_ok _ (Work.finish_begin _),
    Work.finish_bind_ok _ (Work.finish_read _), answer_commitments rfl,
    Work.finish_bind_ok _ (Work.finish_save _ hread.isolation), hread.writes,
    Work.finish_bind_ok _ (Work.finish_commit_of_reading hread hfailures _)]
  exact Work.finish_pure _

/-- An attempt to update the root fails and changes no row, or logs the root of the leaves. -/
theorem finish_tryUpdateRoot_cases (feed : FeedId) (height : Nat) (now : Timestamp)
    (u : UnitOfWork) (s : Store) :
    (∃ e u' s', Work.finish (tryUpdateRoot feed height now) u s = (.error e, u', s') ∧
      s.Quiet s') ∨
    Work.finish (tryUpdateRoot feed height now) u s =
      (.ok (Merkle.root (s.leaves feed)), default, s.logRoot feed height now) := by
  cases hfailures : s.failures with
  | nil => exact .inr (finish_tryUpdateRoot_of_ok hfailures)
  | cons e rest =>
    have hread := (UnitOfWork.Reading.opened s).read (.commitments feed)
    refine .inl ⟨.store e, default, { s with failures := rest }, ?_, rest, s.lastTransactionId, rfl⟩
    rw [tryUpdateRoot, Work.finish_bind_ok _ (Work.finish_begin _),
      Work.finish_bind_ok _ (Work.finish_read _), answer_commitments rfl,
      Work.finish_bind_ok _ (Work.finish_save _ hread.isolation), hread.writes]
    exact Work.finish_bind_error _ (Work.finish_commit_of_reading_of_failure hread hfailures _)

/-! ## All attempts -/

/-- A registration fails and changes no row, finds the commitment among the leaves, or makes it the
next one. -/
theorem finish_register_cases (policy : RetryPolicy) (clock : Clock) (feed : FeedId)
    (commitment : Commitment) (height : Nat) (u : UnitOfWork) (s : Store) :
    ∃ outcome u' s', Work.finish (register policy clock feed commitment height) u s =
        (outcome, u', s') ∧
      ((s.Quiet s' ∧ ((∃ e, outcome = .error e) ∨
        commitment ∈ s.registered feed ∧ outcome = .ok .alreadyRegistered)) ∨
      ∃ attempt t, s.Quiet t ∧ commitment ∉ s.registered feed ∧
        (s.leaves feed).length < Merkle.treeCapacity ∧
        outcome = .ok (.registered (Merkle.root (s.leaves feed ++ [commitment.value]))
          (s.leaves feed).length) ∧
        s' = t.enroll feed commitment height (clock attempt)) := by
  have herror : ∀ attempt u s e u' s',
      Work.finish (tryRegister feed commitment height (clock attempt)) u s = (.error e, u', s') →
        s.Quiet s' := by
    intro attempt u s e u' s' h
    rcases finish_tryRegister_cases feed commitment height (clock attempt) u s with
      ⟨_, _, _, hfinish, hquiet⟩ | ⟨-, _, hfinish⟩ | ⟨-, -, hfinish⟩
    · cases hfinish.symm.trans h
      exact hquiet
    · cases hfinish.symm.trans h
    · cases hfinish.symm.trans h
  rw [register, Work.finish_adapt]
  rcases Work.finish_retried_cases policy _ .refl (fun _ _ _ => .trans) herror u s with
    ⟨failed, u', s', hfinish, hquiet⟩ | ⟨attempt, outcome, u₁, s₁, u', s', hfinish, hquiet, hok⟩
  · rw [hfinish]
    exact ⟨_, u', s', rfl, .inl ⟨hquiet, .inl ⟨_, rfl⟩⟩⟩
  · rw [hfinish]
    refine ⟨.ok outcome, u', s', rfl, ?_⟩
    have hregistered := hquiet.registered
    rcases finish_tryRegister_cases feed commitment height (clock attempt) u₁ s₁ with
      ⟨_, _, _, herror, -⟩ | ⟨hmem, _, htry⟩ | ⟨hmem, hroom, htry⟩
    · cases herror.symm.trans hok
    · cases htry.symm.trans hok
      exact .inl ⟨hquiet, .inr ⟨hregistered ▸ hmem, rfl⟩⟩
    · cases htry.symm.trans hok
      rw [Store.leaves, hquiet.members] at hroom ⊢
      exact .inr ⟨attempt, s₁, hquiet, hregistered ▸ hmem, hroom, rfl, rfl⟩

/-- An update of the root fails and changes no row, or logs the root of the leaves. -/
theorem finish_updateRoot_cases (policy : RetryPolicy) (clock : Clock) (feed : FeedId)
    (height : Nat) (u : UnitOfWork) (s : Store) :
    ∃ outcome u' s', Work.finish (updateRoot policy clock feed height) u s = (outcome, u', s') ∧
      ((s.Quiet s' ∧ ∃ e, outcome = .error e) ∨
      ∃ attempt t, s.Quiet t ∧ outcome = .ok (Merkle.root (s.leaves feed)) ∧
        s' = t.logRoot feed height (clock attempt)) := by
  have herror : ∀ attempt u s e u' s',
      Work.finish (tryUpdateRoot feed height (clock attempt)) u s = (.error e, u', s') →
        s.Quiet s' := by
    intro attempt u s e u' s' h
    rcases finish_tryUpdateRoot_cases feed height (clock attempt) u s with
      ⟨_, _, _, hfinish, hquiet⟩ | hfinish
    · cases hfinish.symm.trans h
      exact hquiet
    · cases hfinish.symm.trans h
  rw [updateRoot, Work.finish_adapt]
  rcases Work.finish_retried_cases policy _ .refl (fun _ _ _ => .trans) herror u s with
    ⟨failed, u', s', hfinish, hquiet⟩ | ⟨attempt, outcome, u₁, s₁, u', s', hfinish, hquiet, hok⟩
  · rw [hfinish]
    exact ⟨_, u', s', rfl, .inl ⟨hquiet, _, rfl⟩⟩
  · rw [hfinish]
    refine ⟨.ok outcome, u', s', rfl, ?_⟩
    rcases finish_tryUpdateRoot_cases feed height (clock attempt) u₁ s₁ with
      ⟨_, _, _, herror, -⟩ | htry
    · cases herror.symm.trans hok
    · have heq := htry.symm.trans hok
      obtain rfl : Merkle.root (s₁.leaves feed) = outcome := Except.ok.inj (congrArg Prod.fst heq)
      obtain rfl : s₁.logRoot feed height (clock attempt) = s' := congrArg (·.2.2) heq
      rw [Store.leaves, hquiet.members]
      exact .inr ⟨attempt, s₁, hquiet, rfl, rfl⟩

/-- If no commit is made to fail, the first attempt to update the root logs it. -/
theorem finish_updateRoot_of_ok (policy : RetryPolicy) (clock : Clock) (feed : FeedId)
    (height : Nat) (u : UnitOfWork) (hfailures : s.failures = []) :
    Work.finish (updateRoot policy clock feed height) u s =
      (.ok (Merkle.root (s.leaves feed)), default, s.logRoot feed height (clock 1)) := by
  rw [updateRoot, Work.finish_adapt,
    Work.finish_retried_of_ok policy _ (finish_tryUpdateRoot_of_ok hfailures)]
  rfl

/-! ## Questions -/

/-- The newest roots of a feed are read off its history. Only if there is none to be read although
the feed has leaves is a root logged first. -/
theorem finish_recentRoots (policy : RetryPolicy) (clock : Clock) (feed : FeedId) (count : Nat)
    (u : UnitOfWork) (s : Store) :
    ∃ u', Work.finish (recentRoots policy clock feed count) u s =
      if (s.history feed).take count = [] ∧ s.members feed ≠ [] then
        Work.finish (do
          let _ ← updateRoot policy clock feed 0
          Work.begin .readOnly
          Work.read (.recentRoots feed count)) u' s
      else (.ok ((s.history feed).take count), u', s) := by
  have hwrites : ((UnitOfWork.opened .readOnly).read s (.recentRoots feed count)).2.writes = [] :=
    UnitOfWork.writes_touch s _ _
  rw [recentRoots, Work.finish_bind_ok _ (Work.finish_begin _),
    Work.finish_bind_ok _ (Work.finish_read _), answer_recentRoots rfl]
  generalize ((UnitOfWork.opened .readOnly).read s (.recentRoots feed count)).2 = u₁ at hwrites ⊢
  cases hrows : (s.history feed).take count with
  | cons row rest => exact ⟨u₁, by simp [Work.finish_pure]⟩
  | nil =>
    refine ⟨(u₁.read s (.commitments feed)).2, ?_⟩
    simp only [List.isEmpty_nil, Bool.not_true, Bool.false_eq_true, if_false]
    rw [Work.finish_bind_ok _ (Work.finish_read _), answer_commitments hwrites]
    by_cases hmembers : s.members feed = []
    · simp [hmembers, Work.finish_pure]
    · simp [hmembers]

/-- The newest roots, if there is one to be read or no leaf that asks for it. -/
theorem finish_recentRoots_of_history (policy : RetryPolicy) (clock : Clock) {count : Nat}
    (h : (s.history feed).take count = [] → s.members feed = []) (u : UnitOfWork) :
    ∃ u', Work.finish (recentRoots policy clock feed count) u s =
      (.ok ((s.history feed).take count), u', s) := by
  obtain ⟨u', hfinish⟩ := finish_recentRoots policy clock feed count u s
  exact ⟨u', by rw [hfinish, if_neg fun hrows => hrows.2 (h hrows.1)]⟩

/-- A question for the newest roots leaves all rows as they are, or logs the root of the leaves. -/
theorem finish_recentRoots_cases (policy : RetryPolicy) (clock : Clock) (feed : FeedId)
    (count : Nat) (u : UnitOfWork) (s : Store) :
    ∃ outcome u' s', Work.finish (recentRoots policy clock feed count) u s = (outcome, u', s') ∧
      (s.Quiet s' ∨ ∃ attempt t, s.Quiet t ∧ s' = t.logRoot feed 0 (clock attempt)) := by
  obtain ⟨u₁, hfinish⟩ := finish_recentRoots policy clock feed count u s
  rw [hfinish]
  split
  · obtain ⟨outcome, u', s', hupdate, hcases⟩ := finish_updateRoot_cases policy clock feed 0 u₁ s
    cases outcome with
    | error e =>
      refine ⟨_, u', s', Work.finish_bind_error _ hupdate, .inl ?_⟩
      rcases hcases with ⟨hquiet, -⟩ | ⟨-, -, -, houtcome, -⟩
      · exact hquiet
      · cases houtcome
    | ok root =>
      refine ⟨_, _, s', (Work.finish_bind_ok _ hupdate).trans
        ((Work.finish_bind_ok _ (Work.finish_begin _)).trans (Work.finish_read _)), .inr ?_⟩
      rcases hcases with ⟨-, e, houtcome⟩ | ⟨attempt, t, hquiet, -, hstore⟩
      · cases houtcome
      · exact ⟨attempt, t, hquiet, hstore⟩
  · exact ⟨_, u₁, s, rfl, .inl (.refl s)⟩

/-- Whether a commitment is registered is told as the store has it. -/
theorem finish_isRegistered (feed : FeedId) (commitment : Commitment) (u : UnitOfWork) (s : Store) :
    ∃ u', Work.finish (isRegistered feed commitment) u s =
      (.ok (decide (commitment ∈ s.registered feed)), u', s) := by
  refine ⟨((UnitOfWork.opened .readOnly).read s (.contains feed commitment)).2, ?_⟩
  rw [isRegistered, Work.finish_bind_ok _ (Work.finish_begin _), Work.finish_read,
    answer_contains rfl]

/-- The witness of a commitment, as a store that does not change has it. -/
def witness? (s : Store) (feed : FeedId) (commitment : Commitment) : Option MembershipProof := do
  let index ← (s.members feed).findIdx? (·.commitment = commitment)
  let path ← Merkle.Path.ofLeaves? (s.leaves feed) index
  return {
    root := Merkle.root (s.leaves feed)
    leafIndex := index
    path
    depth := Merkle.treeDepth
    blockHeight := ((s.history feed).head?.map (·.blockHeight)).getD 0 }

/-- A membership proof is put together from what the store has. -/
theorem finish_proof? (feed : FeedId) (commitment : Commitment) (u : UnitOfWork) (s : Store) :
    ∃ u', Work.finish (proof? feed commitment) u s = (.ok (witness? s feed commitment), u', s) := by
  have hwrites : ((UnitOfWork.opened .readOnly).read s (.contains feed commitment)).2.writes = [] :=
    UnitOfWork.writes_touch s _ _
  rw [proof?, Work.finish_bind_ok _ (Work.finish_begin _),
    Work.finish_bind_ok _ (Work.finish_read _), answer_contains rfl]
  generalize ((UnitOfWork.opened .readOnly).read s (.contains feed commitment)).2 = u₁ at hwrites ⊢
  by_cases hmem : commitment ∈ s.registered feed
  · have hwrites' : (u₁.read s (.commitments feed)).2.writes = [] :=
      (UnitOfWork.writes_touch s u₁ _).trans hwrites
    rw [if_neg (by simpa using hmem), Work.finish_bind_ok _ (Work.finish_read _),
      answer_commitments hwrites]
    generalize (u₁.read s (.commitments feed)).2 = u₂ at hwrites' ⊢
    rw [witness?, Store.leaves]
    cases (s.members feed).findIdx? (·.commitment = commitment) with
    | none => exact ⟨u₂, Work.finish_pure _⟩
    | some index =>
      simp only [Option.bind_eq_bind, Option.bind_some]
      cases Merkle.Path.ofLeaves? (leavesOf (s.members feed)) index with
      | none => exact ⟨u₂, Work.finish_pure _⟩
      | some path =>
        refine ⟨(u₂.read s (.recentRoots feed 1)).2, ?_⟩
        rw [Work.finish_bind_ok _ (Work.finish_read _), answer_recentRoots hwrites',
          List.head?_take, if_neg Nat.one_ne_zero]
        rfl
  · have hindex : (s.members feed).findIdx? (·.commitment = commitment) = none := by
      simpa [Store.registered] using hmem
    rw [if_pos (by simpa using hmem), witness?, hindex]
    exact ⟨u₁, Work.finish_pure _⟩

end Membership

end Reactions
