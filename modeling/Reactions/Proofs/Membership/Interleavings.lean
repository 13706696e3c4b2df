import Reactions.Proofs.Membership.RootHistory
import Reactions.Proofs.Merkle.SmallTrees
import Reactions.Proofs.Store.PastReads
import Reactions.Proofs.Store.Transactions

/-!
# Operations on the registry among others

Any number of clients use the registry of one store, each by an operation of its own, and their
calls come in any order. What they commit are registrations and updates of the root (`Transaction`),
each as if it were alone, so the leaves and the roots of every feed fit together at any time
(`Operation.rooted_after`) and only grow (`Operation.grownInto_after`).

A witness is put together from reads that nothing holds together: the leaves are those of one time
and the height is that of the newest root at a later one. `witness_has_logged_root` says what this
comes to. Both belong to a root in the history, the height to a root that is no older; and the two
roots are one if no leaf was added in between.
-/

namespace Reactions

namespace Membership

/-- A call of the registry. -/
inductive Operation
  | register (policy : RetryPolicy) (clock : Clock) (feed : FeedId) (commitment : Commitment)
    (height : Nat)
  | updateRoot (policy : RetryPolicy) (clock : Clock) (feed : FeedId) (height : Nat)
  | recentRoots (policy : RetryPolicy) (clock : Clock) (feed : FeedId) (count : Nat)
  | isRegistered (feed : FeedId) (commitment : Commitment)
  | proof (feed : FeedId) (commitment : Commitment)

/-- What a call of the registry answers. -/
inductive Reply
  | registration (outcome : Registration)
  | root (root : ScalarField)
  | roots (rows : List RootEntry)
  | known (answer : Bool)
  | proof (proof : Option MembershipProof)

/-- The work of a call. -/
def Operation.work : Operation → Work MembershipError Reply
  | .register policy clock feed commitment height => do
    return .registration (← Membership.register policy clock feed commitment height)
  | .updateRoot policy clock feed height => do
    return .root (← Membership.updateRoot policy clock feed height)
  | .recentRoots policy clock feed count => do
    return .roots (← Membership.recentRoots policy clock feed count)
  | .isRegistered feed commitment => do return .known (← Membership.isRegistered feed commitment)
  | .proof feed commitment => do return .proof (← Membership.proof? feed commitment)

/-! ## What is committed -/

/-- The transcript of a unit of work that adds a leaf, or of one that only logs a root. -/
inductive Transaction : List Made → Prop
  | registration (feed : FeedId) (commitment : Commitment) (height : Nat) (now : Timestamp)
    (rows : List MemberCommitment) (hroom : (leavesOf rows).length < Merkle.treeCapacity) :
    Transaction [
      ⟨.save (.root (Store.rootOf feed (leavesOf rows ++ [commitment.value]) height now)), .ok ()⟩,
      ⟨.save (.commitment ⟨feed, commitment, now⟩), .ok ()⟩,
      ⟨.read (.commitments feed), rows⟩,
      ⟨.read (.contains feed commitment), false⟩]
  | update (feed : FeedId) (height : Nat) (now : Timestamp) (rows : List MemberCommitment) :
    Transaction [
      ⟨.save (.root (Store.rootOf feed (leavesOf rows) height now)), .ok ()⟩,
      ⟨.read (.commitments feed), rows⟩]

/-- What such a unit of work does if the store answers it so. -/
theorem Transaction.publish {s : Store} {made : List Made} (h : Transaction made)
    (hanswered : AnsweredBy s made) :
    (∃ feed commitment height now, commitment ∉ s.registered feed ∧
      (s.leaves feed).length < Merkle.treeCapacity ∧
      s.publish (.ofMade made) = s.enroll feed commitment height now) ∨
    ∃ feed height now, s.publish (.ofMade made) = s.logRoot feed height now := by
  cases h with
  | registration feed commitment height now rows hroom =>
    obtain ⟨-, -, hrows, hcontains, -⟩ := hanswered
    have hmembers : rows = s.members feed := (hrows trivial).trans (answer_commitments rfl)
    have hfresh : false = decide (commitment ∈ s.registered feed) :=
      (hcontains trivial).trans (answer_contains rfl)
    subst hmembers
    exact .inl ⟨feed, commitment, height, now, of_decide_eq_false hfresh.symm, hroom, rfl⟩
  | update feed height now rows =>
    obtain ⟨-, hrows, -⟩ := hanswered
    have hmembers : rows = s.members feed := (hrows trivial).trans (answer_commitments rfl)
    subst hmembers
    exact .inr ⟨feed, height, now, rfl⟩

/-! ## What the operations commit -/

section Commits

variable (policy : RetryPolicy) (clock : Clock) (feed : FeedId) (commitment : Commitment)
  (height : Nat) (made : List Made)

/-- Registering a member commits what a transaction of the registry may. -/
theorem commits_register : (register policy clock feed commitment height).Commits Transaction
    (fun _ _ => True) made := by
  refine Work.commits_adapt _ (Work.commits_retried policy fun attempt made => ?_)
  rw [tryRegister]
  refine Work.commits_bind (Work.commits_begin ?_)
  refine Work.commits_bind (Work.commits_read fun known => ?_)
  cases known with
  | true => exact Work.commits_pure trivial
  | false =>
    refine Work.commits_bind (Work.commits_read fun rows => ?_)
    by_cases hfull : Merkle.treeCapacity ≤ (leavesOf rows).length
    · rw [if_pos hfull]
      exact Work.commits_bind (Work.commits_throw _)
    · rw [if_neg hfull]
      refine Work.commits_bind (Work.commits_save ?_)
      refine Work.commits_bind (Work.commits_save ?_)
      have hlawful := Transaction.registration feed commitment height (clock attempt) rows
        (Nat.not_le.1 hfull)
      exact Work.commits_bind (Work.commits_commit hlawful (Work.commits_pure trivial))

/-- Logging the root of a feed again commits what a transaction of the registry may. -/
theorem commits_updateRoot : (updateRoot policy clock feed height).Commits Transaction
    (fun _ _ => True) made := by
  refine Work.commits_adapt _ (Work.commits_retried policy fun attempt made => ?_)
  rw [tryUpdateRoot]
  refine Work.commits_bind (Work.commits_begin ?_)
  refine Work.commits_bind (Work.commits_read fun rows => ?_)
  refine Work.commits_bind (Work.commits_save ?_)
  have hlawful := Transaction.update feed height (clock attempt) rows
  exact Work.commits_bind (Work.commits_commit hlawful (Work.commits_pure trivial))

/-- Asking for the newest roots commits what a transaction of the registry may. -/
theorem commits_recentRoots (count : Nat) :
    (recentRoots policy clock feed count).Commits Transaction (fun _ _ => True) made := by
  rw [recentRoots]
  refine Work.commits_bind (Work.commits_begin ?_)
  refine Work.commits_bind (Work.commits_read fun rows => ?_)
  split
  · exact Work.commits_pure trivial
  · refine Work.commits_bind (Work.commits_read fun members => ?_)
    split
    · exact Work.commits_pure trivial
    · refine Work.commits_bind (Program.Commits.mono (commits_updateRoot policy clock feed 0 _)
        fun outcome made _ => ?_)
      rintro root -
      exact Work.commits_bind (Work.commits_begin (Work.commits_read fun _ => trivial))

/-- Asking whether a commitment is registered commits nothing. -/
theorem commits_isRegistered :
    (isRegistered feed commitment).Commits Transaction (fun _ _ => True) made := by
  rw [isRegistered]
  exact Work.commits_bind (Work.commits_begin (Work.commits_read fun _ => trivial))

/-- The transcript of a question for a witness that goes through to the end. -/
def questions (feed : FeedId) (commitment : Commitment) (rows : List MemberCommitment)
    (newest : List RootEntry) : List Made := [
  ⟨.read (.recentRoots feed 1), newest⟩,
  ⟨.read (.commitments feed), rows⟩,
  ⟨.read (.contains feed commitment), true⟩]

/-- A witness is the one that is read off some members and a newest root. -/
structure ReadOff (commitment : Commitment) (rows : List MemberCommitment)
    (newest : List RootEntry) (proof : MembershipProof) : Prop where
  leafIndex : rows.findIdx? (·.commitment = commitment) = some proof.leafIndex
  path : Merkle.Path.ofLeaves? (leavesOf rows) proof.leafIndex = some proof.path
  root : proof.root = Merkle.root (leavesOf rows)
  depth : proof.depth = Merkle.treeDepth
  blockHeight : proof.blockHeight = (newest.head?.map (·.blockHeight)).getD 0

/-- A witness is read off the answers to all three questions. -/
theorem commits_proof? : (proof? feed commitment).Commits Transaction
    (fun result made => ∀ proof, result = some proof → ∃ rows newest,
      made = questions feed commitment rows newest ∧ ReadOff commitment rows newest proof)
    made := by
  rw [proof?]
  refine Work.commits_bind (Work.commits_begin ?_)
  refine Work.commits_bind (Work.commits_read fun known => ?_)
  cases known with
  | false => exact Work.commits_pure (by simp)
  | true =>
    refine Work.commits_bind (Work.commits_read fun rows => ?_)
    cases hindex : rows.findIdx? (·.commitment = commitment) with
    | none => exact Work.commits_pure (by simp)
    | some index =>
      cases hpath : Merkle.Path.ofLeaves? (leavesOf rows) index with
      | none =>
        simp only [hpath]
        exact Work.commits_pure (by simp)
      | some path =>
        simp only [hpath]
        refine Work.commits_bind (Work.commits_read fun newest => Work.commits_pure ?_)
        intro proof hproof
        rw [← Option.some.inj hproof]
        refine ⟨rows, newest, rfl, hindex, hpath, ?_, rfl, ?_⟩
        -- both sides are spelled alike, and neither is a root that one would want to compute
        · with_reducible rfl
        · with_reducible rfl

end Commits

/-! ## Witnesses and the root history -/

/-- A witness and the root history. `row` was the newest entry when the leaves were read, and `row'`
is the one whose height the witness has. -/
structure Dated (s s' s'' : Store) (feed : FeedId) (commitment : Commitment)
    (proof : MembershipProof) (row row' : RootEntry) : Prop where
  leaf : (s.registered feed)[proof.leafIndex]? = some commitment
  newest : (s.history feed).head? = some row
  root : row.rootField? = some proof.root
  newest' : (s'.history feed).head? = some row'
  blockHeight : row'.blockHeight = proof.blockHeight
  /-- The second entry is the first one or newer, and neither is ever lost. -/
  older : s.history feed <:+ s'.history feed
  kept : s'.history feed <:+ s''.history feed
  /-- If there was no new leaf, then the second entry has the root as well. -/
  coherent : s'.leaves feed = s.leaves feed → row'.rootField? = some proof.root

/-- A witness that is read off the members of one store and the history of a later one. -/
theorem ReadOff.dated {s s' s'' : Store} {feed : FeedId} {commitment : Commitment}
    {proof : MembershipProof}
    (h : ReadOff commitment (s.members feed) ((s'.history feed).take 1) proof)
    (hrooted : s.Rooted feed) (hrooted' : s'.Rooted feed) (hgrown : s.GrownInto s' feed)
    (hgrown' : s'.GrownInto s'' feed) :
    ∃ row row', Dated s s' s'' feed commitment proof row row' := by
  obtain ⟨hindex, hat, -⟩ := List.findIdx?_eq_some_iff_getElem.1 h.leafIndex
  have hleaves : s.leaves feed ≠ [] := by
    intro hnil
    have hlength := Store.length_leaves s feed
    rw [hnil, List.length_nil] at hlength
    omega
  have hhistory := hrooted.history_ne_nil hleaves
  have hhistory' : s'.history feed ≠ [] := fun hnil =>
    hhistory (List.suffix_nil.1 (hnil ▸ hgrown.history))
  obtain ⟨row, hnewest, hroot⟩ := hrooted.exists_newest hhistory
  obtain ⟨row', hnewest', hroot'⟩ := hrooted'.exists_newest hhistory'
  refine ⟨row, row', {
    leaf := ?leaf
    newest := hnewest
    root := ?root
    newest' := hnewest'
    blockHeight := ?blockHeight
    older := hgrown.history
    kept := hgrown'.history
    coherent := ?coherent }⟩
  case leaf =>
    rw [Store.registered, List.getElem?_map, List.getElem?_eq_getElem hindex, Option.map_some,
      of_decide_eq_true hat]
  case root => rw [hroot, h.root, Store.leaves]
  case blockHeight =>
    rw [h.blockHeight, List.head?_take, if_neg Nat.one_ne_zero, hnewest']
    rfl
  case coherent =>
    intro hsame
    rw [hroot', hsame, h.root, Store.leaves]

namespace Operation

/-- What an operation may end with: a witness has to be read off the calls that were made. -/
def Post : Operation → Except MembershipError Reply → List Made → Prop
  | .proof feed commitment, outcome, made => ∀ proof, outcome = .ok (.proof (some proof)) →
    ∃ rows newest, made = questions feed commitment rows newest ∧
      ReadOff commitment rows newest proof
  | _, _, _ => True

/-- Work that commits lawfully does so whatever is made of its result. -/
theorem commits_reply {α : Type} {w : Work MembershipError α} {reply : α → Reply}
    {made : List Made} (h : w.Commits Transaction (fun _ _ => True) made) :
    (do return reply (← w) : Work MembershipError Reply).run.Commits Transaction
      (fun _ _ => True) made :=
  have hbind : (do return reply (← w) : Work MembershipError Reply).Commits Transaction
      (fun _ _ => True) made :=
    Work.commits_bind (Program.Commits.mono h fun _ _ _ _ _ => Work.commits_pure trivial)
  Program.Commits.mono hbind fun _ _ _ => trivial

/-- Whatever is asked of the registry commits only such transactions, and comes to a fitting result.
-/
theorem commits (op : Operation) : op.work.run.Commits Transaction op.Post [] := by
  cases op with
  | register policy clock feed commitment height =>
    exact commits_reply (commits_register policy clock feed commitment height [])
  | updateRoot policy clock feed height =>
    exact commits_reply (commits_updateRoot policy clock feed height [])
  | recentRoots policy clock feed count =>
    exact commits_reply (commits_recentRoots policy clock feed [] count)
  | isRegistered feed commitment => exact commits_reply (commits_isRegistered feed commitment [])
  | proof feed commitment =>
    have hbind : (Operation.proof feed commitment).work.Commits Transaction
        (fun reply made => (Operation.proof feed commitment).Post (.ok reply) made) [] := by
      refine Work.commits_bind (Program.Commits.mono (commits_proof? feed commitment []) ?_)
      intro outcome made hread result houtcome
      refine Work.commits_pure ?_
      intro proof hproof
      cases hproof
      exact hread _ houtcome proof rfl
    refine Program.Commits.mono hbind fun outcome made h => ?_
    intro proof hproof
    exact h _ hproof proof rfl

/-! ## Any order of calls -/

variable (ops : Nat → Operation)

/-- The system after a schedule of calls, if every client makes one operation. -/
def after (turns : List Turn) : System (Except MembershipError Reply) :=
  System.after (fun i => (ops i).work.run) turns

/-- What registrations and updates of the root preserve, others being quiet, holds from some time on
if it holds then. -/
theorem after_induction {P : Store → Prop} (earlier : List Turn)
    (hstart : P (after ops earlier).store) (hquiet : ∀ s s', P s → s.Quiet s' → P s')
    (henroll : ∀ s feed commitment height now, P s → commitment ∉ s.registered feed →
      (s.leaves feed).length < Merkle.treeCapacity → P (s.enroll feed commitment height now))
    (hroot : ∀ s feed height now, P s → P (s.logRoot feed height now)) (later : List Turn) :
    P (after ops (earlier ++ later)).store := by
  refine System.after_append_induction earlier (fun i _ => (ops i).commits) hstart hquiet ?_
  intro s made hs hmade hanswered
  rcases hmade.publish hanswered with ⟨feed, commitment, height, now, hfresh, hroom, hstore⟩ |
    ⟨feed, height, now, hstore⟩
  · rw [hstore]
    exact henroll s feed commitment height now hs hfresh hroom
  · rw [hstore]
    exact hroot s feed height now hs

/-- The leaves and the root history of a feed fit together at any time. -/
theorem rooted_after (feed : FeedId) (turns : List Turn) : (after ops turns).store.Rooted feed :=
  after_induction (P := fun t => t.Rooted feed) ops [] (.empty feed)
    (fun _ _ h hquiet => h.congr (by rw [hquiet.members]) (by rw [hquiet.history]))
    (fun _ _ _ height now h hfresh hroom => h.enroll hfresh hroom height now)
    (fun _ feed' height now h => h.logRoot feed' height now) turns

/-- They only grow. -/
theorem grownInto_after (feed : FeedId) {earlier turns : List Turn} (h : earlier <+: turns) :
    (after ops earlier).store.GrownInto (after ops turns).store feed := by
  obtain ⟨later, rfl⟩ := h
  refine after_induction (P := fun t => (after ops earlier).store.GrownInto t feed) ops earlier
    (.refl _ feed) ?_ ?_ ?_ later
  · intro _ _ h hquiet
    exact h.trans (.of_eq (by rw [hquiet.members]) (by rw [hquiet.history]))
  · intro t feed' commitment height now h _ _
    exact h.trans (.enroll t feed feed' commitment height now)
  · intro t feed' height now h
    exact h.trans (.logRoot t feed feed' height now)

variable {ops} {i : Nat} {feed : FeedId} {commitment : Commitment} {proof : MembershipProof}
  {turns : List Turn}

/-- A client that has got a witness has read the members of the feed at one of its turns and the
newest root at a later one. -/
theorem exists_reads (hop : ops i = .proof feed commitment)
    (hdone : ((after ops turns).clients i).process.program.result? =
      some (.ok (.proof (some proof)))) :
    ∃ listed dated : List Turn, listed ++ [.client i] <+: dated ∧ dated ++ [.client i] <+: turns ∧
      ReadOff commitment ((after ops listed).store.members feed)
        (((after ops dated).store.history feed).take 1) proof := by
  have hcommits : ((after ops turns).clients i).Commits Transaction (ops i).Post :=
    System.commits_after (ops i).commits turns
  have hrecalled : OnlyReads ((after ops turns).clients i).made →
      ((after ops turns).clients i).process.unit.writes = [] ∧
        System.Recalled (fun j => (ops j).work.run) i turns ((after ops turns).clients i).made :=
    System.recalled_after turns
  rw [Client.Commits, Program.eq_done hdone, hop] at hcommits
  obtain ⟨rows, newest, hmade, hread⟩ := hcommits proof rfl
  rw [hmade] at hrecalled
  have honly : OnlyReads (questions feed commitment rows newest) := by
    intro m hm
    simp only [questions, List.mem_cons, List.not_mem_nil, or_false] at hm
    rcases hm with rfl | rfl | rfl <;> exact ⟨_, _, rfl⟩
  obtain ⟨dated, hdated, hbefore, hnewest⟩ := (hrecalled honly).2.exists_before
  obtain ⟨listed, hlisted, -, hrows⟩ := hbefore.exists_before
  have hrows := (hrows trivial).trans (answer_commitments rfl)
  have hnewest := (hnewest trivial).trans (answer_recentRoots rfl 1)
  exact ⟨listed, dated, hlisted, hdated, hrows ▸ hnewest ▸ hread⟩

/-! ### A registration between two reads -/

/-- The first member. -/
def first : Commitment := ⟨⟨1, by decide⟩⟩

/-- The second member. -/
def second : Commitment := ⟨⟨2, by decide⟩⟩

/-- One client registers a member at height ten and another one asks for the member's witness; a
third one registers somebody else at height twenty. -/
def racing : Nat → Operation
  | 0 => .register {} (fun _ => default) default first 10
  | 1 => .proof default first
  | _ => .register {} (fun _ => default) default second 20

/-- The third client makes all its calls after the second one has read the leaves and before it
reads the newest root. -/
def straddling : List Turn :=
  .replicate 6 (.client 0) ++ .replicate 3 (.client 1) ++ .replicate 6 (.client 2) ++ [.client 1]

/-- The proof has the old root and the new height. -/
theorem result_straddling : ∃ path, ((after racing straddling).clients 1).process.program.result? =
    some (.ok (.proof (some ⟨Merkle.root [first.value], 0, path, Merkle.treeDepth, 20⟩))) :=
  ⟨_, rfl⟩

/-- Both roots are logged in the end. -/
theorem history_straddling : (after racing straddling).store.history default =
    [Store.rootOf default [first.value, second.value] 20 default,
      Store.rootOf default [first.value] 10 default] := rfl

/-! ### Witnesses among registrations -/

/-- However the calls of other clients fall between the reads of a client that has got a witness,
the witness is read off the leaves as they were at one of the client's turns and the history as it
was at a later one. Its root was the newest one when the leaves were read, and its height is that of
the entry that was newest when the history was read, which is no older. -/
theorem witness_has_logged_root (hop : ops i = .proof feed commitment)
    (hdone : ((after ops turns).clients i).process.program.result? =
      some (.ok (.proof (some proof)))) :
    ∃ listed dated : List Turn, listed ++ [.client i] <+: dated ∧ dated ++ [.client i] <+: turns ∧
      ReadOff commitment ((after ops listed).store.members feed)
        (((after ops dated).store.history feed).take 1) proof ∧
      ∃ row row', Dated (after ops listed).store (after ops dated).store (after ops turns).store
        feed commitment proof row row' := by
  obtain ⟨listed, dated, hlisted, hdated, hread⟩ := exists_reads hop hdone
  refine ⟨listed, dated, hlisted, hdated, hread, ?_⟩
  have hlistedDated : listed <+: dated := (List.prefix_append _ _).trans hlisted
  have hdatedTurns : dated <+: turns := (List.prefix_append _ _).trans hdated
  exact hread.dated (rooted_after ops feed listed) (rooted_after ops feed dated)
    (grownInto_after ops feed hlistedDated) (grownInto_after ops feed hdatedTurns)

/-- In this schedule the witness is that of one leaf, and its height is that of the root of two. -/
theorem straddled_witness_is_dated :
    racing 1 = .proof default first ∧
    ∃ proof, ((after racing straddling).clients 1).process.program.result? =
        some (.ok (.proof (some proof))) ∧
      ∃ listed dated : List Turn, listed ++ [.client 1] <+: dated ∧
        dated ++ [.client 1] <+: straddling ∧
        ReadOff first ((after racing listed).store.members default)
          (((after racing dated).store.history default).take 1) proof ∧
        ∃ row row', Dated (after racing listed).store (after racing dated).store
          (after racing straddling).store default first proof row row' := by
  obtain ⟨path, hdone⟩ := result_straddling
  exact ⟨rfl, _, hdone, witness_has_logged_root rfl hdone⟩

/-- No entry of the history has both that root and that height. -/
theorem straddled_witness_has_no_entry :
    ∃ proof, ((after racing straddling).clients 1).process.program.result? =
        some (.ok (.proof (some proof))) ∧
      (∃ row ∈ (after racing straddling).store.history default,
        row.blockHeight = proof.blockHeight) ∧
      ¬ ∃ row ∈ (after racing straddling).store.history default,
        row.rootField? = some proof.root ∧ row.blockHeight = proof.blockHeight := by
  obtain ⟨path, hdone⟩ := result_straddling
  refine ⟨_, hdone, ?_, ?_⟩
  · rw [history_straddling]
    exact ⟨_, List.mem_cons_self, rfl⟩
  · rintro ⟨row, hrow, hroot, hheight⟩
    rw [history_straddling, List.mem_pair] at hrow
    rcases hrow with rfl | rfl
    · simp only [Store.rootField?_rootOf, Option.some.injEq, first, second] at hroot
      exact Merkle.root_one_ne_root_one_two hroot.symm
    · have hnumbers : 10 = 20 := hheight
      exact absurd hnumbers (by decide)

end Operation

end Membership

end Reactions
