import Reactions.Proofs.Basic
import Reactions.Proofs.Membership.RootHistory
import Reactions.Proofs.Merkle.Paths

/-!
# Witnesses of members

The leaves of a feed are the commitments whose registration was answered with a leaf, each at the
position that it was answered with (`registeredAs_iff`): a request either registers nothing and
leaves the leaves of every feed alone, or registers one commitment and appends it to the leaves of
its feed (`Store.enrolls_serve`). So the witness of a commitment, which is made of the leaves and of
the newest root at the time of asking, names the leaf of a registration however long ago, and its
path leads to the newest root (`proof_matches_registration`).
-/

namespace Reactions

/-! ## Registrations -/

/-- The registration that a request comes down to, with its answer: that of a commitment, or that of
the commitment of an address that joins a feed or is let in again. -/
def Request.registration? (s : Store) :
    Request → Option (FeedId × Commitment × Except MembershipError Registration)
  | .register policy clock feed commitment height =>
    some (feed, commitment,
      ((Membership.register policy clock feed commitment height).run.run s).1)
  | .membership policy clock event =>
    match event.kind with
    | .joined | .unbanned =>
      some (event.feedId, .ofAddress event.address,
        ((Membership.register policy clock event.feedId (.ofAddress event.address)
          event.blockHeight).run.run s).1)
    | .left | .banned => none
  | _ => none

/-- The registration of a commitment is answered with a leaf. -/
def Request.Registers (s : Store) (request : Request) (feed : FeedId) (commitment : Commitment)
    (index : Nat) : Prop :=
  ∃ root, request.registration? s = some (feed, commitment, .ok (.registered root index))

/-- Among requests that are served one after the other, there is one that registers a commitment. -/
def RegisteredAs (requests : List Request) (feed : FeedId) (commitment : Commitment) (index : Nat) :
    Prop :=
  ∃ before request after, requests = before ++ request :: after ∧
    request.Registers (.serving before) feed commitment index

/-- Somebody is registered by one of the requests, the last one or another. -/
theorem registeredAs_append_singleton {requests : List Request} {request : Request} {feed : FeedId}
    {commitment : Commitment} {index : Nat} :
    RegisteredAs (requests ++ [request]) feed commitment index ↔
      RegisteredAs requests feed commitment index ∨
        request.Registers (.serving requests) feed commitment index :=
  exists_append_singleton

/-! ## One request -/

namespace Store

variable {s t : Store} {request : Request} {u : UnitOfWork}

/-- What a request does to the leaves of all feeds: it registers nothing and leaves them alone, or
it registers a commitment and appends it to the leaves of its feed. -/
inductive Enrolls (s t : Store) (request : Request) : Prop
  | none (hregistered : t.registered = s.registered)
    (hanswer : ∀ feed commitment index, ¬ request.Registers s feed commitment index)
  | leaf (feed : FeedId) (commitment : Commitment) (hfresh : commitment ∉ s.registered feed)
    (hanswer : ∀ feed' commitment' index, request.Registers s feed' commitment' index ↔
      feed' = feed ∧ commitment' = commitment ∧ index = (s.registered feed).length)
    (hregistered : ∀ feed', t.registered feed' =
      s.registered feed' ++ if feed = feed' then [commitment] else [])

/-- Enrolling a member puts the commitment behind those of its feed. -/
theorem registered_enroll (s : Store) (feed feed' : FeedId) (commitment : Commitment)
    (height : Nat) (now : Timestamp) :
    (s.enroll feed commitment height now).registered feed' =
      s.registered feed' ++ if feed = feed' then [commitment] else [] := by
  rw [registered, members_enroll, List.map_append, registered]
  by_cases h : feed = feed'
  · rw [if_pos h, if_pos h]
    rfl
  · rw [if_neg h, if_neg h]
    rfl

/-- Logging a root leaves the leaves alone. -/
theorem registered_of_logRoot {feed : FeedId} {height : Nat} {clock : Clock}
    (h : s.Quiet t ∨ ∃ attempt r, s.Quiet r ∧ t = r.logRoot feed height (clock attempt)) :
    t.registered = s.registered := by
  rcases h with hquiet | ⟨attempt, r, hquiet, rfl⟩
  · exact hquiet.registered
  · exact hquiet.registered

/-- Logging a root leaves the commitments. -/
theorem registered_updateRoot (policy : RetryPolicy) (clock : Clock) (feed : FeedId) (height : Nat)
    (s : Store) :
    (Work.finish (Membership.updateRoot policy clock feed height) default s).2.2.registered =
      s.registered := by
  obtain ⟨_, _, s', hfinish, ⟨hquiet, -⟩ | ⟨attempt, t, hquiet, -, hlog⟩⟩ :=
    Membership.finish_updateRoot_cases policy clock feed height default s
  · rw [hfinish]
    exact hquiet.registered
  · rw [hfinish]
    exact registered_of_logRoot (.inr ⟨attempt, t, hquiet, hlog⟩)

/-- A request that is no registration leaves the leaves alone. -/
theorem Enrolls.of_registered_eq (hregistration : request.registration? s = .none)
    (h : t.registered = s.registered) : Enrolls s t request := by
  refine .none h fun feed commitment index => ?_
  rintro ⟨root, hanswer⟩
  rw [hregistration] at hanswer
  cases hanswer

/-- A registration appends the commitment if it is answered with a leaf, which is then the next one.
-/
theorem Enrolls.of_register (request : Request) (policy : RetryPolicy) (clock : Clock)
    (feed : FeedId) (commitment : Commitment) (height : Nat) (u : UnitOfWork) (s : Store)
    (hregistration : request.registration? s = some (feed, commitment,
      (Work.finish (Membership.register policy clock feed commitment height) u s).1)) :
    Enrolls s (Work.finish (Membership.register policy clock feed commitment height) u s).2.2
      request := by
  obtain ⟨outcome, u', s', hfinish,
      ⟨hquiet, houtcome⟩ | ⟨attempt, t, hquiet, hfresh, -, rfl, rfl⟩⟩ :=
    Membership.finish_register_cases policy clock feed commitment height u s
  · rw [hfinish] at hregistration ⊢
    refine .none hquiet.registered fun feed' commitment' index => ?_
    rintro ⟨root, hanswer⟩
    rw [hregistration] at hanswer
    rcases houtcome with ⟨e, rfl⟩ | ⟨-, rfl⟩
    · cases hanswer
    · cases hanswer
  · rw [hfinish] at hregistration ⊢
    refine .leaf feed commitment hfresh (fun feed' commitment' index => ?_) fun feed' => ?_
    · rw [Request.Registers, hregistration, length_leaves, ← length_registered]
      simp only [Option.some.injEq, Prod.mk.injEq, Except.ok.injEq, Registration.registered.injEq]
      constructor
      · rintro ⟨root, rfl, rfl, -, rfl⟩
        exact ⟨rfl, rfl, rfl⟩
      · rintro ⟨rfl, rfl, rfl⟩
        exact ⟨_, rfl, rfl, rfl, rfl⟩
    · rw [registered_enroll, hquiet.registered]

/-- Every request registers nothing and leaves the leaves alone, or registers one commitment. -/
theorem enrolls_serve (s : Store) (request : Request) : Enrolls s (request.serve s) request := by
  cases request with
  | register policy clock feed commitment height =>
    have henrolls :=
      Enrolls.of_register (.register policy clock feed commitment height) policy clock
      feed commitment height default s (by rw [Request.registration?, Work.run_run])
    rwa [Request.serve, Work.run_run]
  | updateRoot policy clock feed height =>
    refine .of_registered_eq rfl ?_
    rw [Request.serve, Work.run_run]
    exact registered_updateRoot policy clock feed height s
  | recentRoots policy clock feed count =>
    refine .of_registered_eq rfl ?_
    obtain ⟨_, _, s', hfinish, hlog⟩ :=
      Membership.finish_recentRoots_cases policy clock feed count default s
    rw [Request.serve, Work.run_run, hfinish]
    exact registered_of_logRoot hlog
  | isRegistered feed commitment =>
    obtain ⟨_, hfinish⟩ := Membership.finish_isRegistered feed commitment default s
    refine .of_registered_eq rfl ?_
    rw [Request.serve, Work.run_run, hfinish]
  | proof feed commitment =>
    obtain ⟨_, hfinish⟩ := Membership.finish_proof? feed commitment default s
    refine .of_registered_eq rfl ?_
    rw [Request.serve, Work.run_run, hfinish]
  | membership policy clock event =>
    rw [Request.serve, Work.run_run, Membership.handle]
    cases hkind : event.kind with
    | joined | unbanned =>
      have henrolls :=
        Enrolls.of_register (.membership policy clock event) policy clock event.feedId
        (.ofAddress event.address) event.blockHeight default s
        (by rw [Request.registration?, hkind, Work.run_run])
      rwa [Work.finish_discard]
    | left | banned =>
      refine .of_registered_eq (by rw [Request.registration?, hkind]) ?_
      rw [Work.finish_discard]
      exact registered_updateRoot policy clock event.feedId event.blockHeight s
  | verdict verifier secrets window policy clock tx =>
    refine .of_registered_eq rfl ?_
    obtain ⟨_, _, s', hfinish, hlog⟩ :=
      Admission.finish_verdict_cases verifier secrets window policy clock tx default s
    rw [Request.serve, Work.run_run, hfinish]
    exact registered_of_logRoot hlog
  | react policy clock tx height =>
    refine .of_registered_eq rfl ?_
    rcases Ledger.process_cases policy clock tx height s with
      ⟨e, s', hrun, hquiet⟩ | ⟨attempt, kind, tally, row, t, hquiet, -, hrun⟩
    · rw [Request.serve, hrun]
      exact hquiet.registered
    · rw [Request.serve, hrun]
      exact hquiet.registered
  | failNext errors => exact .of_registered_eq rfl rfl

/-! ## All requests -/

/-- The leaves of a feed are the commitments that were registered, each at the position that its
registration was answered with. -/
theorem registeredAs_iff {requests : List Request} {feed : FeedId} {commitment : Commitment}
    {index : Nat} : RegisteredAs requests feed commitment index ↔
      ((serving requests).registered feed)[index]? = some commitment := by
  induction requests using List.reverseRecOn with
  | nil =>
    constructor
    · rintro ⟨before, request, after, heq, -⟩
      cases before <;> cases heq
    · intro h
      cases h
  | append_singleton requests request ih =>
    have hserve : serving (requests ++ [request]) = request.serve (serving requests) :=
      serving_append requests [request]
    rw [registeredAs_append_singleton, ih, hserve]
    cases enrolls_serve (serving requests) request with
    | none hregistered hanswer =>
      rw [hregistered]
      exact or_iff_left (hanswer feed commitment index)
    | leaf feed' commitment' hfresh hanswer hregistered =>
      rw [hanswer, hregistered]
      by_cases hfeed : feed = feed'
      · subst hfeed
        rw [if_pos rfl, getElem?_append_singleton]
        simp
      · rw [if_neg (Ne.symm hfeed), List.append_nil]
        exact or_iff_left fun h => hfeed h.1

end Store

/-! ## The witness of a commitment -/

namespace Membership

variable {s : Store} {feed : FeedId} {commitment : Commitment} {proof : MembershipProof}

/-- A commitment that is no leaf has no witness. -/
theorem witness?_of_not_mem (h : commitment ∉ s.registered feed) :
    witness? s feed commitment = none := by
  have hindex : (s.members feed).findIdx? (·.commitment = commitment) = none := by
    simpa [Store.registered] using h
  rw [witness?, hindex]
  rfl

/-- The witness of a leaf has its position, its path, the root over all leaves, the depth of the
tree, and the height of the newest root. -/
theorem witness?_of_mem (h : commitment ∈ s.registered feed) :
    ∃ proof, witness? s feed commitment = some proof ∧
      (s.registered feed)[proof.leafIndex]? = some commitment ∧
      Merkle.Path.ofLeaves? (s.leaves feed) proof.leafIndex = some proof.path ∧
      proof.root = Merkle.root (s.leaves feed) ∧ proof.depth = Merkle.treeDepth ∧
      proof.blockHeight = ((s.history feed).head?.map (·.blockHeight)).getD 0 := by
  obtain ⟨row, hrow, hcommitment⟩ := List.mem_map.1 h
  cases hindex : (s.members feed).findIdx? (·.commitment = commitment) with
  | none =>
    have hnone := List.findIdx?_eq_none_iff.1 hindex row hrow
    exact absurd hcommitment (of_decide_eq_false hnone)
  | some index =>
    obtain ⟨hlength, hfound, -⟩ := List.findIdx?_eq_some_iff_getElem.1 hindex
    have hleaf : index < (s.leaves feed).length := by rwa [Store.length_leaves]
    obtain ⟨path, hpath⟩ := Option.isSome_iff_exists.1 (Merkle.Path.ofLeaves?_isSome.2 hleaf)
    have hwitness : witness? s feed commitment = some {
        root := Merkle.root (s.leaves feed)
        leafIndex := index
        path
        depth := Merkle.treeDepth
        blockHeight := ((s.history feed).head?.map (·.blockHeight)).getD 0 } := by
      rw [witness?, hindex]
      simp only [Option.bind_eq_bind, Option.bind_some, hpath]
      rfl
    refine ⟨_, hwitness, ?_, hpath, by dsimp only, by dsimp only, by dsimp only⟩
    rw [Store.registered, List.getElem?_map, List.getElem?_eq_getElem hlength, Option.map_some,
      of_decide_eq_true hfound]

/-- A witness is right about a store: the commitment is the leaf at its position, which its path has
the digits of; the path leads from the commitment to the root of a tree of the right depth; and root
and height are those of the newest entry of the history. -/
structure Witnesses (proof : MembershipProof) (s : Store) (feed : FeedId)
    (commitment : Commitment) : Prop where
  leaf : (s.registered feed)[proof.leafIndex]? = some commitment
  digits : ∀ digit ∈ proof.path.indices.toList, digit = 0 ∨ digit = 1
  leafIndex : proof.path.leafIndex = proof.leafIndex
  verifies : proof.verifies commitment = true
  depth : proof.depth = Merkle.treeDepth
  newest : ∃ row, (s.history feed).head? = some row ∧ row.rootField? = some proof.root ∧
    row.blockHeight = proof.blockHeight

/-- If leaves and roots fit together, then a leaf has a witness that is right. -/
theorem exists_witness (hrooted : s.Rooted feed) (h : commitment ∈ s.registered feed) :
    ∃ proof, witness? s feed commitment = some proof ∧ Witnesses proof s feed commitment := by
  obtain ⟨proof, hwitness, hleaf, hpath, hroot, hdepth, hheight⟩ := witness?_of_mem h
  have hlt : proof.leafIndex < (s.registered feed).length := (List.getElem?_eq_some_iff.1 hleaf).1
  have hbound : proof.leafIndex < 2 ^ Merkle.treeDepth :=
    Nat.lt_of_lt_of_le hlt hrooted.length_le
  have hvalue : (s.leaves feed).getD proof.leafIndex 0 = commitment.value := by
    rw [Store.leaves_eq, List.getD_eq_getElem?_getD, List.getElem?_map, hleaf]
    rfl
  have hne : s.leaves feed ≠ [] := by
    rw [← List.length_pos_iff_ne_nil, Store.length_leaves, ← Store.length_registered]
    omega
  obtain ⟨row, older, hhistory⟩ := List.exists_cons_of_ne_nil (hrooted.history_ne_nil hne)
  have hhead : (s.history feed).head? = some row := by rw [hhistory, List.head?_cons]
  refine ⟨proof, hwitness, hleaf, Merkle.Path.index_of_ofLeaves? hpath,
    Merkle.Path.leafIndex_of_ofLeaves? hpath hbound, ?_, hdepth, row, hhead, ?_, ?_⟩
  · rw [MembershipProof.verifies, decide_eq_true_eq, hroot, ← hvalue]
    exact Merkle.Path.root_of_ofLeaves? hpath hbound
  · rw [hroot]
    exact hrooted.newest row hhead
  · rw [hheight, hhead]
    rfl

/-- Whatever was asked of a node, the question for the witness of a commitment is answered. There is
none exactly if the commitment was never registered for the feed. Otherwise the witness is right
about the store as it is now, and its leaf is the one that the registration of the commitment was
answered with. -/
theorem proof_matches_registration (requests : List Request) (feed : FeedId)
    (commitment : Commitment) :
    ∃ answer, (proof? feed commitment).run.run (.serving requests) =
        (.ok answer, .serving requests) ∧
      (answer = none ↔ ∀ index, ¬ RegisteredAs requests feed commitment index) ∧
      ∀ proof, answer = some proof →
        (∀ index, RegisteredAs requests feed commitment index ↔ index = proof.leafIndex) ∧
        Witnesses proof (.serving requests) feed commitment := by
  have hrooted : (Store.serving requests).Rooted feed := .serving requests feed
  obtain ⟨u, hfinish⟩ := finish_proof? feed commitment default (Store.serving requests)
  refine ⟨witness? (.serving requests) feed commitment, by rw [Work.run_run, hfinish], ?_⟩
  by_cases hmem : commitment ∈ (Store.serving requests).registered feed
  · obtain ⟨proof, hwitness, hright⟩ := exists_witness hrooted hmem
    rw [hwitness]
    refine ⟨⟨(nomatch ·), fun h => absurd (Store.registeredAs_iff.2 hright.leaf) (h _)⟩,
      fun proof' hproof => ?_⟩
    obtain rfl := Option.some.inj hproof
    refine ⟨fun index => ?_, hright⟩
    rw [Store.registeredAs_iff]
    constructor
    · intro hindex
      have hlt : index < ((Store.serving requests).registered feed).length :=
        (List.getElem?_eq_some_iff.1 hindex).1
      exact (List.getElem?_inj hlt hrooted.nodup).1 (hindex.trans hright.leaf.symm)
    · rintro rfl
      exact hright.leaf
  · rw [witness?_of_not_mem hmem]
    refine ⟨⟨fun _ index hregistered => hmem ?_, fun _ => rfl⟩, fun _ h => nomatch h⟩
    exact List.mem_of_getElem? (Store.registeredAs_iff.1 hregistered)

end Membership

end Reactions
