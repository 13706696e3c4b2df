import Reactions.Proofs.Bytes.Encoding
import Reactions.Proofs.Node.Requests

/-!
# The root history follows the leaves

Every root in the history of a feed is the root of the tree over some first leaves of the feed,
later ones over no fewer than earlier ones, and the newest over all of them; and as soon as a feed
has a leaf it has a root (`Store.Rooted`). Leaves and roots are only ever appended, so a leaf keeps
its place (`Store.GrownInto`). Both a registration and an update of the root extend the history by
the root of the leaves that there are afterwards, which is all that `Store.Rooted.extend` needs to
know about them.
-/

namespace Reactions

namespace Store

/-- The leaves and the root history of a feed, newest first, fit together. -/
structure Rooted (s : Store) (feed : FeedId) : Prop where
  /-- No commitment is a leaf twice. -/
  nodup : (s.registered feed).Nodup
  /-- The tree has room for all leaves. -/
  length_le : (s.registered feed).length ≤ 2 ^ 20
  /-- Every root is the canonical encoding of one over some first leaves, and newer ones are over no
  fewer leaves than older ones. -/
  sizes : ∃ sizes : List Nat, sizes.Pairwise (· ≥ ·) ∧
    (∀ size ∈ sizes, size ≤ (s.leaves feed).length) ∧
    (s.history feed).map (·.root) =
      sizes.map fun size => (Merkle.root ((s.leaves feed).take size)).toBytes
  /-- A feed with a leaf has a root. -/
  history_ne_nil : s.leaves feed ≠ [] → s.history feed ≠ []
  /-- The newest root is read back as the root over all leaves. -/
  newest : ∀ row, (s.history feed).head? = some row →
    row.rootField? = some (Merkle.root (s.leaves feed))

/-- Leaves and roots of a feed were only appended, the newest root being the first of its list. -/
structure GrownInto (s s' : Store) (feed : FeedId) : Prop where
  members : s.members feed <+: s'.members feed
  history : s.history feed <:+ s'.history feed
  /-- A commitment keeps its place among the leaves. -/
  leafIndex : ∀ (index : Nat) commitment, (s.registered feed)[index]? = some commitment →
    (s'.registered feed)[index]? = some commitment

variable {s s' s'' : Store} {feed : FeedId}

/-- A root that is logged reads as the root of its leaves. -/
theorem rootField?_rootOf (leaves : List ScalarField) (height : Nat) (now : Timestamp) :
    (rootOf feed leaves height now).rootField? = some (Merkle.root leaves) :=
  Residue.ofBytes?_toBytes scalarOrder_le _

/-! ## Growth -/

namespace GrownInto

/-- What has grown in members and in roots has grown in leaves. -/
theorem of_members (hmembers : s.members feed <+: s'.members feed)
    (hhistory : s.history feed <:+ s'.history feed) : s.GrownInto s' feed where
  members := hmembers
  history := hhistory
  leafIndex index commitment h := by
    have hregistered : s.registered feed <+: s'.registered feed := hmembers.map _
    have hindex : index < (s.registered feed).length := (List.getElem?_eq_some_iff.1 h).1
    obtain ⟨new, hnew⟩ := hregistered
    rw [← hnew, List.getElem?_append_left hindex]
    exact h

theorem refl (s : Store) (feed : FeedId) : s.GrownInto s feed :=
  of_members (List.prefix_refl _) (List.suffix_refl _)

/-- Growth carries over. -/
theorem trans (h : s.GrownInto s' feed) (h' : s'.GrownInto s'' feed) : s.GrownInto s'' feed :=
  of_members (h.members.trans h'.members) (h.history.trans h'.history)

/-- A feed whose members and roots stay has grown by nothing. -/
theorem of_eq (hmembers : s'.members feed = s.members feed)
    (hhistory : s'.history feed = s.history feed) : s.GrownInto s' feed :=
  of_members (hmembers ▸ List.prefix_refl _) (hhistory ▸ List.suffix_refl _)

/-- Logging a root lets every feed grow. -/
theorem logRoot (s : Store) (feed feed' : FeedId) (height : Nat) (now : Timestamp) :
    s.GrownInto (s.logRoot feed' height now) feed := by
  refine of_members (List.prefix_refl _) ?_
  rw [history_logRoot]
  split
  · exact List.suffix_cons _ _
  · exact List.suffix_refl _

/-- Enrolling a member lets every feed grow. -/
theorem enroll (s : Store) (feed feed' : FeedId) (commitment : Commitment) (height : Nat)
    (now : Timestamp) : s.GrownInto (s.enroll feed' commitment height now) feed := by
  refine of_members ?_ ?_
  · rw [members_enroll]
    exact List.prefix_append _ _
  · rw [history_enroll]
    split
    · exact List.suffix_cons _ _
    · exact List.suffix_refl _

/-- Whatever a node is asked for, leaves and roots are only appended. -/
theorem serve (s : Store) (feed : FeedId) (requests : List Request) :
    s.GrownInto (requests.foldl Request.serve s) feed :=
  serve_induction (P := fun t => s.GrownInto t feed) (refl s feed)
    (fun _ _ h hquiet => h.trans (of_eq (by rw [hquiet.members]) (by rw [hquiet.history])))
    (fun t feed' height now h => h.trans (logRoot t feed feed' height now))
    (fun t feed' commitment height now h _ _ => h.trans (enroll t feed feed' commitment height now))
    (fun _ _ _ _ h => h.trans (of_eq rfl rfl)) requests

end GrownInto

/-! ## The invariant -/

namespace Rooted

/-- The empty store has no members and no roots. -/
theorem empty (feed : FeedId) : Store.empty.Rooted feed where
  nodup := List.nodup_nil
  length_le := Nat.zero_le _
  sizes := ⟨[], .nil, fun _ h => (nomatch h), rfl⟩
  history_ne_nil := fun h => absurd rfl h
  newest := fun _ h => nomatch h

/-- The newest root of a feed that has one. -/
theorem exists_newest (h : s.Rooted feed) (hhistory : s.history feed ≠ []) :
    ∃ row, (s.history feed).head? = some row ∧
      row.rootField? = some (Merkle.root (s.leaves feed)) := by
  obtain ⟨row, rest, hrow⟩ := List.exists_cons_of_ne_nil hhistory
  have hnewest : (s.history feed).head? = some row := by rw [hrow, List.head?_cons]
  exact ⟨row, hnewest, h.newest row hnewest⟩

/-- What is not about the feed does not matter. -/
theorem congr (h : s.Rooted feed) (hmembers : s'.members feed = s.members feed)
    (hhistory : s'.history feed = s.history feed) : s'.Rooted feed := by
  have hregistered : s'.registered feed = s.registered feed := by
    rw [registered, hmembers, registered]
  have hleaves : s'.leaves feed = s.leaves feed := by rw [leaves, hmembers, leaves]
  refine ⟨?_, ?_, ?_, ?_, ?_⟩
  · rw [hregistered]
    exact h.nodup
  · rw [hregistered]
    exact h.length_le
  · rw [hleaves, hhistory]
    exact h.sizes
  · rw [hleaves, hhistory]
    exact h.history_ne_nil
  · rw [hleaves, hhistory]
    exact h.newest

/-- The history goes on with the root over the leaves that there are now. -/
theorem extend (h : s.Rooted feed) (new : List ScalarField) (height : Nat) (now : Timestamp)
    (hleaves : s'.leaves feed = s.leaves feed ++ new) (hnodup : (s'.registered feed).Nodup)
    (hlength : (s'.registered feed).length ≤ 2 ^ 20)
    (hhistory : s'.history feed = rootOf feed (s'.leaves feed) height now :: s.history feed) :
    s'.Rooted feed where
  nodup := hnodup
  length_le := hlength
  sizes := by
    obtain ⟨sizes, hsorted, hbound, hroots⟩ := h.sizes
    have hgrown : (s'.leaves feed).length = (s.leaves feed).length + new.length := by
      rw [hleaves, List.length_append]
    refine ⟨(s'.leaves feed).length :: sizes, List.pairwise_cons.2 ⟨fun size hsize => ?_, hsorted⟩,
      List.forall_mem_cons.2 ⟨Nat.le_refl _, fun size hsize => ?_⟩, ?_⟩
    · have := hbound size hsize
      omega
    · have := hbound size hsize
      omega
    · rw [hhistory, List.map_cons, List.map_cons, List.take_length, hroots]
      refine congrArg (_ :: ·) (List.map_congr_left fun size hsize => ?_)
      rw [hleaves, List.take_append_of_le_length (hbound size hsize)]
  history_ne_nil := fun _ => hhistory ▸ List.cons_ne_nil _ _
  newest := fun row hrow => by
    rw [hhistory, List.head?_cons, Option.some.injEq] at hrow
    rw [← hrow, rootField?_rootOf]

/-- Logging a root for the present leaves keeps a feed rooted. -/
theorem logRoot (h : s.Rooted feed) (feed' : FeedId) (height : Nat) (now : Timestamp) :
    (s.logRoot feed' height now).Rooted feed := by
  by_cases hfeed : feed' = feed
  · subst hfeed
    refine h.extend [] height now (List.append_nil _).symm h.nodup h.length_le ?_
    rw [history_logRoot, if_pos rfl]
    rfl
  · refine h.congr rfl ?_
    rw [history_logRoot, if_neg hfeed]

/-- Enrolling a new member where there is room keeps a feed rooted. -/
theorem enroll (h : s.Rooted feed) {feed' : FeedId} {commitment : Commitment}
    (hfresh : commitment ∉ s.registered feed')
    (hroom : (s.leaves feed').length < Merkle.treeCapacity) (height : Nat) (now : Timestamp) :
    (s.enroll feed' commitment height now).Rooted feed := by
  by_cases hfeed : feed' = feed
  · subst hfeed
    have hregistered : (s.enroll feed' commitment height now).registered feed' =
        s.registered feed' ++ [commitment] := by
      rw [registered, members_enroll, if_pos rfl, List.map_append]
      rfl
    have hleaves : (s.enroll feed' commitment height now).leaves feed' =
        s.leaves feed' ++ [commitment.value] := by
      rw [leaves_eq, hregistered, List.map_append, ← leaves_eq]
      rfl
    refine h.extend [commitment.value] height now hleaves ?_ ?_ ?_
    · rw [hregistered, List.nodup_append]
      exact ⟨h.nodup, List.nodup_singleton _, fun a ha b hb hab =>
        hfresh (List.mem_singleton.1 hb ▸ hab ▸ ha)⟩
    · have hcapacity : Merkle.treeCapacity = 2 ^ 20 := rfl
      rw [length_leaves, ← length_registered, hcapacity] at hroom
      rw [hregistered, List.length_append, List.length_singleton]
      omega
    · rw [history_enroll, if_pos rfl, hleaves]
  · refine h.congr ?_ ?_
    · rw [members_enroll, if_neg hfeed, List.append_nil]
    · rw [history_enroll, if_neg hfeed]

/-- The invariant holds whatever a node is asked for. -/
theorem serving (requests : List Request) (feed : FeedId) : (Store.serving requests).Rooted feed :=
  serve_induction (P := fun t => t.Rooted feed) (empty feed)
    (fun _ _ h hquiet => h.congr (by rw [hquiet.members]) (by rw [hquiet.history]))
    (fun _ feed' height now h => h.logRoot feed' height now)
    (fun _ _ _ height now h hfresh hroom => h.enroll hfresh hroom height now)
    (fun _ _ _ _ h => h.congr rfl rfl) requests

end Rooted

/-- Whatever a node was asked for, the leaves and the root history of every feed fit together. And
whatever it is asked for then, both only grow at their ends, so that a commitment keeps its leaf. -/
theorem history_follows_leaves (requests more : List Request) (feed : FeedId) :
    (serving requests).Rooted feed ∧
      (serving requests).GrownInto (serving (requests ++ more)) feed := by
  rw [serving_append]
  exact ⟨.serving requests feed, .serve _ feed more⟩

end Store

end Reactions
