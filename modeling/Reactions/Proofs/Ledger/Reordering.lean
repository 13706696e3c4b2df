import Reactions.Proofs.Ledger.Indexing
import Reactions.Proofs.Ledger.TallySum
import Reactions.Proofs.Store.Times

/-!
# Reactions in another order

Reactions of different nullifiers may be processed in any order: the ledger and the tallies come out
the same, times aside, and so do the counts of new votes and updates (`reordering_keeps_ledger`).
What stands between is what a store says of the reactions that it has taken, whatever their order
(`Store.Summarizes`): each nullifier has the vote of its latest reaction, each message a tally with
as many versions as it has reactions, and the tally is the sum of the votes that stand. Tallies on
the way differ, but a sum on the curve does not depend on the order of its terms, and taking a vote
out of it leaves the others.
-/

namespace Reactions

namespace Ledger

/-- Reactions none of which stands in the way of another: those of one message carry the same feed,
those of one nullifier the same message, and all votes are on the curve, as every vote is that was
read. -/
structure Coherent (txs : List Reaction) : Prop where
  feed : ∀ tx ∈ txs, ∀ tx' ∈ txs, tx.messageId = tx'.messageId → tx.feedId = tx'.feedId
  message : ∀ tx ∈ txs, ∀ tx' ∈ txs, tx.nullifier = tx'.nullifier → tx.messageId = tx'.messageId
  onCurve : ∀ tx ∈ txs, tx.vote.OnCurve

/-- Fewer reactions are still coherent. -/
theorem Coherent.mono {txs txs' : List Reaction} (h : Coherent txs') (hsub : txs ⊆ txs') :
    Coherent txs where
  feed tx htx tx' htx' := h.feed tx (hsub htx) tx' (hsub htx')
  message tx htx tx' htx' := h.message tx (hsub htx) tx' (hsub htx')
  onCurve tx htx := h.onCurve tx (hsub htx)

/-- The ledger row that a reaction leaves, without its times. -/
def rowOf (tx : Reaction) : LedgerRow :=
  .firstVote tx.nullifier tx.messageId tx.vote tx.backup default

/-- The ledger row that the latest reaction of a nullifier leaves, without its times. -/
def latestRow (txs : List Reaction) (nullifier : Nullifier) : Option LedgerRow :=
  (txs.filter (·.nullifier = nullifier)).getLast?.map rowOf

/-- The last reaction of a nullifier decides about its row. -/
theorem latestRow_append_singleton (txs : List Reaction) (tx : Reaction) (nullifier : Nullifier) :
    latestRow (txs ++ [tx]) nullifier =
      if tx.nullifier = nullifier then some (rowOf tx) else latestRow txs nullifier := by
  by_cases h : tx.nullifier = nullifier <;> simp [latestRow, List.filter_append, h]

/-- A row comes of one of the reactions. -/
theorem exists_of_latestRow {txs : List Reaction} {nullifier : Nullifier} {row : LedgerRow}
    (h : latestRow txs nullifier = some row) :
    ∃ tx ∈ txs, tx.nullifier = nullifier ∧ rowOf tx = row := by
  obtain ⟨tx, hlast, hrow⟩ := Option.map_eq_some_iff.1 h
  obtain ⟨htx, hnullifier⟩ := List.mem_filter.1 (List.mem_of_getLast? hlast)
  exact ⟨tx, htx, by simpa using hnullifier, hrow⟩

end Ledger

open Ledger

/-- A store that makes no commit fail holds what comes of some reactions, times aside. -/
structure Store.Summarizes (s : Store) (txs : List Reaction) : Prop where
  failures : s.failures = []
  row : ∀ nullifier,
    (s.nullifiers.find? nullifier).map LedgerRow.untimed = latestRow txs nullifier
  tally_isSome : ∀ message, (s.tallies.find? message).isSome ↔ ∃ tx ∈ txs, tx.messageId = message
  feed : ∀ message t, s.tallies.find? message = some t →
    ∀ tx ∈ txs, tx.messageId = message → t.feedId = tx.feedId
  version : ∀ message t, s.tallies.find? message = some t →
    t.version = txs.countP (·.messageId = message)
  balanced : ∀ message, s.Balanced message

namespace Store.Summarizes

variable {s s' : Store} {txs txs' : List Reaction} {tx : Reaction} {now : Timestamp}

/-- The empty store has the ledger of no reactions. -/
theorem empty : Store.empty.Summarizes [] where
  failures := rfl
  row := fun _ => rfl
  tally_isSome := fun _ => ⟨nofun, nofun⟩
  feed := fun _ _ h => nomatch h
  version := fun _ _ h => nomatch h
  balanced := .empty

/-! ## One more reaction -/

/-- A reaction that is coherent with those before is accepted. -/
theorem exists_accepts (h : s.Summarizes txs) (hcoherent : Coherent (txs ++ [tx]))
    (now : Timestamp) : ∃ kind tally row, Accepts s tx now kind tally row := by
  have hlast : tx ∈ txs ++ [tx] := List.mem_append_right _ (.head _)
  have hfeed : (current s tx now).feedId = tx.feedId := by
    rw [current]
    cases ht : s.tallies.find? tx.messageId with
    | none => rfl
    | some t =>
      obtain ⟨tx', htx', hmessage⟩ := (h.tally_isSome tx.messageId).1 (by rw [ht]; rfl)
      have hsame := hcoherent.feed tx' (List.mem_append_left _ htx') tx hlast hmessage
      exact (h.feed _ t ht tx' htx' hmessage).trans hsame
  cases hrow : s.nullifiers.find? tx.nullifier with
  | none => exact ⟨_, _, _, .first hfeed hrow⟩
  | some old =>
    have hlatest := (h.row tx.nullifier).symm
    rw [hrow] at hlatest
    obtain ⟨tx', htx', hnullifier, hold⟩ := exists_of_latestRow hlatest
    have hmessage : tx'.messageId = old.messageId := congrArg LedgerRow.messageId hold
    have hsame := hcoherent.message tx' (List.mem_append_left _ htx') tx hlast hnullifier
    exact ⟨_, _, _, .change hfeed hrow (hmessage.symm.trans hsame)⟩

/-- The row that an accepted reaction leaves, without its times. -/
theorem untimed_row {kind : ReactionKind} {tally : Tally} {row : LedgerRow}
    (h : Accepts s tx now kind tally row) : row.untimed = rowOf tx := by
  have hnullifier := h.nullifier
  cases h with
  | first => rfl
  | @change old hfeed hrow hmessage =>
    have hold : old.nullifier = tx.nullifier := hnullifier
    rw [LedgerRow.withVote, LedgerRow.untimed, rowOf, LedgerRow.firstVote, hold, hmessage]

/-- The version that the tally of a message has before a reaction. -/
theorem version_current (h : s.Summarizes txs) (tx : Reaction) (now : Timestamp) :
    (current s tx now).version = txs.countP (·.messageId = tx.messageId) := by
  rw [current]
  cases ht : s.tallies.find? tx.messageId with
  | some t => exact h.version _ t ht
  | none =>
    have hnone : ¬∃ tx' ∈ txs, tx'.messageId = tx.messageId := by
      rw [← h.tally_isSome, ht]
      exact Bool.false_ne_true
    refine (List.countP_eq_zero.2 fun tx' htx' => ?_).symm
    simpa using fun hmessage => hnone ⟨tx', htx', hmessage⟩

/-- An accepted reaction joins those that are summarized. -/
theorem record (h : s.Summarizes txs) (hcoherent : Coherent (txs ++ [tx])) {kind : ReactionKind}
    {tally : Tally} {row : LedgerRow} (haccepts : Accepts s tx now kind tally row)
    (audit : AuditRow) : (s.record tally row audit).Summarizes (txs ++ [tx]) where
  failures := (failures_publish _ _).trans h.failures
  row nullifier := by
    rw [find?_nullifiers_record haccepts, latestRow_append_singleton]
    split
    · rw [Option.map_some, untimed_row haccepts]
    · exact h.row nullifier
  tally_isSome message := by
    rw [find?_tallies_record haccepts]
    by_cases hm : tx.messageId = message
    · simp [hm]
    · simpa [hm] using h.tally_isSome message
  feed message t ht tx' htx' hmessage := by
    rw [find?_tallies_record haccepts] at ht
    split at ht
    · rename_i hm
      obtain rfl := Option.some.inj ht
      have hlast : tx ∈ txs ++ [tx] := List.mem_append_right _ (.head _)
      exact haccepts.feedId.trans (hcoherent.feed tx hlast tx' htx' (hm.trans hmessage.symm))
    · rename_i hm
      rcases List.mem_append.1 htx' with hold | hnew
      · exact h.feed message t ht tx' hold hmessage
      · exact absurd (List.mem_singleton.1 hnew ▸ hmessage) hm
  version message t ht := by
    rw [find?_tallies_record haccepts] at ht
    rw [List.countP_append]
    split at ht
    · rename_i hm
      obtain rfl := Option.some.inj ht
      rw [haccepts.counts.1, h.version_current tx now, hm]
      simp [hm]
    · rename_i hm
      rw [h.version message t ht]
      simp [hm]
  balanced message := by
    by_cases hm : tx.messageId = message
    · subst hm
      have hlast : tx ∈ txs ++ [tx] := List.mem_append_right _ (.head _)
      exact balanced_record_of_eq (h.balanced _) haccepts audit (hcoherent.onCurve tx hlast)
    · exact balanced_record_of_ne (h.balanced message) haccepts audit hm

/-! ## All reactions -/

/-- A reaction that is indexed does not fail, and joins those that are summarized. -/
theorem index {reaction : IndexedReaction} (h : s.Summarizes txs)
    (hcoherent : Coherent (txs ++ [reaction.transaction])) (policy : RetryPolicy) (clock : Clock)
    (stats : IndexStats) :
    ((index policy clock stats reaction).run s).1.failed = stats.failed ∧
      ((index policy clock stats reaction).run s).2.Summarizes (txs ++ [reaction.transaction]) := by
  obtain ⟨kind, tally, row, haccepts⟩ := h.exists_accepts hcoherent (clock 1)
  rw [run_index_of_accepts haccepts h.failures]
  refine ⟨?_, h.record hcoherent haccepts _⟩
  cases kind <;> rfl

end Store.Summarizes

namespace Ledger

variable {policy : RetryPolicy} {clocks : Nat → Clock} {s : Store} {txs : List Reaction}

/-- Indexes reactions, each under the clock of its number. -/
def indexFrom (policy : RetryPolicy) (clocks : Nat → Clock) (stats : IndexStats)
    (reactions : List (IndexedReaction × Nat)) : Program IndexStats :=
  reactions.foldlM (fun stats (reaction, i) => index policy (clocks i) stats reaction) stats

/-- Processing reactions begins with a unit of work of its own, if there are any. -/
theorem opens_indexFrom (stats : IndexStats) (reactions : List (IndexedReaction × Nat)) :
    (indexFrom policy clocks stats reactions).Opens := by
  induction reactions generalizing stats with
  | nil => trivial
  | cons item rest ih =>
    rw [indexFrom, List.foldlM_cons]
    exact Program.opens_bind (opens_index _ _ _ _) fun stats => ih stats

/-- The first reaction is processed before the others. -/
theorem run_indexFrom_cons (stats : IndexStats) (reaction : IndexedReaction) (i : Nat)
    (rest : List (IndexedReaction × Nat)) (s : Store) :
    (indexFrom policy clocks stats ((reaction, i) :: rest)).run s =
      (indexFrom policy clocks ((index policy (clocks i) stats reaction).run s).1 rest).run
        ((index policy (clocks i) stats reaction).run s).2 := by
  rw [indexFrom, List.foldlM_cons]
  exact Program.run_bind _ (fun stats => opens_indexFrom stats rest) s

/-- What comes of indexing reactions: none fails, all are counted, the counts agree with the
tallies, and the store summarizes them. -/
structure Indexed (txs : List Reaction) (stats : IndexStats) (s : Store) : Prop where
  failed : stats.failed = 0
  total : stats.newVotes + stats.updates = txs.length
  counts : stats.Counts s
  summarizes : s.Summarizes txs

/-- At the start nothing is indexed. -/
theorem Indexed.start : Indexed [] {} .empty := ⟨rfl, rfl, ⟨rfl, rfl⟩, .empty⟩

/-- Processing one more reaction indexes it with the others. -/
theorem Indexed.index {stats : IndexStats} (h : Indexed txs stats s) {reaction : IndexedReaction}
    (hcoherent : Coherent (txs ++ [reaction.transaction])) (clock : Clock) :
    Indexed (txs ++ [reaction.transaction]) ((index policy clock stats reaction).run s).1
      ((index policy clock stats reaction).run s).2 := by
  obtain ⟨hfailed, hsummarizes⟩ := h.summarizes.index hcoherent policy clock stats
  have htotal : ((Ledger.index policy clock stats reaction).run s).1.total = stats.total + 1 :=
    total_index
  rw [IndexStats.total, IndexStats.total, hfailed] at htotal
  refine ⟨hfailed.trans h.failed, ?_, h.counts.index, hsummarizes⟩
  rw [List.length_append, List.length_singleton, ← h.total]
  omega

/-- Processing more reactions indexes them with the others. -/
theorem Indexed.indexFrom {stats : IndexStats} (h : Indexed txs stats s)
    {reactions : List (IndexedReaction × Nat)}
    (hcoherent : Coherent (txs ++ reactions.map (·.1.transaction))) :
    Indexed (txs ++ reactions.map (·.1.transaction))
      ((indexFrom policy clocks stats reactions).run s).1
      ((indexFrom policy clocks stats reactions).run s).2 := by
  induction reactions generalizing txs stats s with
  | nil =>
    rw [List.map_nil, List.append_nil]
    exact h
  | cons item rest ih =>
    obtain ⟨reaction, i⟩ := item
    rw [List.map_cons, List.append_cons] at hcoherent ⊢
    rw [run_indexFrom_cons]
    exact ih (h.index (hcoherent.mono (List.subset_append_left _ _)) (clocks i)) hcoherent

/-- Coherent reactions that are indexed from the beginning. -/
theorem indexed_indexAll (policy : RetryPolicy) (clocks : Nat → Clock)
    {reactions : List IndexedReaction} (hcoherent : Coherent (reactions.map (·.transaction))) :
    Indexed (reactions.map (·.transaction)) ((indexAll policy clocks reactions).run .empty).1
      ((indexAll policy clocks reactions).run .empty).2 := by
  have htransactions : reactions.zipIdx.map (·.1.transaction) = reactions.map (·.transaction) := by
    rw [← List.zipIdx_map_fst 0 reactions, List.map_map]
    simp
  rw [← htransactions] at hcoherent ⊢
  exact Indexed.start.indexFrom hcoherent

end Ledger

/-! ## Another order -/

/-- Two lists have the same reactions, and those of each nullifier in the same order. -/
structure Ledger.Reordered (txs txs' : List Reaction) : Prop where
  perm : txs.Perm txs'
  order : ∀ nullifier,
    txs.filter (·.nullifier = nullifier) = txs'.filter (·.nullifier = nullifier)

/-- Neighbours of different nullifiers may change places. -/
theorem Ledger.Reordered.swap {tx tx' : Reaction} (h : tx.nullifier ≠ tx'.nullifier)
    (before after : List Reaction) :
    Reordered (before ++ tx :: tx' :: after) (before ++ tx' :: tx :: after) where
  perm := (List.Perm.swap tx' tx after).append_left before
  order nullifier := by
    rw [List.filter_append, List.filter_append]
    by_cases htx : tx.nullifier = nullifier
    · have htx' : tx'.nullifier ≠ nullifier := fun h' => h (htx.trans h'.symm)
      simp [htx, htx']
    · simp [List.filter_cons, htx]

namespace Store.Summarizes

variable {s s' : Store} {txs txs' : List Reaction}

/-- The ledger does not depend on the order. -/
theorem find?_nullifiers (h : s.Summarizes txs) (h' : s'.Summarizes txs')
    (horder : Reordered txs txs') (nullifier : Nullifier) :
    s.untimed.nullifiers.find? nullifier = s'.untimed.nullifiers.find? nullifier := by
  rw [find?_untimed_nullifiers, find?_untimed_nullifiers, h.row, h'.row, latestRow, latestRow,
    horder.order]

/-- The votes that stand for a message do not depend on the order, except for their own. -/
theorem perm_votesOn (h : s.Summarizes txs) (h' : s'.Summarizes txs')
    (horder : Reordered txs txs') (message : MessageId) :
    (s.votesOn message).Perm (s'.votesOn message) := by
  have huntimed (s : Store) : s.votesOn message =
      (s.untimed.nullifiers.rows.filter (·.messageId = message)).map LedgerRow.vote := by
    change _ = ((s.nullifiers.rows.map LedgerRow.untimed).filter _).map _
    rw [votesOn, List.filter_map, List.map_map]
    rfl
  rw [huntimed, huntimed]
  exact ((Table.perm_rows (h.find?_nullifiers h' horder)).filter _).map _

/-- The tallies do not depend on the order. -/
theorem find?_tallies (h : s.Summarizes txs) (h' : s'.Summarizes txs')
    (horder : Reordered txs txs') (message : MessageId) :
    s.untimed.tallies.find? message = s'.untimed.tallies.find? message := by
  have hsome : (s.tallies.find? message).isSome ↔ (s'.tallies.find? message).isSome := by
    rw [h.tally_isSome, h'.tally_isSome]
    simp only [horder.perm.mem_iff]
  rw [find?_untimed_tallies, find?_untimed_tallies]
  cases ht : s.tallies.find? message with
  | none =>
    have hnone : s'.tallies.find? message = none := by simpa [ht] using hsome
    rw [hnone]
  | some t =>
    obtain ⟨t', ht'⟩ : ∃ t', s'.tallies.find? message = some t' := by
      rw [← Option.isSome_iff_exists, ← hsome, ht]
      rfl
    obtain ⟨tx, htx, hmessage⟩ := (h.tally_isSome message).1 (by rw [ht]; rfl)
    have hfeed : t.feedId = t'.feedId :=
      (h.feed message t ht tx htx hmessage).trans
        (h'.feed message t' ht' tx (horder.perm.mem_iff.1 htx) hmessage).symm
    have hkey : t.messageId = t'.messageId :=
      (Table.key_of_find? ht).trans (Table.key_of_find? ht').symm
    have hversion : t.version = t'.version := by
      rw [h.version message t ht, h'.version message t' ht', horder.perm.countP_eq]
    have hvotes := h.perm_votesOn h' horder message
    have hsums := (h.balanced message).sums ht
    have hsums' := (h'.balanced message).sums ht'
    have hcount : t.totalCount = t'.totalCount := by
      rw [hsums.count, hsums'.count, hvotes.length_eq]
    have hpoint {f : Vote → Point} (hf : Vote.Additive f) : f t.tally = f t'.tally := by
      rw [hsums.sum hf, hsums'.sum hf]
      exact Point.sum_perm (hvotes.map f) (hf.forall_mem_map (h.balanced message).onCurve)
    have htally : t.tally = t'.tally :=
      Vote.eq_of_points (fun k => hpoint (Vote.additive_c1 k)) fun k => hpoint (Vote.additive_c2 k)
    rw [ht', Option.map_some, Option.map_some, Tally.untimed, Tally.untimed, hkey, hfeed, htally,
      hcount, hversion]

end Store.Summarizes

namespace Ledger

/-- Counts that agree with the same tallies are the same. -/
theorem IndexStats.Counts.congr {stats stats' : IndexStats} {s s' : Store} (h : stats.Counts s)
    (h' : stats'.Counts s') (htallies : s.untimed.tallies.rows.Perm s'.untimed.tallies.rows) :
    stats.newVotes = stats'.newVotes ∧ stats.updates = stats'.updates := by
  have hsum (f : Tally → Nat) (hf : f ∘ Tally.untimed = f) :
      (s.tallies.rows.map f).sum = (s'.tallies.rows.map f).sum := by
    have hrows := (htallies.map f).sum_eq
    change ((s.tallies.rows.map Tally.untimed).map f).sum =
      ((s'.tallies.rows.map Tally.untimed).map f).sum at hrows
    rwa [List.map_map, List.map_map, hf] at hrows
  have hcounts := hsum (·.totalCount) rfl
  have hversions := hsum (·.version) rfl
  rw [h.totalCounts, h'.totalCounts] at hcounts
  rw [h.versions, h'.versions] at hversions
  exact ⟨hcounts, by omega⟩

/-- If reactions are put into another order in which those of each nullifier still follow each other
as before, then none fails in either order, and both lead to the same ledger, the same tallies and
the same numbers of new votes and updates, times aside. -/
theorem reordering_keeps_ledger (policy policy' : RetryPolicy) (clocks clocks' : Nat → Clock)
    (reactions reactions' : List IndexedReaction)
    (horder : Reordered (reactions.map (·.transaction)) (reactions'.map (·.transaction)))
    (hcoherent : Coherent (reactions.map (·.transaction))) :
    let out := (indexAll policy clocks reactions).run .empty
    let out' := (indexAll policy' clocks' reactions').run .empty
    (out.1.failed = 0 ∧ out.1.newVotes + out.1.updates = reactions.length) ∧
    (out'.1.failed = 0 ∧ out'.1.newVotes + out'.1.updates = reactions'.length) ∧
    (out.1.newVotes = out'.1.newVotes ∧ out.1.updates = out'.1.updates) ∧
    (∀ message, (out.2.tallies.find? message).map Tally.untimed =
      (out'.2.tallies.find? message).map Tally.untimed) ∧
    ∀ nullifier, (out.2.nullifiers.find? nullifier).map LedgerRow.untimed =
      (out'.2.nullifiers.find? nullifier).map LedgerRow.untimed := by
  intro out out'
  have hcoherent' : Coherent (reactions'.map (·.transaction)) :=
    hcoherent.mono fun tx htx => horder.perm.mem_iff.2 htx
  have h := indexed_indexAll policy clocks hcoherent
  have h' := indexed_indexAll policy' clocks' hcoherent'
  have htallies := h.summarizes.find?_tallies h'.summarizes horder
  have hrows := h.summarizes.find?_nullifiers h'.summarizes horder
  refine ⟨⟨h.failed, ?_⟩, ⟨h'.failed, ?_⟩, h.counts.congr h'.counts (Table.perm_rows htallies),
    fun message => ?_, fun nullifier => ?_⟩
  · simpa using h.total
  · simpa using h'.total
  · have hmessage := htallies message
    rwa [Store.find?_untimed_tallies, Store.find?_untimed_tallies] at hmessage
  · have hnullifier := hrows nullifier
    rwa [Store.find?_untimed_nullifiers, Store.find?_untimed_nullifiers] at hnullifier

/-- A reaction of a nullifier that has one point everywhere. -/
def uniformReactionOf (nullifier : Nat) (p : Point) : IndexedReaction :=
  ⟨{ uniformReaction p with nullifier := ⟨.ofNat nullifier⟩ }, 0⟩

/-- Two vote on one message, in either order, and one of them changes the vote. -/
theorem swapped_voters_count_alike :
    let reactions := [uniformReactionOf 1 .generator, uniformReactionOf 2 .generator,
      uniformReactionOf 1 .identity]
    let reactions' := [uniformReactionOf 2 .generator, uniformReactionOf 1 .generator,
      uniformReactionOf 1 .identity]
    let out := (indexAll {} (fun _ _ => default) reactions).run .empty
    let out' := (indexAll {} (fun _ _ => default) reactions').run .empty
    (out.1.newVotes = 2 ∧ out.1.updates = 1) ∧ (out'.1.newVotes = 2 ∧ out'.1.updates = 1) ∧
      (out.2.tallies.find? default).isSome ∧
      (out.2.tallies.find? default).map Tally.untimed =
        (out'.2.tallies.find? default).map Tally.untimed := by
  intro reactions reactions'
  have hnullifiers : (uniformReactionOf 1 .generator).transaction.nullifier ≠
      (uniformReactionOf 2 .generator).transaction.nullifier := by
    decide
  have horder : Reordered (reactions.map (·.transaction)) (reactions'.map (·.transaction)) :=
    .swap hnullifiers [] [(uniformReactionOf 1 .identity).transaction]
  have hcoherent : Coherent (reactions.map (·.transaction)) := by
    have hgenerator := uniformReaction_onCurve Point.generator_onCurve
    have hidentity := uniformReaction_onCurve Point.identity_onCurve
    refine ⟨?_, ?_, by simpa [reactions] using ⟨hgenerator, hgenerator, hidentity⟩⟩ <;>
      simp [reactions, uniformReactionOf, uniformReaction]
  have hstats : ((indexAll {} (fun _ _ => default) reactions).run .empty).1 = ⟨2, 1, 0⟩ := by
    decide +kernel
  have hsome : (((indexAll {} (fun _ _ => default) reactions).run .empty).2.tallies.find?
      default).isSome := by
    decide +kernel
  obtain ⟨-, -, ⟨hnew, hupdates⟩, htallies, -⟩ := reordering_keeps_ledger {} {} (fun _ _ => default)
    (fun _ _ => default) reactions reactions' horder hcoherent
  rw [hstats] at hnew hupdates
  intro out out'
  refine ⟨?_, ⟨hnew.symm, hupdates.symm⟩, hsome, htallies default⟩
  rw [show out.1 = ⟨2, 1, 0⟩ from hstats]
  exact ⟨rfl, rfl⟩

end Ledger

end Reactions
