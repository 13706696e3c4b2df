import Reactions.Proofs.BabyJubJub.VoteSum
import Reactions.Proofs.Ledger.History

/-!
# Tallies are sums of votes

At any time, the tally of a message is the sum of the votes that the ledger has for it, point by
point, and its count is their number (`tally_is_sum_of_votes`). The invariant, `Balanced`, is kept
by every reaction that is accepted: a first vote is appended to the votes on its message and added
to the tally, and a change of vote takes the place of the old one in both. The latter is where the
points have to be on the curve, for only there does subtracting the old vote cancel it.
-/

namespace Reactions

/-! ## Sums of votes -/

/-- A tally holds the sum of votes and counts them. -/
structure Tally.Sums (t : Tally) (votes : List Vote) : Prop where
  onCurve : t.tally.OnCurve
  count : t.totalCount = votes.length
  sum : ∀ {f}, Vote.Additive f → f t.tally = Point.sum (votes.map f)

namespace Tally.Sums

variable {t : Tally} {votes : List Vote} {now : Timestamp}

/-- A tally without votes sums none. -/
theorem empty (message : MessageId) (feed : FeedId) : (Tally.empty message feed now).Sums [] where
  onCurve := Vote.identity_onCurve
  count := rfl
  sum hf := hf.identity

/-- A vote that is added is one more in the sum. -/
theorem addVote (h : t.Sums votes) (hvotes : ∀ v ∈ votes, v.OnCurve) {vote : Vote}
    (hvote : vote.OnCurve) : (t.addVote vote now).Sums (votes ++ [vote]) where
  onCurve := h.onCurve.add hvote
  count := by rw [Tally.addVote, List.length_append, h.count]; rfl
  sum {f} hf := by
    rw [List.map_append, List.map_singleton,
      Point.sum_append_singleton (hf.forall_mem_map hvotes) (hf.onCurve hvote), ← h.sum hf]
    exact hf.add h.onCurve hvote

/-- The new vote stands in the sum where the old one stood. -/
theorem replaceVote {before after : List Vote} {old new : Vote}
    (h : t.Sums (before ++ old :: after)) (hvotes : ∀ v ∈ before ++ old :: after, v.OnCurve)
    (hnew : new.OnCurve) : (t.replaceVote old new now).Sums (before ++ new :: after) := by
  rw [List.forall_mem_append, List.forall_mem_cons] at hvotes
  obtain ⟨hbefore, hold, hafter⟩ := hvotes
  refine ⟨(h.onCurve.sub hold).add hnew, ?_, fun {f} hf => ?_⟩
  · rw [Tally.replaceVote, h.count]
    simp
  · have hreplace := Point.sum_replace (hf.onCurve hold) (hf.onCurve hnew)
      (hf.forall_mem_map hbefore) (hf.forall_mem_map hafter)
    rw [← List.map_cons, ← List.map_cons, ← List.map_append, ← List.map_append, ← h.sum hf,
      ← hf.sub h.onCurve hold] at hreplace
    rw [← hreplace]
    exact hf.add (h.onCurve.sub hold) hnew

end Tally.Sums

/-! ## The votes on a message -/

/-- The votes that the ledger has for a message. -/
def Store.votesOn (s : Store) (message : MessageId) : List Vote :=
  (s.nullifiers.rows.filter (·.messageId = message)).map LedgerRow.vote

namespace Ledger

variable {s : Store} {tx : Reaction} {now : Timestamp} {kind : ReactionKind} {tally : Tally}
  {row : LedgerRow} {message : MessageId}

/-- An accepted reaction appends a row to the ledger and adds its vote to the tally, or it puts the
new row in the place of an old one for the same message, and its vote in the place of the old. -/
theorem rows_record_cases (h : Accepts s tx now kind tally row) (audit : AuditRow) :
    row.messageId = tx.messageId ∧ row.vote = tx.vote ∧
      (((s.record tally row audit).nullifiers.rows = s.nullifiers.rows ++ [row] ∧
          tally = (current s tx now).addVote tx.vote now) ∨
        ∃ before old after, s.nullifiers.rows = before ++ old :: after ∧
          (s.record tally row audit).nullifiers.rows = before ++ row :: after ∧
          old.messageId = tx.messageId ∧
          tally = (current s tx now).replaceVote old.vote tx.vote now) := by
  have hkey := h.nullifier
  cases h with
  | first hfeed hrow =>
    exact ⟨rfl, rfl, .inl ⟨Table.rows_save_of_none hrow, rfl⟩⟩
  | change hfeed hrow hmessage =>
    obtain ⟨before, after, hrows, hsave⟩ := Table.rows_save_of_some (hkey ▸ hrow)
    exact ⟨hmessage, rfl, .inr ⟨before, _, after, hrows, hsave, hmessage, rfl⟩⟩

/-- An accepted reaction does not change the votes on other messages. -/
theorem votesOn_record_of_ne (h : Accepts s tx now kind tally row) (audit : AuditRow)
    (hne : tx.messageId ≠ message) :
    (s.record tally row audit).votesOn message = s.votesOn message := by
  obtain ⟨hmessage, -, ⟨hrows, -⟩ | ⟨before, old, after, hbefore, hafter, hold, -⟩⟩ :=
    rows_record_cases h audit
  · rw [Store.votesOn, Store.votesOn, hrows]
    simp [hmessage, hne]
  · rw [Store.votesOn, Store.votesOn, hbefore, hafter]
    simp [hmessage, hold, hne]

/-- An accepted reaction appends its vote to those on its message and adds it to the tally, or it
puts it in the place of an old one in both. -/
theorem votesOn_record_cases (h : Accepts s tx now kind tally row) (audit : AuditRow) :
    ((s.record tally row audit).votesOn tx.messageId = s.votesOn tx.messageId ++ [tx.vote] ∧
      tally = (current s tx now).addVote tx.vote now) ∨
    ∃ before old after, s.votesOn tx.messageId = before ++ old :: after ∧
      (s.record tally row audit).votesOn tx.messageId = before ++ tx.vote :: after ∧
      tally = (current s tx now).replaceVote old tx.vote now := by
  obtain ⟨hmessage, hvote, ⟨hrows, rfl⟩ | ⟨before, old, after, hbefore, hafter, hold, rfl⟩⟩ :=
    rows_record_cases h audit
  · refine .inl ⟨?_, rfl⟩
    rw [Store.votesOn, Store.votesOn, hrows]
    simp [hmessage, hvote]
  · refine .inr ⟨(before.filter (·.messageId = tx.messageId)).map LedgerRow.vote, old.vote,
      (after.filter (·.messageId = tx.messageId)).map LedgerRow.vote, ?_, ?_, rfl⟩
    · rw [Store.votesOn, hbefore]
      simp [hold]
    · rw [Store.votesOn, hafter]
      simp [hmessage, hvote]

end Ledger

/-! ## The invariant -/

/-- The tally of a message agrees with the ledger: there is one as soon as there is a vote, and it
sums the votes, all of which are on the curve. -/
structure Store.Balanced (message : MessageId) (s : Store) : Prop where
  isSome : (s.tallies.find? message).isSome ↔ s.votesOn message ≠ []
  onCurve : ∀ vote ∈ s.votesOn message, vote.OnCurve
  sums : ∀ {t}, s.tallies.find? message = some t → t.Sums (s.votesOn message)

namespace Store.Balanced

variable {s : Store} {message : MessageId}

/-- In the empty store there is neither a tally nor a vote. -/
theorem empty (message : MessageId) : Store.empty.Balanced message where
  isSome := ⟨(nomatch ·), fun h => absurd rfl h⟩
  onCurve := fun _ h => nomatch h
  sums h := nomatch h

/-- A tally that sums the votes there are agrees with the ledger. -/
theorem of_some {t : Tally} (ht : s.tallies.find? message = some t) {votes : List Vote}
    (hvotes : s.votesOn message = votes) (hne : votes ≠ []) (honCurve : ∀ v ∈ votes, v.OnCurve)
    (hsums : t.Sums votes) : s.Balanced message where
  isSome := by simp [ht, hvotes, hne]
  onCurve := hvotes ▸ honCurve
  sums h := by
    rw [hvotes, ← Option.some.inj (ht.symm.trans h)]
    exact hsums

end Store.Balanced

namespace Ledger

variable {s : Store} {tx : Reaction} {now : Timestamp} {kind : ReactionKind} {tally : Tally}
  {row : LedgerRow} {message : MessageId}

/-- The tally that a reaction starts from sums the votes that there are. -/
theorem sums_current (h : s.Balanced tx.messageId) (now : Timestamp) :
    (current s tx now).Sums (s.votesOn tx.messageId) := by
  rw [current]
  cases htally : s.tallies.find? tx.messageId with
  | some t => exact h.sums htally
  | none =>
    have hvotes : s.votesOn tx.messageId = [] := by simpa [htally] using h.isSome
    rw [hvotes]
    exact .empty tx.messageId tx.feedId

/-- An accepted reaction to another message leaves the tally and the votes. -/
theorem balanced_record_of_ne (h : s.Balanced message)
    (haccepts : Accepts s tx now kind tally row) (audit : AuditRow)
    (hne : tx.messageId ≠ message) : (s.record tally row audit).Balanced message := by
  have htally := find?_tallies_record haccepts audit message
  have hvotes := votesOn_record_of_ne haccepts audit hne
  rw [if_neg hne] at htally
  refine ⟨?_, ?_, fun {t} ht => ?_⟩
  · rw [htally, hvotes]
    exact h.isSome
  · rw [hvotes]
    exact h.onCurve
  · rw [htally] at ht
    rw [hvotes]
    exact h.sums ht

/-- An accepted reaction to the message changes both alike. -/
theorem balanced_record_of_eq (h : s.Balanced tx.messageId)
    (haccepts : Accepts s tx now kind tally row) (audit : AuditRow) (hvote : tx.vote.OnCurve) :
    (s.record tally row audit).Balanced tx.messageId := by
  have htally := find?_tallies_record haccepts audit tx.messageId
  have hsums := sums_current h now
  have hcurve := h.onCurve
  rw [if_pos rfl] at htally
  rcases votesOn_record_cases haccepts audit with
    ⟨hvotes, rfl⟩ | ⟨before, old, after, hbefore, hvotes, rfl⟩
  · refine .of_some htally hvotes (by simp) ?_ (hsums.addVote hcurve hvote)
    exact List.forall_mem_append.2 ⟨hcurve, by simpa using hvote⟩
  · rw [hbefore] at hsums hcurve
    refine .of_some htally hvotes (by simp) ?_ (hsums.replaceVote hcurve hvote)
    rw [List.forall_mem_append, List.forall_mem_cons] at hcurve ⊢
    exact ⟨hcurve.1, hvote, hcurve.2.2⟩

/-- In every history whose votes on a message are on the curve, the tally of that message agrees
with the ledger. -/
theorem balanced_of {events : List Event} {message : MessageId}
    (hcurve : ∀ tx ∈ submitted events, tx.messageId = message → tx.vote.OnCurve) :
    (History.of events).store.Balanced message := by
  refine History.extend_induction (P := fun h => h.store.Balanced message) hcurve
    (.empty message) (fun h s hbalanced hquiet => ?_)
    fun h tx height now kind tally row hbalanced htx haccepts => ?_
  · obtain ⟨failures, id, rfl⟩ := hquiet
    exact ⟨hbalanced.isSome, hbalanced.onCurve, hbalanced.sums⟩
  · by_cases hm : tx.messageId = message
    · subst hm
      exact balanced_record_of_eq hbalanced haccepts _ (htx rfl)
    · exact balanced_record_of_ne hbalanced haccepts _ hm

/-- A message has a tally as soon as the ledger has a row for it; each point of the tally is the sum
of that point over the votes of the message's rows; and the count is the number of those rows. -/
theorem tally_is_sum_of_votes (events : List Event) (message : MessageId)
    (hcurve : ∀ tx ∈ submitted events, tx.messageId = message → tx.vote.OnCurve) :
    let s := (History.of events).store
    let rows := s.nullifiers.rows.filter (·.messageId = message)
    ((s.tallies.find? message).isSome ↔ ∃ row ∈ s.nullifiers.rows, row.messageId = message) ∧
    ∀ t, s.tallies.find? message = some t →
      t.totalCount = rows.length ∧
      ∀ k : Fin emojiSlots,
        (t.tally.slot k).c1 = Point.sum (rows.map fun row => (row.vote.slot k).c1) ∧
        (t.tally.slot k).c2 = Point.sum (rows.map fun row => (row.vote.slot k).c2) := by
  intro s rows
  have h : s.Balanced message := balanced_of hcurve
  have hvotes : s.votesOn message = rows.map LedgerRow.vote := rfl
  refine ⟨?_, fun t ht => ?_⟩
  · rw [h.isSome, hvotes]
    simp [rows, List.filter_eq_nil_iff]
  · have hsums := h.sums ht
    rw [hvotes] at hsums
    refine ⟨by simpa using hsums.count, fun k => ⟨?_, ?_⟩⟩
    · simpa [Function.comp_def] using hsums.sum (Vote.additive_c1 k)
    · simpa [Function.comp_def] using hsums.sum (Vote.additive_c2 k)

/-- A reaction that has one point everywhere. -/
def uniformReaction (p : Point) : Reaction where
  feedId := default
  messageId := default
  nullifier := default
  c1 := .replicate emojiSlots p
  c2 := .replicate emojiSlots p
  proof := []
  circuitVersion := ""
  backup := []
  sender := ""

/-- A reaction made of one point is on the curve if the point is. -/
theorem uniformReaction_onCurve {p : Point} (hp : p.OnCurve) :
    (uniformReaction p).vote.OnCurve := by
  rw [Vote.onCurve_iff]
  intro k
  simp [Reaction.vote, uniformReaction, Vote.ofParts, Vote.slot, Ciphertext.OnCurve, hp]

/-- A vote that is changed once, after a lost race, is counted once. -/
theorem changed_vote_is_sum :
    let events : List Event := [
      .submit {} (fun _ => default) (uniformReaction .generator) 0,
      .failNext [.conflict],
      .submit {} (fun _ => default) (uniformReaction .identity) 1]
    ∃ t, (History.of events).store.tallies.find? default = some t ∧ t.totalCount = 1 ∧
      ∀ k : Fin emojiSlots, (t.tally.slot k).c1 = .identity := by
  intro events
  have hcurve : ∀ tx ∈ submitted events, tx.messageId = default → tx.vote.OnCurve := by
    intro tx htx _
    rcases List.mem_pair.1 htx with rfl | rfl
    · exact uniformReaction_onCurve Point.generator_onCurve
    · exact uniformReaction_onCurve Point.identity_onCurve
  have hrows : (History.of events).store.nullifiers.rows =
      [.firstVote default default (uniformReaction .identity).vote [] default] := by
    rfl
  have h := tally_is_sum_of_votes events default hcurve
  simp only [hrows] at h
  obtain ⟨t, ht⟩ := Option.isSome_iff_exists.1 (h.1.2 ⟨_, .head _, rfl⟩)
  refine ⟨t, ht, (h.2 t ht).1, fun k => ((h.2 t ht).2 k).1.trans ?_⟩
  simp [LedgerRow.firstVote, Reaction.vote, uniformReaction, Vote.ofParts, Vote.slot, Point.sum,
    Point.add_identity]

end Ledger

end Reactions
