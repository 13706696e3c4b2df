import Reactions.Proofs.BabyJubJub.Decryption
import Reactions.Proofs.Ledger.AuditLog
import Reactions.Proofs.Ledger.TallySum

/-!
# Decrypted tallies count the latest votes

If all votes on a message are encrypted under one public key, each for one emoji, then the secret
key finds in every slot of the message's tally the number of nullifiers whose latest accepted vote
was for that emoji (`decrypted_tally_is_count`). Decryption is additive on votes, so it turns the
sum that the tally is into a sum of multiples of the generator, one for each ledger row; and each
row has the vote of the reaction that was accepted last under its nullifier.
-/

namespace Reactions

/-- The generator is added once for every element that satisfies a predicate. -/
theorem Point.sum_multiple_countP {α : Type} (p : α → Bool) (l : List α) :
    sum (l.map fun a => multiple (if p a then 1 else 0) .generator) =
      multiple (l.countP p) .generator := by
  have h : (l.map fun a => (if p a then 1 else 0) • EdwardsPoint.generator).sum =
      l.countP p • EdwardsPoint.generator := by
    induction l with
    | nil => simp
    | cons a rest ih =>
      rw [List.map_cons, List.sum_cons, ih, List.countP_cons, ← add_smul, Nat.add_comm]
  have hcoe := congrArg Subtype.val h
  rw [EdwardsPoint.coe_sum, List.map_map, EdwardsPoint.coe_nsmul] at hcoe
  simpa only [Function.comp_def, EdwardsPoint.coe_nsmul, EdwardsPoint.coe_generator] using hcoe

namespace Ledger

/-- The number of ledger rows of a message whose nullifier's latest accepted reaction makes a
choice. -/
def History.count (h : History) (message : MessageId) (choice : Reaction → Nat) (k : Nat) : Nat :=
  (h.store.nullifiers.rows.filter (·.messageId = message)).countP fun row =>
    (h.latest? row.nullifier).map choice = some k

variable {events : List Event} {message : MessageId} {key : SecretKey} {choice : Reaction → Nat}

/-- The row of a message has the vote of a reaction on that message, the one that was accepted last
under its nullifier. -/
theorem latest_of_mem_rows {row : LedgerRow}
    (hrow : row ∈ (History.of events).store.nullifiers.rows) :
    ∃ tx ∈ (History.of events).accepted, (History.of events).latest? row.nullifier = some tx ∧
      tx.messageId = row.messageId ∧ tx.vote = row.vote := by
  have hfind := Table.find?_eq_some_iff.2 ⟨hrow, rfl⟩
  obtain ⟨tx, hlatest, hmessage, hvote, -⟩ := ((History.Logged.of events).row _ row hfind).latest
  exact ⟨tx, List.mem_of_find?_eq_some hlatest, hlatest, hmessage, hvote⟩

/-- In every slot, the sum of the decrypted votes on a message is the multiple of the generator by
the number of latest votes for the slot. -/
theorem sum_decrypted_votes
    (hvotes : ∀ tx ∈ submitted events, tx.messageId = message →
      ∃ g : Generator, (g.encryptVote key.publicKey (choice tx)).1 = some tx.vote)
    (k : Fin emojiSlots) :
    Point.sum (((History.of events).store.votesOn message).map fun v =>
        key.decryptPoint (v.slot k)) =
      Point.multiple ((History.of events).count message choice k) .generator := by
  rw [Store.votesOn, List.map_map, History.count, ← Point.sum_multiple_countP]
  refine congrArg Point.sum (List.map_congr_left fun row hrow => ?_)
  obtain ⟨hmem, hmessage⟩ := List.mem_filter.1 hrow
  obtain ⟨tx, haccepted, hlatest, htx, hvote⟩ := latest_of_mem_rows hmem
  obtain ⟨g, hg⟩ := History.forall_accepted hvotes tx haccepted
    (htx.trans (of_decide_eq_true hmessage))
  obtain ⟨rs, hrs⟩ := Vote.eq_oneHot_of_encryptVote hg
  simp only [Function.comp_apply, ← hvote, hrs, hlatest, Option.map_some, Option.some.injEq,
    decide_eq_true_eq]
  rw [Vote.decryptPoint_oneHot, oneHot]
  simp only [eq_comm]

/-- The secret key finds in every slot of the tally of a message how many nullifiers have their
latest accepted vote on it for that slot, if all votes on the message are encrypted under its public
key and the search goes far enough. -/
theorem decrypted_tally_is_count (events : List Event) (message : MessageId) (key : SecretKey)
    (choice : Reaction → Nat)
    (hvotes : ∀ tx ∈ submitted events, tx.messageId = message →
      ∃ g : Generator, (g.encryptVote key.publicKey (choice tx)).1 = some tx.vote)
    (k : Fin emojiSlots) (max : UInt64)
    (hmax : (History.of events).count message choice k ≤ max.toNat) (t : Tally)
    (ht : (History.of events).store.tallies.find? message = some t) :
    key.decryptCount (t.tally.slot k) max.toNat =
      some ((History.of events).count message choice k) := by
  have hcurve : ∀ tx ∈ submitted events, tx.messageId = message → tx.vote.OnCurve := by
    intro tx htx hmessage
    obtain ⟨g, hg⟩ := hvotes tx htx hmessage
    obtain ⟨rs, hrs⟩ := Vote.eq_oneHot_of_encryptVote hg
    exact hrs ▸ Vote.oneHot_onCurve key _ rs
  have hsum := ((balanced_of hcurve).sums ht).sum (Vote.additive_decryptPoint key k)
  have hbound : max.toNat < subgroupOrder := lt_trans max.toNat_lt (by decide)
  rw [sum_decrypted_votes hvotes] at hsum
  exact key.decryptCount_of_multiple hsum hmax hbound

/-- A reaction that votes for an emoji under the public key of a secret key. Its backup tells which
one, by its length. -/
def ballot (key : SecretKey) (emoji : Nat) : Reaction :=
  let vote := ((Generator.mk [] 0).encryptVote key.publicKey emoji).1.getD .identity
  { feedId := default
    messageId := default
    nullifier := default
    c1 := vote.c1
    c2 := vote.c2
    proof := []
    circuitVersion := ""
    backup := .replicate emoji 0
    sender := "" }

/-- A ballot holds the encryption of its choice under some randomness. -/
theorem encryptVote_ballot (key : SecretKey) {emoji : Nat} (h : emoji < emojiSlots) :
    ∃ g : Generator, (g.encryptVote key.publicKey (ballot key emoji).backup.length).1 =
      some (ballot key emoji).vote := by
  have hlength : (ballot key emoji).backup.length = emoji := List.length_replicate
  refine ⟨.mk [] 0, ?_⟩
  rw [hlength, Reaction.vote, ballot, Generator.encryptVote, if_pos h]
  simp [Vote.ofParts_parts]

/-- Some secret key. -/
def someKey : SecretKey := ⟨3⟩

/-- One nullifier votes for one emoji and then, after a lost race, for another. -/
def changeOfChoice : List Event := [
  .submit {} (fun _ => default) (ballot someKey 2) 0,
  .failNext [.conflict],
  .submit {} (fun _ => default) (ballot someKey 4) 1]

/-- After the change, the vote counts for the second choice alone. -/
theorem count_changeOfChoice :
    (History.of changeOfChoice).count default (·.backup.length) 2 = 0 ∧
      (History.of changeOfChoice).count default (·.backup.length) 4 = 1 := ⟨rfl, rfl⟩

/-- It counts for the latter emoji only. -/
theorem changed_choice_is_counted :
    ∃ t, (History.of changeOfChoice).store.tallies.find? default = some t ∧
      someKey.decryptCount (t.tally.slot 2) (10 : UInt64).toNat = some 0 ∧
      someKey.decryptCount (t.tally.slot 4) (10 : UInt64).toNat = some 1 := by
  have hvotes : ∀ tx ∈ submitted changeOfChoice, tx.messageId = default →
      ∃ g : Generator, (g.encryptVote someKey.publicKey tx.backup.length).1 = some tx.vote := by
    intro tx htx _
    rcases List.mem_pair.1 htx with rfl | rfl
    · exact encryptVote_ballot someKey (by decide)
    · exact encryptVote_ballot someKey (by decide)
  have hsome : ((History.of changeOfChoice).store.tallies.find? default).isSome := rfl
  obtain ⟨t, ht⟩ := Option.isSome_iff_exists.1 hsome
  have hcounted (k : Fin emojiSlots) (n : Nat) (hn : n ≤ (10 : UInt64).toNat)
      (hcount : (History.of changeOfChoice).count default (·.backup.length) k = n) :
      someKey.decryptCount (t.tally.slot k) (10 : UInt64).toNat = some n := by
    subst hcount
    exact decrypted_tally_is_count changeOfChoice default someKey (·.backup.length) hvotes k 10
      hn t ht
  exact ⟨t, ht, hcounted 2 0 (by decide) count_changeOfChoice.1,
    hcounted 4 1 (by decide) count_changeOfChoice.2⟩

end Ledger

end Reactions
