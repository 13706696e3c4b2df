import Reactions.Proofs.BabyJubJub.VoteSum
import Reactions.Proofs.Bytes.CanonicalWords
import Reactions.Proofs.Json.ReadBack
import Reactions.Rows.LedgerRow
import Reactions.Rows.Member
import Reactions.Rows.MembershipEvent
import Reactions.Rows.Reaction
import Reactions.Rows.Tally

/-!
# Rows are read back from their JSON text

Each row and event is an object of its fields, so it is read back if every field is: identifiers and
roots from hexadecimal words, blobs from hexadecimal text, counters from plain numbers, texts from
quoted ones, times from RFC 3339. Points are checked when they are read, and pass because they lie
on the curve and are written in canonical coordinates. `rows_survive_json` says so of the text of
all eight kinds of rows and events.
-/

namespace Reactions

open Reader Fields

/-! ## Parts of rows -/

/-- An identifier is read back. -/
theorem Identifier.reads {kind : IdKind} (id : Identifier kind) : Reads reader (toJson id) id :=
  (reads_bytes32 id.word).map Identifier.mk

/-- A commitment is read back. -/
theorem Commitment.reads (c : Commitment) : Reads reader (toJson c) c := by
  have hvalue : ofBytes? c.toBytes = some c :=
    congrArg (Option.map mk) (Residue.ofBytes?_toBytes scalarOrder_le c.value)
  refine (reads_bytes32 c.toBytes).bind ?_
  rw [hvalue]
  rfl

/-- A point of the curve is read back. -/
theorem Point.reads {p : Point} (h : p.OnCurve) : Reads reader (toJson p) p := by
  have hwords : Reads (record (Prod.mk <$> required "x" bytes32 <*> required "y" bytes32))
      (toJson p) (p.x.toBytes, p.y.toBytes) := by
    refine reads_record (by simp) (.seq (.map _ ?_) ?_)
    · exact takes_required (by simp) (reads_bytes32 _)
    · exact takes_required (by simp) (reads_bytes32 _)
  have hpoint : Point.ofBytes p.x.toBytes p.y.toBytes = .ok p :=
    Point.ofBytes_eq_ok_iff.2 ⟨rfl, rfl, h⟩
  exact hwords.bind (congrArg (Except.mapError ReadError.point) hpoint)

/-- A ciphertext on the curve is read back. -/
theorem Ciphertext.reads {c : Ciphertext} (h : c.OnCurve) : Reads reader (toJson c) c := by
  refine reads_record (by simp) (.seq (.map _ ?_) ?_)
  · exact takes_required (by simp) (Point.reads h.1)
  · exact takes_required (by simp) (Point.reads h.2)

/-- A vote on the curve is read back. -/
theorem Vote.reads {v : Vote} (h : v.OnCurve) : Reads reader (toJson v) v :=
  (reads_vector fun c hc => Ciphertext.reads (h c hc)).map Vote.mk

/-! ## Rows -/

/-- The row of a member is read back. -/
theorem MemberCommitment.reads (row : MemberCommitment) : Reads reader (toJson row) row := by
  refine reads_record (by simp) (.seq (.seq (.map _ ?_) ?_) ?_)
  · exact takes_required (by simp) (Identifier.reads _)
  · exact takes_required (by simp) (Commitment.reads _)
  · exact takes_required (by simp) (reads_timestamp _)

/-- The row of a root is read back if its height fits a word. -/
theorem RootEntry.reads {row : RootEntry} (hheight : row.blockHeight < UInt64.size) :
    Reads reader (toJson row) row := by
  refine reads_record (by simp) (.seq (.seq (.seq (.map _ ?_) ?_) ?_) ?_)
  · exact takes_required (by simp) (Identifier.reads _)
  · exact takes_required (by simp) (reads_bytes32 _)
  · exact takes_required (by simp) (reads_nat64 hheight)
  · exact takes_required (by simp) (reads_timestamp _)

/-- A tally on the curve is read back if its counts fit a word. -/
theorem Tally.reads {row : Tally} (htally : row.tally.OnCurve)
    (hcount : row.totalCount < UInt64.size) (hversion : row.version < UInt64.size) :
    Reads reader (toJson row) row := by
  refine reads_record (by simp) (.seq (.seq (.seq (.seq (.seq (.map _ ?_) ?_) ?_) ?_) ?_) ?_)
  · exact takes_required (by simp) (Identifier.reads _)
  · exact takes_required (by simp) (Identifier.reads _)
  · exact takes_required (by simp) (Vote.reads htally)
  · exact takes_required (by simp) (reads_nat64 hcount)
  · exact takes_required (by simp) (reads_nat64 hversion)
  · exact takes_required (by simp) (reads_timestamp _)

/-- A ledger row is read back if its vote is on the curve. -/
theorem LedgerRow.reads {row : LedgerRow} (hvote : row.vote.OnCurve) :
    Reads reader (toJson row) row := by
  refine reads_record (by simp) (.seq (.seq (.seq (.seq (.seq (.map _ ?_) ?_) ?_) ?_) ?_) ?_)
  · exact takes_required (by simp) (Identifier.reads _)
  · exact takes_required (by simp) (Identifier.reads _)
  · exact takes_required (by simp) (Vote.reads hvote)
  · exact takes_required (by simp) (reads_bytes _)
  · exact takes_required (by simp) (reads_timestamp _)
  · exact takes_required (by simp) (reads_timestamp _)

/-- An audit row is read back if its vote is on the curve and its numbers fit a word. -/
theorem AuditRow.reads {row : AuditRow} (hid : row.id < UInt64.size)
    (hheight : row.blockHeight < UInt64.size) (hvote : row.vote.OnCurve) :
    Reads reader (toJson row) row := by
  refine reads_record (by simp)
    (.seq (.seq (.seq (.seq (.seq (.seq (.seq (.seq (.map _ ?_) ?_) ?_) ?_) ?_) ?_) ?_) ?_) ?_)
  · exact takes_required (by simp) (reads_nat64 hid)
  · exact takes_required (by simp) (reads_nat64 hheight)
  · exact takes_required (by simp) (Identifier.reads _)
  · exact takes_required (by simp) (Identifier.reads _)
  · exact takes_required (by simp) (Identifier.reads _)
  · exact takes_required (by simp) (Vote.reads hvote)
  · exact takes_required (by simp) (reads_bytes _)
  · exact takes_required (by simp) (reads_string _)
  · exact takes_required (by simp) (reads_timestamp _)

/-- A reaction is read back if its points are on the curve. -/
theorem Reaction.reads {r : Reaction} (hc1 : ∀ p ∈ r.c1, p.OnCurve) (hc2 : ∀ p ∈ r.c2, p.OnCurve) :
    Reads reader (toJson r) r := by
  refine reads_record (by simp)
    (.seq (.seq (.seq (.seq (.seq (.seq (.seq (.seq (.map _ ?_) ?_) ?_) ?_) ?_) ?_) ?_) ?_) ?_)
  · exact takes_required (by simp) (Identifier.reads _)
  · exact takes_required (by simp) (Identifier.reads _)
  · exact takes_required (by simp) (Identifier.reads _)
  · exact takes_required (by simp) (reads_vector fun p hp => Point.reads (hc1 p hp))
  · exact takes_required (by simp) (reads_vector fun p hp => Point.reads (hc2 p hp))
  · exact takes_required (by simp) (reads_bytes _)
  · exact takes_required (by simp) (reads_string _)
  · exact takes_required (by simp) (reads_bytes _)
  · exact takes_required (by simp) (reads_string _)

/-- The reaction of a block is read back if its points are on the curve and the height fits a word.
-/
theorem IndexedReaction.reads {r : IndexedReaction} (hc1 : ∀ p ∈ r.transaction.c1, p.OnCurve)
    (hc2 : ∀ p ∈ r.transaction.c2, p.OnCurve) (hheight : r.blockHeight < UInt64.size) :
    Reads reader (toJson r) r := by
  refine reads_record (by simp) (.seq (.map _ ?_) ?_)
  · exact takes_required (by simp) (Reaction.reads hc1 hc2)
  · exact takes_required (by simp) (reads_nat64 hheight)

/-- A kind is read back from its name, kept or not. -/
theorem MembershipKind.reads (kept : Bool) (kind : MembershipKind) :
    Reads (reader kept) (.string kind.name) kind := by
  cases kind <;> rfl

/-- An event about a member is read back if its numbers fit a word. -/
theorem MembershipEvent.reads (kept : Bool) {e : MembershipEvent}
    (hgeneration : e.keyGeneration < UInt64.size) (hheight : e.blockHeight < UInt64.size) :
    Reads (reader kept) (toJson e) e := by
  refine reads_record (by simp) (.seq (.seq (.seq (.seq (.map _ ?_) ?_) ?_) ?_) ?_)
  · exact takes_required (by simp) (MembershipKind.reads kept _)
  · exact takes_required (by simp) (Identifier.reads _)
  · exact takes_required (by simp) (reads_string _)
  · exact takes_required (by simp) (reads_nat64 hgeneration)
  · exact takes_required (by simp) (reads_nat64 hheight)

/-! ## Documents -/

/-- Every row and event is read back from its own JSON text, if its points lie on the curve and its
counters fit into sixty-four bits. Texts may hold any characters, blobs any bytes, and times be any
times. -/
theorem rows_survive_json :
    (∀ row : MemberCommitment, MemberCommitment.reader.document (toJson row).render = .ok row) ∧
    (∀ row : RootEntry, row.blockHeight < UInt64.size →
      RootEntry.reader.document (toJson row).render = .ok row) ∧
    (∀ row : Tally, row.tally.OnCurve → row.totalCount < UInt64.size → row.version < UInt64.size →
      Tally.reader.document (toJson row).render = .ok row) ∧
    (∀ row : LedgerRow, row.vote.OnCurve →
      LedgerRow.reader.document (toJson row).render = .ok row) ∧
    (∀ row : AuditRow, row.id < UInt64.size → row.blockHeight < UInt64.size → row.vote.OnCurve →
      AuditRow.reader.document (toJson row).render = .ok row) ∧
    (∀ r : Reaction, (∀ p ∈ r.c1, p.OnCurve) → (∀ p ∈ r.c2, p.OnCurve) →
      Reaction.reader.document (toJson r).render = .ok r) ∧
    (∀ (kept : Bool) (e : MembershipEvent), e.keyGeneration < UInt64.size →
      e.blockHeight < UInt64.size →
      (MembershipEvent.reader kept).document (toJson e).render = .ok e) ∧
    (∀ r : IndexedReaction, (∀ p ∈ r.transaction.c1, p.OnCurve) →
      (∀ p ∈ r.transaction.c2, p.OnCurve) → r.blockHeight < UInt64.size →
      IndexedReaction.reader.document (toJson r).render = .ok r) := by
  refine ⟨fun row => ?_, fun row hheight => ?_, fun row htally hcount hversion => ?_,
    fun row hvote => ?_, fun row hid hheight hvote => ?_, fun r hc1 hc2 => ?_,
    fun kept e hgeneration hheight => ?_, fun r hc1 hc2 hheight => ?_⟩
  · exact document_render (MemberCommitment.reads row)
  · exact document_render (RootEntry.reads hheight)
  · exact document_render (Tally.reads htally hcount hversion)
  · exact document_render (LedgerRow.reads hvote)
  · exact document_render (AuditRow.reads hid hheight hvote)
  · exact document_render (Reaction.reads hc1 hc2)
  · exact document_render (MembershipEvent.reads kept hgeneration hheight)
  · exact document_render (IndexedReaction.reads hc1 hc2 hheight)

/-- The last nanosecond of the year 9999, within a leap second. -/
def lastMoment : Timestamp := ⟨⟨⟨9999, 12, 31⟩, 23, 59, 60, 999999999⟩, by decide⟩

/-- Texts with escapes of every kind, the largest counters, and points of the main subgroup. -/
theorem extreme_rows_survive :
    let top := UInt64.size - 1
    let text := "\"\\\n\x01\x7f\u00e9\u2028"
    let vote : Vote := ⟨.replicate _ ⟨.generator, .identity⟩⟩
    let member : MemberCommitment := ⟨default, ⟨-1⟩, lastMoment⟩
    let root : RootEntry := ⟨default, default, top, lastMoment⟩
    let tally : Tally := ⟨default, default, vote, top, 0, lastMoment⟩
    let ledger : LedgerRow := ⟨default, default, vote, [0, 255], lastMoment, lastMoment⟩
    let audit : AuditRow :=
      ⟨top, top, default, default, default, vote, [0, 255], text, lastMoment⟩
    let reaction : Reaction := ⟨default, default, default, .replicate _ .generator,
      .replicate _ .identity, [0, 255], text, [], text⟩
    let event : MembershipEvent := ⟨.unbanned, default, text, top, 0⟩
    vote.OnCurve ∧ top < UInt64.size ∧ 0 < UInt64.size ∧
      (∀ p ∈ reaction.c1, p.OnCurve) ∧ (∀ p ∈ reaction.c2, p.OnCurve) ∧
      MemberCommitment.reader.document (toJson member).render = .ok member ∧
      RootEntry.reader.document (toJson root).render = .ok root ∧
      Tally.reader.document (toJson tally).render = .ok tally ∧
      LedgerRow.reader.document (toJson ledger).render = .ok ledger ∧
      AuditRow.reader.document (toJson audit).render = .ok audit ∧
      Reaction.reader.document (toJson reaction).render = .ok reaction ∧
      (MembershipEvent.reader false).document (toJson event).render = .ok event ∧
      IndexedReaction.reader.document (toJson (⟨reaction, top⟩ : IndexedReaction)).render =
        .ok ⟨reaction, top⟩ := by
  intro top text vote member root tally ledger audit reaction event
  have hvote : vote.OnCurve := by
    intro c hc
    obtain rfl := Vector.eq_of_mem_replicate hc
    exact ⟨Point.generator_onCurve, Point.identity_onCurve⟩
  have hc1 : ∀ p ∈ reaction.c1, p.OnCurve := by
    intro p hp
    obtain rfl := Vector.eq_of_mem_replicate hp
    exact Point.generator_onCurve
  have hc2 : ∀ p ∈ reaction.c2, p.OnCurve := by
    intro p hp
    obtain rfl := Vector.eq_of_mem_replicate hp
    exact Point.identity_onCurve
  have htop : top < UInt64.size := by decide
  have hzero : 0 < UInt64.size := by decide
  obtain ⟨hmembers, hroots, htallies, hledgers, haudits, htransactions, hevents, hreactions⟩ :=
    rows_survive_json
  exact ⟨hvote, htop, hzero, hc1, hc2, hmembers member, hroots root htop,
    htallies tally hvote htop hzero, hledgers ledger hvote, haudits audit htop htop hvote,
    htransactions reaction hc1 hc2, hevents false event htop hzero,
    hreactions ⟨reaction, top⟩ hc1 hc2 htop⟩

end Reactions
