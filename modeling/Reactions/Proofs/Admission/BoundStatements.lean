import Reactions.Proofs.Bytes.Encoding
import Reactions.Proofs.Node.Tasks
import Reactions.Proofs.Store.Endings

/-!
# Statements bind what they are about

The public inputs of a statement have their places, so a statement can be read off them
(`Statement.inputs_injective`). What admission puts into a statement can in turn be read off it:
points stand for themselves, and an identifier is the only canonical one that denotes its field
element (`Identifier.eq_of_toField?`). A second identifier that denotes the same element modulo the
order would be larger than the order, and no statement is put together of such a one. So two
reactions that are posed to the verifier with the same inputs agree in everything that a statement
is about (`Poses.agree`).
-/

namespace Reactions

/-! ## The inputs of a statement -/

namespace Point

/-- A point is known by its coordinates. -/
theorem coordinates_injective : Function.Injective coordinates := by
  intro p q h
  obtain ⟨hx, hy⟩ : p.x = q.x ∧ p.y = q.y := by simpa [coordinates] using h
  cases p
  cases q
  exact Point.mk.injEq .. ▸ ⟨hx, hy⟩

/-- A point has two coordinates. -/
theorem length_flatMap_coordinates (points : List Point) :
    (points.flatMap coordinates).length = 2 * points.length := by
  induction points with
  | nil => rfl
  | cons p rest ih =>
    rw [List.flatMap_cons, List.length_append, ih, List.length_cons]
    simp only [coordinates, List.length_cons, List.length_nil]
    omega

/-- Points can be read off their coordinates, put one behind the other. -/
theorem flatMap_coordinates_injective :
    Function.Injective fun points : List Point => points.flatMap coordinates := by
  intro ps qs h
  induction ps generalizing qs with
  | nil =>
    cases qs with
    | nil => rfl
    | cons q qs => cases h
  | cons p ps ih =>
    cases qs with
    | nil => cases h
    | cons q qs =>
      obtain ⟨hhead, hrest⟩ := List.append_inj h rfl
      rw [coordinates_injective hhead, ih hrest]

end Point

/-- A statement can be read off its public inputs. -/
theorem Statement.inputs_injective : Function.Injective inputs := by
  have hlength (points points' : Vector Point emojiSlots) :
      (points.toList.flatMap Point.coordinates).length =
        (points'.toList.flatMap Point.coordinates).length := by
    rw [Point.length_flatMap_coordinates, Point.length_flatMap_coordinates, Vector.length_toList,
      Vector.length_toList]
  intro s t h
  obtain ⟨hrest, hc2⟩ := List.append_inj' h (hlength s.c2 t.c2)
  obtain ⟨hrest, hc1⟩ := List.append_inj' hrest (hlength s.c1 t.c1)
  obtain ⟨hscalars, hkey⟩ := List.append_inj hrest rfl
  have hkey := Point.coordinates_injective hkey
  have hc1 := Vector.toList_inj.1 (Point.flatMap_coordinates_injective hc1)
  have hc2 := Vector.toList_inj.1 (Point.flatMap_coordinates_injective hc2)
  obtain ⟨hnullifier, hmessage, hroot, hauthor⟩ : s.nullifier = t.nullifier ∧
      s.messageId = t.messageId ∧ s.membersRoot = t.membersRoot ∧
      s.authorCommitment = t.authorCommitment := by
    simpa using hscalars
  cases s
  cases t
  exact Statement.mk.injEq .. ▸ ⟨hnullifier, hmessage, hroot, hauthor, hkey, hc1, hc2⟩

/-! ## Canonical identifiers -/

namespace Identifier

variable {kind : IdKind} {id id' : Identifier kind} {x : ScalarField}

/-- The identifier denotes a field element, as no other one does. -/
def Canonical (id : Identifier kind) : Prop := ∃ x, id.toField? = some x

/-- Only one identifier of a kind denotes a field element. -/
theorem eq_of_toField? (h : id.toField? = some x) (h' : id'.toField? = some x) : id = id' := by
  have hword : x.toBytes = id.word := (Residue.ofBytes?_eq_some_iff scalarOrder_le).1 h
  have hword' : x.toBytes = id'.word := (Residue.ofBytes?_eq_some_iff scalarOrder_le).1 h'
  cases id
  cases id'
  exact congrArg mk (hword.symm.trans hword')

/-- What a canonical identifier denotes is the class of its number. -/
theorem reduce_word (h : id.toField? = some x) : Residue.reduce id.word = x := by
  have hnumber : id.word.toNat = x.val := Residue.ofNat?_eq_some_iff.1 h
  rw [Residue.reduce, hnumber, Residue.ofNat_val]

/-- Canonical identifiers whose numbers are of one class are the same. -/
theorem Canonical.eq_of_reduce (h : id.Canonical) (h' : id'.Canonical)
    (hclass : (Residue.reduce id.word : ScalarField) = Residue.reduce id'.word) : id = id' := by
  obtain ⟨x, hx⟩ := h
  obtain ⟨x', hx'⟩ := h'
  rw [reduce_word hx, reduce_word hx'] at hclass
  subst hclass
  exact eq_of_toField? hx hx'

end Identifier

/-! ## What admission asks about -/

namespace Admission

variable {verifier verifier' : Verifier} {secrets secrets' : FeedSecrets} {window window' : Nat}
  {policy policy' : RetryPolicy} {clock clock' : Clock} {tx tx' : Reaction}
  {nullifier messageId nullifier' messageId' : ScalarField} {key key' : Point}
  {author author' : Commitment} {st st' : Statement}

/-- Admission may put a statement about a reaction before the verifier: it is one of those that were
put together when the answers of the store were in. -/
def Poses (verifier : Verifier) (secrets : FeedSecrets) (window : Nat) (policy : RetryPolicy)
    (clock : Clock) (tx : Reaction) (st : Statement) : Prop :=
  ∃ statements, (assess verifier secrets window policy clock tx).run.MayEnd (.ok (.ok statements)) ∧
    st ∈ statements

/-- If there are statements then all that they need is known, the roots aside, and each is about one
of those. -/
theorem known_of_mayEnd_assess {statements : List Statement}
    (h : (assess verifier secrets window policy clock tx).run.MayEnd (.ok (.ok statements))) :
    ∃ nullifier messageId key author, Known verifier secrets tx nullifier messageId key author ∧
      ∀ st ∈ statements, ∃ root, st = statement tx nullifier messageId key author root := by
  rcases assess_cases verifier secrets window policy clock tx with
    ⟨outcome, hnone, hassess⟩ | ⟨nullifier, messageId, key, author, hknown⟩
  · rw [hassess] at h
    exact absurd (Program.mayEnd_pure_iff.1 h) (hnone statements)
  · rw [assess_of_known hknown, Work.mayEnd_bind_ok_iff] at h
    obtain ⟨roots, -, h⟩ := h
    obtain rfl := Except.ok.inj (Work.mayEnd_pure_ok_iff.1 h)
    refine ⟨nullifier, messageId, key, author, hknown, fun st hst => ?_⟩
    obtain ⟨root, -, rfl⟩ := List.mem_map.1 hst
    exact ⟨root, rfl⟩

/-- With all that it needs known, a statement is put together about whatever root the store answers
with. -/
theorem Known.poses (h : Known verifier secrets tx nullifier messageId key author) {row : RootEntry}
    {root : ScalarField} (hroot : row.rootField? = some root) :
    Poses verifier secrets window policy clock tx
      (statement tx nullifier messageId key author root) := by
  refine ⟨[statement tx nullifier messageId key author root], ?_, List.mem_singleton_self _⟩
  have hroots : ((Membership.recentRoots policy clock tx.feedId (max window 1)).adapt
      AdmissionError.membership).run.MayEnd (.ok [row]) := ⟨[row], rfl⟩
  rw [assess_of_known h]
  refine Work.mayEnd_bind_ok_iff.2 ⟨[row], hroots, Work.mayEnd_pure_ok_iff.2 ?_⟩
  rw [List.filterMap_cons_some hroot]
  rfl

/-- A reaction is let in only if its statements can be put together. -/
theorem known_of_mayEnd_verdict {outcome : Except AdmissionError Verdict}
    (h : (verdict verifier secrets window policy clock tx).run.MayEnd outcome)
    (haccepted : Accepted outcome) :
    ∃ nullifier messageId key author, Known verifier secrets tx nullifier messageId key author := by
  obtain ⟨answer, rfl, haccepts⟩ := haccepted
  obtain ⟨assessed, hassessed, h⟩ := Work.mayEnd_bind_ok_iff.1 h
  cases assessed with
  | error rejection =>
    cases Work.mayEnd_pure_ok_iff.1 h
    cases haccepts
  | ok statements =>
    obtain ⟨nullifier, messageId, key, author, hknown, -⟩ := known_of_mayEnd_assess hassessed
    exact ⟨nullifier, messageId, key, author, hknown⟩

/-- Two reactions agree in everything that a statement is about but the root, the secrets of their
feeds and messages included. -/
structure Agree (secrets secrets' : FeedSecrets) (tx tx' : Reaction) : Prop where
  nullifier : tx.nullifier = tx'.nullifier
  messageId : tx.messageId = tx'.messageId
  c1 : tx.c1 = tx'.c1
  c2 : tx.c2 = tx'.c2
  key : ∃ key, secrets.key? tx.feedId = some key ∧ secrets'.key? tx'.feedId = some key
  author : ∃ author, secrets.author? tx.feedId tx.messageId = some author ∧
    secrets'.author? tx'.feedId tx'.messageId = some author

/-- Equal statements are about reactions that agree in all that the statements need. -/
theorem Known.agree (h : Known verifier secrets tx nullifier messageId key author)
    (h' : Known verifier' secrets' tx' nullifier' messageId' key' author')
    {root root' : ScalarField}
    (heq : statement tx nullifier messageId key author root =
      statement tx' nullifier' messageId' key' author' root') : Agree secrets secrets' tx tx' := by
  obtain ⟨rfl, rfl, -, hauthor, rfl, hc1, hc2⟩ := Statement.mk.inj heq
  obtain rfl : author = author' := by
    cases author
    cases author'
    exact congrArg Commitment.mk hauthor
  exact ⟨Identifier.eq_of_toField? h.nullifier h'.nullifier,
    Identifier.eq_of_toField? h.messageId h'.messageId, hc1, hc2, ⟨key, h.key, h'.key⟩,
    ⟨author, h.author, h'.author⟩⟩

/-- The inputs of a statement fix what it is about. -/
theorem Poses.agree (h : Poses verifier secrets window policy clock tx st)
    (h' : Poses verifier' secrets' window' policy' clock' tx' st')
    (hinputs : st.inputs = st'.inputs) :
    Agree secrets secrets' tx tx' := by
  obtain ⟨statements, hassess, hst⟩ := h
  obtain ⟨statements', hassess', hst'⟩ := h'
  obtain ⟨nullifier, messageId, key, author, hknown, hstatements⟩ := known_of_mayEnd_assess hassess
  obtain ⟨nullifier', messageId', key', author', hknown', hstatements'⟩ :=
    known_of_mayEnd_assess hassess'
  obtain ⟨root, rfl⟩ := hstatements st hst
  obtain ⟨root', rfl⟩ := hstatements' st' hst'
  exact hknown.agree hknown' (Statement.inputs_injective hinputs)

end Admission

end Reactions
