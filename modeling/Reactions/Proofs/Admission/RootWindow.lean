import Reactions.Proofs.Admission.Verdict
import Reactions.Proofs.Membership.RootHistory
import Reactions.Verifier.KeyRing

/-!
# Admission by some root of the window

Admission goes through the newest roots of a feed and stops early, yet it admits a reaction exactly
if the statement about one of them is verified (`verdict_iff_admissible`). What makes it stop
without an acceptance does not depend on the root: the policy on versions and the layout of the
proof are the same for every statement (`KeyRing.examine_cases`). So a wider window admits no less,
and where a reaction is refused although everything but a good root is there, the code of the
refusal tells a proof that cannot be read from one that does not check.
-/

namespace Reactions

namespace KeyRing

variable {ring : KeyRing} {version : String} {key : VerificationKey}

/-- The policy lets a version pass that has a key and is not known to be vulnerable. -/
theorem policyRejection_eq_none_iff :
    ring.verifier.policyRejection version = none ↔
      ring.isVulnerable version = false ∧ (ring.key? version).isSome := by
  cases hvulnerable : ring.isVulnerable version <;>
    simp [Verifier.policyRejection, verifier, supports, hvulnerable, Option.isSome_iff_ne_none]

/-- A version with a key that is not vulnerable: either the layout of the proof is wrong whatever
the statement, or every statement is verified or refused as not proven. -/
theorem examine_cases (hvulnerable : ring.isVulnerable version = false)
    (hkey : ring.key? version = some key) (proof : Bytes) :
    (Proof.decode? proof = none ∧ ∃ message, ∀ statement,
      ring.examine version proof statement = .reject ⟨.invalidFormat, message⟩) ∨
    ((Proof.decode? proof).isSome ∧ ∀ statement,
      (ring.examine version proof statement).accepts = true ∨
      ∃ message, ring.examine version proof statement = .reject ⟨.invalidProof, message⟩) := by
  have hexamine (statement : Statement) :
      ring.examine version proof statement = ring.judge key version proof statement := by
    rw [examine, hvulnerable, hkey]
    rfl
  simp only [hexamine, judge]
  cases Proof.decode? proof with
  | none => exact .inl ⟨rfl, _, fun _ => rfl⟩
  | some decoded =>
    refine .inr ⟨rfl, fun statement => ?_⟩
    dsimp only
    cases key.check? decoded statement.inputs with
    | none => exact .inr ⟨_, rfl⟩
    | some good =>
      cases good with
      | false => exact .inr ⟨_, rfl⟩
      | true =>
        refine .inl ?_
        cases ring.deprecated.contains version <;> rfl

end KeyRing

/-! ## Roots that can be read -/

namespace Store.Rooted

variable {s : Store} {feed : FeedId}

/-- Every root of the history is that of a tree, so it is read back as a field element. -/
theorem rootField?_isSome (h : s.Rooted feed) {row : RootEntry} (hrow : row ∈ s.history feed) :
    ∃ root, row.rootField? = some root := by
  obtain ⟨sizes, -, -, hroots⟩ := h.sizes
  have hmem : row.root ∈ (s.history feed).map (·.root) := List.mem_map_of_mem hrow
  rw [hroots] at hmem
  obtain ⟨size, -, hroot⟩ := List.mem_map.1 hmem
  refine ⟨Merkle.root ((s.leaves feed).take size), ?_⟩
  rw [RootEntry.rootField?, ← hroot]
  exact Residue.ofBytes?_toBytes scalarOrder_le _

/-- Where there is no root to be read, there is no member either. -/
theorem members_eq_nil (h : s.Rooted feed) {count : Nat} (hcount : 0 < count)
    (hrows : (s.history feed).take count = []) : s.members feed = [] := by
  rcases List.take_eq_nil_iff.1 hrows with hzero | hhistory
  · omega
  · have hleaves : s.leaves feed = [] := not_not.1 fun hleaves => h.history_ne_nil hleaves hhistory
    rwa [← List.length_eq_zero_iff, length_leaves, List.length_eq_zero_iff] at hleaves

/-- The newest roots of a feed are read off its history, and the store stays as it is. -/
theorem finish_recentRoots (h : s.Rooted feed) (policy : RetryPolicy) (clock : Clock) {count : Nat}
    (hcount : 0 < count) (u : UnitOfWork) :
    ∃ u', Work.finish (Membership.recentRoots policy clock feed count) u s =
      (.ok ((s.history feed).take count), u', s) :=
  Membership.finish_recentRoots_of_history policy clock (h.members_eq_nil hcount) u

end Store.Rooted

namespace Admission

/-! ## Conclusions from answers -/

section Answers

variable {examine : Statement → Except String Verdict} {feed : FeedId} {statements : List Statement}

/-- An acceptance settles the matter. -/
theorem isOpen_of_accepts {verdict : Verdict} (h : verdict.accepts = true) :
    isOpen (.ok verdict) = false := by
  cases verdict with
  | accept => rfl
  | acceptWithWarning message => rfl
  | reject r => cases h

/-- The last answer is the answer to one of the statements. -/
theorem exists_of_getLast?_answers {answer : Except String Verdict}
    (h : (answers examine statements).getLast? = some answer) :
    ∃ statement ∈ statements, examine statement = answer := by
  rw [getLast?_answers, Option.or_eq_some_iff] at h
  rcases h with h | ⟨-, h⟩
  · exact List.mem_map.1 (List.mem_of_find?_eq_some h)
  · exact List.mem_map.1 (List.mem_of_getLast? h)

/-- If there is something to ask then there is a last answer. -/
theorem getLast?_answers_isSome (examine : Statement → Except String Verdict)
    (h : statements ≠ []) :
    ∃ answer, (answers examine statements).getLast? = some answer := by
  have hlast : ((statements.map examine).getLast?).isSome := by simpa using h
  obtain ⟨answer, hanswer⟩ := Option.isSome_iff_exists.1 hlast
  rw [getLast?_answers, hanswer]
  cases (statements.map examine).find? fun answer => !isOpen answer with
  | none => exact ⟨answer, rfl⟩
  | some settled => exact ⟨settled, rfl⟩

/-- Admission accepts if the last answer does. -/
theorem accepted_conclude_iff {answers : List (Except String Verdict)} :
    Accepted (conclude feed answers) ↔
      ∃ verdict, answers.getLast? = some (.ok verdict) ∧ verdict.accepts = true := by
  rw [Accepted, conclude]
  constructor
  · rintro ⟨verdict, hconclude, haccepts⟩
    split at hconclude
    · cases hconclude
    · cases hconclude
    · rename_i hlast
      cases hconclude
      exact ⟨verdict, hlast, haccepts⟩
  · rintro ⟨verdict, hlast, haccepts⟩
    rw [hlast]
    exact ⟨verdict, rfl, haccepts⟩

end Answers

variable {ring : KeyRing} {tx : Reaction} {key : VerificationKey} {statements : List Statement}

/-- The early exits lose no acceptance: a reaction gets in if and only if one of its statements is
verified. -/
theorem accepted_conclude_answers (hvulnerable : ring.isVulnerable tx.circuitVersion = false)
    (hkey : ring.key? tx.circuitVersion = some key) (feed : FeedId) :
    Accepted (conclude feed (answers (ring.verifier.examine tx.circuitVersion tx.proof)
      statements)) ↔
      ∃ statement ∈ statements,
        (ring.examine tx.circuitVersion tx.proof statement).accepts = true := by
  rw [accepted_conclude_iff]
  constructor
  · rintro ⟨verdict, hlast, haccepts⟩
    obtain ⟨statement, hmem, hexamine⟩ := exists_of_getLast?_answers hlast
    cases hexamine
    exact ⟨statement, hmem, haccepts⟩
  · rintro ⟨statement, hmem, haccepts⟩
    rcases ring.examine_cases hvulnerable hkey tx.proof with ⟨-, message, hformat⟩ | ⟨-, hcases⟩
    · rw [hformat] at haccepts
      cases haccepts
    · -- an answer that leaves nothing open is an acceptance, and there is one
      have hsettled : ∃ answer ∈
          statements.map (ring.verifier.examine tx.circuitVersion tx.proof), !isOpen answer :=
        ⟨_, List.mem_map_of_mem hmem,
          by simpa [KeyRing.verifier] using isOpen_of_accepts haccepts⟩
      obtain ⟨answer, hfind⟩ := Option.isSome_iff_exists.1 (List.find?_isSome.2 hsettled)
      obtain ⟨found, -, hanswer⟩ := List.mem_map.1 (List.mem_of_find?_eq_some hfind)
      have hopen : isOpen answer = false := by simpa using List.find?_some hfind
      refine ⟨ring.examine tx.circuitVersion tx.proof found, ?_, ?_⟩
      · rw [getLast?_answers, hfind, Option.some_or, ← hanswer]
        rfl
      · rcases hcases found with haccepts | ⟨message, hreject⟩
        · exact haccepts
        · rw [← hanswer, KeyRing.verifier] at hopen
          simp [hreject, isOpen] at hopen

/-- If no statement is verified, then the code of the refusal depends on the layout of the proof. -/
theorem conclude_answers_of_not_accepted
    (hvulnerable : ring.isVulnerable tx.circuitVersion = false)
    (hkey : ring.key? tx.circuitVersion = some key) (feed : FeedId) (hne : statements ≠ [])
    (hnone : ∀ statement ∈ statements,
      (ring.examine tx.circuitVersion tx.proof statement).accepts = false) :
    ∃ message, conclude feed (answers (ring.verifier.examine tx.circuitVersion tx.proof)
        statements) =
      .ok (.reject ⟨if (Proof.decode? tx.proof).isSome then .invalidProof else .invalidFormat,
        message⟩) := by
  obtain ⟨answer, hlast⟩ :=
    getLast?_answers_isSome (ring.verifier.examine tx.circuitVersion tx.proof) hne
  obtain ⟨statement, hmem, hexamine⟩ := exists_of_getLast?_answers hlast
  cases hexamine
  rw [conclude, hlast]
  rcases ring.examine_cases hvulnerable hkey tx.proof with
    ⟨hdecode, message, hformat⟩ | ⟨hdecode, hcases⟩
  · refine ⟨message, ?_⟩
    simp [KeyRing.verifier, hformat, hdecode]
  · rcases hcases statement with haccepts | ⟨message, hreject⟩
    · rw [hnone statement hmem] at haccepts
      cases haccepts
    · refine ⟨message, ?_⟩
      simp [KeyRing.verifier, hreject, hdecode]

/-- The window has room for one root at least. -/
theorem window_pos (window : Nat) : 0 < max window 1 := by omega

/-! ## Verdicts on a store whose roots fit its leaves -/

/-- A reaction may enter by one of some roots of its feed, if `key?` is what is known of the key of
the feed and `author?` what is known of the author of the message. -/
structure Admissible (ring : KeyRing) (key? : Option Point) (author? : Option Commitment)
    (tx : Reaction) (rows : List RootEntry) : Prop where
  notVulnerable : ring.isVulnerable tx.circuitVersion = false
  hasKey : (ring.key? tx.circuitVersion).isSome
  /-- The identifiers are canonical, the key of the feed and the author of the message are known,
  and the statement that they make with one of the roots is verified. -/
  verified : ∃ nullifier messageId key author,
    tx.nullifier.toField? = some nullifier ∧ tx.messageId.toField? = some messageId ∧
    key? = some key ∧ author? = some author ∧
    ∃ row ∈ rows, ∃ root, row.rootField? = some root ∧
      (ring.examine tx.circuitVersion tx.proof
        (statement tx nullifier messageId key author root)).accepts = true

/-- What is admissible stays so when there are more roots. -/
theorem Admissible.mono {key? : Option Point} {author? : Option Commitment}
    {rows rows' : List RootEntry} (h : Admissible ring key? author? tx rows)
    (hsubset : rows ⊆ rows') : Admissible ring key? author? tx rows' where
  notVulnerable := h.notVulnerable
  hasKey := h.hasKey
  verified := by
    obtain ⟨nullifier, messageId, key, author, hnullifier, hmessage, hkey, hauthor, row, hrow,
      hverified⟩ := h.verified
    exact ⟨nullifier, messageId, key, author, hnullifier, hmessage, hkey, hauthor, row,
      hsubset hrow, hverified⟩

/-- With everything known but the roots, a reaction may enter if and only if one of the statements
is verified. -/
theorem admissible_iff_of_known {secrets : FeedSecrets} {nullifier messageId : ScalarField}
    {feedKey : Point} {author : Commitment}
    (h : Known ring.verifier secrets tx nullifier messageId feedKey author)
    (rows : List RootEntry) :
    Admissible ring (secrets.key? tx.feedId) (secrets.author? tx.feedId tx.messageId) tx rows ↔
      ∃ st ∈ (rows.filterMap (·.rootField?)).map (statement tx nullifier messageId feedKey author),
        (ring.examine tx.circuitVersion tx.proof st).accepts = true := by
  obtain ⟨hnotVulnerable, hhasKey⟩ := KeyRing.policyRejection_eq_none_iff.1 h.policy
  constructor
  · intro hadmissible
    obtain ⟨nullifier', messageId', key', author', hnullifier, hmessage, hkey, hauthor, row, hrow,
      root, hroot, haccepts⟩ := hadmissible.verified
    cases hnullifier.symm.trans h.nullifier
    cases hmessage.symm.trans h.messageId
    cases hkey.symm.trans h.key
    cases hauthor.symm.trans h.author
    exact ⟨_, List.mem_map_of_mem (List.mem_filterMap.2 ⟨row, hrow, hroot⟩), haccepts⟩
  · rintro ⟨st, hst, haccepts⟩
    obtain ⟨root, hroot, rfl⟩ := List.mem_map.1 hst
    obtain ⟨row, hrow, hfield⟩ := List.mem_filterMap.1 hroot
    exact ⟨hnotVulnerable, hhasKey, nullifier, messageId, feedKey, author, h.nullifier,
      h.messageId, h.key, h.author, row, hrow, root, hfield, haccepts⟩

/-- Of what is admissible all is known that a statement needs. -/
theorem Admissible.known {secrets : FeedSecrets} {rows : List RootEntry}
    (h : Admissible ring (secrets.key? tx.feedId) (secrets.author? tx.feedId tx.messageId)
      tx rows) :
    ∃ nullifier messageId feedKey author,
      Known ring.verifier secrets tx nullifier messageId feedKey author := by
  obtain ⟨nullifier, messageId, feedKey, author, hnullifier, hmessage, hkey, hauthor, -⟩ :=
    h.verified
  exact ⟨nullifier, messageId, feedKey, author,
    KeyRing.policyRejection_eq_none_iff.2 ⟨h.notVulnerable, h.hasKey⟩, hnullifier, hmessage, hkey,
    hauthor⟩

/-- The verdict on a reaction when the roots of its feed fit the leaves: it gets in if and only if
it may enter by one of the newest roots, and the store stays as it is. -/
theorem finish_verdict_of_rooted (ring : KeyRing) (secrets : FeedSecrets) (window : Nat)
    (policy : RetryPolicy) (clock : Clock) (tx : Reaction) (u : UnitOfWork) {s : Store}
    (hrooted : s.Rooted tx.feedId) :
    ∃ outcome u', Work.finish (verdict ring.verifier secrets window policy clock tx) u s =
        (outcome, u', s) ∧
      (Accepted outcome ↔
        Admissible ring (secrets.key? tx.feedId) (secrets.author? tx.feedId tx.messageId) tx
          ((s.history tx.feedId).take (max window 1))) := by
  by_cases h : ∃ nullifier messageId feedKey author,
      Known ring.verifier secrets tx nullifier messageId feedKey author
  · obtain ⟨nullifier, messageId, feedKey, author, h⟩ := h
    obtain ⟨hnotVulnerable, hhasKey⟩ := KeyRing.policyRejection_eq_none_iff.1 h.policy
    obtain ⟨key, hkey⟩ := Option.isSome_iff_exists.1 hhasKey
    obtain ⟨u', hroots⟩ := hrooted.finish_recentRoots policy clock (window_pos window) u
    refine ⟨_, u', finish_verdict_of_known h hroots, ?_⟩
    rw [accepted_conclude_answers hnotVulnerable hkey, admissible_iff_of_known h]
  · obtain ⟨outcome, hrefused, hfinish⟩ := finish_verdict_of_not_known window policy clock u s
      fun nullifier messageId key author hknown => h ⟨nullifier, messageId, key, author, hknown⟩
    exact ⟨outcome, u, hfinish, fun haccepted => absurd haccepted hrefused,
      fun hadmissible => absurd hadmissible.known h⟩

/-- A refusal of a reaction for which everything but a good root is there. -/
theorem finish_verdict_of_no_good_root {secrets : FeedSecrets} {nullifier messageId : ScalarField}
    {feedKey : Point} {author : Commitment}
    (h : Known ring.verifier secrets tx nullifier messageId feedKey author) (window : Nat)
    (policy : RetryPolicy) (clock : Clock) (u : UnitOfWork) {s : Store}
    (hrooted : s.Rooted tx.feedId) (hne : (s.history tx.feedId).take (max window 1) ≠ [])
    (hnone : ¬ Admissible ring (secrets.key? tx.feedId) (secrets.author? tx.feedId tx.messageId) tx
      ((s.history tx.feedId).take (max window 1))) :
    ∃ message u', Work.finish (verdict ring.verifier secrets window policy clock tx) u s =
      (.ok (.reject ⟨if (Proof.decode? tx.proof).isSome then .invalidProof else .invalidFormat,
        message⟩), u', s) := by
  obtain ⟨hnotVulnerable, hhasKey⟩ := KeyRing.policyRejection_eq_none_iff.1 h.policy
  obtain ⟨key, hkey⟩ := Option.isSome_iff_exists.1 hhasKey
  obtain ⟨u', hroots⟩ := hrooted.finish_recentRoots policy clock (window_pos window) u
  rw [admissible_iff_of_known h] at hnone
  have hstatements : (((s.history tx.feedId).take (max window 1)).filterMap
      (·.rootField?)).map (statement tx nullifier messageId feedKey author) ≠ [] := by
    obtain ⟨row, hrow⟩ := List.exists_mem_of_ne_nil _ hne
    obtain ⟨root, hroot⟩ := hrooted.rootField?_isSome (List.mem_of_mem_take hrow)
    exact List.ne_nil_of_mem (List.mem_map_of_mem (List.mem_filterMap.2 ⟨row, hrow, hroot⟩))
  obtain ⟨message, hconclude⟩ := conclude_answers_of_not_accepted hnotVulnerable hkey tx.feedId
    hstatements fun st hst => Bool.eq_false_iff.2 fun haccepts => hnone ⟨st, hst, haccepts⟩
  exact ⟨message, u', (finish_verdict_of_known h hroots).trans (by rw [hconclude])⟩

end Admission

end Reactions
