import Reactions.Proofs.Admission.BoundStatements
import Reactions.Proofs.Ledger.TallySum
import Reactions.Proofs.Node.BuiltVerifiers
import Reactions.Proofs.Node.Clients

/-!
# Votes of admitted reactions

Of the clients of a node nobody but those who process a reaction writes tallies and ledger rows, and
what they write is filed under the identifiers of their reaction, if the store answers as it did
(`Ledger.Files.filesCanonically`). If only admitted reactions are processed, then these identifiers
are canonical, since admission lets no others pass, and so all tallies and ledger rows are filed
under canonical identifiers at any time (`Errand.canonical_after`).

Hence no two ledger rows have nullifiers that denote one field element, and no two tallies messages
that do. What the verifier is told of a nullifier is that field element, so a proof for it cannot be
used for a second row.
-/

namespace Reactions

/-! ## Rows under canonical identifiers -/

/-- The identifier that a row is filed under is canonical, where it is one of a message or a
nullifier. -/
def Write.Canonical : Write → Prop
  | .tally row => row.messageId.Canonical
  | .nullifier row => row.nullifier.Canonical
  | .commitment _ | .root _ => True

/-- All tallies and ledger rows are filed under canonical identifiers. -/
structure Store.Canonical (s : Store) : Prop where
  tallies : ∀ row ∈ s.tallies.rows, row.messageId.Canonical
  nullifiers : ∀ row ∈ s.nullifiers.rows, row.nullifier.Canonical

namespace Store.Canonical

variable {s s' : Store}

theorem empty : Store.empty.Canonical := ⟨List.forall_mem_nil _, List.forall_mem_nil _⟩

/-- A quiet change leaves all rows where they are filed. -/
theorem quiet (h : s.Canonical) (hquiet : s.Quiet s') : s'.Canonical := by
  obtain ⟨failures, id, rfl⟩ := hquiet
  exact ⟨h.tallies, h.nullifiers⟩

/-- A commit that files its rows canonically keeps them all so. -/
theorem publish (h : s.Canonical) {u : UnitOfWork} (hwrites : ∀ write ∈ u.writes, write.Canonical) :
    (s.publish u).Canonical where
  tallies row hrow := (Store.mem_tallies_publish hrow).elim (hwrites _) (h.tallies row)
  nullifiers row hrow := (Store.mem_nullifiers_publish hrow).elim (hwrites _) (h.nullifiers row)

/-- Ledger rows whose nullifiers denote one field element are the same. -/
theorem nullifier_inj (h : s.Canonical) {row row' : LedgerRow} (hrow : row ∈ s.nullifiers.rows)
    (hrow' : row' ∈ s.nullifiers.rows)
    (hclass : (Residue.reduce row.nullifier.word : ScalarField) =
      Residue.reduce row'.nullifier.word) :
    row = row' :=
  List.inj_on_of_nodup_map s.nullifiers.nodup hrow hrow'
    ((h.nullifiers row hrow).eq_of_reduce (h.nullifiers row' hrow') hclass)

/-- Tallies of messages that denote one field element are the same. -/
theorem tally_inj (h : s.Canonical) {row row' : Tally} (hrow : row ∈ s.tallies.rows)
    (hrow' : row' ∈ s.tallies.rows)
    (hclass : (Residue.reduce row.messageId.word : ScalarField) =
      Residue.reduce row'.messageId.word) :
    row = row' :=
  List.inj_on_of_nodup_map s.tallies.nodup hrow hrow'
    ((h.tallies row hrow).eq_of_reduce (h.tallies row' hrow') hclass)

end Store.Canonical

/-! ## What is committed -/

/-- A unit of work files its rows under canonical identifiers, if it was answered as a store
answers. -/
def FilesCanonically (made : List Made) : Prop :=
  ∀ s, AnsweredBy s made → ∀ write ∈ writesOf made, write.Canonical

/-- Members and roots are filed under no such identifiers. -/
theorem WritesOn.filesCanonically {made : List Made} (h : WritesOn .members made) :
    FilesCanonically made := by
  intro s _ write hwrite
  cases write with
  | commitment row => trivial
  | root row => trivial
  | tally row => exact absurd hwrite (h.tally_not_mem row)
  | nullifier row => exact absurd hwrite (h.nullifier_not_mem row)

/-- What comes of a reaction is filed under the identifiers of the reaction. -/
theorem Ledger.Files.filesCanonically {tx : Reaction} {made : List Made} (h : Files tx made)
    (hnullifier : tx.nullifier.Canonical) (hmessage : tx.messageId.Canonical) :
    FilesCanonically made := by
  intro s hanswered write hwrite
  obtain ⟨now, kind, tally, row, haccepts, hwrites⟩ := h s hanswered
  rw [hwrites] at hwrite
  obtain rfl | rfl := List.mem_pair.1 hwrite
  · rwa [Write.Canonical, haccepts.messageId]
  · rwa [Write.Canonical, haccepts.nullifier]

namespace Errand

/-- Some client has been told that a reaction is let in. -/
def Admitted (errands : Nat → Errand) (turns : List Turn) (tx : Reaction) : Prop :=
  ∃ i verifier secrets window policy clock outcome,
    errands i = .admission verifier secrets window policy clock tx ∧
    ((after errands turns).clients i).process.program = .done (.verdict outcome) ∧
    Admission.Accepted outcome

/-- Whenever a client gets on with processing a reaction, that reaction has been let in. -/
def OnlyAdmitted (errands : Nat → Errand) (turns : List Turn) : Prop :=
  ∀ before i later policy clock tx height, turns = before ++ .client i :: later →
    errands i = .process policy clock tx height → Admitted errands before tx

variable {errands : Nat → Errand} {turns : List Turn} {tx : Reaction}

/-- Who is let in stays so. -/
theorem Admitted.append (h : Admitted errands turns tx) (later : List Turn) :
    Admitted errands (turns ++ later) tx := by
  obtain ⟨i, verifier, secrets, window, policy, clock, outcome, herrand, hdone, haccepted⟩ := h
  exact ⟨i, verifier, secrets, window, policy, clock, outcome, herrand,
    System.done_after_append hdone later, haccepted⟩

/-- A reaction is let in within two turns if the verifier accepts its proof for the newest root of
its feed. Meanwhile nothing happens to the store and to the other clients. -/
theorem admitted_append {i window : Nat} {verifier : Verifier} {secrets : FeedSecrets}
    {policy : RetryPolicy} {clock : Clock} {nullifier messageId root : ScalarField} {key : Point}
    {author : Commitment} {row : RootEntry} {rows : List RootEntry} {verdict : Verdict}
    (herrand : errands i = .admission verifier secrets window policy clock tx)
    (hstart : (after errands turns).clients i = { process := ⟨(errands i).program, default⟩ })
    (hknown : Admission.Known verifier secrets tx nullifier messageId key author)
    (hhistory : (after errands turns).store.history tx.feedId = row :: rows)
    (hroot : row.rootField? = some root)
    (hverdict : verifier.examine tx.circuitVersion tx.proof
      (Admission.statement tx nullifier messageId key author root) = .ok verdict)
    (haccepts : verdict.accepts = true) :
    Admitted errands (turns ++ [.client i, .client i]) tx ∧
      (after errands (turns ++ [.client i, .client i])).store = (after errands turns).store ∧
      ∀ j, j ≠ i → (after errands (turns ++ [.client i, .client i])).clients j =
        (after errands turns).clients j := by
  obtain ⟨next, hrun, hnext⟩ := Admission.exists_run_verdict window policy clock hknown
  rw [herrand, program, hrun] at hstart
  have hafter : after errands (turns ++ [.client i, .client i]) =
      ((after errands turns).step (.client i)).step (.client i) := by
    rw [after, System.after, List.foldl_append]
    rfl
  -- the first turn opens a unit of work, and the second asks for the roots
  have hopened : (after errands turns).step (.client i) = { after errands turns with
      clients := Function.update (after errands turns).clients i
        ⟨⟨.call (.read (.recentRoots tx.feedId (max window 1)))
          fun rows => (next rows).bind fun outcome => .done (.verdict outcome),
          .opened .readOnly⟩, []⟩ } := by
    rw [System.step, hstart]
    rfl
  have hanswer : (UnitOfWork.opened .readOnly).answer (after errands turns).store
      (.recentRoots tx.feedId (max window 1)) = row :: rows.take (max window 1 - 1) := by
    have hcount : max window 1 = (max window 1 - 1) + 1 := by omega
    rw [hcount, UnitOfWork.answer, hhistory]
    rfl
  have hdone : ((after errands (turns ++ [.client i, .client i])).clients i).process.program =
      .done (.verdict (.ok verdict)) := by
    rw [hafter, System.clients_step_self, hopened]
    simp only [Function.update_self, Client.step, Process.step, UnitOfWork.perform, UnitOfWork.read]
    rw [hanswer, hnext, List.filterMap_cons_some hroot, List.map_cons,
      Admission.conclude_answers_of_accepts _ hverdict haccepts]
    rfl
  refine ⟨⟨i, verifier, secrets, window, policy, clock, .ok verdict, herrand, hdone, verdict, rfl,
    haccepts⟩, ?_, fun j hj => ?_⟩
  · rw [hafter, hopened]
    simp [System.step, Client.step, Process.step, UnitOfWork.perform]
  · rw [hafter, System.clients_step_of_ne _ hj, System.clients_step_of_ne _ hj]

/-- Reactions that are let in have canonical identifiers. -/
theorem Admitted.canonical (h : Admitted errands turns tx) :
    tx.nullifier.Canonical ∧ tx.messageId.Canonical := by
  obtain ⟨i, verifier, secrets, window, policy, clock, outcome, herrand, hdone, haccepted⟩ := h
  have hend := System.mayEnd_of_done hdone
  rw [herrand] at hend
  obtain ⟨outcome', hverdict, heq⟩ := Program.mayEnd_bind_iff.1 hend
  obtain rfl := Outcome.verdict.inj (Program.mayEnd_pure_iff.1 heq)
  obtain ⟨nullifier, messageId, _, _, hknown⟩ :=
    Admission.known_of_mayEnd_verdict hverdict haccepted
  exact ⟨⟨nullifier, hknown.nullifier⟩, ⟨messageId, hknown.messageId⟩⟩

/-- A client files rows under canonical identifiers, provided that a reaction that it processes has
such. -/
theorem commits_canonically (errand : Errand)
    (h : ∀ policy clock tx height, errand = .process policy clock tx height →
      tx.nullifier.Canonical ∧ tx.messageId.Canonical) :
    errand.program.Commits FilesCanonically (fun _ _ => True) [] := by
  refine errand.commits_program.weaken fun made hmade => ?_
  cases errand with
  | process policy clock tx height =>
    obtain ⟨hnullifier, hmessage⟩ := h policy clock tx height rfl
    exact Ledger.Files.filesCanonically hmade hnullifier hmessage
  | registry | event | ask | admission => exact WritesOn.filesCanonically hmade

/-- If only admitted reactions are processed then all tallies and ledger rows are filed under
canonical identifiers. -/
theorem canonical_after (h : OnlyAdmitted errands turns) :
    (after errands turns).store.Canonical := by
  have hcommits : ∀ i, .client i ∈ turns →
      (errands i).program.Commits FilesCanonically (fun _ _ => True) [] := by
    intro i hi
    obtain ⟨before, later, hturns⟩ := List.append_of_mem hi
    refine commits_canonically _ fun policy clock tx height herrand => ?_
    exact (h before i later policy clock tx height hturns herrand).canonical
  refine System.after_append_induction [] hcommits .empty (fun _ _ => .quiet) ?_
  intro s made hs hfiles hanswered
  exact hs.publish (hfiles s hanswered)

/-! ### Two voters -/

/-- A reaction with the nullifier of a number. -/
def ballot (n : Nat) : Reaction :=
  { Ledger.uniformReaction .generator with nullifier := ⟨.ofNat n⟩ }

/-- The secrets of the feed and the message of these reactions. -/
def ballotSecrets : FeedSecrets :=
  (FeedSecrets.setKey {} default .generator).setAuthor default default default

/-- All that admission needs to know of such a reaction is known. -/
theorem known_ballot (current : String) {n : Nat} {nullifier : ScalarField}
    (h : (ballot n).nullifier.toField? = some nullifier) :
    Admission.Known (.development current) ballotSecrets (ballot n) nullifier 0 .generator
      default where
  policy := rfl
  nullifier := h
  messageId := by
    have hzero : (default : MessageId).toField? = some 0 := by decide +kernel
    exact hzero
  key := rfl
  author := rfl

/-- One client registers a member. Of two reactions each is let in by one client and processed by
another. -/
def voting : Nat → Errand
  | 0 => .registry (.register {} (fun _ => default) default Membership.Operation.first 10)
  | 1 => .admission (.development "") ballotSecrets 1 {} (fun _ => default) (ballot 1)
  | 2 => .admission (.development "") ballotSecrets 1 {} (fun _ => default) (ballot 2)
  | 3 => .process {} (fun _ => default) (ballot 1) 20
  | _ => .process {} (fun _ => default) (ballot 2) 20

/-- The member is registered. -/
def registering : List Turn := .replicate 6 (.client 0)

/-- Both reactions are let in. -/
def admitting : List Turn := registering ++ [.client 1, .client 1] ++ [.client 2, .client 2]

/-- Both reactions are processed. -/
def processing : List Turn := .replicate 7 (.client 3) ++ .replicate 7 (.client 4)

/-- What a statement needs is known of the first ballot. -/
theorem known_first (current : String) :
    Admission.Known (.development current) ballotSecrets (ballot 1) 1 0 .generator default :=
  known_ballot current (by decide +kernel)

/-- What a statement needs is known of the second ballot. -/
theorem known_second (current : String) :
    Admission.Known (.development current) ballotSecrets (ballot 2) (.ofNat 2) 0 .generator
      default :=
  known_ballot current (by decide +kernel)

/-- Both reactions are let in. -/
theorem admitted_ballots :
    Admitted voting admitting (ballot 1) ∧ Admitted voting admitting (ballot 2) := by
  have hhistory : (after voting registering).store.history default =
      [Store.rootOf default [Membership.Operation.first.value] 10 default] := rfl
  obtain ⟨hfirst, hstore, hclients⟩ := admitted_append (i := 1) rfl rfl (known_first "") hhistory
    (Store.rootField?_rootOf _ _ _) rfl rfl
  rw [← hstore] at hhistory
  obtain ⟨hsecond, -, -⟩ := admitted_append rfl (hclients 2 (by decide)) (known_second "") hhistory
    (Store.rootField?_rootOf _ _ _) rfl rfl
  exact ⟨hfirst.append _, hsecond⟩

/-- Both reactions are let in before the first of them is processed. -/
theorem onlyAdmitted_voting : OnlyAdmitted voting (admitting ++ processing) := by
  intro before i later policy clock tx height hturns herrand
  have hi : .client i ∉ admitting := by
    intro hmem
    have hadmitting : i = 0 ∨ i = 1 ∨ i = 2 := by
      simpa [admitting, registering] using hmem
    rcases hadmitting with rfl | rfl | rfl <;> cases herrand
  obtain ⟨rest, rfl⟩ : admitting <+: before := by
    rcases List.append_eq_append_iff.1 hturns with ⟨rest, rfl, -⟩ | ⟨rest, hadmitting, hrest⟩
    · exact List.prefix_append _ _
    · cases rest with
      | nil => exact List.append_nil before ▸ hadmitting ▸ List.prefix_rfl
      | cons turn rest =>
        cases hrest
        exact absurd (hadmitting ▸ by simp) hi
  obtain ⟨hfirst, hsecond⟩ := admitted_ballots
  match i with
  | 0 | 1 | 2 => cases herrand
  | 3 =>
    cases herrand
    exact hfirst.append rest
  | _ + 4 =>
    cases herrand
    exact hsecond.append rest

/-! ### What is bound -/

/-- A statement binds the reaction that it is about. Statements have thirty public inputs, and if
admission puts two of them before verifiers with the same inputs, whatever verifiers, secrets and
stores these are, then the two reactions have the same nullifier, message and ciphertext, and they
were looked up under the same feed key and author.

Hence the ledger keeps votes apart by what their nullifiers denote. Whatever clients use a node and
on whatever schedule, if reactions are processed only after they have been let in, then no two
ledger rows have nullifiers that denote the same field element, and no two tallies have such
messages. -/
theorem statements_bind_reactions :
    (∀ verifier secrets window policy clock tx st verifier' secrets' window' policy' clock' tx' st',
      Admission.Poses verifier secrets window policy clock tx st →
      Admission.Poses verifier' secrets' window' policy' clock' tx' st' →
      st.inputs.length = 30 ∧ (st.inputs = st'.inputs → Admission.Agree secrets secrets' tx tx')) ∧
    ∀ errands turns, OnlyAdmitted errands turns →
      (∀ row ∈ (after errands turns).store.nullifiers.rows,
        ∀ row' ∈ (after errands turns).store.nullifiers.rows,
          (Residue.reduce row.nullifier.word : ScalarField) = Residue.reduce row'.nullifier.word →
            row = row') ∧
      ∀ row ∈ (after errands turns).store.tallies.rows,
        ∀ row' ∈ (after errands turns).store.tallies.rows,
          (Residue.reduce row.messageId.word : ScalarField) = Residue.reduce row'.messageId.word →
            row = row' := by
  refine ⟨?_, fun errands turns honly => ?_⟩
  · intro verifier secrets window policy clock tx st verifier' secrets' window' policy' clock' tx'
      st' hposes hposes'
    exact ⟨Statement.length_inputs st, hposes.agree hposes'⟩
  · have hcanonical := canonical_after honly
    exact ⟨fun _ hrow _ hrow' => hcanonical.nullifier_inj hrow hrow',
      fun _ hrow _ hrow' => hcanonical.tally_inj hrow hrow'⟩

/-- The first of the two reactions, sent again with another proof and by somebody else. -/
def resent : Reaction := { ballot 1 with proof := [1], sender := "relay" }

/-- A reaction that is sent again is posed with the same statement as before, and the ledger rows of
two reactions with different nullifiers stay apart. -/
theorem two_ballots_are_bound :
    (∃ st, Admission.Poses (.development "") ballotSecrets 1 {} (fun _ => default) (ballot 1) st ∧
      Admission.Poses (.development "v2") ballotSecrets 8 {} (fun _ => default) resent st ∧
      st.inputs.length = 30 ∧ Admission.Agree ballotSecrets ballotSecrets (ballot 1) resent) ∧
    OnlyAdmitted voting (admitting ++ processing) ∧
    (after voting (admitting ++ processing)).store.nullifiers.rows.map (·.nullifier) =
      [(ballot 1).nullifier, (ballot 2).nullifier] ∧
    ∀ row ∈ (after voting (admitting ++ processing)).store.nullifiers.rows,
      ∀ row' ∈ (after voting (admitting ++ processing)).store.nullifiers.rows,
        (Residue.reduce row.nullifier.word : ScalarField) = Residue.reduce row'.nullifier.word →
          row = row' := by
  obtain ⟨hinputs, hrows⟩ := statements_bind_reactions
  have hroot : (Store.rootOf default [Membership.Operation.first.value] 10 default).rootField? =
      some (Merkle.root [Membership.Operation.first.value]) := Store.rootField?_rootOf _ _ _
  have hresent : Admission.Known (.development "v2") ballotSecrets resent 1 0 .generator default :=
    ⟨rfl, (known_first "").nullifier, (known_first "").messageId, rfl, rfl⟩
  have hposes : Admission.Poses (.development "") ballotSecrets 1 {} (fun _ => default)
      (ballot 1) _ :=
    (known_first "").poses hroot
  have hposes' : Admission.Poses (.development "v2") ballotSecrets 8 {} (fun _ => default)
      resent _ :=
    hresent.poses hroot
  obtain ⟨hlength, hagree⟩ := hinputs _ _ _ _ _ _ _ _ _ _ _ _ _ _ hposes hposes'
  exact ⟨⟨_, hposes, hposes', hlength, hagree rfl⟩, onlyAdmitted_voting, by decide +kernel,
    (hrows voting (admitting ++ processing) onlyAdmitted_voting).1⟩

end Errand

end Reactions
