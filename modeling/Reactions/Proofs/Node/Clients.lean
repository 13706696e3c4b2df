import Reactions.Proofs.Ledger.Attempt
import Reactions.Proofs.Membership.Interleavings
import Reactions.Proofs.Node.Tasks

/-!
# Clients of a node

Any number of clients use a node, each for one purpose (`Errand`), and their calls come in any order
(`Errand.after`). What they commit is said on the transcripts of their units of work. Those who
process a reaction write its tally and its ledger row, as the judgement of the reaction has it
(`Ledger.Files`), and all others write members and roots alone (`Errand.commits_program`).
-/

namespace Reactions

/-! ## What is committed -/

/-- A unit of work writes on one side of the store. -/
def WritesOn (side : Side) (made : List Made) : Prop :=
  ∀ write ∈ writesOf made, write.key.side = side

/-- A unit of work on members and roots writes no tally. -/
theorem WritesOn.tally_not_mem {made : List Made} (h : WritesOn .members made) (t : Tally) :
    .tally t ∉ writesOf made := fun ht => nomatch h _ ht

/-- A unit of work on members and roots writes no ledger row. -/
theorem WritesOn.nullifier_not_mem {made : List Made} (h : WritesOn .members made)
    (row : LedgerRow) : .nullifier row ∉ writesOf made := fun hrow => nomatch h _ hrow

/-- Work on one side of the store writes on that side. -/
theorem Program.On.commits {α : Type} {side : Side} {p : Program α} (h : p.On side)
    {made : List Made} (hmade : WritesOn side made) :
    p.Commits (WritesOn side) (fun _ _ => True) made := by
  induction p generalizing made with
  | done a => trivial
  | begin isolation next ih => exact ih h (List.forall_mem_nil _)
  | call c next ih =>
    intro answer
    refine ih answer (h.2 answer) ?_
    cases c with
    | read q => exact hmade
    | save write => exact List.forall_mem_cons.2 ⟨h.1, hmade⟩
    | append row => exact hmade
  | commit next ih =>
    exact ⟨hmade, fun outcome => ih outcome (h outcome) (List.forall_mem_nil _)⟩
  | wait ms next ih => exact ih h hmade

namespace Ledger

variable {tx : Reaction}

/-- A unit of work writes the tally and the ledger row of a reaction, as the reaction is judged on
every store that answers as this one did. -/
def Files (tx : Reaction) (made : List Made) : Prop :=
  ∀ s, AnsweredBy s made → ∃ now kind tally row, Accepts s tx now kind tally row ∧
    writesOf made = [.tally tally, .nullifier row]

/-- An attempt that gets to its commit has judged the reaction on the answers of the store, and
files what the judgement says. -/
theorem commits_tryProcess (tx : Reaction) (height : Nat) (now : Timestamp) (attempt : Nat)
    (made : List Made) :
    (tryProcess tx height now attempt).Commits (Files tx) (fun _ _ => True) made := by
  rw [tryProcess]
  refine Work.commits_bind (Work.commits_begin (Work.commits_bind ?_))
  refine Work.commits_read fun tally? => ?_
  dsimp only
  split
  · exact Work.commits_bind (Work.commits_throw _)
  · rename_i hfeed
    refine Work.commits_bind (Work.commits_read fun recorded => ?_)
    refine Work.commits_bind (Work.commits_liftExcept fun judgement hjudgement => ?_)
    obtain ⟨kind, tally, row⟩ := judgement
    refine Work.commits_bind (Work.commits_save (Work.commits_bind (Work.commits_save ?_)))
    refine Work.commits_bind (Work.commits_append fun audit => ?_)
    refine Work.commits_bind (Work.commits_commit ?_ (Work.commits_pure trivial))
    rintro s ⟨-, -, -, hrecorded, htally, -⟩
    obtain rfl : tally? = s.tallies.find? tx.messageId := htally trivial
    obtain rfl : recorded = s.nullifiers.find? tx.nullifier := hrecorded trivial
    exact ⟨now, kind, tally, row, accepts_iff.1 ((if_neg hfeed).trans hjudgement), rfl⟩

/-- Processing a reaction, however often it is tried, files what the judgement says. -/
theorem commits_process (policy : RetryPolicy) (clock : Clock) (tx : Reaction) (height : Nat)
    (made : List Made) :
    (process policy clock tx height).Commits (Files tx) (fun _ _ => True) made :=
  Work.commits_adapt _ <| Work.commits_retried policy fun attempt made =>
    commits_tryProcess tx height (clock attempt) attempt made

end Ledger

/-! ## Members and roots -/

namespace Membership

/-- A membership proof is put together of members and roots alone. -/
theorem on_proof? (feed : FeedId) (commitment : Commitment) :
    (proof? feed commitment).run.On .members := by
  refine Work.on_bind (Work.on_begin _) fun _ => Work.on_bind (Work.on_read _ rfl) fun known => ?_
  split
  · exact Work.on_pure _
  · refine Work.on_bind (Work.on_read _ rfl) fun rows => ?_
    split
    · dsimp only
      split
      · exact Work.on_bind (Work.on_read _ rfl) fun _ => Work.on_pure _
      · exact Work.on_pure _
    · exact Work.on_pure _

/-- Whatever is asked of the registry concerns members and roots alone. -/
theorem Operation.on_work (op : Operation) : op.work.run.On .members := by
  cases op with
  | register => exact Work.on_bind on_register fun _ => Work.on_pure _
  | updateRoot => exact Work.on_bind on_updateRoot fun _ => Work.on_pure _
  | recentRoots => exact Work.on_bind on_recentRoots fun _ => Work.on_pure _
  | isRegistered feed commitment =>
    have hread : (Membership.isRegistered feed commitment).run.On .members :=
      Work.on_bind (Work.on_begin _) fun _ => Work.on_read _ rfl
    exact Work.on_bind hread fun _ => Work.on_pure _
  | proof feed commitment => exact Work.on_bind (on_proof? feed commitment) fun _ => Work.on_pure _

end Membership

/-! ## Clients -/

/-- What a client uses a node for. -/
inductive Errand
  | registry (op : Membership.Operation)
  | event (policy : RetryPolicy) (clock : Clock) (event : MembershipEvent)
  | ask (query : Query)
  | admission (verifier : Verifier) (secrets : FeedSecrets) (window : Nat) (policy : RetryPolicy)
    (clock : Clock) (tx : Reaction)
  | process (policy : RetryPolicy) (clock : Clock) (tx : Reaction) (height : Nat)

/-- What a client is told in the end. -/
inductive Errand.Outcome
  | registry (outcome : Except MembershipError Membership.Reply)
  | event (outcome : Except MembershipError Unit)
  | answer (query : Query) (answer : query.Answer)
  | verdict (outcome : Except AdmissionError Verdict)
  | processed (outcome : Except ProcessingError Processed)

namespace Errand

/-- The program of a client. -/
def program : Errand → Program Outcome
  | .registry op => do return .registry (← op.work.run)
  | .event policy clock e => do return .event (← (Membership.handle policy clock e).run)
  | .ask query => do return .answer query (← Ledger.ask query)
  | .admission verifier secrets window policy clock tx => do
    return .verdict (← (Admission.verdict verifier secrets window policy clock tx).run)
  | .process policy clock tx height => do
    return .processed (← (Ledger.process policy clock tx height).run)

/-- The node after a schedule of its clients' calls. -/
def after (errands : Nat → Errand) (turns : List Turn) : System Outcome :=
  System.after (fun i => (errands i).program) turns

/-- What a client may commit: one that processes a reaction files what comes of it, and all others
write members and roots alone. -/
def Commits : Errand → List Made → Prop
  | .process _ _ tx _ => Ledger.Files tx
  | _ => WritesOn .members

/-- Telling the result commits nothing more. -/
theorem commits_reply {α : Type} {lawful : List Made → Prop} {p : Program α} {reply : α → Outcome}
    (h : p.Commits lawful (fun _ _ => True) []) :
    (do return reply (← p) : Program Outcome).Commits lawful (fun _ _ => True) [] :=
  Program.commits_bind (h.mono fun _ _ _ => trivial)

/-- A client commits nothing else, whatever answers it gets. -/
theorem commits_program (errand : Errand) :
    errand.program.Commits errand.Commits (fun _ _ => True) [] := by
  have hnone : WritesOn .members [] := List.forall_mem_nil _
  cases errand with
  | registry op => exact commits_reply (op.on_work.commits hnone)
  | event policy clock e => exact commits_reply ((Membership.on_handle e).commits hnone)
  | ask query => exact fun _ => trivial
  | admission verifier secrets window policy clock tx =>
    exact commits_reply (Admission.on_verdict.commits hnone)
  | process policy clock tx height =>
    exact commits_reply (Program.Commits.mono (Ledger.commits_process policy clock tx height [])
      fun _ _ _ => trivial)

end Errand

end Reactions
