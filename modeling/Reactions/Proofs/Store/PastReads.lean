import Mathlib.Data.List.Induction
import Reactions.Proofs.Store.Serializability

/-!
# When a read was answered

A unit of work that only reads is never asked whether it has moved, so its reads may have been
answered by different stores. What can be said of them is `System.Recalled`: each was answered at a
turn of its client, by the store as it was then, the earlier reads at earlier turns. This holds of
every client whose open unit has only read so far, after every schedule (`System.recalled_after`).
-/

namespace Reactions

/-- A transcript that has nothing but reads. -/
def OnlyReads (made : List Made) : Prop := ∀ m ∈ made, ∃ q answer, m = ⟨.read q, answer⟩

namespace System

variable {α : Type} (programs : Nat → Program α) (i : Nat)

/-- The reads of a client were answered by the stores at some of its turns, in their order, the last
read first. Reads of the audit log may say anything. -/
inductive Recalled : (turns : List Turn) → (made : List Made) → Prop
  | opened (turns : List Turn) : Recalled turns []
  | read {earlier turns : List Turn} {q : Query} {answer : q.Answer} {made : List Made}
    (before : Recalled earlier made) (hturn : earlier ++ [.client i] <+: turns)
    (hanswer : q.Tracked → answer =
      (UnitOfWork.opened .readOnly).answer (after programs earlier).store q) :
    Recalled turns (⟨.read q, answer⟩ :: made)

variable {programs i} {turns : List Turn}

/-- What was recalled stays so. -/
theorem Recalled.mono {turns' : List Turn} {made : List Made} (h : Recalled programs i turns made)
    (hturns : turns <+: turns') : Recalled programs i turns' made := by
  cases h with
  | opened => exact .opened turns'
  | read before hturn hanswer => exact .read before (hturn.trans hturns) hanswer

/-- The last read and the ones before it. -/
theorem Recalled.exists_before {q : Query} {answer : q.Answer} {made : List Made}
    (h : Recalled programs i turns (⟨.read q, answer⟩ :: made)) :
    ∃ earlier, earlier ++ [.client i] <+: turns ∧ Recalled programs i earlier made ∧
      (q.Tracked → answer =
        (UnitOfWork.opened .readOnly).answer (after programs earlier).store q) := by
  cases h with
  | read before hturn hanswer => exact ⟨_, hturn, before, hanswer⟩

/-- A unit of work that holds no writes answers as one that has just been opened. -/
theorem answer_of_writes_nil {u : UnitOfWork} (hu : u.writes = []) (s : Store) {q : Query}
    (hq : q.Tracked) : u.answer s q = (UnitOfWork.opened .readOnly).answer s q := by
  have hwrites : u.writes = (UnitOfWork.opened .readOnly).writes := hu
  exact UnitOfWork.answer_congr hwrites hq fun key _ => .refl s key

/-- An open unit of work that has only read holds no writes, and its reads are recalled. -/
theorem recalled_after (turns : List Turn) (h : OnlyReads ((after programs turns).clients i).made) :
    ((after programs turns).clients i).process.unit.writes = [] ∧
      Recalled programs i turns ((after programs turns).clients i).made := by
  induction turns using List.reverseRecOn with
  | nil => exact ⟨rfl, .opened []⟩
  | append_singleton turns turn ih =>
    have hprefix : turns <+: turns ++ [turn] := List.prefix_append _ _
    rw [after_append_singleton] at h ⊢
    -- a turn that leaves the client as it is
    have hidle : ((after programs turns).step turn).clients i = (after programs turns).clients i →
        (((after programs turns).step turn).clients i).process.unit.writes = [] ∧
          Recalled programs i (turns ++ [turn])
            (((after programs turns).step turn).clients i).made := by
      intro heq
      rw [heq] at h ⊢
      obtain ⟨hwrites, hrecalled⟩ := ih h
      exact ⟨hwrites, hrecalled.mono hprefix⟩
    rcases clients_step_cases (after programs turns) turn i with rfl | hother
    · rw [clients_step_self] at h hidle ⊢
      generalize hclient : (after programs turns).clients i = c at h hidle ih ⊢
      obtain ⟨⟨program, u⟩, made⟩ := c
      cases program with
      | done a => exact hidle rfl
      | begin isolation next => exact ⟨rfl, .opened _⟩
      | commit next => exact ⟨rfl, .opened _⟩
      | wait ms next =>
        obtain ⟨hwrites, hrecalled⟩ := ih h
        exact ⟨hwrites, hrecalled.mono hprefix⟩
      | call call next =>
        obtain ⟨q, answer, hcall⟩ := h _ List.mem_cons_self
        obtain rfl : call = .read q := congrArg Made.call hcall
        obtain ⟨hwrites, hrecalled⟩ := ih fun m hm => h m (List.mem_cons_of_mem _ hm)
        refine ⟨(UnitOfWork.writes_touch _ u _).trans hwrites, ?_⟩
        exact .read hrecalled (List.prefix_refl _) (answer_of_writes_nil hwrites _)
    · exact hidle hother

end System

end Reactions
