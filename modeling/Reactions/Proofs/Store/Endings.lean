import Reactions.Proofs.Store.Serializability
import Reactions.Store.Work

/-!
# What programs may end with

What a program comes to depends on the answers that it gets, and those on whatever else happens to
the store. `Program.MayEnd` has the results that some answers lead to, and does not ask for a store
that would give them. So it covers all runs: one of a program alone (`Program.mayEnd_run`), and one
among others on any schedule (`System.mayEnd_of_after`). What a program in two parts may end with is
what the second part may after some result of the first (`Program.mayEnd_bind_iff`).
-/

namespace Reactions

variable {α β : Type}

namespace Program

/-- Some answers lead a program to a result. -/
def MayEnd : Program α → α → Prop
  | .done a, b => a = b
  | .begin _ next, b => next.MayEnd b
  | .call _ next, b => ∃ answer, (next answer).MayEnd b
  | .commit next, b => ∃ outcome, (next outcome).MayEnd b
  | .wait _ next, b => next.MayEnd b

theorem mayEnd_pure_iff {a b : α} : (pure a : Program α).MayEnd b ↔ a = b := .rfl

/-- A program that goes on with another may end as that may, from where the first may end. -/
theorem mayEnd_bind_iff {p : Program α} {f : α → Program β} {b : β} :
    (p >>= f).MayEnd b ↔ ∃ a, p.MayEnd a ∧ (f a).MayEnd b := by
  change (p.bind f).MayEnd b ↔ _
  induction p with
  | done a => exact ⟨fun h => ⟨a, rfl, h⟩, fun ⟨_, ha, h⟩ => ha ▸ h⟩
  | begin isolation next ih => exact ih
  | call c next ih =>
    constructor
    · rintro ⟨answer, h⟩
      obtain ⟨a, ha, hb⟩ := (ih answer).1 h
      exact ⟨a, ⟨answer, ha⟩, hb⟩
    · rintro ⟨a, ⟨answer, ha⟩, hb⟩
      exact ⟨answer, (ih answer).2 ⟨a, ha, hb⟩⟩
  | commit next ih =>
    constructor
    · rintro ⟨outcome, h⟩
      obtain ⟨a, ha, hb⟩ := (ih outcome).1 h
      exact ⟨a, ⟨outcome, ha⟩, hb⟩
    · rintro ⟨a, ⟨outcome, ha⟩, hb⟩
      exact ⟨outcome, (ih outcome).2 ⟨a, ha, hb⟩⟩
  | wait ms next ih => exact ih

/-- What a program comes to alone it may end with. -/
theorem mayEnd_runIn (p : Program α) (u : UnitOfWork) (s : Store) : p.MayEnd (p.runIn u s).1 := by
  induction p generalizing u s with
  | done a => rfl
  | begin isolation next ih => exact ih _ s
  | call c next ih => exact ⟨_, ih _ _ _⟩
  | commit next ih => exact ⟨_, ih _ _ _⟩
  | wait ms next ih => exact ih u s

/-- A run ends as the program may end. -/
theorem mayEnd_run (p : Program α) (s : Store) : p.MayEnd (p.run s).1 := mayEnd_runIn p default s

end Program

/-! ## Fallible work -/

namespace Work

variable {ε ε' : Type}

/-- A result that is at hand is the only end. -/
theorem mayEnd_pure_ok_iff {a b : α} : (pure a : Work ε α).run.MayEnd (.ok b) ↔ a = b :=
  Program.mayEnd_pure_iff.trans (by rw [Except.ok.injEq])

/-- Fallible work that goes on may succeed as what it goes on with may. -/
theorem mayEnd_bind_ok_iff {w : Work ε α} {f : α → Work ε β} {b : β} :
    (w >>= f).run.MayEnd (.ok b) ↔ ∃ a, w.run.MayEnd (.ok a) ∧ (f a).run.MayEnd (.ok b) := by
  refine Program.mayEnd_bind_iff.trans ⟨?_, fun ⟨a, ha, hb⟩ => ⟨.ok a, ha, hb⟩⟩
  rintro ⟨outcome, houtcome, hb⟩
  cases outcome with
  | ok a => exact ⟨a, houtcome, hb⟩
  | error e => cases hb

end Work

/-! ## Clients and systems -/

/-- After a step a client may end only as it might before. -/
theorem Client.mayEnd_of_step {c : Client α} {s : Store} {a : α}
    (h : (c.step s).2.process.program.MayEnd a) : c.process.program.MayEnd a := by
  obtain ⟨⟨program, u⟩, made⟩ := c
  cases program with
  | done b => exact h
  | begin isolation next => exact h
  | call call next => exact ⟨_, h⟩
  | commit next => exact ⟨_, h⟩
  | wait ms next => exact h

namespace System

variable {programs : Nat → Program α} {turns : List Turn} {i : Nat} {a : α}

/-- What is left of a client's program may end with nothing that the program may not end with. -/
theorem mayEnd_of_after (h : ((after programs turns).clients i).process.program.MayEnd a) :
    (programs i).MayEnd a :=
  clients_foldl_step (motive := fun c => c.process.program.MayEnd a → (programs i).MayEnd a) id
    (fun _ _ hc hstep => hc (Client.mayEnd_of_step hstep)) turns h

/-- A client that has come to an end has done so as its program may. -/
theorem mayEnd_of_done (h : ((after programs turns).clients i).process.program = .done a) :
    (programs i).MayEnd a := by
  have hend : ((after programs turns).clients i).process.program.MayEnd a := by
    rw [h]
    rfl
  exact mayEnd_of_after hend

/-- A client that has come to its end stays there. -/
theorem done_after_append (h : ((after programs turns).clients i).process.program = .done a)
    (later : List Turn) :
    ((after programs (turns ++ later)).clients i).process.program = .done a := by
  rw [after, List.foldl_append]
  refine clients_foldl_step (motive := fun c => c.process.program = .done a) h ?_ later
  intro c s hdone
  simp [Client.step, Process.step, hdone]

end System

end Reactions
