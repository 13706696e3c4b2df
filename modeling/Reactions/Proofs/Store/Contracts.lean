import Reactions.Proofs.Store.Separation
import Reactions.Proofs.Store.Serializability

/-!
# Contracts of programs on a shared store

What a program does among others can be said without the others, as long as nothing is assumed of
the answers it gets. `Program.Keeps` follows a program through its units of work: every call has to
be one that a contract permits in the unit as it is at that time, only units that may write are
committed, and the result has to fit the audit rows that the program has got committed by then. The
condition is computed backwards along the program, so there is one rule for each way to put work
together; and it is preserved by each step of a client, whatever the store has become in between
(`Client.Keeps.step`).
-/

namespace Reactions

namespace Program

variable {α β : Type} {permits : UnitOfWork → Call → Prop}

/-- What is left of a program keeps a contract, given the unit of work that is open and the audit
rows that were committed before. Each call may meet any store. -/
def Keeps (permits : UnitOfWork → Call → Prop)
    (post : α → UnitOfWork → List AuditRow → Prop) :
    Program α → UnitOfWork → List AuditRow → Prop
  | .done a, u, rows => post a u rows
  | .begin isolation next, _, rows => next.Keeps permits post (.opened isolation) rows
  | .call c next, u, rows =>
    permits u c ∧ ∀ s, (next (u.perform s c).1).Keeps permits post (u.perform s c).2.2 rows
  | .commit next, u, rows =>
    u.isolation = .serializable ∧ (next (.ok ())).Keeps permits post default (u.audit ++ rows) ∧
      ∀ e, (next (.error e)).Keeps permits post default rows
  | .wait _ next, u, rows => next.Keeps permits post u rows

/-- A program that goes on with another. -/
theorem keeps_bind {post : β → UnitOfWork → List AuditRow → Prop} {p : Program α}
    {f : α → Program β} {u : UnitOfWork} {rows : List AuditRow}
    (h : p.Keeps permits (fun a => (f a).Keeps permits post) u rows) :
    (p >>= f).Keeps permits post u rows := by
  change (p.bind f).Keeps permits post u rows
  induction p generalizing u rows with
  | done a => exact h
  | begin isolation next ih => exact ih h
  | call c next ih => exact ⟨h.1, fun s => ih _ (h.2 s)⟩
  | commit next ih => exact ⟨h.1, ih _ h.2.1, fun e => ih _ (h.2.2 e)⟩
  | wait ms next ih => exact ih h

/-- A result may be asked for less. -/
theorem Keeps.mono {post post' : α → UnitOfWork → List AuditRow → Prop} {p : Program α}
    {u : UnitOfWork} {rows : List AuditRow} (h : p.Keeps permits post u rows)
    (hpost : ∀ a u rows, post a u rows → post' a u rows) : p.Keeps permits post' u rows := by
  induction p generalizing u rows with
  | done a => exact hpost a u rows h
  | begin isolation next ih => exact ih h
  | call c next ih => exact ⟨h.1, fun s => ih _ (h.2 s)⟩
  | commit next ih => exact ⟨h.1, ih _ h.2.1, fun e => ih _ (h.2.2 e)⟩
  | wait ms next ih => exact ih h

end Program

/-! ## Fallible work -/

namespace Work

variable {ε ε' α β : Type} {permits : UnitOfWork → Call → Prop}

/-- What is left of fallible work keeps a contract that asks nothing of failures. -/
def Keeps (permits : UnitOfWork → Call → Prop) (post : α → UnitOfWork → List AuditRow → Prop)
    (w : Work ε α) (u : UnitOfWork) (rows : List AuditRow) : Prop :=
  w.run.Keeps permits (fun outcome u rows => ∀ a, outcome = .ok a → post a u rows) u rows

variable {u : UnitOfWork} {rows : List AuditRow}
  {post : α → UnitOfWork → List AuditRow → Prop}

theorem keeps_pure {a : α} (h : post a u rows) : Keeps permits post (pure a : Work ε α) u rows := by
  rintro _ ⟨⟩
  exact h

theorem keeps_throw (e : ε) : Keeps permits post (throw e : Work ε α) u rows := nofun

theorem keeps_liftExcept {outcome : Except ε α} (h : ∀ a, outcome = .ok a → post a u rows) :
    Keeps permits post (liftExcept outcome : Work ε α) u rows := by
  cases outcome with
  | ok a => exact h
  | error e => exact nofun

/-- Work that goes on with the result of its first part. -/
theorem keeps_bind {post : β → UnitOfWork → List AuditRow → Prop} {w : Work ε α}
    {f : α → Work ε β} (h : w.Keeps permits (fun a => (f a).Keeps permits post) u rows) :
    (w >>= f).Keeps permits post u rows := by
  refine Program.keeps_bind (Program.Keeps.mono h fun outcome u rows houtcome => ?_)
  cases outcome with
  | ok a => exact houtcome a rfl
  | error e => exact nofun

/-- Rewording a failure keeps the contract. -/
theorem keeps_adapt (f : ε → ε') {w : Work ε α} (h : w.Keeps permits post u rows) :
    Keeps permits post (ExceptT.adapt f w) u rows := by
  refine Program.keeps_bind (Program.Keeps.mono h fun outcome u rows houtcome => ?_)
  cases outcome with
  | ok a => exact fun b hb => houtcome b (by cases hb; rfl)
  | error e => exact nofun

/-- Opening a unit of work leaves nothing pending. -/
theorem keeps_begin {post : Unit → UnitOfWork → List AuditRow → Prop} {isolation : Isolation}
    (h : post () (.opened isolation) rows) :
    (begin isolation : Work ε Unit).Keeps permits post u rows :=
  fun _ _ => h

/-- A question that is permitted keeps the contract, on whatever store. -/
theorem keeps_read {q : Query} {post : q.Answer → UnitOfWork → List AuditRow → Prop}
    (hpermits : permits u (.read q)) (h : ∀ s, post (u.answer s q) (u.read s q).2 rows) :
    (read q : Work ε q.Answer).Keeps permits post u rows := by
  refine ⟨hpermits, fun s => ?_⟩
  rintro _ ⟨⟩
  exact h s

variable [StoreFailure ε]

/-- A write that is permitted is pending afterwards. -/
theorem keeps_save {post : Unit → UnitOfWork → List AuditRow → Prop} {write : Write}
    (hu : u.isolation = .serializable) (hpermits : permits u (.save write))
    (h : post () { u with writes := write :: u.writes } rows) :
    (save write : Work ε Unit).Keeps permits post u rows := by
  refine ⟨hpermits, fun s => ?_⟩
  rw [UnitOfWork.perform_save_of_serializable hu]
  exact fun _ _ => h

/-- An audit row that is permitted is pending afterwards, under whatever number. -/
theorem keeps_append {post : AuditRow → UnitOfWork → List AuditRow → Prop} {row : AuditRow}
    (hu : u.isolation = .serializable) (hpermits : permits u (.append row))
    (h : ∀ id, post { row with id } { u with audit := { row with id } :: u.audit } rows) :
    (append row : Work ε AuditRow).Keeps permits post u rows := by
  refine ⟨hpermits, fun s => ?_⟩
  rw [UnitOfWork.perform_append_of_serializable hu]
  rintro _ ⟨⟩
  exact h (s.lastTransactionId + 1)

/-- A commit puts the pending audit rows before those committed. -/
theorem keeps_commit {post : Unit → UnitOfWork → List AuditRow → Prop}
    (hu : u.isolation = .serializable) (h : post () default (u.audit ++ rows)) :
    (commit : Work ε Unit).Keeps permits post u rows :=
  ⟨hu, fun _ _ => h, fun _ => nofun⟩

/-- Work that is tried again keeps a contract that each attempt keeps from wherever it starts. -/
theorem keeps_retried (policy : RetryPolicy) {op : Nat → Work ε α}
    (h : ∀ attempt u rows, (op attempt).Keeps permits post u rows) :
    (retried policy op).Keeps permits post u rows := by
  change Program.Keeps _ _ (retryFrom _ policy _ _ _) u rows
  generalize policy.attempts - 1 = retries
  generalize 1 = attempt
  induction retries generalizing attempt u rows with
  | zero =>
    refine Program.keeps_bind (Program.Keeps.mono (h attempt u rows) fun outcome u rows hpost => ?_)
    cases outcome with
    | ok a => exact fun b hb => hpost b (by cases hb; rfl)
    | error e => exact nofun
  | succ retries ih =>
    refine Program.keeps_bind (Program.Keeps.mono (h attempt u rows) fun outcome u rows hpost => ?_)
    cases outcome with
    | ok a => exact fun b hb => hpost b (by cases hb; rfl)
    | error e =>
      dsimp only
      split
      · exact ih (attempt + 1)
      · exact nofun

end Work

/-! ## Clients -/

namespace Client

variable {α : Type} {permits : UnitOfWork → Call → Prop}
  {post : α → UnitOfWork → List AuditRow → Prop}

/-- What is left of a client's program keeps a contract. -/
def Keeps (permits : UnitOfWork → Call → Prop) (post : α → UnitOfWork → List AuditRow → Prop)
    (c : Client α) (rows : List AuditRow) : Prop :=
  c.process.program.Keeps permits post c.process.unit rows

/-- The audit rows that a client has got committed after its next step. -/
def rowsAfter (c : Client α) (s : Store) (rows : List AuditRow) : List AuditRow :=
  if c.commits s then c.process.unit.audit ++ rows else rows

/-- A step keeps the contract, on whatever store. -/
theorem Keeps.step {c : Client α} {rows : List AuditRow} (h : c.Keeps permits post rows)
    (s : Store) : (c.step s).2.Keeps permits post (c.rowsAfter s rows) := by
  obtain ⟨⟨program, u⟩, made⟩ := c
  cases program with
  | done a => exact h
  | begin isolation next => exact h
  | call c next => exact h.2 s
  | wait ms next => exact h
  | commit next =>
    obtain ⟨hisolation, hok, herror⟩ := h
    have hu : u.isolation = .serializable := hisolation
    rcases s.commit_cases u with ⟨-, -, -, hcommit⟩ | ⟨outcome, failures, hcommit, he⟩
    · have hcommits : Client.commits ⟨⟨.commit next, u⟩, made⟩ s = true := by
        simp [commits, hu, hcommit, Except.toBool]
      rw [rowsAfter, if_pos hcommits]
      simpa [Keeps, Client.step, Process.step, hcommit] using hok
    · obtain ⟨e, rfl⟩ := he hu
      simpa [Keeps, rowsAfter, commits, Client.step, Process.step, hcommit, Except.toBool]
        using herror e

end Client

end Reactions
