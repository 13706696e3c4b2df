import Reactions.Store.UnitOfWork

/-!
# Programs over a store

What a service does with the store is a program: a tree of calls, each of which goes on with the
answer it gets. A program has at most one unit of work open; opening another drops it. `run`
carries out a program alone, and `Process.step` a single call of it, so that the calls of several
programs on one store can be interleaved in any order.
-/

namespace Reactions

/-- A call inside a unit of work. -/
inductive Call
  | read (query : Query)
  | save (write : Write)
  | append (row : AuditRow)

/-- The type of the answer to a call. -/
abbrev Call.Answer : Call → Type
  | .read query => query.Answer
  | .save _ => Except StoreError Unit
  | .append _ => Except StoreError AuditRow

/-- Carries out a call. Only the numbering of audit rows changes the store before a commit. -/
def UnitOfWork.perform (u : UnitOfWork) (s : Store) : (c : Call) → c.Answer × Store × UnitOfWork
  | .read query =>
    let (answer, u) := u.read s query
    (answer, s, u)
  | .save write =>
    match u.save write with
    | .ok u => (.ok (), s, u)
    | .error e => (.error e, s, u)
  | .append row =>
    match u.append s row with
    | .ok (row, s, u) => (.ok row, s, u)
    | .error e => (.error e, s, u)

/-- A program that works on a store and ends with a result. -/
inductive Program (α : Type)
  | done (result : α)
  /-- Opens a unit of work. -/
  | begin (isolation : Isolation) (next : Program α)
  /-- Makes a call in the open unit. -/
  | call (c : Call) (next : c.Answer → Program α)
  /-- Commits the open unit. -/
  | commit (next : Except StoreError Unit → Program α)
  /-- Waits for some milliseconds. -/
  | wait (milliseconds : Nat) (next : Program α)

namespace Program

variable {α β : Type}

/-- Goes on with another program. -/
protected def bind : Program α → (α → Program β) → Program β
  | .done a, f => f a
  | .begin isolation next, f => .begin isolation (next.bind f)
  | .call c next, f => .call c fun answer => (next answer).bind f
  | .commit next, f => .commit fun outcome => (next outcome).bind f
  | .wait ms next, f => .wait ms (next.bind f)

instance : Monad Program where
  pure := .done
  bind := Program.bind

/-- Carries out a program alone, inside the unit of work that is open. -/
def runIn : Program α → UnitOfWork → Store → α × Store
  | .done a, _, s => (a, s)
  | .begin isolation next, _, s => next.runIn (.opened isolation) s
  | .call c next, u, s =>
    let (answer, s, u) := u.perform s c
    (next answer).runIn u s
  | .commit next, u, s =>
    let (outcome, s) := s.commit u
    (next outcome).runIn default s
  | .wait _ next, u, s => next.runIn u s

/-- Carries out a program alone. -/
def run (p : Program α) (s : Store) : α × Store := p.runIn default s

end Program

/-- A program on its way: what is left of it, and its open unit of work. -/
structure Process (α : Type) where
  program : Program α
  unit : UnitOfWork := default

/-- One step of a process. A process that has ended stays as it is. -/
def Process.step {α : Type} (s : Store) (p : Process α) : Store × Process α :=
  match p.program with
  | .done _ => (s, p)
  | .begin isolation next => (s, ⟨next, .opened isolation⟩)
  | .call c next =>
    let (answer, s, u) := p.unit.perform s c
    (s, ⟨next answer, u⟩)
  | .commit next =>
    let (outcome, s) := s.commit p.unit
    (s, ⟨next outcome, default⟩)
  | .wait _ next => (s, ⟨next, p.unit⟩)

end Reactions
