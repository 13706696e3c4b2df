import Reactions.Store.Program
import Reactions.Store.Retry

/-!
# Fallible work on a store

A program that may fail with an error of its own. A failure ends it on the spot and so drops the
unit of work that is open.
-/

namespace Reactions

/-- A program that ends with a result or an error. -/
abbrev Work (ε α : Type) := ExceptT ε Program α

namespace Work

variable {ε α : Type}

/-- Opens a unit of work. -/
def begin (isolation : Isolation) : Work ε Unit :=
  ExceptT.lift (.begin isolation (.done ()))

/-- Asks a question. -/
def read (query : Query) : Work ε query.Answer :=
  ExceptT.lift (.call (.read query) .done)

variable [StoreFailure ε]

/-- A result of the store as a result of the work. -/
def ofStore (outcome : Except StoreError α) : Except ε α :=
  outcome.mapError StoreFailure.ofStore

/-- Keeps a row to be written. -/
def save (write : Write) : Work ε Unit :=
  ExceptT.mk (.call (.save write) fun outcome => .done (ofStore outcome))

/-- Keeps an audit row to be written; the answer is the row under its number. -/
def append (row : AuditRow) : Work ε AuditRow :=
  ExceptT.mk (.call (.append row) fun outcome => .done (ofStore outcome))

/-- Commits the open unit of work. -/
def commit : Work ε Unit :=
  ExceptT.mk (.commit fun outcome => .done (ofStore outcome))

/-- Tries work again as long as it loses races and the policy allows it; each attempt is told its
number. -/
def retried (policy : RetryPolicy) (op : Nat → Work ε α) : Work (Failed ε) α :=
  ExceptT.mk (retry (fun ms => .wait ms (.done ())) policy fun attempt => (op attempt).run)

end Work

/-- The time at which each attempt of an operation is made. -/
abbrev Clock := Nat → Timestamp

end Reactions
