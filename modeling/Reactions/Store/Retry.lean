import Reactions.Store.Basic
import Reactions.Json.Record

/-!
# Retries

An operation that loses a race is tried again, a bounded number of times and each time after a
longer delay; any other failure ends it at once. The loop is over any monad that can wait.
-/

namespace Reactions

/-- How often a lost race is run again. -/
structure RetryPolicy where
  /-- All attempts, the first one included; zero counts as one. -/
  maxAttempts : UInt32 := 3
  /-- The delay after the first attempt in milliseconds; it grows by as much with every other. -/
  backoff : UInt64 := 50
deriving DecidableEq, Repr

namespace RetryPolicy

open Fields in
/-- Reads a policy. -/
def reader : Reader RetryPolicy :=
  record ((fun attempts backoff => ⟨.ofNat attempts, .ofNat backoff⟩)
    <$> optional "max_attempts" 3 .nat32 <*> optional "backoff_ms" 50 .nat64)

/-- The number of attempts, at least one. -/
def attempts (policy : RetryPolicy) : Nat := max policy.maxAttempts.toNat 1

/-- The delay after a failed attempt, in milliseconds; the first attempt has number one. -/
def delayAfter (policy : RetryPolicy) (attempt : Nat) : Nat :=
  min (policy.backoff.toNat * attempt) (UInt64.size - 1)

end RetryPolicy

/-- Errors that may be worth another attempt. -/
class Conflict (ε : Type) where
  /-- Whether an error is a lost race. -/
  isConflict : ε → Bool

/-- Errors of operations on a store. -/
class StoreFailure (ε : Type) where
  ofStore : StoreError → ε
  /-- The failure of the store behind an error. -/
  store? : ε → Option StoreError

/-- Whether an error is a lost race. -/
def StoreFailure.isConflict {ε : Type} [StoreFailure ε] (e : ε) : Bool :=
  store? e = some .conflict

instance : StoreFailure StoreError := ⟨fun e => e, some⟩

instance {ε : Type} [StoreFailure ε] : Conflict ε := ⟨StoreFailure.isConflict⟩

theorem isConflict_eq {ε : Type} [StoreFailure ε] (e : ε) :
    Conflict.isConflict e = StoreFailure.isConflict e := rfl

/-- The last error of an operation that was tried some times. -/
structure Failed (ε : Type) where
  attempts : Nat
  error : ε
deriving DecidableEq, Repr

variable {m : Type → Type} [Monad m] {ε α : Type} [Conflict ε]

/-- Runs an operation from an attempt on, at most `retries` times more after that. -/
def retryFrom (sleep : Nat → m Unit) (policy : RetryPolicy) (op : Nat → m (Except ε α)) :
    (retries attempt : Nat) → m (Except (Failed ε) α)
  | 0, attempt => do
    match ← op attempt with
    | .ok a => return .ok a
    | .error e => return .error ⟨attempt, e⟩
  | retries + 1, attempt => do
    match ← op attempt with
    | .ok a => return .ok a
    | .error e =>
      if Conflict.isConflict e then
        sleep (policy.delayAfter attempt)
        retryFrom sleep policy op retries (attempt + 1)
      else
        return .error ⟨attempt, e⟩

/-- Runs an operation until it succeeds, fails with anything but a lost race, or has been tried as
often as the policy allows. The operation is told the number of the attempt. -/
def retry (sleep : Nat → m Unit) (policy : RetryPolicy) (op : Nat → m (Except ε α)) :
    m (Except (Failed ε) α) :=
  retryFrom sleep policy op (policy.attempts - 1) 1

end Reactions
