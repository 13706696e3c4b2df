import Reactions.Admission.Decision
import Reactions.Ledger.Lookup
import Reactions.Ledger.Processing
import Reactions.Membership.Events
import Reactions.Node.Config
import Reactions.Node.Log

/-!
# Replaying a log

A node takes the records of a log in order. Feed keys and authors are remembered, events about
members applied, and reactions put to admission; a reaction that is admitted goes to the indexer,
which processes it, and one that is refused is reported. At the end the report lists the tallies
of all messages with an admitted reaction.
-/

namespace Reactions

/-- A reaction that was not admitted. -/
structure Refusal where
  line : Nat
  message : MessageId
  code : String
  reason : String
deriving DecidableEq

instance : ToJson Refusal := ⟨fun refusal => .object [
  ("line", toJson refusal.line),
  ("message_id", toJson refusal.message),
  ("code", .string refusal.code),
  ("reason", .string refusal.reason)]⟩

/-- What came of a log. -/
structure ReplayReport where
  admitted : Nat
  refused : List Refusal
  membershipFailures : Nat
  indexer : Ledger.IndexStats
  tallies : List Tally
deriving DecidableEq

instance : ToJson ReplayReport := ⟨fun report => .object [
  ("admitted", toJson report.admitted),
  ("refused", toJson report.refused),
  ("membership_failures", toJson report.membershipFailures),
  ("indexer", toJson report.indexer),
  ("tallies", toJson report.tallies)]⟩

namespace Replay

/-- What a node that replays a log goes by. -/
structure Setting where
  verifier : Verifier
  retry : RetryPolicy
  rootWindow : Nat
  /-- The clock of the work on each line. -/
  clocks : Nat → Clock

/-- What the reader of a log keeps. -/
structure ReaderState where
  secrets : FeedSecrets := {}
  /-- The feeds and messages of the admitted reactions, the last one first. -/
  seen : List (FeedId × MessageId) := []
  admitted : Nat := 0
  /-- The refusals, the last one first. -/
  refused : List Refusal := []
  membershipFailures : Nat := 0

/-- The code and the reason of a reaction that did not get in. -/
def refusal? : Except AdmissionError Verdict → Option (String × String)
  | .ok (.reject r) => some (r.code.name, r.message)
  | .ok _ => none
  | .error e => some ("ADMISSION_FAILED", e.message)

/-- Takes one record. A reaction that is admitted is handed on. -/
def take (setting : Setting) (state : ReaderState) (line : Nat) :
    LogRecord → Program (ReaderState × Option IndexedReaction)
  | .feedKey feed key => return ({ state with secrets := state.secrets.setKey feed key }, none)
  | .message feed message author =>
    return ({ state with
      secrets := state.secrets.setAuthor feed message (.ofAddress author) }, none)
  | .membership event => do
    match ← (Membership.handle setting.retry (setting.clocks line) event).run with
    | .ok _ => return (state, none)
    | .error _ =>
      return ({ state with membershipFailures := state.membershipFailures + 1 }, none)
  | .reaction reaction => do
    let tx := reaction.transaction
    let outcome ← (Admission.verdict setting.verifier state.secrets setting.rootWindow
      setting.retry (setting.clocks line) tx).run
    match refusal? outcome with
    | none =>
      return ({ state with
        seen := (tx.feedId, tx.messageId) :: state.seen
        admitted := state.admitted + 1 }, some reaction)
    | some (code, reason) =>
      return ({ state with refused := ⟨line, tx.messageId, code, reason⟩ :: state.refused }, none)

/-- Takes one record and processes the reaction that it hands on. -/
def step (setting : Setting) (states : ReaderState × Ledger.IndexStats) (line : Nat × LogRecord) :
    Program (ReaderState × Ledger.IndexStats) := do
  let (state, reaction?) ← take setting states.1 line.1 line.2
  match reaction? with
  | none => return (state, states.2)
  | some reaction =>
    return (state, ← Ledger.index setting.retry (setting.clocks line.1) states.2 reaction)

/-- Feeds come before each other by their bytes, and messages of one feed likewise. -/
def precedes (a b : FeedId × MessageId) : Bool :=
  ((compare a.1.word b.1.word).then (compare a.2.word b.2.word)).isLE

/-- Every feed and message once, in order. -/
def ordered (seen : List (FeedId × MessageId)) : List (FeedId × MessageId) :=
  seen.eraseDups.mergeSort precedes

/-- Messages gathered under their feeds, those of one feed together as long as they follow on each
other. -/
def byFeed : List (FeedId × MessageId) → List (FeedId × List MessageId)
  | [] => []
  | (feed, message) :: rest =>
    match byFeed rest with
    | [] => [(feed, [message])]
    | (feed', messages) :: groups =>
      if feed = feed' then (feed, message :: messages) :: groups
      else (feed, [message]) :: (feed', messages) :: groups

/-- The tallies of messages, those of one feed asked for together. -/
def talliesOf (messages : List (FeedId × MessageId)) : Program (List Tally) := do
  return (← (byFeed messages).mapM fun (feed, messages) => Ledger.tallies feed messages).flatten

/-- The report on a log whose records were all taken. -/
def report (states : ReaderState × Ledger.IndexStats) : Program ReplayReport := do
  let (state, indexer) := states
  return {
    admitted := state.admitted
    refused := state.refused.reverse
    membershipFailures := state.membershipFailures
    indexer
    tallies := ← talliesOf (ordered state.seen) }

/-- Replays the records of a log, each with the number of its line. -/
def replay (setting : Setting) (records : List (Nat × LogRecord)) : Program ReplayReport := do
  report (← records.foldlM (step setting) ({}, {}))

end Replay

end Reactions
