import Reactions.Node.CommandLine
import Reactions.Node.Replay

/-!
# Running a node

From the arguments and the environment to what is to be printed or written. The configuration is
loaded before any command, and a replay builds its verifier before it opens the log.
-/

namespace Reactions

/-- Why a replay has no report. -/
inductive ReplayError
  | config (error : ConfigError)
  | log (error : LogError)
deriving DecidableEq, Repr

/-- What a node leaves to be done at its end. -/
inductive Ending
  /-- Help, the version, or how the program is to be used. -/
  | usage (usage : Usage)
  /-- A failure. -/
  | failure
  /-- A report to be printed. -/
  | report (report : ReplayReport)
  /-- A file to be written, which may fail. -/
  | write (path : String) (content : Bytes)

namespace Node

variable {m : Type → Type} [Monad m]

/-- Replays the log at a path from an empty store. -/
def replay (read : ReadFile m) (clocks : Nat → Clock) (config : Config) (log : String) :
    m (Except ReplayError ReplayReport) := do
  match ← (config.verifier.build read).run with
  | .error e => return .error (.config e)
  | .ok verifier =>
    match Log.records (← read log) with
    | .error e => return .error (.log e)
    | .ok records =>
      let setting := { verifier, retry := config.retry, rootWindow := config.rootWindow, clocks }
      return .ok ((Replay.replay setting records).run .empty).1

/-- Carries out a command. -/
def carryOut (read : ReadFile m) (clocks : Nat → Clock) (config : Config) :
    Command → m Ending
  | .replay log => do
    match ← replay read clocks config log with
    | .ok report => return .report report
    | .error _ => return .failure
  | .convertKey version input output => do
    match ← KeyFile.load read version input with
    | .ok key => return .write output (KeyCache.write key)
    | .error _ => return .failure

/-- Runs a node. -/
def run (read : ReadFile m) (clocks : Nat → Clock) (environment : Option String)
    (arguments : List String) : m Ending := do
  match CommandLine.ofArguments arguments with
  | .error usage => return .usage usage
  | .ok line =>
    match ← Config.load read line.config environment with
    | .error _ => return .failure
    | .ok config => carryOut read clocks config line.command

end Node

end Reactions
