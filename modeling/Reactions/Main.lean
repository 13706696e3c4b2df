import Reactions.Node.Run
import Std.Time.DateTime.PlainDateTime
import Std.Time.DateTime.Timestamp

/-!
# The program

Reads files for the node, and prints or writes what it leaves to be done. The exit code is zero on
success, one on failure, and two if the arguments fit no form.
-/

namespace Reactions.Terminal

/-- The time of day in UTC. -/
def now : IO Timestamp := do
  let instant ← Std.Time.Timestamp.now
  let time := Std.Time.PlainDateTime.ofWallTime (.ofDuration instant.toDurationSinceUnixEpoch)
  let moment : Moment := {
    date := ⟨time.year.toInt, time.month.val.toNat, time.day.val.toNat⟩
    hour := time.hour.val.toNat
    minute := time.minute.val.toNat
    second := time.second.val.toNat
    nano := time.nanosecond.val.toNat }
  return (Timestamp.ofMoment? moment).getD .epoch

/-- Reads a file. -/
def readFile : ReadFile IO := fun path => do
  match ← (IO.FS.Handle.mk path .read).toBaseIO with
  | .error _ => return .missing
  | .ok handle =>
    match ← handle.readBinToEnd.toBaseIO with
    | .error _ => return .unreadable
    | .ok content => return .bytes content.toList

/-- How the program is used. -/
def usageText : String :=
  "usage: [-c FILE] replay FILE\n       [-c FILE] convert-key -v VERSION -i FILE -o FILE"

/-- Does what a node leaves to be done. -/
def finish : Ending → IO UInt32
  | .usage .shown => do
    IO.println usageText
    return 0
  | .usage .refused => do
    IO.eprintln usageText
    return 2
  | .failure => return 1
  | .report report => do
    IO.println (toJson report).pretty
    return 0
  | .write path content => do
    match ← (IO.FS.writeBinFile path ⟨content.toArray⟩).toBaseIO with
    | .ok _ => return 0
    | .error _ => return 1

end Reactions.Terminal

open Reactions Terminal in
/-- Runs a node on the arguments of the program. -/
def main (arguments : List String) : IO UInt32 := do
  let time ← now
  finish (← Node.run readFile (fun _ _ => time) (← IO.getEnv "OMEGA_CONFIG") arguments)
