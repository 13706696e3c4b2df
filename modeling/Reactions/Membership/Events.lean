import Reactions.Membership.Registry
import Reactions.Rows.MembershipEvent

/-!
# Events about members

The chain tells of members who join, leave, are banned or unbanned. The first and the last are
registered under the commitment of their address; for the others the feed's root is logged again.
-/

namespace Reactions

namespace Membership

/-- Applies one event. -/
def handle (policy : RetryPolicy) (clock : Clock) (event : MembershipEvent) :
    Work MembershipError Unit := do
  match event.kind with
  | .joined | .unbanned =>
    let _ ← register policy clock event.feedId (.ofAddress event.address) event.blockHeight
  | .left | .banned =>
    let _ ← updateRoot policy clock event.feedId event.blockHeight

/-- How many events were handled and how many failed. -/
structure EventStats where
  handled : Nat := 0
  failed : Nat := 0
deriving DecidableEq, Repr

instance : ToJson EventStats := ⟨fun stats => .object [
  ("handled", toJson stats.handled), ("failed", toJson stats.failed)]⟩

/-- Counts the outcome of one event. -/
def EventStats.count (stats : EventStats) : Except MembershipError Unit → EventStats
  | .ok _ => { stats with handled := stats.handled + 1 }
  | .error _ => { stats with failed := stats.failed + 1 }

/-- Applies events in order, those after a failed one included. `clocks` has one clock for every
event. -/
def handleAll (policy : RetryPolicy) (clocks : Nat → Clock) (events : List MembershipEvent) :
    Program EventStats :=
  events.zipIdx.foldlM (fun stats (event, index) => do
    return stats.count (← (handle policy (clocks index) event).run)) {}

end Membership

end Reactions
