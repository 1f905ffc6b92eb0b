import FreshTree.Scenario.Run

/-!
A reconciler that was spawned with no runtime at hand lives on a shared one of
its own and in real time. What such a run shows is the same as in a scenario
whose clock reaches the end of the quiet period while a request waits for it.
-/

namespace FreshTree.Scenario

/-- A short run of a reconciler on the shared runtime: some edits of one active
unit, perhaps a flush, perhaps a request, and then the shutdown. -/
structure Standalone where
  unit : String
  debounceMs : UInt64
  edits : Nat
  flush : Bool
  request : Bool
  plans : List Plan := []

namespace Standalone

structure Report where
  edits : List Answer
  flushed : Option Answer
  tree : Option Shown
  closed : Answer
  state : Snapshot
  calls : Nat
  treesInstalled : UInt64

def scenario (s : Standalone) : Scenario :=
  { plans := s.plans
    operations := List.replicate s.edits (.noteEdit (.ok s.unit)) }

/-- Lets the quiet period pass if it ends before the deadline of a request. -/
def passQuietPeriod (nested : Nested) (debounceMs : UInt64) : Direct Unit := do
  settle nested
  if debounceMs < (← look).limits.settings.waitTimeoutMs then
    Scenario.carry (.tick (Clock.millis debounceMs.toNat))
    settle nested

def requestFresh (nested : Nested) (s : Standalone) : Direct (Option Shown) := do
  passQuietPeriod nested s.debounceMs
  perform do presentAnswer (← requestTree nested {} s.unit .waitForCurrent none)

def optionally {α : Type} (wanted : Bool) (direct : Direct α) : Direct (Option α) :=
  if wanted then some <$> direct else return none

def play (s : Standalone) : Direct Report := do
  let depth := s.scenario.size + 1
  let nested := act depth
  let carry := listed nested depth
  let _ ← carry (.setActive (.ok (some s.unit)))
  let _ ← carry (.spawn (.ok s.debounceMs))
  let edits ← s.scenario.operations.mapM carry
  let flushed ← optionally s.flush (carry .flush)
  let tree ← optionally s.request (requestFresh nested s)
  let closed ← carry .isClosed
  let _ ← carry .shutdown
  settle nested
  let w ← look
  return {
    edits, flushed, closed
    tree := tree.join
    state := .of w.system.provider
    calls := w.calls
    treesInstalled := w.tally.treesInstalled }

def run (s : Standalone) : Report := (s.play.run { world := s.scenario.world.1 }).1

end Standalone

end FreshTree.Scenario
