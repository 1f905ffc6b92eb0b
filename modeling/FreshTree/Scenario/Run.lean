import FreshTree.Scenario.Steer

/-!
Playing a scenario from a new provider to its end.
-/

namespace FreshTree

structure Scenario where
  settings : Settings := {}
  observed : Bool := true
  traced : Bool := false
  plans : List Scenario.Plan := []
  hooks : List Scenario.Hook := []
  operations : List Scenario.Operation := []

namespace Scenario

/-- One operation played: its answer, all that happened until the background
had caught up, and the provider after it. -/
structure StepReport where
  answer : Answer
  log : List Entry
  state : Snapshot

structure Report where
  opening : List Entry
  steps : List StepReport
  closing : List Entry
  tally : Tally
  calls : Nat

def size (scenario : Scenario) : Nat :=
  Operation.sizes scenario.operations +
    (scenario.plans.map fun plan => Operation.sizes plan.body).foldr (· + ·) 0 +
    (scenario.hooks.map fun hook => Operation.sizes hook.body).foldr (· + ·) 0

def world (scenario : Scenario) : World × List (Note String) :=
  let created : Settings × Provider String String × List (Note String) :=
    Provider.create scenario.settings
  ({ limits := { settings := created.1, horizon := Clock.farthest }
     observed := scenario.observed
     traced := scenario.traced
     hooks := scenario.hooks
     plans := scenario.plans
     system := { provider := created.2.1 }
     budget := 16 * scenario.size + 16 },
    created.2.2)

def takeLog : Direct (List Entry) :=
  modifyGet fun scene =>
    (scene.world.log.toList, { scene with world := { scene.world with log := #[] } })

def playStep (nested : Nested) (carry : Listed) (operation : Operation) : Direct StepReport := do
  let answer ← carry operation
  settle nested
  return { answer, log := ← takeLog, state := .of (← look).system.provider }

def play (scenario : Scenario) (notes : List (Note String)) : Direct Report := do
  let depth := scenario.size + 1
  let nested := act depth
  perform (giveOutAll nested {} notes)
  let opening ← takeLog
  let steps ← scenario.operations.mapM (playStep nested (listed nested depth))
  let w ← look
  let _ ← perform (enact nested {} .dispose)
  return { opening, steps, closing := ← takeLog, tally := w.tally, calls := w.calls }

def run (scenario : Scenario) : Report :=
  let start := scenario.world
  ((scenario.play start.2).run { world := start.1 }).1

end Scenario

end FreshTree
