import FreshTree.Scenario.Scene
import FreshTree.Scenario.Thread

/-!
Letting the background catch up. Workers run until they have nothing to do, the
pool runs until it is idle or held, and both again until the pool does nothing.
Without a running runtime nothing moves.
-/

namespace FreshTree.Scenario

def World.nextWorker? (w : World) : Option Nat :=
  w.system.reconcilers.findIdx? fun r => (r.nextAction? w.system.timer).isSome

def turn (nested : Nested) (index : Nat) : Play Unit := do
  match ← enact nested {} (.reconciler index .turn) with
  | some (.launched owner seq edit) =>
    modify fun w => { w with poolQueue := w.poolQueue ++ [⟨owner, seq, edit.unit⟩] }
  | _ => return

def runWorkers (nested : Nested) : Nat → Play Unit
  | 0 => return
  | turns + 1 => do
    match (← get).nextWorker? with
    | none => return
    | some index =>
      turn nested index
      runWorkers nested turns

def Thread.onPool : Thread Unit → Scene → Scene
  | .ended _ world, scene => { scene with world, paused := none }
  | .held hold world resume, scene => { scene with world, paused := some { hold, resume } }
  | .asleep sleep world resume, scene =>
    let scene := { scene with world }.sleepOut sleep
    (resume scene.world).onPool scene

/-- One run of the thread of the pool, if it can run: on from its pause, or with
the first parse in the queue. -/
def Scene.stepPool? (nested : Nested) (scene : Scene) : Option Scene :=
  match scene.paused, scene.world.poolQueue with
  | some paused, _ =>
    (paused.end? scene.world).map fun how => (paused.resume how scene.world).onPool scene
  | none, poolJob :: rest =>
    some ((parseOnPool nested poolJob { scene.world with poolQueue := rest }).onPool scene)
  | none, [] => none

/-- Lets the pool run for at most this many steps. It tells whether it did
anything. -/
def runPool (nested : Nested) : Nat → Direct Bool
  | 0 => return false
  | steps + 1 => do
    let scene ← get
    match scene.stepPool? nested with
    | none => return false
    | some after =>
      set after
      let _ ← runPool nested steps
      return true

def settleFor (nested : Nested) (budget : Nat) : Nat → Direct Unit
  | 0 => return
  | rounds + 1 => do
    perform (runWorkers nested budget)
    if ← runPool nested budget then settleFor nested budget rounds

def settlePool (nested : Nested) : Direct Unit := do
  let w ← look
  if w.runtime = .running then
    let _ ← runPool nested w.budget

def settle (nested : Nested) : Direct Unit := do
  let w ← look
  if w.runtime = .running then settleFor nested w.budget w.budget

end FreshTree.Scenario
