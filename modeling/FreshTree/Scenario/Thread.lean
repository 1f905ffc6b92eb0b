import FreshTree.Scenario.Play

/-!
What happens on one thread: giving out notes (with whatever the observer does
about them), calling the engine (with whatever it does first), and taking a
request through its sections until it is answered.

An observer and an engine call carry out operations in the middle of the call
that caused them, so everything here takes as a parameter how an operation is
carried out inside another one.
-/

namespace FreshTree.Scenario

structure Place where
  observing : Bool := false
  /-- The thread is the one of the pool, which may be held. -/
  pooled : Bool := false

abbrev Nested := Place → Operation → Play Answer

def playBody (nested : Nested) (place : Place) (body : List Operation) : Play Unit :=
  body.forM fun operation => do
    let answer ← nested place operation
    logEntry (.hook operation answer)

/-- Gives out one note. An event is counted, shown to the observer, and may then
set off hooks. -/
def giveOut (nested : Nested) (place : Place) (note : Note String) : Play Unit := do
  match note with
  | .trace trace =>
    if (← get).traced then logEntry (.trace trace)
  | .event event =>
    modify fun w => { w with tally := w.tally.record event }
    let w ← get
    if w.observed then
      logEntry (.event event)
      let nth := (w.tally.count event).toNat
      let due := w.hooks.filter fun hook => hook.event = event && hook.nth = nth
      due.forM fun hook => playBody nested { place with observing := true } hook.body

def giveOutAll (nested : Nested) (place : Place) (notes : List (Note String)) : Play Unit :=
  notes.forM (giveOut nested place)

def enact (nested : Nested) (place : Place) (act : Act String String) :
    Play (Option (Happening String String)) := do
  let (told, entry) ← modifyGet (World.enact act)
  giveOutAll nested place told
  return entry

def callEngine (nested : Nested) (place : Place) (unit : String) (token : Token) :
    Play (Ending String) := do
  let (serial, plan) ← modifyGet World.takePlan
  logEntry (.parse unit serial ((← get).isCancelled token))
  playBody nested place plan.body
  let finish := plan.ending unit serial
  if plan.hold && place.pooled then
    let how ← Play.pause { token, stubborn := plan.stubborn }
    logEntry (.unparked serial how.released how.cancelled)
    return if how.released then finish else .returned (.error .cancelled)
  else return finish

def moveOn (nested : Nested) (place : Place) (token : Option String) (index : Nat)
    (r : Request String String) : Play Unit := do
  match r.stage with
  | .answered _ => return
  | .blocked _ =>
    Play.sleep { request := index, token, signals := (← get).signals }
    let _ ← enact nested place (.request index .wake)
  | .validating =>
    let _ ← enact nested place (.request index (.look ((← get).hasFired token)))
  | .parsing _ =>
    let _ ← enact nested place (.request index .call)
    let ending ← callEngine nested place r.unit (.caller token)
    let _ ← enact nested place (.request index (.finish ((← get).hasFired token) ending))
  | .installing _ _ =>
    let _ ← enact nested place (.request index (.install ((← get).hasFired token)))

def proceed (nested : Nested) (place : Place) (token : Option String) (index : Nat) :
    Nat → Play (Option (Tree String String))
  | 0 => return none
  | steps + 1 => do
    match (← get).system.requests[index]? with
    | none => return none
    | some r =>
      match r.stage with
      | .answered tree => return tree
      | _ =>
        moveOn nested place token index r
        proceed nested place token index steps

/-- Makes a request and stays with it until it is answered. The budget of the
world is enough for it: it falls asleep anew only after the active unit moved,
and each operation of a scenario is carried out once. -/
def requestTree (nested : Nested) (place : Place) (unit : String) (policy : Policy)
    (token : Option String) : Play (Option (Tree String String)) := do
  let w ← get
  let _ ← enact nested place (.ask unit policy)
  proceed nested place token w.system.requests.length w.budget

def parseOnPool (nested : Nested) (poolJob : PoolJob) : Play Unit := do
  let place : Place := { pooled := true }
  let _ ← enact nested place (.reconciler poolJob.owner (.call poolJob.seq))
  let ending ← callEngine nested place poolJob.unit (.worker poolJob)
  let _ ← enact nested place (.reconciler poolJob.owner (.finish poolJob.seq ending))

end FreshTree.Scenario
