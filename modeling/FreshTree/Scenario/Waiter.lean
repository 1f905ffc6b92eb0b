import FreshTree.Scenario.Play

/-!
Requests that wait on threads of their own. Each thread runs until a request on
it sleeps, be it the one that the thread was started for or one made by an
observer or an engine call underneath, and goes on when that sleep is over. What
happens on it is logged apart from everything else.
-/

namespace FreshTree.Scenario

inductive Course (α : Type) where
  | ended (value : α)
  | asleep (sleep : Sleep) (resume : World → Thread α)

/-- The thread up to its first sleep. Where it is held the pause is over at
once. -/
def Thread.course {α : Type} : Thread α → Course α × World
  | .ended value world => (.ended value, world)
  | .held _ world resume => (resume ⟨true, false⟩ world).course
  | .asleep sleep world resume => (.asleep sleep resume, world)

structure Waiter where
  course : Course (Option (Tree String String))
  log : Array Entry

namespace Waiter

def run (log : Array Entry) (play : Play (Option (Tree String String))) (w : World) :
    Waiter × World :=
  let (course, after) := (play { w with log }).course
  ({ course, log := after.log }, { after with log := w.log })

def start (play : Play (Option (Tree String String))) (w : World) : Waiter × World :=
  run #[] play w

def sleeper (sleep : Sleep) : Waiter :=
  { course := .asleep sleep (.ended none), log := #[] }

def goOn? (waiter : Waiter) (w : World) : Option (Waiter × World) :=
  match waiter.course with
  | .ended _ => none
  | .asleep sleep resume => if sleep.isOver w then some (run waiter.log resume w) else none

def turnOver (waiter : Waiter) (w : World) : Waiter × World :=
  match waiter.course with
  | .ended _ => (waiter, w)
  | .asleep sleep resume =>
    let (sleep, after) := sleep.turnOver w
    ({ waiter with course := .asleep sleep resume }, after)

def turnOverAll : List Waiter → World → List Waiter × World
  | [], w => ([], w)
  | waiter :: rest, w =>
    let (waiter, after) := waiter.turnOver w
    let (rest, last) := turnOverAll rest after
    (waiter :: rest, last)

def alarm? (waiter : Waiter) (w : World) : Option Instant :=
  match waiter.course with
  | .ended _ => none
  | .asleep sleep _ => some (sleep.alarm w)

def result (waiter : Waiter) : Option (Tree String String) :=
  match waiter.course with
  | .ended tree => tree
  | .asleep .. => none

end Waiter

end FreshTree.Scenario
