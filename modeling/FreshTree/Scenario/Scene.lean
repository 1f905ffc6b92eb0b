import FreshTree.Scenario.Waiter

/-!
The main list is played between the computations of single threads. Each of
them runs to its end before the list goes on, but for the thread of the pool,
which may be left paused in a held engine call, and for waiters, which may be
left asleep. Where any other thread sleeps, time passes until its sleep is over,
and the waiters go on meanwhile.
-/

namespace FreshTree.Scenario

structure Paused where
  hold : Hold
  released : Bool := false
  resume : HoldEnd → World → Thread Unit

def Paused.release (paused : Paused) : Paused := { paused with released := true }

/-- How the pause of the pool ends now, if it does. To be released wins over
being cancelled, and a stubborn parse knows only the first. -/
def Paused.end? (paused : Paused) (w : World) : Option HoldEnd :=
  let cancelled := w.isCancelled paused.hold.token
  if paused.released then some ⟨true, cancelled⟩
  else if cancelled && !paused.hold.stubborn then some ⟨false, true⟩
  else none

structure Scene where
  world : World
  paused : Option Paused := none
  waiters : List Waiter := []

namespace Scene

def patience (scene : Scene) : Nat := scene.world.budget * (scene.waiters.length + 1)

def stirOne? (scene : Scene) : Option Scene :=
  (List.range scene.waiters.length).findSome? fun index => do
    let waiter ← scene.waiters[index]?
    let (waiter, world) ← waiter.goOn? scene.world
    return { scene with world, waiters := scene.waiters.set index waiter }

def turnOver (scene : Scene) : Scene :=
  let (waiters, world) := Waiter.turnOverAll scene.waiters scene.world
  { scene with waiters, world }

/-- Lets waiters go on until all of them sleep or have ended, for at most this
many steps. -/
def stirFor : Nat → Scene → Scene
  | 0, scene => scene
  | steps + 1, scene =>
    let scene := scene.turnOver
    match scene.stirOne? with
    | none => scene
    | some after => after.stirFor steps

def stir (scene : Scene) : Scene := scene.stirFor scene.patience

def earliest (scene : Scene) (alarm : Instant) : Instant :=
  (scene.waiters.filterMap (·.alarm? scene.world)).foldl min alarm

def reach (scene : Scene) (instant : Instant) : Scene :=
  { scene with world := scene.world.after (.pass (instant - scene.world.system.now)) }

/-- Lets time pass from the end of one sleep to the next until the waiter
`index` has ended, in at most this many rounds. -/
def joinFor (index : Nat) : Nat → Scene → Scene
  | 0, scene => scene
  | rounds + 1, scene =>
    let scene := scene.stir
    match scene.waiters[index]?.bind (·.alarm? scene.world) with
    | none => scene
    | some alarm => (scene.reach (scene.earliest alarm)).joinFor index rounds

def join (scene : Scene) (index : Nat) : Scene := scene.joinFor index scene.patience

def sleepOut (scene : Scene) (sleep : Sleep) : Scene :=
  let index := scene.waiters.length
  let after := { scene with waiters := scene.waiters ++ [Waiter.sleeper sleep] }.join index
  { after with waiters := after.waiters.take index }

end Scene

abbrev Direct := StateM Scene

def Thread.finish {α : Type} : Thread α → Scene → α × Scene
  | .ended value world, scene => (value, { scene with world })
  | .held _ world resume, scene => (resume ⟨true, false⟩ world).finish scene
  | .asleep sleep world resume, scene =>
    let scene := { scene with world }.sleepOut sleep
    (resume scene.world).finish scene

def perform {α : Type} (play : Play α) : Direct α :=
  modifyGet fun scene => (play scene.world).finish scene

def look : Direct World := return (← get).world

def change (update : World → World) : Direct Unit :=
  modify fun scene => { scene with world := update scene.world }

def carry (act : Act String String) : Direct Unit := change (·.after act)

end FreshTree.Scenario
