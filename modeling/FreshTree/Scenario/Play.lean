import FreshTree.Scenario.World

/-!
Computations on the world that one thread carries out. A thread may pause in the
middle of whatever it does, however deep in its calls that is, and goes on later
in a world that others have changed meanwhile. The thread of the pool pauses in
a held engine call; every thread pauses where a request sleeps. A computation
therefore ends either with a value or at a pause from which it can be resumed.
-/

namespace FreshTree.Scenario

structure Hold where
  token : Token
  stubborn : Bool

structure HoldEnd where
  released : Bool
  cancelled : Bool

structure Sleep where
  request : Nat
  token : Option String
  signals : Nat

namespace Sleep

def request? (sleep : Sleep) (w : World) : Option (Request String String) :=
  w.system.requests[sleep.request]?

def sleepsOn (sleep : Sleep) (w : World) : Bool :=
  (sleep.request? w).any
    (·.sleepsOn w.limits w.system.now (w.hasFired sleep.token) w.system.provider)

def slice (sleep : Sleep) (w : World) : Instant :=
  match (sleep.request? w).map Request.stage with
  | some (.blocked slice) => slice
  | _ => 0

/-- There was a signal since, or its slice ran out. Nothing else makes it look
at the provider, whatever happened to that. -/
def isDisturbed (sleep : Sleep) (w : World) : Bool :=
  sleep.signals ≠ w.signals || sleep.slice w ≤ w.system.now

def isOver (sleep : Sleep) (w : World) : Bool := sleep.isDisturbed w && !sleep.sleepsOn w

def turnOver (sleep : Sleep) (w : World) : Sleep × World :=
  if sleep.isDisturbed w && sleep.sleepsOn w then
    ({ sleep with signals := w.signals },
      (w.after (.request sleep.request .wake)).after
        (.request sleep.request (.look (w.hasFired sleep.token))))
  else (sleep, w)

def alarm (sleep : Sleep) (w : World) : Instant :=
  match sleep.request? w with
  | some r => if sleep.sleepsOn w then r.deadline else sleep.slice w
  | none => 0

end Sleep

/-- How far a thread got, and the world then. -/
inductive Thread (α : Type) where
  | ended (value : α) (world : World)
  | held (hold : Hold) (world : World) (resume : HoldEnd → World → Thread α)
  | asleep (sleep : Sleep) (world : World) (resume : World → Thread α)

namespace Thread

def andThen {α β : Type} (thread : Thread α) (next : α → World → Thread β) : Thread β :=
  match thread with
  | .ended value world => next value world
  | .held hold world resume => .held hold world fun how world => (resume how world).andThen next
  | .asleep sleep world resume => .asleep sleep world fun world => (resume world).andThen next

end Thread

def Play (α : Type) : Type := World → Thread α

namespace Play

instance : Monad Play where
  pure value := fun world => .ended value world
  bind play next := fun world => (play world).andThen next

instance : MonadStateOf World Play where
  get := fun world => .ended world world
  set world := fun _ => .ended ⟨⟩ world
  modifyGet change := fun world => let changed := change world; .ended changed.1 changed.2

def pause (hold : Hold) : Play HoldEnd := fun world => .held hold world .ended

def sleep (sleep : Sleep) : Play Unit := fun world => .asleep sleep world (.ended ⟨⟩)

end Play

def logEntry (entry : Entry) : Play Unit :=
  modify fun w => { w with log := w.log.push entry }

def present (tree : Tree String String) : Play Shown :=
  modifyGet fun w =>
    match w.shown.findIdx? fun other => other.id = tree.id with
    | some index => (⟨index, tree⟩, w)
    | none => (⟨w.shown.size, tree⟩, { w with shown := w.shown.push tree })

def presentAnswer (tree : Option (Tree String String)) : Play (Option Shown) :=
  match tree with
  | none => return none
  | some tree => return some (← present tree)

end FreshTree.Scenario
