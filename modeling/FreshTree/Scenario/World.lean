import FreshTree.System
import FreshTree.Scenario.Operation

/-!
The world in which a scenario is played: a system, which changes by acts only,
the queue of the pool that runs the parses of its reconcilers, and a log of what
happens. The clock of the workers moves only when a scenario advances it, and
that of the requests only when one of them waits for its deadline.
-/

namespace FreshTree.Scenario

/-- A tree as answers show it: numbered in the order of its first appearance. -/
structure Shown where
  index : Nat
  tree : Tree String String

structure Snapshot where
  active : Option String
  reconciling : Option String
  generation : Generation
  cached : Option String
  disposed : Bool

def Snapshot.of {A : Type} (p : Provider String A) : Snapshot :=
  { active := p.active
    reconciling := p.cycles.running
    generation := p.generation
    cached := p.cachedUnit
    disposed := p.disposed }

mutual

inductive Answer where
  | nothing
  | flag (value : Bool)
  | number (value : UInt64)
  | text (value : String)
  | tree (tree : Option Shown)
  | state (snapshot : Snapshot)
  | tally (tally : Tally)
  | failed (why : ReconcilerFailure)
  | refused (why : Refusal)
  | each (answers : List Answer)
  | waited (during : List Answer) (waiters : List (Option Shown × List Entry))

inductive Entry where
  | event (event : Event)
  | parse (unit : String) (serial : Nat) (cancelled : Bool)
  | unparked (serial : Nat) (released cancelled : Bool)
  | hook (operation : Operation) (answer : Answer)
  | trace (trace : Trace String)

end

inductive Runtime where
  | absent
  | running
  | killed
deriving DecidableEq

structure PoolJob where
  owner : Nat
  seq : UInt64
  unit : String

structure World where
  limits : Limits
  observed : Bool
  traced : Bool
  hooks : List Hook
  plans : List Plan
  system : System String String := {}
  tally : Tally := {}
  calls : Nat := 0
  cancelled : List String := []
  shown : Array (Tree String String) := #[]
  runtime : Runtime := .absent
  handle : Option Nat := none
  poolQueue : List PoolJob := []
  signals : Nat := 0
  log : Array Entry := #[]
  /-- No run of the worker or the pool is longer than this, and no request takes
  more sections. -/
  budget : Nat

namespace World

def hasFired (w : World) (token : Option String) : Bool :=
  token.any fun name => w.cancelled.contains name

def held? (w : World) : Option (Nat × Reconciler String String) := do
  let index ← w.handle
  let r ← w.system.reconcilers[index]?
  return (index, r)

def after? (w : World) (act : Act String String) : Option World :=
  (w.system.step? w.limits act).map fun after =>
    { w with
      system := after
      signals := if w.system.signals act then w.signals + 1 else w.signals }

def after (w : World) (act : Act String String) : World := (w.after? act).getD w

/-- Carries out an act, if it is possible. The result is what is told of it, and its
entry in the history. -/
def enact (act : Act String String) (w : World) :
    (List (Note String) × Option (Happening String String)) × World :=
  match w.after? act with
  | none => (([], none), w)
  | some after =>
    ((after.system.told.drop w.system.told.length, after.system.history.getLast?), after)

def takePlan (w : World) : (Nat × Plan) × World :=
  ((w.calls + 1, w.plans.headD {}), { w with calls := w.calls + 1, plans := w.plans.tail })

def isRevoked (w : World) (poolJob : PoolJob) : Bool :=
  match w.system.reconcilers[poolJob.owner]? with
  | some r => r.isRevoked poolJob.seq
  | none => false

end World

inductive Token where
  | caller (name : Option String)
  | worker (poolJob : PoolJob)

def World.isCancelled (w : World) : Token → Bool
  | .caller name => w.hasFired name
  | .worker poolJob => w.isRevoked poolJob

end FreshTree.Scenario
