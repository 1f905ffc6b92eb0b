import FreshTree.Focus
import FreshTree.Trace

/-!
The state that all parties share: the active unit, the open cycle, and one
cached tree. Each function here is one critical section: it sees one state and
leaves one, and whatever it gives out (events, trace lines, the wake-up of
blocked requests) happens after it.

The rules that hold them together: a cached tree belongs to the active unit and
never to the unit of the open cycle, and a completion installs its tree only if
its cycle is still the open one.
-/

namespace FreshTree

structure Provider (U A : Type) where
  focus : Focus U := {}
  cycles : Cycles U := .initial
  cached : Option (Tree U A) := none
  disposed : Bool := false
deriving DecidableEq

/-- The end of an operation on the provider: the state after it, the reply, the
notes to give out, and whether blocked requests are woken. -/
structure Outcome (U A R : Type) where
  provider : Provider U A
  reply : R
  notes : List (Note U) := []
  wakes : Bool := false

namespace Provider

variable {U A : Type} [DecidableEq U]

def active (p : Provider U A) : Option U := p.focus.active

def generation (p : Provider U A) : Generation := p.cycles.generation

def cachedUnit (p : Provider U A) : Option U := p.cached.map Tree.unit

def create (given : Settings) : Settings × Provider U A × List (Note U) :=
  let complaints := match given.validate with
    | .error fault => [.trace (.settingsRefused fault)]
    | .ok () => []
  (given.sanitized, {}, complaints)

def serve (p : Provider U A) (unit : U) : Option (Tree U A) :=
  if p.active = some unit then p.cached.filter fun tree => tree.unit = unit else none

def store? (p : Provider U A) (tree : Tree U A) : Option (Provider U A) :=
  if p.active = some tree.unit then some { p with cached := some tree } else none

def invalidate (p : Provider U A) (unit : U) : Provider U A :=
  if p.cachedUnit = some unit then { p with cached := none } else p

/-- Makes `unit` the only unit that the cache may serve. A tree cached for
another unit is evicted, and a cycle open for another unit is abandoned, so a
later switch back finds nothing of the time before. -/
def setActive (p : Provider U A) (unit : Option U) : Outcome U A Unit :=
  if p.disposed then
    { provider := p, reply := (), notes := [.trace (.activeAfterDispose unit)] }
  else if p.active = unit then
    { provider := p, reply := () }
  else
    let evicted := p.cached.isSome && p.cachedUnit ≠ unit
    let elsewhere := p.cycles.isBusyElsewhere unit
    let abandoned := if elsewhere then p.cycles.openGeneration? else none
    { provider :=
        { p with
          focus := p.focus.set unit
          cached := if evicted then none else p.cached
          cycles := if elsewhere then p.cycles.abandon else p.cycles }
      reply := ()
      notes := [.trace (.activeChanged p.active unit evicted abandoned)]
      wakes := true }

/-- Opens a reconciliation cycle for `unit`, or joins the one that is open for
it, and drops the cached tree of the unit, which is out of date from here on. -/
def begin (p : Provider U A) (unit : U) : Outcome U A (Option Generation) :=
  if p.disposed then
    { provider := p, reply := none, notes := [.trace (.cycleAfterDispose unit)] }
  else
    let cycles := p.cycles.begin unit
    { provider := { p with cycles := cycles }.invalidate unit
      reply := some cycles.generation
      notes := [.trace (.cycleBegun unit cycles.generation)] }

def receive (p : Provider U A) (id : TreeId) (ast : Option A) (unit : U)
    (generation : Generation) : Provider U A × Completion :=
  if p.disposed then (p, .disposed)
  else match p.cycles.finish? unit generation with
    | none => (p, .stale)
    | some cycles =>
      let closed := { p with cycles := cycles }
      if p.active ≠ some unit then (closed, .inactive)
      else match ast with
        | none => (closed, .empty)
        | some ast =>
          ({ closed with cached := some ⟨id, unit, .reconciled generation, ast⟩ }, .installed)

/-- Delivers the result of the cycle `generation` of `unit`. Without an `ast` it
only closes the cycle. Blocked requests are woken however it is received. -/
def complete (p : Provider U A) (id : TreeId) (ast : Option A) (unit : U)
    (generation : Generation) : Outcome U A Completion :=
  let received := p.receive id ast unit generation
  { provider := received.1
    reply := received.2
    notes := match received.2 with
      | .installed => [.event .treeInstalled, .trace (.completionInstalled unit generation)]
      | .stale => [.event .staleDiscarded, .trace (.completionStale unit generation)]
      | other => [.trace (.completionDropped unit generation other)]
    wakes := true }

/-- Installs the tree of a foreground parse that was decided on when `since` was
the current generation. It is refused if a cycle is open or was opened since,
because the parsed content may then be older than that cycle. -/
def installForeground? (p : Provider U A) (tree : Tree U A) (since : Generation) :
    Option (Provider U A) :=
  if p.disposed || !p.cycles.isQuietSince since then none else p.store? tree

def dispose (p : Provider U A) : Outcome U A Unit :=
  if p.disposed then { provider := p, reply := () }
  else
    { provider :=
        { focus := p.focus.set none
          cycles := p.cycles.abandon
          cached := none
          disposed := true }
      reply := ()
      notes := [.trace .disposed]
      wakes := true }

end Provider

end FreshTree
