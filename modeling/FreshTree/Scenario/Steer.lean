import FreshTree.Scenario.Act
import FreshTree.Scenario.Settle

/-!
Operations of the main list: those that any thread may carry out, and those that
steer the reconciler, its runtime, and the waiting of requests on threads of
their own.
-/

namespace FreshTree.Scenario

abbrev Listed := Operation → Direct Answer

def withHandle (next : Nat → Reconciler String String → Direct Answer) : Direct Answer := do
  match (← look).held? with
  | some (index, r) => next index r
  | none => return .refused .noReconciler

def letGo (index : Nat) : Direct Unit := do
  carry (.reconciler index .stop)
  change fun w => { w with handle := none }

def spawn (nested : Nested) (debounceMs : UInt64) : Direct Answer := do
  change fun w =>
    { w with runtime := .running, handle := some w.system.reconcilers.length }
  let _ ← perform (enact nested {} (.spawn { debounceMs }))
  return .nothing

/-- The operations of a batch. The pool, but no worker, runs after each. One
that is barred makes the whole batch fail, after those before it. -/
def playBatch (nested : Nested) (listed : Listed) : List Operation → List Answer → Direct Answer
  | [], answers => return .each answers.reverse
  | operation :: rest, answers => do
    if operation.isBarredFromBatch then return .refused .notAllowedInBatch
    let answer ← listed operation
    settlePool nested
    playBatch nested listed rest (answer :: answers)

def startWaiter (request : Play (Option (Tree String String))) : Direct Unit :=
  modify fun scene =>
    let (waiter, world) := Waiter.start request scene.world
    { scene with world, waiters := scene.waiters ++ [waiter] }

def playDuring (nested : Nested) (listed : Listed) (operation : Operation) : Direct Answer := do
  let answer ← listed operation
  settle nested
  modify Scene.stir
  return answer

def joinWaiter (index : Nat) : Direct (Option Shown × List Entry) := do
  modify fun scene => scene.join index
  match (← get).waiters[index]? with
  | some waiter =>
    let shown ← perform (presentAnswer waiter.result)
    return (shown, waiter.log.toList)
  | none => return (none, [])

def waitWith (nested : Nested) (listed : Listed) (unit : String) (policy : Policy)
    (token : Option String) (count : Nat) (during : List Operation) : Direct Answer := do
  let first := (← get).waiters.length
  (List.range count).forM fun _ => startWaiter (requestTree nested {} unit policy token)
  let answers ← during.mapM (playDuring nested listed)
  let joined ← (List.range count).mapM fun index => joinWaiter (first + index)
  modify fun scene => { scene with waiters := scene.waiters.take first }
  return .waited answers joined

def longestAdvance : UInt64 := 1000000000000

def steer (nested : Nested) (listed : Listed) : Operation → Direct Answer
  | .spawn debounceMs => do
    let w ← look
    if w.handle.isSome || w.runtime = .killed then return .refused .reconcilerExists
    withField debounceMs (spawn nested)
  | .shutdown => withHandle fun index r => do
    letGo index
    if r.phase = .killed then perform (giveOutAll nested {} [.trace .joinFailed])
    return .nothing
  | .dropReconciler => withHandle fun index _ => do
    letGo index
    return .nothing
  | .killRuntime => do
    if (← look).runtime ≠ .running then return .refused .noRuntime
    (List.range (← look).system.reconcilers.length).forM fun index =>
      carry (.reconciler index .kill)
    change fun w => { w with runtime := .killed }
    return .nothing
  | .advance ms => withField ms fun ms => do
    if (← look).runtime ≠ .running then return .refused .noRuntime
    if longestAdvance < ms then return .refused .delayTooLarge
    carry (.tick (Clock.millis ms.toNat))
    return .nothing
  | .release => do
    let scene ← get
    set { scene with paused := scene.paused.map Paused.release }
    return .flag scene.paused.isSome
  | .batch operations => playBatch nested listed operations []
  | .waitWith call waiters during => do
    if !(← look).observed then return .refused .observerNeeded
    withField call.unit fun unit =>
      withField call.policy fun policy =>
        withField waiters fun waiters =>
          waitWith nested listed unit policy call.token waiters.toNat during
  | operation => perform (nested {} operation)

def listed (nested : Nested) : Nat → Listed
  | 0, _ => return .refused .notAllowedHere
  | depth + 1, operation => steer nested (listed nested depth) operation

end FreshTree.Scenario
