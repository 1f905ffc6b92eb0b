import FreshTree.Event
import FreshTree.Failure
import FreshTree.Tree

/-!
What a scenario consists of: operations in order, what the parsing engine does
at each of its calls, and what an observer does when it is told of an event.
Units and syntax trees are texts here.

An operation may be written badly or stand where it has no place. It is then
refused when its turn comes, and the scenario goes on.
-/

namespace FreshTree.Scenario

inductive Refusal where
  | notAllowedHere
  | notAllowedInBatch
  | noReconciler
  | noRuntime
  | noSuchTree
  | reconcilerExists
  | badGeneration
  | generationTooLarge
  | delayTooLarge
  | badPolicy
  | unknownEvent
  | observerNeeded
  | notNumber (field : String)
  | notText (field : String)
deriving DecidableEq

def Refusal.message : Refusal → String
  | .notAllowedHere => "op not allowed here"
  | .notAllowedInBatch => "op not allowed in batch"
  | .noReconciler => "no reconciler"
  | .noRuntime => "no runtime"
  | .noSuchTree => "no such tree"
  | .reconcilerExists => "reconciler exists or runtime killed"
  | .badGeneration => "gen"
  | .generationTooLarge => "gen too large"
  | .delayTooLarge => "ms too large"
  | .badPolicy => "policy"
  | .unknownEvent => "unknown event"
  | .observerNeeded => "wait_with needs the observer"
  | .notNumber field => field ++ " must be an unsigned 64-bit integer"
  | .notText field => field ++ " must be a string"

abbrev Field (α : Type) := Except Refusal α

structure Call where
  unit : Field String
  policy : Field Policy
  token : Option String

inductive Operation where
  | setActive (unit : Field (Option String))
  | beginCycle (unit : Field String)
  | reconciled (generation : Field UInt64) (unit : Field String) (ast : Option String)
  | request (call : Call)
  | cancel (token : Field String)
  | dispose
  | isReconciling (unit : Field String)
  | state
  | metrics
  | count (event : Field Event)
  | treeText (index : Field UInt64)
  | sameEngine
  | noteEdit (unit : Field String)
  | flush
  | isClosed
  | sameProvider
  | spawn (debounceMs : Field UInt64)
  | shutdown
  | dropReconciler
  | killRuntime
  | advance (ms : Field UInt64)
  | release
  | batch (operations : List Operation)
  | waitWith (call : Call) (waiters : Field UInt64) (during : List Operation)
  | unknown (name : String)
deriving Inhabited

namespace Operation

def name : Operation → String
  | .setActive _ => "set_active"
  | .beginCycle _ => "begin"
  | .reconciled .. => "reconciled"
  | .request _ => "get"
  | .cancel _ => "cancel"
  | .dispose => "dispose"
  | .isReconciling _ => "is_reconciling"
  | .state => "state"
  | .metrics => "metrics"
  | .count _ => "count"
  | .treeText _ => "debug_tree"
  | .sameEngine => "same_engine"
  | .noteEdit _ => "note_edit"
  | .flush => "flush"
  | .isClosed => "is_closed"
  | .sameProvider => "same_provider"
  | .spawn _ => "spawn"
  | .shutdown => "shutdown"
  | .dropReconciler => "drop_reconciler"
  | .killRuntime => "kill_runtime"
  | .advance _ => "advance"
  | .release => "release"
  | .batch _ => "batch"
  | .waitWith .. => "wait_with"
  | .unknown name => name

mutual

def size : Operation → Nat
  | .batch operations => 1 + sizes operations
  | .waitWith _ _ during => 1 + sizes during
  | _ => 1

def sizes : List Operation → Nat
  | [] => 0
  | operation :: rest => size operation + sizes rest

end

/-- It would let the worker run, or it waits for somebody, so a batch cannot
hold it. -/
def isBarredFromBatch : Operation → Bool
  | .shutdown | .killRuntime | .advance _ | .batch _ | .waitWith .. => true
  | _ => false

/-- It talks to the reconciler, which an observer must not do: it may run while
the worker delivers a result and edits are locked out. -/
def isTalking : Operation → Bool
  | .noteEdit _ | .flush | .isClosed | .sameProvider => true
  | _ => false

end Operation

inductive Finale where
  | ok (ast : Option String)
  | ending (ending : Ending String)

structure Plan where
  body : List Operation := []
  /-- A call on the pool then waits to be released or cancelled. -/
  hold : Bool := false
  /-- While it waits it does not look at its token. -/
  stubborn : Bool := false
  finale : Finale := .ok none

def Plan.ending (plan : Plan) (unit : String) (serial : Nat) : Ending String :=
  match plan.finale with
  | .ok (some ast) => .returned (.ok ast)
  | .ok none => .returned (.ok (unit ++ "#" ++ toString serial))
  | .ending ending => ending

structure Hook where
  event : Event
  nth : Nat := 1
  body : List Operation

end FreshTree.Scenario
