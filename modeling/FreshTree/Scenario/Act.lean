import FreshTree.Scenario.Thread
import FreshTree.Trace.Line

/-!
Operations that any thread may carry out, on the provider or on the handle of
the reconciler. An operation first has to be allowed at its place; then whatever
it needs has to exist; then its fields have to be in order.
-/

namespace FreshTree.Scenario

def withField {m : Type → Type} [Monad m] {α : Type} (field : Field α)
    (next : α → m Answer) : m Answer :=
  match field with
  | .ok value => next value
  | .error refusal => return .refused refusal

def noteEdit (nested : Nested) (place : Place) (unit : String) (index : Nat) : Play Answer := do
  match ← enact nested place (.reconciler index (.note unit)) with
  | some (.noted _ _) =>
    match ← enact nested place (.reconciler index .send) with
    | some (.accepted _ edit) => return .number edit.generation.count
    | _ => return .failed .closed
  | _ => return .failed .disposed

def latestForgery : UInt64 := 100000

def talk (nested : Nested) (place : Place) (operation : Operation) : Play Answer := do
  match (← get).held?, operation with
  | none, _ => return .refused .noReconciler
  | some (index, _), .noteEdit unit =>
    withField unit fun unit => noteEdit nested place unit index
  | some (index, r), .flush =>
    let _ ← enact nested place (.reconciler index .flush)
    match r.flush.2 with
    | .ok () => return .nothing
    | .error why => return .failed why
  | some (_, r), .isClosed => return .flag r.isClosed
  | some _, .sameProvider => return .flag true
  | some _, _ => return .refused .notAllowedHere

def carryOut (nested : Nested) (place : Place) : Operation → Play Answer
  | .setActive unit => withField unit fun unit => do
    let _ ← enact nested place (.setActive unit)
    return .nothing
  | .beginCycle unit => withField unit fun unit => do
    match ← enact nested place (.begin unit) with
    | some (.begun _ (some generation)) => return .number generation.count
    | _ => return .nothing
  | .reconciled generation unit ast => withField generation fun generation =>
    withField unit fun unit => do
      if latestForgery < generation then return .refused .generationTooLarge
      let _ ← enact nested place (.deliver ast unit ⟨generation⟩)
      return .nothing
  | .request call => withField call.unit fun unit => withField call.policy fun policy => do
    let tree ← requestTree nested place unit policy call.token
    return .tree (← presentAnswer tree)
  | .cancel token => withField token fun token => do
    modify fun w => { w with cancelled := token :: w.cancelled }
    return .nothing
  | .dispose => do
    let _ ← enact nested place .dispose
    return .nothing
  | .isReconciling unit => withField unit fun unit => do
    return .flag ((← get).system.provider.cycles.isBusy unit)
  | .state => return .state (.of (← get).system.provider)
  | .metrics => return .tally (← get).tally
  | .count event => withField event fun event => do
    return .number ((← get).tally.count event)
  | .treeText index => withField index fun index => do
    match (← get).shown[index.toNat]? with
    | some tree => return .text tree.text
    | none => return .refused .noSuchTree
  | .sameEngine => return .flag true
  | operation =>
    if operation.isTalking && !place.observing then talk nested place operation
    else return .refused .notAllowedHere

/-- Carries out an operation, with operations inside each other up to this
depth. Every level of nesting carries out an operation of the scenario that no
other level does, so the number of operations in the scenario is enough. -/
def act : Nat → Nested
  | 0, _, _ => return .refused .notAllowedHere
  | depth + 1, place, operation => carryOut (act depth) place operation

end FreshTree.Scenario
