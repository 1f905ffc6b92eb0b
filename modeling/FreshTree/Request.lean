import FreshTree.Provider

/-!
A request for the tree of one unit. It never holds the provider's lock across a
pause, so it is a sequence of critical sections with anything in between: it
looks at the provider (`validate`), pauses or parses, and, if it parsed the
active unit, tries to leave its tree in the cache (`install`). Each section is
a function on the request; the only one that writes to the provider is
`install`.
-/

namespace FreshTree

inductive Purpose where
  /-- The active unit, when `since` was the current generation and no cycle was
  open. -/
  | foreground (since : Generation)
  | detached
deriving DecidableEq

inductive Stage (U A : Type) where
  | validating
  | blocked (slice : Instant)
  | parsing (purpose : Purpose)
  | installing (tree : Tree U A) (since : Generation)
  | answered (tree : Option (Tree U A))
deriving DecidableEq

structure Request (U A : Type) where
  unit : U
  policy : Policy
  deadline : Instant
  /-- The count of focus changes at its latest look at the provider. -/
  seen : Option UInt64 := none
  /-- It told already that it waits, and the active unit did not move since. -/
  waiting : Bool := false
  stage : Stage U A := .validating
deriving DecidableEq

abbrev Request.Turn (U A : Type) := Request U A × List (Note U)

namespace Request

variable {U A : Type} [DecidableEq U]

def start (limits : Limits) (now : Instant) (unit : U) (policy : Policy) : Request U A :=
  { unit, policy, deadline := limits.deadline now }

def answer (r : Request U A) (tree : Option (Tree U A)) : Request U A :=
  { r with stage := .answered tree }

def regrets (limits : Limits) (r : Request U A) : Unavailable → List (Note U)
  | .waitTimedOut =>
    [.event .waitTimedOut, .trace (.requestTimedOut r.unit limits.settings.waitTimeoutMs)]
  | .parseFailed reason =>
    [.event .parseFailed, .trace (.requestParseFailed r.unit r.policy reason)]
  | .cancelled => [.event .cancelled, .trace (.requestCancelled r.unit r.policy)]
  | why => [.trace (.requestUnavailable r.unit r.policy why)]

def refuse (limits : Limits) (r : Request U A) (why : Unavailable) : Turn U A :=
  (r.answer none, r.regrets limits why)

/-- Starts over, with a fresh deadline, if the active unit moved since the last
look. A change is noticed even if the unit came back. -/
def notice (limits : Limits) (now : Instant) (changes : UInt64) (r : Request U A) : Turn U A :=
  if r.seen.all (· = changes) then ({ r with seen := some changes }, [])
  else
    ({ r with seen := some changes, waiting := false, deadline := limits.deadline now },
      [.trace (.requestRetried r.unit r.policy)])

/-- The decision while a cycle is open for the unit: give up, tell that the
request waits, or sleep. Between telling and sleeping it looks once more,
because the cycle may end meanwhile. -/
def await (limits : Limits) (now : Instant) (generation : Generation) (r : Request U A) :
    Turn U A :=
  if r.deadline ≤ now then r.refuse limits .waitTimedOut
  else if r.waiting then
    ({ r with stage := .blocked (limits.sliceEnd now r.deadline) }, [])
  else
    ({ r with waiting := true, stage := .validating },
      [.trace (.requestWaits r.unit generation), .event .waitEntered])

def miss (limits : Limits) (now : Instant) (p : Provider U A) (r : Request U A) : Turn U A :=
  match r.policy with
  | .noWait => (r.answer none, [.event .cacheMiss])
  | .activeOnly =>
    (r.answer none,
      if p.cycles.isBusy r.unit then [.event .cacheMiss]
      else [.event .cacheMiss, .trace (.requestIdle r.unit)])
  | .waitForCurrent =>
    if p.cycles.isBusy r.unit then r.await limits now p.generation
    else
      ({ r with stage := .parsing (.foreground p.generation) },
        [.event .cacheMiss, .event .foregroundParse, .trace (.parsingForeground r.unit)])

def decide (limits : Limits) (now : Instant) (p : Provider U A) (r : Request U A) : Turn U A :=
  if p.active ≠ some r.unit then
    if r.policy = .activeOnly then r.refuse limits .notActive
    else
      ({ r with stage := .parsing .detached },
        [.event .detachedParse, .trace (.parsingDetached r.unit)])
  else match p.serve r.unit with
    | some tree =>
      (r.answer (some tree),
        [.event .cacheHit, .trace (.requestHit r.unit r.policy tree.origin)])
    | none => r.miss limits now p

/-- One look at the provider. Disposal comes before cancellation, and both come
before anything else, the deadline included. -/
def validate (limits : Limits) (now : Instant) (cancelled : Bool) (p : Provider U A)
    (r : Request U A) : Turn U A :=
  if p.disposed then r.refuse limits .disposed
  else if cancelled then r.refuse limits .cancelled
  else
    let noticed := r.notice limits now p.focus.changes
    let decided := noticed.1.decide limits now p
    (decided.1, noticed.2 ++ decided.2)

def wake (r : Request U A) : Request U A :=
  match r.stage with
  | .blocked _ => { r with stage := .validating }
  | _ => r

def sleepsOn (limits : Limits) (now : Instant) (cancelled : Bool) (p : Provider U A)
    (r : Request U A) : Bool :=
  match (r.wake.validate limits now cancelled p).1.stage with
  | .blocked _ => true
  | _ => false

/-- Takes the result of the engine call of the request. The tree made of it gets
the identity `id`. A result that comes after cancellation is dropped. -/
def parsed (limits : Limits) (id : TreeId) (cancelled : Bool) (result : Except ParseFailure A)
    (r : Request U A) : Turn U A :=
  match r.stage with
  | .parsing purpose =>
    match result with
    | .error why => r.refuse limits (.ofParse why)
    | .ok ast =>
      if cancelled then r.refuse limits .cancelled
      else match purpose with
        | .detached => (r.answer (some ⟨id, r.unit, .detached, ast⟩), [])
        | .foreground since =>
          ({ r with stage := .installing ⟨id, r.unit, .foreground, ast⟩ since }, [])
  | _ => (r, [])

/-- Offers the tree of a foreground parse to the cache. The request is answered
with its tree whether or not the cache takes it. -/
def install (limits : Limits) (cancelled : Bool) (p : Provider U A) (r : Request U A) :
    Provider U A × Turn U A :=
  match r.stage with
  | .installing tree since =>
    if cancelled then (p, r.refuse limits .cancelled)
    else match p.installForeground? tree since with
      | some after =>
        (after, r.answer (some tree),
          [.event .treeInstalled, .trace (.foregroundInstalled r.unit)])
      | none => (p, r.answer (some tree), [.trace (.foregroundSuperseded r.unit)])
  | _ => (p, r, [])

end Request

end FreshTree
