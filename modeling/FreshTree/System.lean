import FreshTree.Reconciler
import FreshTree.Request

/-!
All parties at once: a provider, the requests made of it, and the reconcilers
spawned on it one after another. An act is one critical section, one turn of a
worker, or the start or the end of one engine call, so every interleaving of
callers, workers and pool threads is a sequence of acts.

The history has one entry for each act, and the positions in it are the moments
of the run. An engine call is known by the moment of its start, and that moment
is the identity of the tree made from its result.
-/

namespace FreshTree

inductive Caller where
  | request (index : Nat)
  | job (reconciler : Nat) (seq : UInt64)
deriving DecidableEq

inductive Happening (U A : Type) where
  | passed (length : Nat)
  | ticked (length : Nat)
  | focused (unit : Option U)
  | disposed
  /-- Somebody else than a reconciler opened or joined a cycle. -/
  | begun (unit : U) (generation : Option Generation)
  /-- Somebody else than a reconciler completed a cycle, or tried to. -/
  | delivered (unit : U) (generation : Generation) (completion : Completion)
  | asked (request : Nat) (unit : U) (policy : Policy)
  | looked (request : Nat)
  | woken (request : Nat)
  | called (caller : Caller) (unit : U)
  | returned (caller : Caller) (result : Except ParseFailure A)
  | offered (request : Nat)
  | spawned (reconciler : Nat)
  /-- An edit opened or joined its cycle; the call that notes it goes on. -/
  | noted (reconciler : Nat) (edit : Edit U)
  | refused (reconciler : Nat) (unit : U)
  | accepted (reconciler : Nat) (edit : Edit U)
  | rejected (reconciler : Nat) (edit : Edit U)
  | flushed (reconciler : Nat)
  | stopped (reconciler : Nat)
  | killed (reconciler : Nat)
  | launched (reconciler : Nat) (seq : UInt64) (edit : Edit U)
  | worked (reconciler : Nat) (action : Reconciler.Action U A)

def Happening.isEdit {U A : Type} : Happening U A → Bool
  | .noted _ _ | .refused _ _ => true
  | _ => false

def Happening.isCallOf {U A : Type} (caller : Caller) : Happening U A → Bool
  | .called other _ => other = caller
  | _ => false

def callMoment? {U A : Type} (history : List (Happening U A)) (caller : Caller) : Option Nat :=
  history.findIdx? (Happening.isCallOf caller)

/-! Requests. -/

namespace Request

/-- What can happen to a request. The token of a request may have fired or not
at each look at it, as its owner pleases. -/
inductive Move (A : Type) where
  | look (cancelled : Bool)
  | wake
  | call
  | finish (cancelled : Bool) (ending : Ending A)
  | install (cancelled : Bool)

variable {U A : Type} [DecidableEq U]

def move? (limits : Limits) (now : Instant) (called : Option Nat) (p : Provider U A)
    (r : Request U A) : Move A → Option (Provider U A × Turn U A)
  | .look cancelled =>
    match r.stage with
    | .validating => some (p, r.validate limits now cancelled p)
    | _ => none
  | .wake =>
    match r.stage with
    | .blocked _ => some (p, r.wake, [])
    | _ => none
  | .call =>
    match r.stage, called with
    | .parsing _, none => some (p, r, [])
    | _, _ => none
  | .finish cancelled ending =>
    match r.stage, called with
    | .parsing _, some id => some (p, r.parsed limits id cancelled ending.result)
    | _, _ => none
  | .install cancelled =>
    match r.stage with
    | .installing _ _ => some (r.install limits cancelled p)
    | _ => none

def Move.happening (index : Nat) (unit : U) : Move A → Happening U A
  | .look _ => .looked index
  | .wake => .woken index
  | .call => .called (.request index) unit
  | .finish _ ending => .returned (.request index) ending.result
  | .install _ => .offered index

end Request

/-! Reconcilers. -/

namespace Reconciler

inductive Move (U A : Type) where
  | note (unit : U)
  | send
  | flush
  | stop
  | kill
  | call (seq : UInt64)
  | finish (seq : UInt64) (ending : Ending A)
  | turn

variable {U A : Type} [DecidableEq U]

def Move.isOnHandle : Move U A → Bool
  | .note _ | .flush => true
  | _ => false

/-- The identity of the tree that an action may deliver: the moment of the
engine call whose result was taken. -/
def treeId (history : List (Happening U A)) (k : Nat) : Action U A → TreeId
  | .judge taken => (callMoment? history (.job k taken.parsed.seq)).getD history.length
  | _ => history.length

def workHappening (k : Nat) (r : Reconciler U A) : Action U A → Happening U A
  | .launch edit => .launched k r.nextSeq edit
  | action => .worked k action

def move? (now : Instant) (history : List (Happening U A)) (k : Nat) (p : Provider U A)
    (r : Reconciler U A) : Move U A → Option (Step U A × Happening U A)
  | .note unit =>
    if r.noting.isSome then none
    else
      let begun := beginNote unit p r
      some (begun.1,
        match begun.2 with
        | .ok edit => .noted k edit
        | .error _ => .refused k unit)
  | .send =>
    match r.noting with
    | none => none
    | some edit =>
      let sent := sendNote history.length p r edit
      some (sent.1,
        match sent.2 with
        | .ok _ => .accepted k edit
        | .error _ => .rejected k edit)
  | .flush => some ({ reconciler := r.flush.1, provider := p }, .flushed k)
  | .stop => some ({ reconciler := r.stop, provider := p }, .stopped k)
  | .kill => some ({ reconciler := r.kill, provider := p }, .killed k)
  | .call seq =>
    match r.jobs.find? (·.seq = seq), callMoment? history (.job k seq) with
    | some job, none => some ({ reconciler := r, provider := p }, .called (.job k seq) job.unit)
    | _, _ => none
  | .finish seq ending =>
    match r.jobs.find? (·.seq = seq), callMoment? history (.job k seq) with
    | some job, some _ =>
      some ({ reconciler := r.deliver (job.parsed ending.result), provider := p },
        .returned (.job k seq) ending.result)
    | _, _ => none
  | .turn =>
    match r.nextAction? now with
    | none => none
    | some action =>
      some (r.perform now (treeId history k action) p action, r.workHappening k action)

end Reconciler

inductive Act (U A : Type) where
  | pass (length : Nat)
  | tick (length : Nat)
  | setActive (unit : Option U)
  | dispose
  | begin (unit : U)
  | deliver (ast : Option A) (unit : U) (generation : Generation)
  | ask (unit : U) (policy : Policy)
  | request (index : Nat) (move : Request.Move A)
  /-- A reconciler is spawned after the handle of the one before was dropped. -/
  | spawn (settings : ReconcilerSettings)
  | reconciler (index : Nat) (move : Reconciler.Move U A)

structure System (U A : Type) where
  /-- The clock that requests look at. -/
  now : Instant := 0
  /-- The clock of the runtime that the workers live on, which may stand still or run ahead. -/
  timer : Instant := 0
  provider : Provider U A := {}
  requests : List (Request U A) := []
  /-- Every reconciler spawned so far. All but the last have lost their handle. -/
  reconcilers : List (Reconciler U A) := []
  history : List (Happening U A) := []
  told : List (Note U) := []

namespace System

variable {U A : Type} [DecidableEq U]

def record (s : System U A) (happening : Happening U A) (notes : List (Note U)) : System U A :=
  { s with history := s.history ++ [happening], told := s.told ++ notes }

def allDropped (s : System U A) : Bool :=
  s.reconcilers.all fun r => r.stopped && r.noting.isNone

def moveRequest? (limits : Limits) (s : System U A) (i : Nat) (move : Request.Move A) :
    Option (System U A) :=
  match s.requests[i]? with
  | none => none
  | some r =>
    match r.move? limits s.now (callMoment? s.history (.request i)) s.provider move with
    | none => none
    | some (p, after, notes) =>
      some ({ s with provider := p, requests := s.requests.set i after }.record
        (move.happening i r.unit) notes)

def moveReconciler? (s : System U A) (k : Nat) (move : Reconciler.Move U A) :
    Option (System U A) :=
  match s.reconcilers[k]? with
  | none => none
  | some r =>
    if move.isOnHandle && k + 1 ≠ s.reconcilers.length then none
    else match r.move? s.timer s.history k s.provider move with
      | none => none
      | some (step, happening) =>
        some ({ s with
            provider := step.provider
            reconcilers := s.reconcilers.set k step.reconciler }.record happening step.notes)

def step? (limits : Limits) (s : System U A) : Act U A → Option (System U A)
  | .pass length => some ({ s with now := s.now + length }.record (.passed length) [])
  | .tick length => some ({ s with timer := s.timer + length }.record (.ticked length) [])
  | .setActive unit =>
    let outcome := s.provider.setActive unit
    some ({ s with provider := outcome.provider }.record (.focused unit) outcome.notes)
  | .dispose =>
    let outcome := s.provider.dispose
    some ({ s with provider := outcome.provider }.record .disposed outcome.notes)
  | .begin unit =>
    let outcome := s.provider.begin unit
    some ({ s with provider := outcome.provider }.record (.begun unit outcome.reply) outcome.notes)
  | .deliver ast unit generation =>
    let outcome := s.provider.complete s.history.length ast unit generation
    some ({ s with provider := outcome.provider }.record
      (.delivered unit generation outcome.reply) outcome.notes)
  | .ask unit policy =>
    some ({ s with requests := s.requests ++ [Request.start limits s.now unit policy] }.record
      (.asked s.requests.length unit policy) [])
  | .request i move => s.moveRequest? limits i move
  | .spawn settings =>
    if s.allDropped then
      some ({ s with reconcilers := s.reconcilers ++ [Reconciler.spawn settings limits.horizon] }.record
        (.spawned s.reconcilers.length) [.trace .reconcilerSpawned])
    else none
  | .reconciler k move => s.moveReconciler? k move

/-- The act wakes every request that sleeps, after whatever it does to the provider. No
move of a request does. -/
def signals (s : System U A) : Act U A → Bool
  | .setActive unit => (s.provider.setActive unit).wakes
  | .dispose => s.provider.dispose.wakes
  | .begin unit => (s.provider.begin unit).wakes
  | .deliver ast unit generation =>
    (s.provider.complete s.history.length ast unit generation).wakes
  | .reconciler k move =>
    (s.reconcilers[k]?.bind fun r => r.move? s.timer s.history k s.provider move).any fun moved =>
      moved.1.wakes
  | .pass _ | .tick _ | .ask _ _ | .request _ _ | .spawn _ => false

def run? (limits : Limits) (s : System U A) : List (Act U A) → Option (System U A)
  | [] => some s
  | act :: rest =>
    match s.step? limits act with
    | none => none
    | some next => next.run? limits rest

def edits (s : System U A) : Nat := s.history.countP Happening.isEdit

end System

inductive Reaches {U A : Type} [DecidableEq U] (limits : Limits) (allowed : Act U A → Prop)
    (first : System U A) : System U A → Prop where
  | refl : Reaches limits allowed first first
  | next {before after : System U A} {act : Act U A} :
      Reaches limits allowed first before → allowed act → before.step? limits act = some after →
      Reaches limits allowed first after

/-- The act leaves it to the reconcilers to open and complete cycles. -/
def Act.IsInternal {U A : Type} : Act U A → Prop
  | .begin _ | .deliver _ _ _ => False
  | _ => True

end FreshTree
