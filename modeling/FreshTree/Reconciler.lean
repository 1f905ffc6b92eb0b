import FreshTree.Provider

/-!
The background reconciler. Its handle notes edits; its worker waits for a quiet
period, parses the edited unit on a pool, and delivers the result. Handle,
worker and pool run at the same time, so each of their steps is a function of
its own.

A noted edit opens (or joins) a cycle of the provider before its command is
queued. The lock on the count of edits is held from one to the other, and by
the worker from the look at that count to the delivery of a result, so no edit
joins a cycle that is being completed with older content.
-/

namespace FreshTree

/-- One noted edit: the cycle that it opened or joined, and the count of edits
after it. -/
structure Edit (U : Type) where
  unit : U
  generation : Generation
  stamp : UInt64
deriving DecidableEq

inductive Command (U : Type) where
  | edit (edit : Edit U)
  | flush
deriving DecidableEq

structure Pending (U : Type) where
  edit : Edit U
  due : Instant
deriving DecidableEq

structure Inflight (U : Type) where
  seq : UInt64
  edit : Edit U
deriving DecidableEq

structure Job (U : Type) where
  seq : UInt64
  unit : U
  generation : Generation
  /-- Its own cancellation token fired. -/
  revoked : Bool := false
deriving DecidableEq

structure Parsed (U A : Type) where
  seq : UInt64
  unit : U
  generation : Generation
  result : Except ParseFailure A

def Job.parsed {U A : Type} (job : Job U) (result : Except ParseFailure A) : Parsed U A :=
  { seq := job.seq, unit := job.unit, generation := job.generation, result }

structure Taken (U A : Type) where
  parsed : Parsed U A
  /-- The count of edits that the parsed content reflects. -/
  stamp : UInt64

inductive Phase where
  | running
  | closing
  | closed
  /-- It vanished with the runtime under it. -/
  | killed
deriving DecidableEq

structure Reconciler (U A : Type) where
  settings : ReconcilerSettings
  horizon : Instant
  stopped : Bool := false
  phase : Phase := .running
  /-- The number of edits noted so far. It wraps at 2^64. -/
  noted : UInt64 := 0
  /-- The edit that is between its begin and its send. Its caller holds the lock
  on the count of edits. -/
  noting : Option (Edit U) := none
  commands : List (Command U) := []
  results : List (Parsed U A) := []
  pending : Option (Pending U) := none
  inflight : Option (Inflight U) := none
  taken : Option (Taken U A) := none
  nextSeq : UInt64 := 0
  jobs : List (Job U) := []

namespace Reconciler

structure Step (U A : Type) where
  reconciler : Reconciler U A
  provider : Provider U A
  notes : List (Note U) := []
  wakes : Bool := false

variable {U A : Type} [DecidableEq U]

def spawn (settings : ReconcilerSettings) (horizon : Instant) : Reconciler U A :=
  { settings, horizon }

def accepts (r : Reconciler U A) : Bool := r.phase = .running

def isClosed (r : Reconciler U A) : Bool := r.stopped || !r.accepts

def isRevoked (r : Reconciler U A) (seq : UInt64) : Bool :=
  r.stopped || r.jobs.any fun job => job.seq = seq && job.revoked

def revoke (r : Reconciler U A) (seq : UInt64) : Reconciler U A :=
  { r with
    jobs := r.jobs.map fun job => if job.seq = seq then { job with revoked := true } else job }

def forsake (p : Provider U A) (id : TreeId) (unit : U) (generation : Generation)
    (r : Reconciler U A) : Step U A :=
  let outcome := p.complete id none unit generation
  { reconciler := r, provider := outcome.provider, notes := outcome.notes, wakes := outcome.wakes }

/-! The handle. -/

/-- First half of noting an edit: counts it and opens or joins the cycle. It
takes the lock on the count of edits, so it cannot run while another edit is
being noted. -/
def beginNote (unit : U) (p : Provider U A) (r : Reconciler U A) :
    Step U A × Except ReconcilerFailure (Edit U) :=
  let stamp := r.noted + 1
  let begun := p.begin unit
  match begun.reply with
  | none =>
    ({ reconciler := { r with noted := stamp }, provider := begun.provider, notes := begun.notes },
      .error .disposed)
  | some generation =>
    let edit : Edit U := ⟨unit, generation, stamp⟩
    ({ reconciler := { r with noted := stamp, noting := some edit }
       provider := begun.provider
       notes := begun.notes
       wakes := begun.wakes },
      .ok edit)

/-- Second half of noting an edit: queues its command. If nobody takes commands
any more, the cycle is closed at once, because nobody else will. -/
def sendNote (id : TreeId) (p : Provider U A) (r : Reconciler U A) (edit : Edit U) :
    Step U A × Except ReconcilerFailure Generation :=
  if r.accepts then
    ({ reconciler := { r with noting := none, commands := r.commands ++ [.edit edit] }
       provider := p },
      .ok edit.generation)
  else (forsake p id edit.unit edit.generation { r with noting := none }, .error .closed)

def flush (r : Reconciler U A) : Reconciler U A × Except ReconcilerFailure Unit :=
  if r.accepts then ({ r with commands := r.commands ++ [.flush] }, .ok ())
  else (r, .error .closed)

def stop (r : Reconciler U A) : Reconciler U A := { r with stopped := true }

/-! The pool and the runtime. -/

def deliver (parsed : Parsed U A) (r : Reconciler U A) : Reconciler U A :=
  { r with
    jobs := r.jobs.filter fun job => job.seq ≠ parsed.seq
    results := if r.phase = .running then r.results ++ [parsed] else r.results }

/-- The worker vanishes as it is. Nobody completes what it had open. -/
def kill (r : Reconciler U A) : Reconciler U A :=
  if r.phase = .closed then r
  else
    { r with
      phase := .killed
      commands := []
      results := []
      pending := none
      inflight := none
      taken := none }

/-! The worker. -/

inductive Action (U A : Type) where
  | judge (taken : Taken U A)
  | leave
  | receive (parsed : Parsed U A)
  | obey (command : Command U)
  | launch (edit : Edit U)
  | drain (command : Command U)
  | forsakeInflight (inflight : Inflight U)
  | forsakePending (pending : Pending U)
  | close

/-- The next action of a worker in its loop: a stop comes before a result, a
result before a command, and a command before a parse that is due. A result
that was taken is judged as soon as no edit is being noted. -/
def runningAction? (now : Instant) (r : Reconciler U A) : Option (Action U A) :=
  match r.taken with
  | some taken => if r.noting.isSome then none else some (.judge taken)
  | none =>
    if r.stopped then some .leave
    else match r.results, r.commands, r.pending with
      | parsed :: _, _, _ => some (.receive parsed)
      | [], command :: _, _ => some (.obey command)
      | [], [], some pending => if pending.due ≤ now then some (.launch pending.edit) else none
      | [], [], none => none

/-- The next action of a worker that left its loop: the queued commands first,
then the parse in flight, then the pending edit. -/
def closingAction (r : Reconciler U A) : Action U A :=
  match r.commands, r.inflight, r.pending with
  | command :: _, _, _ => .drain command
  | [], some inflight, _ => .forsakeInflight inflight
  | [], none, some pending => .forsakePending pending
  | [], none, none => .close

def nextAction? (now : Instant) (r : Reconciler U A) : Option (Action U A) :=
  match r.phase with
  | .running => r.runningAction? now
  | .closing => some r.closingAction
  | .closed | .killed => none

def supersede (r : Reconciler U A) : Reconciler U A × List (Note U) :=
  match r.inflight with
  | none => (r, [])
  | some inflight =>
    ({ r with inflight := none }.revoke inflight.seq,
      [.trace (.parseSuperseded inflight.edit.unit inflight.seq)])

/-- Takes an edit: it replaces whatever was pending or in flight, and its quiet
period starts now. -/
def queue (now : Instant) (edit : Edit U) (r : Reconciler U A) : Reconciler U A × List (Note U) :=
  let superseded := r.supersede
  ({ superseded.1 with
      pending := some ⟨edit, Clock.after r.horizon now r.settings.debounce⟩ },
    superseded.2 ++ [.trace (.editQueued edit.unit edit.generation r.settings.debounceMs)])

def discard (p : Provider U A) (parsed : Parsed U A) (r : Reconciler U A) : Step U A :=
  { reconciler := r
    provider := p
    notes := [.trace (.parseDropped parsed.unit parsed.seq)] }

def receive (p : Provider U A) (parsed : Parsed U A) (r : Reconciler U A) : Step U A :=
  match r.inflight with
  | none => discard p parsed r
  | some inflight =>
    if inflight.seq = parsed.seq then
      { reconciler := { r with inflight := none, taken := some ⟨parsed, inflight.edit.stamp⟩ }
        provider := p }
    else discard p parsed r

def launch (p : Provider U A) (edit : Edit U) (r : Reconciler U A) : Step U A :=
  let job : Job U := { seq := r.nextSeq, unit := edit.unit, generation := edit.generation }
  { reconciler :=
      { r with
        pending := none
        inflight := some ⟨job.seq, edit⟩
        nextSeq := r.nextSeq + 1
        jobs := r.jobs ++ [job] }
    provider := p
    notes := [.trace (.parseStarted edit.unit edit.generation job.seq)] }

def hasten (now : Instant) (r : Reconciler U A) : Reconciler U A :=
  { r with pending := r.pending.map fun pending => { pending with due := now } }

def judge (id : TreeId) (taken : Taken U A) (p : Provider U A) (r : Reconciler U A) : Step U A :=
  let parsed := taken.parsed
  if r.noted ≠ taken.stamp then
    { reconciler := r
      provider := p
      notes := [.trace (.parseOutdated parsed.unit parsed.generation parsed.seq)] }
  else
    let outcome := p.complete id parsed.result.toOption parsed.unit parsed.generation
    let complaints := match parsed.result with
      | .ok _ => []
      | .error why => [.trace (.parseFailed parsed.unit parsed.generation why)]
    { reconciler := r
      provider := outcome.provider
      notes := complaints ++ outcome.notes
      wakes := outcome.wakes }

def perform (now : Instant) (id : TreeId) (p : Provider U A) (r : Reconciler U A) :
    Action U A → Step U A
  | .judge taken => judge id taken p { r with taken := none }
  | .leave => { reconciler := { r with phase := .closing }, provider := p }
  | .receive parsed => receive p parsed { r with results := r.results.tail }
  | .obey command =>
    let rest := { r with commands := r.commands.tail }
    match command with
    | .edit edit =>
      let queued := rest.queue now edit
      { reconciler := queued.1, provider := p, notes := queued.2 }
    | .flush => { reconciler := rest.hasten now, provider := p }
  | .launch edit => launch p edit r
  | .drain command =>
    let rest := { r with commands := r.commands.tail }
    match command with
    | .edit edit => forsake p id edit.unit edit.generation rest
    | .flush => { reconciler := rest, provider := p }
  | .forsakeInflight inflight =>
    forsake p id inflight.edit.unit inflight.edit.generation
      ({ r with inflight := none }.revoke inflight.seq)
  | .forsakePending pending =>
    forsake p id pending.edit.unit pending.edit.generation { r with pending := none }
  | .close =>
    { reconciler := { r with phase := .closed }
      provider := p
      notes := [.trace .reconcilerClosed] }

end Reconciler

end FreshTree
