import FreshTree.Proofs.Sections

/-!
Every way a move of a reconciler can go, with all that it finds and all that it leaves.
What a later result needs of the moves it reads off this list, so a change to a move is a
change to its case here.
-/

namespace FreshTree

variable {U A : Type}

namespace Reconciler

inductive Due (now : Instant) (r : Reconciler U A) : Action U A → Prop where
  | judge {taken : Taken U A} :
      r.phase = .running → r.taken = some taken → r.noting = none → Due now r (.judge taken)
  | leave : r.phase = .running → r.taken = none → r.stopped = true → Due now r .leave
  | receive {parsed : Parsed U A} {rest : List (Parsed U A)} :
      r.phase = .running → r.taken = none → r.stopped = false → r.results = parsed :: rest →
      Due now r (.receive parsed)
  | obey {command : Command U} {rest : List (Command U)} :
      r.phase = .running → r.taken = none → r.stopped = false → r.results = [] →
      r.commands = command :: rest → Due now r (.obey command)
  | launch {pending : Pending U} :
      r.phase = .running → r.taken = none → r.stopped = false → r.results = [] →
      r.commands = [] → r.pending = some pending → pending.due ≤ now →
      Due now r (.launch pending.edit)
  | drain {command : Command U} {rest : List (Command U)} :
      r.phase = .closing → r.commands = command :: rest → Due now r (.drain command)
  | forsakeInflight {inflight : Inflight U} :
      r.phase = .closing → r.commands = [] → r.inflight = some inflight →
      Due now r (.forsakeInflight inflight)
  | forsakePending {pending : Pending U} :
      r.phase = .closing → r.commands = [] → r.inflight = none → r.pending = some pending →
      Due now r (.forsakePending pending)
  | close :
      r.phase = .closing → r.commands = [] → r.inflight = none → r.pending = none →
      Due now r .close

theorem runningAction?_due {now : Instant} {r : Reconciler U A} {action : Action U A}
    (running : r.phase = .running) (next : r.runningAction? now = some action) :
    r.Due now action := by
  unfold runningAction? at next
  split at next
  · rename_i taken held
    split at next
    · cases next
    · rename_i free
      cases next
      exact .judge running held (by simpa using free)
  · rename_i idle
    split at next
    · rename_i stop
      cases next
      exact .leave running idle stop
    · rename_i go
      have goes : r.stopped = false := by simpa using go
      split at next
      · rename_i results
        cases next
        exact .receive running idle goes results
      · rename_i results commands
        cases next
        exact .obey running idle goes results commands
      · rename_i results commands pending
        split at next
        · cases next
          exact .launch running idle goes results commands pending (by assumption)
        · cases next
      · cases next

theorem nextAction?_due {now : Instant} {r : Reconciler U A} {action : Action U A}
    (next : r.nextAction? now = some action) : r.Due now action := by
  unfold nextAction? at next
  split at next
  · exact runningAction?_due (by assumption) next
  · rename_i closing
    cases next
    unfold closingAction
    split
    · exact .drain closing (by assumption)
    · exact .forsakeInflight closing (by assumption) (by assumption)
    · exact .forsakePending closing (by assumption) (by assumption) (by assumption)
    · exact .close closing (by assumption) (by assumption) (by assumption)
  · cases next
  · cases next

/-- The parses on the pool after that of the parse in flight, if any, was told to stop. -/
def spent (r : Reconciler U A) : List (Job U) :=
  match r.inflight with
  | none => r.jobs
  | some inflight => (r.revoke inflight.seq).jobs

theorem mem_revoke {r : Reconciler U A} {seq : UInt64} {job : Job U}
    (member : job ∈ (r.revoke seq).jobs) :
    ∃ old ∈ r.jobs, old.seq = job.seq ∧ old.unit = job.unit ∧ old.generation = job.generation ∧
      (job.revoked = false → old.revoked = false ∧ job.seq ≠ seq) := by
  obtain ⟨old, held, rfl⟩ := List.mem_map.mp member
  refine ⟨old, held, ?_⟩
  split
  · exact ⟨rfl, rfl, rfl, nofun⟩
  · rename_i other
    exact ⟨rfl, rfl, rfl, fun fine => ⟨fine, other⟩⟩

theorem revoke_seqs (r : Reconciler U A) (seq : UInt64) :
    (r.revoke seq).jobs.map Job.seq = r.jobs.map Job.seq := by
  rw [revoke, List.map_map]
  apply List.map_congr_left
  intro job _
  simp only [Function.comp]
  split <;> rfl

theorem spent_seqs (r : Reconciler U A) : r.spent.map Job.seq = r.jobs.map Job.seq := by
  unfold spent
  split
  · rfl
  · exact revoke_seqs r _

theorem mem_spent {r : Reconciler U A} {job : Job U} (member : job ∈ r.spent) :
    ∃ old ∈ r.jobs, old.seq = job.seq ∧ old.unit = job.unit ∧ old.generation = job.generation ∧
      (job.revoked = false → old.revoked = false ∧
        ∀ inflight, r.inflight = some inflight → inflight.seq ≠ job.seq) := by
  unfold spent at member
  split at member
  · rename_i idle
    refine ⟨job, member, rfl, rfl, rfl, fun fine => ⟨fine, fun inflight flies => ?_⟩⟩
    rw [idle] at flies
    cases flies
  · rename_i inflight flying
    obtain ⟨old, held, seq, unit, generation, fine⟩ := mem_revoke member
    refine ⟨old, held, seq, unit, generation, fun open_ => ⟨(fine open_).1, fun other flies => ?_⟩⟩
    rw [flying] at flies
    cases flies
    exact (fine open_).2.symm

variable [DecidableEq U]

/-- How a move of reconciler `k` goes: what it leaves of the reconciler and of the
provider, and its entry in the history. -/
inductive Conduct (now : Instant) (history : List (Happening U A)) (k : Nat) (p : Provider U A)
    (r : Reconciler U A) :
    Move U A → Reconciler U A → Provider U A → Happening U A → Prop where
  | noted {unit : U} {edit : Edit U} :
      r.noting = none → p.disposed = false →
      edit = ⟨unit, (p.cycles.begin unit).generation, r.noted + 1⟩ →
      Conduct now history k p r (.note unit) { r with noted := r.noted + 1, noting := some edit }
        (p.begin unit).provider (.noted k edit)
  | refused {unit : U} :
      r.noting = none → p.disposed = true →
      Conduct now history k p r (.note unit) { r with noted := r.noted + 1 } p (.refused k unit)
  | accepted {edit : Edit U} :
      r.noting = some edit → r.phase = .running →
      Conduct now history k p r .send
        { r with noting := none, commands := r.commands ++ [.edit edit] } p (.accepted k edit)
  | rejected {edit : Edit U} :
      r.noting = some edit → r.phase ≠ .running →
      Conduct now history k p r .send { r with noting := none }
        (p.complete history.length none edit.unit edit.generation).provider (.rejected k edit)
  | flushed :
      r.phase = .running →
      Conduct now history k p r .flush { r with commands := r.commands ++ [.flush] } p (.flushed k)
  | unheard : r.phase ≠ .running → Conduct now history k p r .flush r p (.flushed k)
  | stopped : Conduct now history k p r .stop { r with stopped := true } p (.stopped k)
  | killed :
      r.phase ≠ .closed →
      Conduct now history k p r .kill
        { r with
          phase := .killed
          commands := []
          results := []
          pending := none
          inflight := none
          taken := none } p
        (.killed k)
  | spared : r.phase = .closed → Conduct now history k p r .kill r p (.killed k)
  | called {job : Job U} :
      job ∈ r.jobs → callMoment? history (.job k job.seq) = none →
      Conduct now history k p r (.call job.seq) r p (.called (.job k job.seq) job.unit)
  | returned {job : Job U} {ending : Ending A} :
      job ∈ r.jobs → (callMoment? history (.job k job.seq)).isSome →
      Conduct now history k p r (.finish job.seq ending) (r.deliver (job.parsed ending.result)) p
        (.returned (.job k job.seq) ending.result)
  | judged {taken : Taken U A} :
      r.phase = .running → r.taken = some taken → r.noting = none → r.noted = taken.stamp →
      Conduct now history k p r .turn { r with taken := none }
        (p.complete (treeId history k (.judge taken)) taken.parsed.result.toOption
          taken.parsed.unit taken.parsed.generation).provider
        (.worked k (.judge taken))
  | outdated {taken : Taken U A} :
      r.phase = .running → r.taken = some taken → r.noting = none → r.noted ≠ taken.stamp →
      Conduct now history k p r .turn { r with taken := none } p (.worked k (.judge taken))
  | left :
      r.phase = .running → r.taken = none → r.stopped = true →
      Conduct now history k p r .turn { r with phase := .closing } p (.worked k .leave)
  | took {parsed : Parsed U A} {rest : List (Parsed U A)} {inflight : Inflight U} :
      r.phase = .running → r.taken = none → r.stopped = false → r.results = parsed :: rest →
      r.inflight = some inflight → inflight.seq = parsed.seq →
      Conduct now history k p r .turn
        { r with results := rest, inflight := none, taken := some ⟨parsed, inflight.edit.stamp⟩ } p
        (.worked k (.receive parsed))
  | dropped {parsed : Parsed U A} {rest : List (Parsed U A)} :
      r.phase = .running → r.taken = none → r.stopped = false → r.results = parsed :: rest →
      (∀ inflight, r.inflight = some inflight → inflight.seq ≠ parsed.seq) →
      Conduct now history k p r .turn { r with results := rest } p (.worked k (.receive parsed))
  | queued {edit : Edit U} {rest : List (Command U)} :
      r.phase = .running → r.taken = none → r.stopped = false → r.results = [] →
      r.commands = .edit edit :: rest →
      Conduct now history k p r .turn
        { r with
          commands := rest
          inflight := none
          jobs := r.spent
          pending := some ⟨edit, Clock.after r.horizon now r.settings.debounce⟩ } p
        (.worked k (.obey (.edit edit)))
  | hastened {rest : List (Command U)} :
      r.phase = .running → r.taken = none → r.stopped = false → r.results = [] →
      r.commands = .flush :: rest →
      Conduct now history k p r .turn
        { r with
          commands := rest
          pending := r.pending.map fun pending => { pending with due := now } } p
        (.worked k (.obey .flush))
  | launched {pending : Pending U} :
      r.phase = .running → r.taken = none → r.stopped = false → r.results = [] →
      r.commands = [] → r.pending = some pending → pending.due ≤ now →
      Conduct now history k p r .turn
        { r with
          pending := none
          inflight := some ⟨r.nextSeq, pending.edit⟩
          nextSeq := r.nextSeq + 1
          jobs := r.jobs ++
            [{ seq := r.nextSeq, unit := pending.edit.unit, generation := pending.edit.generation }] } p
        (.launched k r.nextSeq pending.edit)
  | drained {edit : Edit U} {rest : List (Command U)} :
      r.phase = .closing → r.commands = .edit edit :: rest →
      Conduct now history k p r .turn { r with commands := rest }
        (p.complete history.length none edit.unit edit.generation).provider
        (.worked k (.drain (.edit edit)))
  | skipped {rest : List (Command U)} :
      r.phase = .closing → r.commands = .flush :: rest →
      Conduct now history k p r .turn { r with commands := rest } p (.worked k (.drain .flush))
  | forsookInflight {inflight : Inflight U} :
      r.phase = .closing → r.commands = [] → r.inflight = some inflight →
      Conduct now history k p r .turn { r with inflight := none, jobs := r.spent }
        (p.complete history.length none inflight.edit.unit inflight.edit.generation).provider
        (.worked k (.forsakeInflight inflight))
  | forsookPending {pending : Pending U} :
      r.phase = .closing → r.commands = [] → r.inflight = none → r.pending = some pending →
      Conduct now history k p r .turn { r with pending := none }
        (p.complete history.length none pending.edit.unit pending.edit.generation).provider
        (.worked k (.forsakePending pending))
  | closed :
      r.phase = .closing → r.commands = [] → r.inflight = none → r.pending = none →
      Conduct now history k p r .turn { r with phase := .closed } p (.worked k .close)

variable {now : Instant} {history : List (Happening U A)} {k : Nat} {p q : Provider U A}
  {r after : Reconciler U A} {move : Move U A} {happening : Happening U A}

theorem note_conduct (free : r.noting = none) (unit : U) :
    Conduct now history k p r (.note unit) (beginNote unit p r).1.reconciler
      (beginNote unit p r).1.provider
      (match (beginNote unit p r).2 with
        | .ok edit => .noted k edit
        | .error _ => .refused k unit) := by
  rcases p.begin_cases unit with ⟨gone, reply, same⟩ | ⟨service, reply, _⟩
  · simp only [beginNote, reply, same]
    exact .refused free gone
  · simp only [beginNote, reply]
    exact .noted free service rfl

theorem send_conduct {edit : Edit U} (noting : r.noting = some edit) :
    Conduct now history k p r .send (sendNote history.length p r edit).1.reconciler
      (sendNote history.length p r edit).1.provider
      (match (sendNote history.length p r edit).2 with
        | .ok _ => .accepted k edit
        | .error _ => .rejected k edit) := by
  by_cases running : r.phase = .running
  · simp only [sendNote, accepts, running, decide_true, if_true]
    exact running ▸ .accepted noting running
  · simp only [sendNote, accepts, running, decide_false]
    exact .rejected noting running

omit [DecidableEq U] in
theorem queue_eq (now : Instant) (edit : Edit U) (r : Reconciler U A) :
    (r.queue now edit).1 =
      { r with
        inflight := none
        jobs := r.spent
        pending := some ⟨edit, Clock.after r.horizon now r.settings.debounce⟩ } := by
  cases flying : r.inflight <;> simp [queue, supersede, spent, flying, revoke]

theorem turn_conduct {action : Action U A} (due : r.Due now action) :
    Conduct now history k p r .turn (r.perform now (treeId history k action) p action).reconciler
      (r.perform now (treeId history k action) p action).provider (r.workHappening k action) := by
  cases due with
  | judge running held free =>
    simp only [perform, judge]
    split
    · exact .outdated running held free (by assumption)
    · exact .judged running held free (by simp_all)
  | leave running idle stop => exact .left running idle stop
  | @receive parsed rest running idle go results =>
    have tail : r.results.tail = rest := by rw [results]; rfl
    cases flying : r.inflight with
    | none =>
      simp only [perform, receive, discard, tail, flying]
      exact flying ▸ .dropped running idle go results (by simp [flying])
    | some inflight =>
      by_cases same : inflight.seq = parsed.seq
      · simp only [perform, receive, tail, flying, same, if_true]
        exact .took running idle go results flying same
      · simp only [perform, receive, discard, tail, flying, same, if_false]
        exact flying ▸ .dropped running idle go results (by simp [flying, same])
  | @obey command rest running idle go results commands =>
    have tail : r.commands.tail = rest := by rw [commands]; rfl
    cases command with
    | edit edit =>
      simp only [perform, queue_eq, tail]
      exact .queued running idle go results commands
    | flush =>
      simp only [perform, hasten, tail]
      exact .hastened running idle go results commands
  | launch running idle go results commands pending elapsed =>
    exact .launched running idle go results commands pending elapsed
  | @drain command rest closing commands =>
    have tail : r.commands.tail = rest := by rw [commands]; rfl
    cases command with
    | edit edit =>
      simp only [perform, tail]
      exact .drained closing commands
    | flush =>
      simp only [perform, tail]
      exact .skipped closing commands
  | @forsakeInflight inflight closing commands flying =>
    -- The parse in flight is told to stop when it is let go.
    have jobs : ({ r with inflight := none }.revoke inflight.seq) =
        { r with inflight := none, jobs := r.spent } := by
      simp [spent, flying, revoke]
    simp only [perform, jobs]
    exact .forsookInflight closing commands flying
  | forsakePending closing commands idle awaiting =>
    exact .forsookPending closing commands idle awaiting
  | close closing commands idle none => exact .closed closing commands idle none

theorem move?_conduct {step : Step U A}
    (moved : r.move? now history k p move = some (step, happening)) :
    r.Conduct now history k p move step.reconciler step.provider happening := by
  cases move with
  | note unit =>
    simp only [move?] at moved
    split at moved
    · cases moved
    · rename_i free
      cases moved
      exact note_conduct (by simpa using free) unit
  | send =>
    simp only [move?] at moved
    split at moved
    · cases moved
    · rename_i noting
      cases moved
      exact send_conduct noting
  | flush =>
    cases moved
    by_cases running : r.phase = .running
    · simp only [flush, accepts, running, decide_true, if_true]
      exact running ▸ .flushed running
    · simp only [flush, accepts, running, decide_false]
      exact .unheard running
  | stop =>
    cases moved
    exact .stopped
  | kill =>
    cases moved
    unfold kill
    split
    · exact .spared (by assumption)
    · exact .killed (by assumption)
  | call seq =>
    simp only [move?] at moved
    split at moved
    · rename_i job found new
      cases moved
      have same : job.seq = seq := by simpa using List.find?_some found
      subst same
      exact .called (List.mem_of_find?_eq_some found) new
    · cases moved
  | finish seq ending =>
    simp only [move?] at moved
    split at moved
    · rename_i job moment found called
      cases moved
      have same : job.seq = seq := by simpa using List.find?_some found
      subst same
      exact .returned (List.mem_of_find?_eq_some found) (by simp [called])
    · cases moved
  | turn =>
    simp only [move?] at moved
    split at moved
    · cases moved
    · rename_i action next
      cases moved
      exact turn_conduct (nextAction?_due next)

theorem Conduct.settings (conduct : r.Conduct now history k p move after q happening) :
    after.settings = r.settings ∧ after.horizon = r.horizon := by
  cases conduct <;> exact ⟨rfl, rfl⟩

theorem move?_edit {step : Step U A} (moved : r.move? now history k p move = some (step, happening))
    (edit : happening.isEdit = true) : ∃ unit, move = .note unit := by
  have conduct := move?_conduct moved
  generalize step.reconciler = after at conduct
  generalize step.provider = q at conduct
  cases conduct with
  | noted | refused => exact ⟨_, rfl⟩
  | _ => cases edit

theorem move?_noted {step : Step U A} {edit : Edit U}
    (moved : r.move? now history k p move = some (step, .noted k edit)) :
    move.isOnHandle = true := by
  obtain ⟨unit, rfl⟩ := move?_edit moved rfl
  rfl

/-- Only a stop or the end of the runtime ends the loop of the worker. -/
theorem Conduct.steady (conduct : r.Conduct now history k p move after q happening)
    (running : r.phase = .running) (go : r.stopped = false) (alive : move ≠ .stop ∧ move ≠ .kill) :
    after.phase = .running ∧ after.stopped = false := by
  cases conduct with
  | stopped => exact absurd rfl alive.1
  | killed => exact absurd rfl alive.2
  | left _ _ stop =>
    rw [go] at stop
    cases stop
  | closed closing =>
    rw [running] at closing
    cases closing
  | _ => exact ⟨running, go⟩

end Reconciler

end FreshTree
