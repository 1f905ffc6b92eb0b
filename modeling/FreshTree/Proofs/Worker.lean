import FreshTree.Proofs.Conduct

/-!
What a reconciler has in hand, and what each of its moves does to it. An edit is
handed on from the call that notes it to the queue of commands, to the pending
slot, to the parse in flight and to the result taken; these places, oldest edit
first, are its duties.
-/

namespace FreshTree

variable {U A : Type}

def Command.edit? : Command U → Option (Edit U)
  | .edit asked => some asked
  | .flush => none

@[simp] theorem Command.edits_edit (edit : Edit U) (rest : List (Command U)) :
    (Command.edit edit :: rest).filterMap Command.edit? =
      edit :: rest.filterMap Command.edit? := rfl

@[simp] theorem Command.edits_flush (rest : List (Command U)) :
    (Command.flush :: rest).filterMap Command.edit? = rest.filterMap Command.edit? := rfl

def Taken.edit (taken : Taken U A) : Edit U :=
  ⟨taken.parsed.unit, taken.parsed.generation, taken.stamp⟩

/-- The happening is no entry in the accounts of reconciler `k`: none of its
edits was noted, and none of its parses was launched, called or returned. -/
def Happening.IsAside (k : Nat) : Happening U A → Prop
  | .noted other _ | .launched other _ _ | .called (.job other _) _
  | .returned (.job other _) _ => other ≠ k
  | _ => True

def Happening.IsPlain : Happening U A → Prop
  | .asked _ _ _ | .noted _ _ | .launched _ _ _ | .called _ _ | .returned _ _ => False
  | _ => True

theorem Happening.IsPlain.isAside {happening : Happening U A} (plain : happening.IsPlain) (k : Nat) :
    happening.IsAside k := by
  cases happening <;> trivial

theorem Happening.IsAside.ne {k : Nat} {happening entry : Happening U A}
    (aside : happening.IsAside k) (mine : ¬ entry.IsAside k) : happening ≠ entry := by
  rintro rfl
  exact mine aside

theorem Happening.IsAside.ne_noted {k : Nat} {happening : Happening U A}
    (aside : happening.IsAside k) (edit : Edit U) : happening ≠ .noted k edit :=
  aside.ne (absurd rfl ·)

namespace Reconciler

def waiting (r : Reconciler U A) : List (Edit U) :=
  r.pending.toList.map Pending.edit ++ r.commands.filterMap Command.edit? ++ r.noting.toList

def atWork (r : Reconciler U A) : List (Edit U) :=
  r.taken.toList.map Taken.edit ++ r.inflight.toList.map Inflight.edit

def duties (r : Reconciler U A) : List (Edit U) := r.atWork ++ r.waiting

structure Shut (r : Reconciler U A) : Prop where
  taken : r.phase ≠ .running → r.taken = none
  commands : r.phase = .closed → r.commands = []
  inflight : r.phase = .closed → r.inflight = none
  pending : r.phase = .closed → r.pending = none

theorem Shut.running {r : Reconciler U A} (running : r.phase = .running) : r.Shut where
  taken := fun out => absurd running out
  commands := fun closed => by rw [running] at closed; cases closed
  inflight := fun closed => by rw [running] at closed; cases closed
  pending := fun closed => by rw [running] at closed; cases closed

theorem Shut.closing {r : Reconciler U A} (closing : r.phase = .closing) (idle : r.taken = none) :
    r.Shut where
  taken := fun _ => idle
  commands := fun closed => by rw [closing] at closed; cases closed
  inflight := fun closed => by rw [closing] at closed; cases closed
  pending := fun closed => by rw [closing] at closed; cases closed

theorem Shut.of_same {r after : Reconciler U A} (shut : r.Shut) (phase : after.phase = r.phase)
    (taken : after.taken = r.taken) (commands : after.commands = r.commands)
    (inflight : after.inflight = r.inflight) (pending : after.pending = r.pending) : after.Shut where
  taken := by rw [phase, taken]; exact shut.taken
  commands := by rw [phase, commands]; exact shut.commands
  inflight := by rw [phase, inflight]; exact shut.inflight
  pending := by rw [phase, pending]; exact shut.pending

/-- The reconciler `after` holds nothing that `r` did not hold, and its counts
are those of `r`. -/
structure Forgets (r after : Reconciler U A) : Prop where
  noted : after.noted = r.noted
  nextSeq : after.nextSeq = r.nextSeq
  stopped : r.stopped = true → after.stopped = true
  noting : r.noting = none → after.noting = none
  killed : r.phase = .killed → after.phase = .killed
  waiting : after.waiting.Sublist r.waiting
  taken : ∀ taken, after.taken = some taken → r.taken = some taken
  inflight : ∀ inflight, after.inflight = some inflight → r.inflight = some inflight
  results : ∀ parsed ∈ after.results, parsed ∈ r.results
  jobs : ∀ job ∈ after.jobs, ∃ old ∈ r.jobs,
    old.seq = job.seq ∧ old.unit = job.unit ∧ old.generation = job.generation

theorem Forgets.refl (r : Reconciler U A) : r.Forgets r :=
  ⟨rfl, rfl, id, id, id, .refl _, fun _ held => held, fun _ held => held, fun _ member => member,
    fun job member => ⟨job, member, rfl, rfl, rfl⟩⟩

theorem spent_forgets (r : Reconciler U A) :
    r.Forgets { r with inflight := none, jobs := r.spent } := by
  refine { Forgets.refl r with inflight := nofun, jobs := fun job member => ?_ }
  obtain ⟨old, held, seq, unit, generation, _⟩ := mem_spent member
  exact ⟨old, held, seq, unit, generation⟩

/-- What a move of reconciler `k` does, to it and to the provider, and how it
enters the history. Edits leave the duties only by being answered (`judged`,
`forsook`), outdated, or lost with the runtime (`killed`). -/
inductive Effect [DecidableEq U] (history : List (Happening U A)) (k : Nat) (p : Provider U A)
    (r : Reconciler U A) : Reconciler U A → Provider U A → Happening U A → Prop where
  | noted {unit : U} {edit : Edit U} :
      r.noting = none → p.disposed = false →
      edit = ⟨unit, (p.cycles.begin unit).generation, r.noted + 1⟩ →
      Effect history k p r { r with noted := r.noted + 1, noting := some edit }
        ({ p with cycles := p.cycles.begin unit }.invalidate unit) (.noted k edit)
  | refused {unit : U} :
      p.disposed = true →
      Effect history k p r { r with noted := r.noted + 1 } p (.refused k unit)
  | called {job : Job U} :
      job ∈ r.jobs → callMoment? history (.job k job.seq) = none →
      Effect history k p r r p (.called (.job k job.seq) job.unit)
  | returned {job : Job U} {result : Except ParseFailure A} :
      job ∈ r.jobs → (callMoment? history (.job k job.seq)).isSome →
      Effect history k p r (r.deliver (job.parsed result)) p (.returned (.job k job.seq) result)
  | launched {pending : Pending U} :
      r.phase = .running → r.taken = none → r.commands = [] → r.pending = some pending →
      Effect history k p r (launch p pending.edit r).reconciler p
        (.launched k r.nextSeq pending.edit)
  | took {parsed : Parsed U A} {rest : List (Parsed U A)} {inflight : Inflight U} :
      r.phase = .running → r.taken = none → r.results = parsed :: rest →
      r.inflight = some inflight → inflight.seq = parsed.seq →
      Effect history k p r
        { r with results := rest, inflight := none, taken := some ⟨parsed, inflight.edit.stamp⟩ } p
        (.worked k (.receive parsed))
  | judged {taken : Taken U A} :
      r.taken = some taken → r.noting = none → r.noted = taken.stamp →
      Effect history k p r { r with taken := none }
        (p.complete (treeId history k (.judge taken)) taken.parsed.result.toOption
          taken.parsed.unit taken.parsed.generation).provider
        (.worked k (.judge taken))
  | outdated {taken : Taken U A} :
      r.taken = some taken → r.noted ≠ taken.stamp →
      Effect history k p r { r with taken := none } p (.worked k (.judge taken))
  | forsook {after : Reconciler U A} {edit : Edit U} {before later : List (Edit U)} {id : TreeId}
      {happening : Happening U A} :
      r.phase ≠ .running → r.Forgets after → r.duties = before ++ edit :: later →
      after.duties = before ++ later → happening.IsPlain →
      Effect history k p r after (p.complete id none edit.unit edit.generation).provider happening
  | kept {after : Reconciler U A} {happening : Happening U A} :
      r.Forgets after → after.duties.getLast? = r.duties.getLast? →
      (after.phase = .killed → r.phase = .killed) → happening.IsPlain →
      Effect history k p r after p happening
  | killed {after : Reconciler U A} {happening : Happening U A} :
      r.Forgets after → after.phase = .killed → happening.IsPlain →
      Effect history k p r after p happening

section Moves

variable [DecidableEq U] {now : Instant} {history : List (Happening U A)} {k : Nat}
  {p q : Provider U A} {r after : Reconciler U A} {move : Move U A} {happening : Happening U A}

theorem rejected_effect {edit : Edit U} (noting : r.noting = some edit)
    (shut : r.phase ≠ .running) :
    Effect history k p r { r with noting := none }
      (p.complete history.length none edit.unit edit.generation).provider (.rejected k edit) := by
  have last : r.duties = r.atWork ++ r.pending.toList.map Pending.edit ++
      r.commands.filterMap Command.edit? ++ edit :: [] := by
    simp [duties, waiting, noting]
  apply Effect.forsook shut _ last
  · simp [duties, waiting, atWork]
  · trivial
  · exact { Forgets.refl r with waiting := by simp [waiting], noting := fun _ => rfl }

theorem drained_effect {edit : Edit U} {rest : List (Command U)} (closing : r.phase = .closing)
    (commands : r.commands = .edit edit :: rest) :
    Effect history k p r { r with commands := rest }
      (p.complete history.length none edit.unit edit.generation).provider
      (.worked k (.drain (.edit edit))) := by
  have first : r.duties = r.atWork ++ r.pending.toList.map Pending.edit ++
      edit :: (rest.filterMap Command.edit? ++ r.noting.toList) := by
    simp [duties, waiting, commands]
  apply Effect.forsook _ _ first
  · simp [duties, waiting, atWork]
  · trivial
  · simp [closing]
  · exact { Forgets.refl r with waiting := by simp [waiting, commands] }

theorem forsookInflight_effect {inflight : Inflight U} (closing : r.phase = .closing)
    (flying : r.inflight = some inflight) :
    Effect history k p r { r with inflight := none, jobs := r.spent }
      (p.complete history.length none inflight.edit.unit inflight.edit.generation).provider
      (.worked k (.forsakeInflight inflight)) := by
  have flies : r.duties = r.taken.toList.map Taken.edit ++ inflight.edit :: r.waiting := by
    simp [duties, atWork, flying]
  apply Effect.forsook _ (spent_forgets r) flies
  · simp [duties, atWork, waiting]
  · trivial
  · simp [closing]

theorem forsookPending_effect {pending : Pending U} (closing : r.phase = .closing)
    (awaiting : r.pending = some pending) :
    Effect history k p r { r with pending := none }
      (p.complete history.length none pending.edit.unit pending.edit.generation).provider
      (.worked k (.forsakePending pending)) := by
  have awaits : r.duties = r.atWork ++
      pending.edit :: (r.commands.filterMap Command.edit? ++ r.noting.toList) := by
    simp [duties, waiting, awaiting]
  apply Effect.forsook _ _ awaits
  · simp [duties, waiting, atWork]
  · trivial
  · simp [closing]
  · exact { Forgets.refl r with waiting := by simp [waiting] }

/-- An edit taken by the worker replaces whatever was pending or in flight, which is
older, so the last duty stays the last. -/
theorem queued_effect {edit : Edit U} {rest : List (Command U)} (due : Instant)
    (idle : r.taken = none) (commands : r.commands = .edit edit :: rest) :
    Effect history k p r
      { r with commands := rest, inflight := none, jobs := r.spent, pending := some ⟨edit, due⟩ } p
      (.worked k (.obey (.edit edit))) := by
  apply Effect.kept
  · exact { spent_forgets r with waiting := by simp [waiting, commands] }
  · simp [duties, waiting, atWork, idle, commands, List.getLast?_cons]
  · exact id
  · trivial

theorem Effect.of_duties (forgets : r.Forgets after) (same : after.duties = r.duties)
    (alive : after.phase = .killed → r.phase = .killed) (plain : happening.IsPlain) :
    Effect history k p r after p happening :=
  .kept forgets (by rw [same]) alive plain

theorem Conduct.effect (conduct : r.Conduct now history k p move after q happening) :
    Effect history k p r after q happening := by
  cases conduct with
  | noted free service same =>
    -- A noted edit did open or join its cycle.
    rcases p.begin_cases _ with ⟨gone, _⟩ | ⟨_, _, begun⟩
    · simp [gone] at service
    · rw [begun]
      exact .noted free service same
  | refused _ gone => exact .refused gone
  | accepted noting =>
    refine .of_duties { Forgets.refl r with waiting := ?_, noting := fun _ => rfl } ?_ id trivial <;>
      simp [duties, waiting, atWork, noting]
  | rejected noting shut => exact rejected_effect noting shut
  | flushed =>
    refine .of_duties { Forgets.refl r with waiting := ?_ } ?_ id trivial <;>
      simp [duties, waiting, atWork]
  | unheard | spared => exact .of_duties (.refl r) rfl id trivial
  | stopped => exact .of_duties { Forgets.refl r with stopped := fun _ => rfl } rfl id trivial
  | killed =>
    refine .killed { Forgets.refl r with
      killed := fun _ => rfl
      waiting := ?_
      taken := nofun
      inflight := nofun
      results := nofun } rfl trivial
    simp [waiting]
  | called inside new => exact .called inside new
  | returned inside called => exact .returned inside called
  | judged _ held free same => exact .judged held free same
  | outdated _ held _ other => exact .outdated held other
  | left running =>
    refine .of_duties { Forgets.refl r with killed := fun dead => ?_ } rfl nofun trivial
    rw [running] at dead
    cases dead
  | took running idle _ results flying same => exact .took running idle results flying same
  | dropped _ _ _ results =>
    refine .of_duties { Forgets.refl r with results := fun parsed member => ?_ } rfl id trivial
    exact results ▸ List.mem_cons_of_mem _ member
  | queued _ idle _ _ commands => exact queued_effect _ idle commands
  | hastened _ _ _ _ commands =>
    refine .of_duties { Forgets.refl r with waiting := ?_ } ?_ id trivial <;>
      cases pending : r.pending <;> simp [duties, waiting, atWork, commands, pending]
  | launched running idle _ _ commands pending => exact .launched running idle commands pending
  | drained closing commands => exact drained_effect closing commands
  | skipped closing commands =>
    refine .of_duties { Forgets.refl r with waiting := ?_ } ?_ id trivial <;>
      simp [duties, waiting, atWork, commands]
  | forsookInflight closing _ flying => exact forsookInflight_effect closing flying
  | forsookPending closing _ _ awaiting => exact forsookPending_effect closing awaiting
  | closed closing =>
    refine .of_duties { Forgets.refl r with killed := fun dead => ?_ } rfl nofun trivial
    rw [closing] at dead
    cases dead

theorem move?_effect {step : Step U A} (moved : r.move? now history k p move = some (step, happening)) :
    Effect history k p r step.reconciler step.provider happening :=
  (move?_conduct moved).effect

theorem Conduct.shut (conduct : r.Conduct now history k p move after q happening) (shut : r.Shut) :
    after.Shut := by
  cases conduct with
  | noted | refused | rejected | unheard | stopped | spared | called | returned =>
    exact shut.of_same rfl rfl rfl rfl rfl
  | killed => exact ⟨fun _ => rfl, nofun, nofun, nofun⟩
  | left _ idle => exact .closing rfl idle
  | drained closing | skipped closing | forsookInflight closing | forsookPending closing =>
    exact .closing closing (shut.taken (by simp [closing]))
  | closed closing commands inflight pending =>
    exact ⟨fun _ => shut.taken (by simp [closing]), fun _ => commands, fun _ => inflight,
      fun _ => pending⟩
  | accepted _ running => exact .running running
  | flushed running | judged running | outdated running | took running | dropped running
  | queued running | hastened running | launched running => exact .running running

theorem Effect.aside {after : Reconciler U A} {q : Provider U A} {happening : Happening U A}
    (effect : Effect history k p r after q happening) {other : Nat} (apart : other ≠ k) :
    happening.IsAside other := by
  cases effect with
  | noted | called | returned | launched => exact apart.symm
  | refused | took | judged | outdated => trivial
  | forsook _ _ _ _ plain | kept _ _ _ plain | killed _ _ plain => exact plain.isAside other

omit [DecidableEq U] in
theorem workHappening_isEdit (k : Nat) (r : Reconciler U A) (action : Action U A) :
    (r.workHappening k action).isEdit = false := by
  cases action <;> rfl

theorem Effect.stopped {after : Reconciler U A} {q : Provider U A} {happening : Happening U A}
    (effect : Effect history k p r after q happening) (stop : r.stopped = true) :
    after.stopped = true := by
  cases effect with
  | noted | refused | called | returned | launched | took | judged | outdated => exact stop
  | forsook _ forgets | kept forgets | killed forgets => exact forgets.stopped stop

theorem Effect.killed_stays {after : Reconciler U A} {q : Provider U A} {happening : Happening U A}
    (effect : Effect history k p r after q happening) (dead : r.phase = .killed) :
    after.phase = .killed := by
  cases effect with
  | noted | refused | called | returned | launched | took | judged | outdated => exact dead
  | forsook _ forgets | kept forgets | killed forgets => exact forgets.killed dead

theorem Effect.noted_le {after : Reconciler U A} {q : Provider U A} {happening : Happening U A}
    (effect : Effect history k p r after q happening) :
    after.noted.toNat ≤ r.noted.toNat + if happening.isEdit then 1 else 0 := by
  cases effect with
  | noted | refused =>
    rw [UInt64.toNat_add]
    exact Nat.mod_le _ _
  | called | returned | launched | took | judged | outdated => exact Nat.le_add_right _ _
  | forsook _ forgets | kept forgets | killed forgets =>
    rw [forgets.noted]
    exact Nat.le_add_right _ _

theorem Effect.noted_eq {after : Reconciler U A} {q : Provider U A} {happening : Happening U A}
    (effect : Effect history k p r after q happening) (quiet : happening.isEdit = false) :
    after.noted = r.noted := by
  cases effect with
  | noted | refused => cases quiet
  | called | returned | launched | took | judged | outdated => rfl
  | forsook _ forgets | kept forgets | killed forgets => exact forgets.noted

theorem Effect.noting {after : Reconciler U A} {q : Provider U A} {happening : Happening U A}
    (effect : Effect history k p r after q happening) (quiet : ∀ edit, happening ≠ .noted k edit)
    (free : r.noting = none) : after.noting = none := by
  cases effect with
  | noted => exact absurd rfl (quiet _)
  | refused | called | returned | launched | took | judged | outdated => exact free
  | forsook _ forgets | kept forgets | killed forgets => exact forgets.noting free

theorem Effect.opensNone {after : Reconciler U A} {q : Provider U A} {happening : Happening U A}
    (effect : Effect history k p r after q happening) (quiet : ∀ edit, happening ≠ .noted k edit) :
    p.OpensNone q := by
  cases effect with
  | noted => exact absurd rfl (quiet _)
  | refused | called | returned | launched | took | outdated | kept | killed => exact .refl p
  | judged | forsook => exact p.complete_opensNone _ _ _ _

end Moves

end Reconciler

end FreshTree
