import FreshTree.Proofs.Lifetime
import FreshTree.Proofs.Handover

/-!
When a parse starts, and for which edit. The worker takes commands one at a time; an edit
replaces the one before, if that was not launched yet, and is due one quiet period later,
or once a flush is taken after it. All of this is said of the moments of the history at
which the worker took something, and of the time at these moments.
-/

namespace FreshTree

variable {U A : Type} {history : List (Happening U A)} {k i j : Nat} {edit other : Edit U}
  {due : Instant}

def TakesEdit (history : List (Happening U A)) (k i : Nat) (edit : Edit U) : Prop :=
  history[i]? = some (.worked k (.obey (.edit edit)))

def TakesFlush (history : List (Happening U A)) (k i : Nat) : Prop :=
  history[i]? = some (.worked k (.obey .flush))

def Starts (history : List (Happening U A)) (k i : Nat) (edit : Edit U) : Prop :=
  ∃ seq, history[i]? = some (.launched k seq edit)

structure IsPending (history : List (Happening U A)) (k i : Nat) (edit : Edit U) : Prop where
  taken : TakesEdit history k i edit
  latest : ∀ j other, TakesEdit history k j other → j ≤ i
  unstarted : ∀ j other, Starts history k j other → j < i

/-- When the parse of the edit taken at moment `i` is due: when the quiet period that
starts then ends, or when the latest flush was taken since. Flushes taken before the edit
have no part in it. -/
inductive DueAt (quietEnd : Instant → Instant) (history : List (Happening U A)) (k i : Nat) :
    Instant → Prop where
  | quiet :
      (∀ j, TakesFlush history k j → j < i) →
      DueAt quietEnd history k i (quietEnd (ticked (history.take i)))
  | flushed {j : Nat} :
      i < j → TakesFlush history k j → (∀ later, TakesFlush history k later → later ≤ j) →
      DueAt quietEnd history k i (ticked (history.take j))

def Reconciler.quietEnd (r : Reconciler U A) (start : Instant) : Instant :=
  Clock.after r.horizon start r.settings.debounce

def Happening.Stirs (k : Nat) : Happening U A → Prop
  | .worked i (.obey _) | .launched i _ _ => i = k
  | _ => False

theorem Happening.Stirs.reconciler {happening : Happening U A} (stirs : happening.Stirs k) :
    happening.reconciler? = some k := by
  cases happening with
  | launched i => exact congrArg some stirs
  | worked i action =>
    cases action with
    | obey => exact congrArg some stirs
    | _ => cases stirs
  | _ => cases stirs

/-! What a moment says does not change as the history grows. -/

section Grown

variable {happening : Happening U A}

theorem takesEdit_concat :
    TakesEdit (history ++ [happening]) k i edit ↔
      TakesEdit history k i edit ∨
        i = history.length ∧ happening = .worked k (.obey (.edit edit)) := entry_append

theorem takesFlush_concat :
    TakesFlush (history ++ [happening]) k i ↔
      TakesFlush history k i ∨ i = history.length ∧ happening = .worked k (.obey .flush) :=
  entry_append

theorem starts_concat :
    Starts (history ++ [happening]) k i edit ↔
      Starts history k i edit ∨ i = history.length ∧ ∃ seq, happening = .launched k seq edit := by
  simp [Starts, entry_append, exists_or]

theorem TakesEdit.lt (taken : TakesEdit history k i edit) : i < history.length :=
  (List.getElem?_eq_some_iff.mp taken).1

theorem TakesFlush.lt (taken : TakesFlush history k i) : i < history.length :=
  (List.getElem?_eq_some_iff.mp taken).1

theorem Starts.lt (starts : Starts history k i edit) : i < history.length := by
  obtain ⟨seq, entry⟩ := starts
  exact (List.getElem?_eq_some_iff.mp entry).1

theorem TakesEdit.inj (taken : TakesEdit history k i edit) (again : TakesEdit history k i other) :
    edit = other := by
  have same := taken.symm.trans again
  simpa using same

theorem TakesEdit.ne_starts (taken : TakesEdit history k i edit) (starts : Starts history k j other) :
    j ≠ i := by
  rintro rfl
  obtain ⟨seq, entry⟩ := starts
  cases taken.symm.trans entry

theorem ticked_take_concat (happening : Happening U A) (short : i ≤ history.length) :
    ticked ((history ++ [happening]).take i) = ticked (history.take i) := by
  rw [List.take_append_of_le_length short]

theorem isPending_concat (untaken : ∀ edit, happening ≠ .worked k (.obey (.edit edit)))
    (unstarted : ∀ seq edit, happening ≠ .launched k seq edit) :
    IsPending (history ++ [happening]) k i edit ↔ IsPending history k i edit := by
  have edits : ∀ i edit, TakesEdit (history ++ [happening]) k i edit ↔ TakesEdit history k i edit := by
    intro i edit
    rw [takesEdit_concat]
    exact or_iff_left fun ⟨_, same⟩ => untaken edit same
  have starts : ∀ i edit, Starts (history ++ [happening]) k i edit ↔ Starts history k i edit := by
    intro i edit
    rw [starts_concat]
    exact or_iff_left fun ⟨_, seq, same⟩ => unstarted seq edit same
  constructor
  · intro ⟨taken, latest, unstarted⟩
    exact ⟨(edits _ _).mp taken, fun j other taken => latest j other ((edits _ _).mpr taken),
      fun j other started => unstarted j other ((starts _ _).mpr started)⟩
  · intro ⟨taken, latest, unstarted⟩
    exact ⟨(edits _ _).mpr taken, fun j other taken => latest j other ((edits _ _).mp taken),
      fun j other started => unstarted j other ((starts _ _).mp started)⟩

theorem dueAt_concat {quietEnd : Instant → Instant} (short : i < history.length)
    (unflushed : happening ≠ .worked k (.obey .flush)) (due : Instant) :
    DueAt quietEnd (history ++ [happening]) k i due ↔ DueAt quietEnd history k i due := by
  have flushes : ∀ j, TakesFlush (history ++ [happening]) k j ↔ TakesFlush history k j := by
    intro j
    rw [takesFlush_concat]
    exact or_iff_left fun ⟨_, same⟩ => unflushed same
  constructor
  · intro due
    cases due with
    | quiet none =>
      rw [ticked_take_concat _ (Nat.le_of_lt short)]
      exact .quiet fun j flush => none j ((flushes j).mpr flush)
    | @flushed j later flush last =>
      have before := (flushes j).mp flush
      rw [ticked_take_concat _ (Nat.le_of_lt before.lt)]
      exact .flushed later before fun other flush => last other ((flushes other).mpr flush)
  · intro due
    cases due with
    | quiet none =>
      rw [← ticked_take_concat happening (Nat.le_of_lt short)]
      exact .quiet fun j flush => none j ((flushes j).mp flush)
    | @flushed j later flush last =>
      rw [← ticked_take_concat happening (Nat.le_of_lt flush.lt)]
      exact .flushed later ((flushes j).mpr flush) fun other flush => last other ((flushes other).mp flush)

end Grown

theorem IsPending.inj (pending : IsPending history k i edit) (again : IsPending history k j other) :
    i = j ∧ edit = other := by
  have same : i = j :=
    Nat.le_antisymm (again.latest i edit pending.taken) (pending.latest j other again.taken)
  subst same
  exact ⟨rfl, pending.taken.inj again.taken⟩

theorem DueAt.inj {quietEnd : Instant → Instant} {late : Instant}
    (first : DueAt quietEnd history k i due) (again : DueAt quietEnd history k i late) :
    due = late := by
  cases first with
  | quiet none =>
    cases again with
    | quiet => rfl
    | flushed later flush => exact absurd (none _ flush) (Nat.not_lt.mpr (Nat.le_of_lt later))
  | flushed later flush last =>
    cases again with
    | quiet none => exact absurd (none _ flush) (Nat.not_lt.mpr (Nat.le_of_lt later))
    | flushed _ flush' last' =>
      rw [Nat.le_antisymm (last' _ flush) (last _ flush')]

/-! What the worker has pending is what the history says. -/

/-- The pending slot of reconciler `k` agrees with the history, and every parse so far
started for the edit that was pending then, when it was due. -/
structure Punctual (history : List (Happening U A)) (k : Nat) (r : Reconciler U A) : Prop where
  pending : r.phase = .running → ∀ pending, r.pending = some pending →
    ∃ i, IsPending history k i pending.edit ∧ DueAt r.quietEnd history k i pending.due
  idle : r.phase = .running → r.pending = none → ∀ i edit, ¬ IsPending history k i edit
  started : ∀ j edit, Starts history k j edit → ∃ i due, IsPending (history.take j) k i edit ∧
    DueAt r.quietEnd (history.take j) k i due ∧ due ≤ ticked (history.take j)

namespace Punctual

variable {r after : Reconciler U A} {did : Reconciler.Move U A} {happening : Happening U A}

theorem spawn (settings : ReconcilerSettings) (horizon : Instant)
    (unknown : ∀ happening ∈ history, happening.reconciler? ≠ some k) :
    Punctual (history ++ [.spawned k]) k (Reconciler.spawn settings horizon) where
  pending := nofun
  idle := by
    intro _ _ i edit pending
    exact notMem_spawned unknown rfl (List.mem_of_getElem? pending.taken)
  started := by
    intro j edit ⟨seq, entry⟩
    exact absurd (List.mem_of_getElem? entry) (notMem_spawned unknown rfl)

theorem started_before (punctual : Punctual history k r) (same : after.quietEnd = r.quietEnd)
    (before : Starts history k j edit) :
    ∃ i due, IsPending ((history ++ [happening]).take j) k i edit ∧
      DueAt after.quietEnd ((history ++ [happening]).take j) k i due ∧
      due ≤ ticked ((history ++ [happening]).take j) := by
  rw [List.take_append_of_le_length (Nat.le_of_lt before.lt), same]
  exact punctual.started j edit before

/-- What does not stir the worker's commands leaves the pending slot as it is, as long as
the worker goes on. -/
theorem keep (punctual : Punctual history k r) (calm : ¬ happening.Stirs k)
    (same : after.quietEnd = r.quietEnd)
    (kept : after.phase = .running → r.phase = .running ∧ after.pending = r.pending) :
    Punctual (history ++ [happening]) k after := by
  have untaken : ∀ edit, happening ≠ .worked k (.obey (.edit edit)) := by
    rintro edit rfl
    exact calm rfl
  have unstarted : ∀ seq edit, happening ≠ .launched k seq edit := by
    rintro seq edit rfl
    exact calm rfl
  have unflushed : happening ≠ .worked k (.obey .flush) := by
    rintro rfl
    exact calm rfl
  constructor
  · intro running pending held
    obtain ⟨before, slot⟩ := kept running
    obtain ⟨i, waits, due⟩ := punctual.pending before pending (slot ▸ held)
    refine ⟨i, (isPending_concat untaken unstarted).mpr waits, ?_⟩
    rw [same]
    exact (dueAt_concat waits.taken.lt unflushed _).mpr due
  · intro running none i edit waits
    obtain ⟨before, slot⟩ := kept running
    exact punctual.idle before (slot ▸ none) i edit ((isPending_concat untaken unstarted).mp waits)
  · intro j edit starts
    rcases starts_concat.mp starts with before | ⟨_, seq, now⟩
    · exact punctual.started_before same before
    · exact absurd now (unstarted seq edit)

theorem take {rest : List (Command U)} {jobs : List (Job U)} (punctual : Punctual history k r) :
    Punctual (history ++ [.worked k (.obey (.edit edit))]) k
      { r with
        commands := rest
        inflight := none
        jobs := jobs
        pending := some ⟨edit, r.quietEnd (ticked history)⟩ } where
  pending := by
    intro _ pending held
    cases held
    refine ⟨history.length, ⟨takesEdit_concat.mpr (Or.inr ⟨rfl, rfl⟩), ?_, ?_⟩, ?_⟩
    · intro j other taken
      exact Nat.le_of_lt_succ (by simpa using taken.lt)
    · intro j other starts
      rcases starts_concat.mp starts with before | ⟨_, _, now⟩
      · exact before.lt
      · cases now
    · have due : DueAt r.quietEnd (history ++ [.worked k (.obey (.edit edit))]) k history.length _ :=
        .quiet fun j flush => by
          rcases takesFlush_concat.mp flush with before | ⟨_, now⟩
          · exact before.lt
          · cases now
      rwa [List.take_left] at due
  idle := nofun
  started := by
    intro j other starts
    rcases starts_concat.mp starts with before | ⟨_, _, now⟩
    · exact punctual.started_before rfl before
    · cases now

theorem flush {rest : List (Command U)} (running : r.phase = .running)
    (punctual : Punctual history k r) :
    Punctual (history ++ [.worked k (.obey .flush)]) k
      { r with
        commands := rest
        pending := r.pending.map fun pending => { pending with due := ticked history } } where
  pending := by
    intro _ pending held
    obtain ⟨old, slot, rfl⟩ := Option.map_eq_some_iff.mp held
    obtain ⟨i, waits, _⟩ := punctual.pending running old slot
    refine ⟨i, (isPending_concat (by simp) (by simp)).mpr waits, ?_⟩
    have due : DueAt r.quietEnd (history ++ [.worked k (.obey .flush)]) k i _ :=
      .flushed waits.taken.lt (takesFlush_concat.mpr (Or.inr ⟨rfl, rfl⟩)) fun later flush =>
        Nat.le_of_lt_succ (by simpa using flush.lt)
    rwa [List.take_left] at due
  idle := by
    intro _ none i edit waits
    exact punctual.idle running (Option.map_eq_none_iff.mp none) i edit
      ((isPending_concat (by simp) (by simp)).mp waits)
  started := by
    intro j other starts
    rcases starts_concat.mp starts with before | ⟨_, _, now⟩
    · exact punctual.started_before rfl before
    · cases now

theorem start {pending : Pending U} {seq : UInt64} (running : r.phase = .running)
    (punctual : Punctual history k r) (held : r.pending = some pending)
    (elapses : pending.due ≤ ticked history) (same : after.quietEnd = r.quietEnd)
    (emptied : after.pending = none) :
    Punctual (history ++ [.launched k seq pending.edit]) k after where
  pending := by
    intro _ other held
    rw [emptied] at held
    cases held
  idle := by
    intro _ _ i edit waits
    have started : Starts (history ++ [.launched k seq pending.edit]) k history.length _ :=
      starts_concat.mpr (Or.inr ⟨rfl, seq, rfl⟩)
    -- An edit that is pending after this start would have been taken after it.
    have late := waits.unstarted _ _ started
    rcases takesEdit_concat.mp waits.taken with before | ⟨_, now⟩
    · exact absurd before.lt (Nat.not_lt.mpr (Nat.le_of_lt late))
    · cases now
  started := by
    intro j other starts
    rcases starts_concat.mp starts with before | ⟨rfl, _, now⟩
    · exact punctual.started_before same before
    · cases now
      obtain ⟨i, waits, due⟩ := punctual.pending running pending held
      rw [List.take_left, same]
      exact ⟨i, _, waits, due, elapses⟩

variable [DecidableEq U]

theorem move {p q : Provider U A} (punctual : Punctual history k r)
    (conduct : r.Conduct (ticked history) history k p did after q happening) :
    Punctual (history ++ [happening]) k after := by
  have same : after.quietEnd = r.quietEnd := by
    funext start
    rw [Reconciler.quietEnd, conduct.settings.1, conduct.settings.2]
    rfl
  cases conduct with
  | queued => exact punctual.take
  | hastened running => exact punctual.flush running
  | launched running _ _ _ _ held elapses => exact punctual.start running held elapses same rfl
  | killed => exact punctual.keep (by simp [Happening.Stirs]) same nofun
  | left => exact punctual.keep (by simp [Happening.Stirs]) same nofun
  | forsookPending closing | closed closing =>
    exact punctual.keep (by simp [Happening.Stirs]) same (by simp [closing])
  | _ => exact punctual.keep (by simp [Happening.Stirs]) same fun running => ⟨running, rfl⟩

end Punctual

variable [DecidableEq U] {limits : Limits}

theorem Punctual.of_run {s : System U A} {acts : List (Act U A)} {r : Reconciler U A}
    (ran : System.run? limits {} acts = some s) (found : s.reconcilers[k]? = some r) :
    Punctual s.history k r := by
  refine (System.known_of_run (motive := fun history r => Punctual history k r) ?_ ?_ ?_ ran).known r found
  · exact fun history settings unknown => .spawn settings limits.horizon unknown
  · exact fun history p q r did after happening punctual conduct => punctual.move conduct
  · intro history r happening punctual other
    exact punctual.keep (fun stirs => other stirs.reconciler) rfl fun running => ⟨running, rfl⟩

/-! A start is told exactly when a parse goes to the pool. -/

omit [DecidableEq U] in
/-- No command waits, and a parse for the edit goes to the pool: its job has the unit and the
generation of the edit, and the parse in flight has the stamp too. -/
structure Reconciler.Launches (r : Reconciler U A) (seq : UInt64) (edit : Edit U)
    (next : Reconciler U A) : Prop where
  commands : r.commands = []
  jobs : next.jobs = r.jobs ++ [{ seq := seq, unit := edit.unit, generation := edit.generation }]
  inflight : next.inflight = some ⟨seq, edit⟩
  pending : next.pending = none

/-- Nothing but the start of a parse puts a job on the pool. -/
theorem Reconciler.Conduct.launches_iff {now : Instant} {p q : Provider U A}
    {r next : Reconciler U A} {did : Reconciler.Move U A} {happening : Happening U A}
    {seq : UInt64} (conduct : r.Conduct now history k p did next q happening) :
    happening = .launched k seq edit ↔ r.Launches seq edit next := by
  constructor
  · rintro rfl
    cases conduct with
    | launched _ _ _ _ commands => exact ⟨commands, rfl, rfl, rfl⟩
  · intro launches
    -- Only a launch makes the pool longer, so its length tells the moves apart.
    have longer : next.jobs.length = r.jobs.length + 1 := by
      rw [launches.jobs]
      exact List.length_append
    have spent : r.spent.length = r.jobs.length := by
      simpa using congrArg List.length r.spent_seqs
    cases conduct with
    | launched =>
      cases launches.inflight
      rfl
    | @returned job =>
      have fewer := List.length_filter_le (fun other : Job U => decide (other.seq ≠ job.seq)) r.jobs
      exact absurd longer (Nat.ne_of_lt (Nat.lt_succ_of_le fewer))
    | queued | forsookInflight => exact absurd (spent.symm.trans longer) (Nat.ne_of_lt (Nat.lt_succ_self _))
    | _ => exact absurd longer (Nat.ne_of_lt (Nat.lt_succ_self _))

theorem launched_iff {s : System U A} {acts : List (Act U A)} {seq : UInt64}
    (ran : System.run? limits {} acts = some s) :
    s.history[j]? = some (.launched k seq edit) ↔
      ∃ r next, System.Changes limits acts k j r next ∧ r.Launches seq edit next := by
  constructor
  · intro entry
    obtain ⟨r, next, _, _, _, _, _, changes, conduct⟩ := System.changes_of_entry ran entry rfl
    exact ⟨r, next, changes, conduct.launches_iff.mp rfl⟩
  · rintro ⟨r, next, changes, launches⟩
    rcases changes.entry ran with same | ⟨happening, _, _, _, _, _, entry, conduct⟩
    · subst same
      exact absurd launches.jobs.symm (by simp)
    · rw [entry, conduct.launches_iff.mpr launches]

theorem obeyed_first {s : System U A} {acts : List (Act U A)} {command : Command U}
    (ran : System.run? limits {} acts = some s)
    (entry : s.history[i]? = some (.worked k (.obey command))) :
    ∃ r next, System.Changes limits acts k i r next ∧ r.commands = command :: next.commands := by
  obtain ⟨r, next, _, _, _, _, _, changes, conduct⟩ := System.changes_of_entry ran entry rfl
  refine ⟨r, next, changes, ?_⟩
  cases conduct with
  | queued _ _ _ _ commands | hastened _ _ _ _ commands => exact commands

/-! Which parse starts when, and how many there are. -/

omit [DecidableEq U] in
theorem TakesEdit.take (taken : TakesEdit history k i edit) (early : i < j) :
    TakesEdit (history.take j) k i edit := by
  rw [TakesEdit, List.getElem?_take_of_lt early]
  exact taken

omit [DecidableEq U] in
theorem Starts.take (starts : Starts history k i edit) (early : i < j) :
    Starts (history.take j) k i edit := by
  obtain ⟨seq, entry⟩ := starts
  refine ⟨seq, ?_⟩
  rw [List.getElem?_take_of_lt early]
  exact entry

omit [DecidableEq U] in
theorem TakesEdit.of_take (taken : TakesEdit (history.take j) k i edit) :
    i < j ∧ TakesEdit history k i edit := by
  have early : i < j := Nat.lt_of_lt_of_le taken.lt (List.length_take_le j history)
  rw [TakesEdit, List.getElem?_take_of_lt early] at taken
  exact ⟨early, taken⟩

omit [DecidableEq U] in
theorem IsPending.after {later : Nat} (pending : IsPending (history.take later) k i edit)
    (starts : Starts history k j other) (early : j < later) : j < i :=
  pending.unstarted j other (starts.take early)

/-- Edits were taken from moment `first` to moment `last`, each before the parse of the one
before had started, and none was taken since. The last one is `edit`. -/
structure Burst (history : List (Happening U A)) (k first last : Nat) (edit : Edit U) : Prop where
  begins : ∃ other, TakesEdit history k first other
  ends : TakesEdit history k last edit
  ordered : first ≤ last
  latest : ∀ i other, TakesEdit history k i other → i ≤ last
  unbroken : ∀ j other, Starts history k j other → first < j → last < j

namespace Punctual

variable {r : Reconciler U A} {first last : Nat}

omit [DecidableEq U] in
theorem start_once {edit' : Edit U} (starts : Starts history k i edit)
    (again : Starts history k j edit') {m : Nat} (pending : IsPending (history.take i) k m edit)
    (pending' : IsPending (history.take j) k m edit') : i = j := by
  rcases Nat.lt_trichotomy i j with early | same | late
  · exact absurd (pending'.after starts early) (Nat.not_lt.mpr (Nat.le_of_lt pending.taken.of_take.1))
  · exact same
  · exact absurd (pending.after again late) (Nat.not_lt.mpr (Nat.le_of_lt pending'.taken.of_take.1))

omit [DecidableEq U] in
/-- A parse that no flush hastened starts a whole quiet period after its edit was taken. -/
theorem quiet_before (punctual : Punctual history k r) (starts : Starts history k j edit)
    (pending : IsPending (history.take j) k i edit)
    (unflushed : ∀ f, TakesFlush history k f → f < i ∨ j < f)
    (fits : ticked (history.take i) + r.settings.debounce ≤ r.horizon) :
    ticked (history.take i) + r.settings.debounce ≤ ticked (history.take j) := by
  obtain ⟨i', due, pending', dueAt, elapses⟩ := punctual.started j edit starts
  obtain ⟨rfl, _⟩ := pending.inj pending'
  have early := pending.taken.of_take.1
  cases dueAt with
  | quiet =>
    rw [List.take_take, Nat.min_eq_left (Nat.le_of_lt early), Reconciler.quietEnd,
      Clock.after_of_le fits] at elapses
    exact elapses
  | @flushed f later flush =>
    have before : f < j := Nat.lt_of_lt_of_le flush.lt (List.length_take_le j history)
    rw [TakesFlush, List.getElem?_take_of_lt before] at flush
    rcases unflushed f flush with sooner | after <;> omega

omit [DecidableEq U] in
theorem burst_once (punctual : Punctual history k r) (burst : Burst history k first last edit)
    (starts : Starts history k j other) (late : first < j) :
    last < j ∧ other = edit ∧ ∀ i edit', Starts history k i edit' → first < i → i = j := by
  have for_last : ∀ {j other}, Starts history k j other → first < j →
      IsPending (history.take j) k last other := by
    intro j other starts late
    obtain ⟨i, _, pending, _⟩ := punctual.started j other starts
    have after := burst.unbroken j other starts late
    -- The start is for the latest edit taken by then, and the burst was over by then.
    have same : i = last :=
      Nat.le_antisymm (burst.latest i other pending.taken.of_take.2)
        (pending.latest last edit (burst.ends.take after))
    exact same ▸ pending
  have mine := for_last starts late
  exact ⟨burst.unbroken j other starts late, mine.taken.of_take.2.inj burst.ends,
    fun i edit' again late' => start_once again starts (for_last again late') mine⟩

end Punctual

namespace Reconciler

variable {now : Instant} {r : Reconciler U A}

omit [DecidableEq U] in
theorem nextAction?_pending {pending : Pending U} (running : r.phase = .running)
    (go : r.stopped = false) (idle : r.taken = none) (results : r.results = [])
    (commands : r.commands = []) (held : r.pending = some pending) (elapses : pending.due ≤ now) :
    r.nextAction? now = some (.launch pending.edit) := by
  simp [nextAction?, runningAction?, running, go, idle, results, commands, held, elapses]

omit [DecidableEq U] in
theorem nextAction?_none (running : r.phase = .running) (go : r.stopped = false)
    (idle : r.taken = none) (none : r.nextAction? now = none) :
    r.results = [] ∧ r.commands = [] := by
  simp only [nextAction?, running, runningAction?, idle, go, Bool.false_eq_true, if_false] at none
  split at none
  · cases none
  · cases none
  · rename_i results commands _
    exact ⟨results, commands⟩
  · rename_i results commands _
    exact ⟨results, commands⟩

def toDo (r : Reconciler U A) : Nat :=
  2 * r.results.length + 2 * r.commands.length + r.taken.toList.length + r.pending.toList.length

theorem turn_toDo {action : Action U A} (due : r.Due now action) (running : r.phase = .running)
    (go : r.stopped = false) (free : r.noting = none) (history : List (Happening U A)) (k : Nat)
    (p : Provider U A) :
    (r.perform now (treeId history k action) p action).reconciler.toDo < r.toDo ∧
      (r.perform now (treeId history k action) p action).reconciler.noting = none := by
  have conduct : r.Conduct now history k p _ _ _ _ := turn_conduct due
  generalize (r.perform now (treeId history k action) p action).reconciler = after at conduct ⊢
  generalize (r.perform now (treeId history k action) p action).provider = q at conduct
  generalize told : r.workHappening k action = happening at conduct
  cases conduct with
  | judged _ held | outdated _ held => simp [toDo, held, free]
  | left _ _ stop =>
    rw [go] at stop
    cases stop
  | took _ idle _ results =>
    -- What is taken from a queue counts twice there and once in hand.
    simp [toDo, idle, results, free]
    omega
  | dropped _ idle _ results => simp [toDo, idle, results, free]
  | queued _ _ _ _ commands =>
    simp [toDo, commands, free]
    omega
  | hastened _ _ _ _ commands =>
    have same : (r.pending.map fun pending => { pending with due := now }).toList.length =
        r.pending.toList.length := by
      cases r.pending <;> rfl
    simp only [toDo, commands, List.length_cons, same]
    exact ⟨by omega, free⟩
  | launched _ _ _ _ _ held => simp [toDo, held, free]
  | drained closing | skipped closing | forsookInflight closing | forsookPending closing
  | closed closing =>
    rw [running] at closing
    cases closing

end Reconciler

theorem System.turns_settle {s : System U A} {r : Reconciler U A}
    (found : s.reconcilers[k]? = some r) (running : r.phase = .running) (go : r.stopped = false)
    (free : r.noting = none) (limits : Limits) :
    ∃ turns after next,
      s.run? limits (List.replicate turns (.reconciler k .turn)) = some after ∧
        after.timer = s.timer ∧ after.reconcilers[k]? = some next ∧ next.phase = .running ∧
        next.stopped = false ∧ next.taken = none ∧ next.nextAction? after.timer = none := by
  induction left : r.toDo using Nat.strongRecOn generalizing s r with
  | ind bound ih =>
    cases next : r.nextAction? s.timer with
    | none =>
      refine ⟨0, s, r, rfl, rfl, found, running, go, ?_, next⟩
      cases held : r.taken with
      | none => rfl
      | some taken =>
        simp [Reconciler.nextAction?, running, Reconciler.runningAction?, held, free] at next
    | some action =>
      have due := Reconciler.nextAction?_due next
      have inside := (List.getElem?_eq_some_iff.mp found).1
      obtain ⟨fewer, free'⟩ := Reconciler.turn_toDo due running go free s.history k s.provider
      have conduct : r.Conduct s.timer s.history k s.provider .turn _ _ _ := Reconciler.turn_conduct due
      obtain ⟨running', go'⟩ := conduct.steady running go ⟨by simp, by simp⟩
      have found' : (s.turned k r action).reconcilers[k]? = some _ := List.getElem?_set_self inside
      obtain ⟨turns, after, last, ran, now, rest⟩ := ih _ (left ▸ fewer) found' running' go' free' rfl
      refine ⟨turns + 1, after, last, ?_, now, rest⟩
      simpa [List.replicate_succ, System.run?, System.step?_turn limits found next] using ran

namespace Punctual

variable {now : Instant} {r : Reconciler U A}

omit [DecidableEq U] in
theorem launch_iff (punctual : Punctual history k r) (running : r.phase = .running)
    (go : r.stopped = false) :
    r.nextAction? now = some (.launch edit) ↔
      r.taken = none ∧ r.results = [] ∧ r.commands = [] ∧
      ∃ i due, IsPending history k i edit ∧ DueAt r.quietEnd history k i due ∧ due ≤ now := by
  constructor
  · intro next
    obtain ⟨pending, rfl, idle, results, commands, held, elapses⟩ : ∃ pending : Pending U,
        pending.edit = edit ∧ r.taken = none ∧ r.results = [] ∧ r.commands = [] ∧
          r.pending = some pending ∧ pending.due ≤ now := by
      cases Reconciler.nextAction?_due next with
      | launch _ idle _ results commands held elapses =>
        exact ⟨_, rfl, idle, results, commands, held, elapses⟩
    obtain ⟨i, waits, due⟩ := punctual.pending running pending held
    exact ⟨idle, results, commands, i, _, waits, due, elapses⟩
  · rintro ⟨idle, results, commands, i, due, waits, dueAt, elapses⟩
    cases held : r.pending with
    | none => exact absurd waits (punctual.idle running held i edit)
    | some pending =>
      obtain ⟨i', waits', dueAt'⟩ := punctual.pending running pending held
      obtain ⟨rfl, rfl⟩ := waits.inj waits'
      cases dueAt.inj dueAt'
      exact Reconciler.nextAction?_pending running go idle results commands held elapses

omit [DecidableEq U] in
theorem burst_started {due : Instant} (punctual : Punctual history k r)
    (burst : Burst history k first last edit) (dueAt : DueAt r.quietEnd history k last due)
    (elapses : due ≤ now) (running : r.phase = .running) (go : r.stopped = false)
    (idle : r.taken = none) (waits : r.nextAction? now = none) :
    ∃ j other, Starts history k j other ∧ first < j := by
  apply Classical.byContradiction
  intro none
  -- Then the last edit is pending still, and the worker would not wait.
  have still : IsPending history k last edit := by
    refine ⟨burst.ends, burst.latest, fun j other starts => ?_⟩
    have before : j ≤ first := Nat.le_of_not_lt fun late => none ⟨j, other, starts, late⟩
    exact Nat.lt_of_le_of_ne (Nat.le_trans before burst.ordered) (burst.ends.ne_starts starts)
  obtain ⟨results, commands⟩ := Reconciler.nextAction?_none running go idle waits
  have next : r.nextAction? now = some (.launch edit) := (punctual.launch_iff running go).mpr
    ⟨idle, results, commands, last, due, still, dueAt, elapses⟩
  rw [waits] at next
  cases next

end Punctual

/-- Parses are debounced, for a worker that is not told to stop. A start in the history is a
parse that went to the pool for that edit, with its unit, generation and stamp, while no
command waited; and the worker takes its commands in their order. Its next action is to start
a parse exactly if no result and no command waits and the edit it took last was not started
yet and is due, which is a quiet period after it was taken or, if a flush was taken since,
then; and the parse is for that edit. So it was whenever a parse was started; no edit leads
to two of them; and one that no flush hastened after its edit was taken came a whole quiet
period later. After a burst of edits, none of which was started before the next was taken,
there is exactly one parse, and it is for the last edit: once that is due and the worker
waits, which it does after some turns that take no time. -/
theorem parses_are_debounced {s : System U A} {acts : List (Act U A)} {r : Reconciler U A}
    (ran : System.run? limits {} acts = some s) (found : s.reconcilers[k]? = some r)
    (running : r.phase = .running) (go : r.stopped = false) :
    (∀ j seq edit, s.history[j]? = some (.launched k seq edit) ↔
      ∃ before after, System.Changes limits acts k j before after ∧
        before.Launches seq edit after) ∧
    (∀ i command, s.history[i]? = some (.worked k (.obey command)) →
      ∃ before after, System.Changes limits acts k i before after ∧
        before.commands = command :: after.commands) ∧
    (∀ edit, r.nextAction? s.timer = some (.launch edit) ↔
      r.taken = none ∧ r.results = [] ∧ r.commands = [] ∧
      ∃ i due, IsPending s.history k i edit ∧ DueAt r.quietEnd s.history k i due ∧ due ≤ s.timer) ∧
    (∀ j edit, Starts s.history k j edit → ∃ i due, IsPending (s.history.take j) k i edit ∧
      DueAt r.quietEnd (s.history.take j) k i due ∧ due ≤ ticked (s.history.take j)) ∧
    (∀ i j m edit edit', Starts s.history k i edit → Starts s.history k j edit' →
      IsPending (s.history.take i) k m edit → IsPending (s.history.take j) k m edit' → i = j) ∧
    (∀ i j edit, Starts s.history k j edit → IsPending (s.history.take j) k i edit →
      (∀ f, TakesFlush s.history k f → f < i ∨ j < f) →
      ticked (s.history.take i) + r.settings.debounce ≤ r.horizon →
      ticked (s.history.take i) + r.settings.debounce ≤ ticked (s.history.take j)) ∧
    (∀ first last edit due, Burst s.history k first last edit →
      DueAt r.quietEnd s.history k last due → due ≤ s.timer → r.taken = none →
      r.nextAction? s.timer = none →
      ∃ j, last < j ∧ Starts s.history k j edit ∧
        ∀ i other, Starts s.history k i other → first < i → i = j) ∧
    (r.noting = none → ∃ turns after next,
      s.run? limits (List.replicate turns (.reconciler k .turn)) = some after ∧
        after.timer = s.timer ∧ after.reconcilers[k]? = some next ∧ next.phase = .running ∧
        next.stopped = false ∧ next.taken = none ∧ next.nextAction? after.timer = none) := by
  have punctual : Punctual s.history k r := .of_run ran found
  refine ⟨fun j seq edit => launched_iff ran, fun i command => obeyed_first ran,
    fun edit => punctual.launch_iff running go, punctual.started,
    fun i j m edit edit' starts again => Punctual.start_once starts again,
    fun i j edit => punctual.quiet_before, fun first last edit due burst dueAt elapses idle waits => ?_,
    fun free => System.turns_settle found running go free limits⟩
  obtain ⟨j, other, starts, late⟩ :=
    punctual.burst_started burst dueAt elapses running go idle waits
  obtain ⟨after, rfl, once⟩ := punctual.burst_once burst starts late
  exact ⟨j, after, starts, once⟩

/-- An edit of unit 7, a flush, and an edit of unit 8 before the parse of the first one
starts; the flush does nothing for the second one. -/
def burstRun : List (Act Nat Nat) :=
  [.spawn { debounceMs := 1 }, .reconciler 0 (.note 7), .reconciler 0 .send, .reconciler 0 .turn,
    .reconciler 0 .flush, .reconciler 0 .turn, .reconciler 0 (.note 8), .reconciler 0 .send,
    .reconciler 0 .turn, .tick 1000000, .reconciler 0 .turn]

def afterBurst : System Nat Nat := (System.run? ⟨{}, Clock.day⟩ {} burstRun).get rfl

theorem parses_are_debounced_burst :
    ∃ r : Reconciler Nat Nat, System.run? ⟨{}, Clock.day⟩ {} burstRun = some afterBurst ∧
      afterBurst.reconcilers[0]? = some r ∧ r.phase = .running ∧ r.stopped = false ∧
      Burst afterBurst.history 0 3 8 ⟨8, ⟨2⟩, 2⟩ ∧
      DueAt r.quietEnd afterBurst.history 0 8 1000000 ∧ afterBurst.timer = 1000000 ∧
      (∃ before after, System.Changes ⟨{}, Clock.day⟩ burstRun 0 10 before after ∧
        before.Launches 0 ⟨8, ⟨2⟩, 2⟩ after) ∧
      ∃ j, 8 < j ∧ Starts afterBurst.history 0 j ⟨8, ⟨2⟩, 2⟩ ∧
        ∀ i other, Starts afterBurst.history 0 i other → 3 < i → i = j := by
  have ran : System.run? ⟨{}, Clock.day⟩ {} burstRun = some afterBurst := rfl
  have found : afterBurst.reconcilers[0]? = some (afterBurst.reconcilers.get ⟨0, by decide⟩) := rfl
  have taken : ∀ i edit, TakesEdit afterBurst.history 0 i edit → i ≤ 8 := by
    intro i edit taken
    have short : i < 11 := taken.lt
    have last : i ≤ 8 ∨ i = 9 ∨ i = 10 := by omega
    rcases last with early | rfl | rfl
    · exact early
    · cases taken
    · cases taken
  have flushed : ∀ j, TakesFlush afterBurst.history 0 j → j < 8 := by
    intro j flush
    have short : j < 11 := flush.lt
    have last : j < 8 ∨ j = 8 ∨ j = 9 ∨ j = 10 := by omega
    rcases last with early | rfl | rfl | rfl
    · exact early
    all_goals cases flush
  have unbroken : ∀ j other, Starts afterBurst.history 0 j other → 3 < j → 8 < j := by
    intro j other ⟨seq, entry⟩ late
    have next : 8 < j ∨ j = 4 ∨ j = 5 ∨ j = 6 ∨ j = 7 ∨ j = 8 := by omega
    rcases next with after | rfl | rfl | rfl | rfl | rfl
    · exact after
    all_goals cases entry
  have burst : Burst afterBurst.history 0 3 8 ⟨8, ⟨2⟩, 2⟩ :=
    ⟨⟨⟨7, ⟨1⟩, 1⟩, rfl⟩, rfl, by decide, taken, unbroken⟩
  have ends : (afterBurst.reconcilers.get ⟨0, by decide⟩).quietEnd (ticked (afterBurst.history.take 8)) =
      1000000 := Clock.after_of_le (by decide)
  have due : DueAt (afterBurst.reconcilers.get ⟨0, by decide⟩).quietEnd afterBurst.history 0 8 1000000 :=
    ends ▸ .quiet flushed
  obtain ⟨launched, _, _, _, _, _, once, _⟩ := parses_are_debounced ran found rfl rfl
  exact ⟨_, ran, found, rfl, rfl, burst, due, rfl, (launched 10 0 _).mp rfl,
    once 3 8 _ _ burst due (Nat.le_refl _) rfl rfl⟩

end FreshTree
