import FreshTree.Proofs.OpenCycle

/-!
Reconcilers that follow one another on the same provider. A worker that lost its
handle still closes what it noted, at any time, and a completion names a cycle
only by its unit and generation. So an older worker never touches a cycle that a
newer reconciler opened, but it ends one that the newer one merely joined: the
lock and the count that keep a joined cycle open belong to one reconciler.
-/

namespace FreshTree

variable {U A : Type}

namespace Reconciler

def toClose (r : Reconciler U A) : Nat :=
  r.taken.toList.length + r.commands.length + r.inflight.toList.length +
    r.pending.toList.length +
    match r.phase with
    | .running => 2
    | .closing => 1
    | .closed | .killed => 0

variable [DecidableEq U]

theorem turn_toClose {now : Instant} {r : Reconciler U A} {action : Action U A}
    (due : r.Due now action) (stop : r.stopped = true) (id : TreeId) (p : Provider U A) :
    (r.perform now id p action).reconciler.toClose < r.toClose ∧
      (r.perform now id p action).reconciler.phase ≠ .killed := by
  cases due with
  | judge running held free =>
    simp only [perform, judge]
    split <;> simp [toClose, running, held]
  | leave running idle _ => simp [perform, toClose, running, idle]
  | receive _ _ go | obey _ _ go | launch _ _ go =>
    rw [stop] at go
    cases go
  | @drain command rest closing commands =>
    cases command <;> simp [perform, forsake, toClose, closing, commands]
  | forsakeInflight closing commands flies =>
    simp [perform, forsake, revoke, toClose, closing, commands, flies]
  | forsakePending closing commands none awaits =>
    simp [perform, forsake, toClose, closing, commands, none, awaits]
  | close closing commands none none' => simp [perform, toClose, closing, commands, none, none']

omit [DecidableEq U] in
theorem nextAction?_stopped {r : Reconciler U A} (now : Instant) (stop : r.stopped = true)
    (free : r.noting = none) (alive : r.phase ≠ .killed) (unclosed : r.phase ≠ .closed) :
    ∃ action, r.nextAction? now = some action := by
  unfold nextAction?
  cases phase : r.phase with
  | running =>
    unfold runningAction?
    cases r.taken <;> simp [free, stop]
  | closing => exact ⟨_, rfl⟩
  | closed => exact absurd phase unclosed
  | killed => exact absurd phase alive

omit [DecidableEq U] in
theorem workHappening_quiet (k : Nat) (r : Reconciler U A) (action : Action U A) (other : Nat)
    (edit : Edit U) : r.workHappening k action ≠ .noted other edit := by
  cases action <;> exact nofun

end Reconciler

variable [DecidableEq U] {limits : Limits} {s : System U A} {k : Nat} {r : Reconciler U A}

namespace System

def turned (s : System U A) (k : Nat) (r : Reconciler U A) (action : Reconciler.Action U A) :
    System U A :=
  let step := r.perform s.timer (Reconciler.treeId s.history k action) s.provider action
  { s with
    provider := step.provider
    reconcilers := s.reconcilers.set k step.reconciler }.record (r.workHappening k action) step.notes

theorem step?_turn (limits : Limits) {action : Reconciler.Action U A} (found : s.reconcilers[k]? = some r)
    (next : r.nextAction? s.timer = some action) :
    s.step? limits (.reconciler k .turn) = some (s.turned k r action) := by
  simp only [step?, moveReconciler?, found, Reconciler.Move.isOnHandle, Bool.false_and,
    Bool.false_eq_true, if_false, Reconciler.move?, next]
  rfl

theorem turn_of_step? {after : System U A}
    (stepped : s.step? limits (.reconciler k .turn) = some after) :
    ∃ r action, s.reconcilers[k]? = some r ∧ r.nextAction? s.timer = some action ∧
      after = s.turned k r action := by
  cases found : s.reconcilers[k]? with
  | none => simp [step?, moveReconciler?, found] at stepped
  | some r =>
    cases next : r.nextAction? s.timer with
    | none => simp [step?, moveReconciler?, found, Reconciler.Move.isOnHandle, Reconciler.move?, next] at stepped
    | some action =>
      rw [step?_turn limits found next] at stepped
      exact ⟨r, action, rfl, next, (Option.some.inj stepped).symm⟩

end System

namespace Sound

theorem turned {action : Reconciler.Action U A} (sound : Sound s) (few : s.edits < UInt64.size)
    (found : s.reconcilers[k]? = some r) (next : r.nextAction? s.timer = some action) :
    Sound (s.turned k r action) ∧ (s.turned k r action).edits < UInt64.size := by
  have few' : (s.turned k r action).edits < UInt64.size := by
    rw [System.edits_append rfl, r.workHappening_isEdit k action]
    exact few
  have internal : (Act.reconciler k .turn : Act U A).IsInternal := trivial
  have change := System.step?_change internal (System.step?_turn ⟨{}, 0⟩ found next)
  exact ⟨sound.change change few', few'⟩

/-- A worker leaves the cycles alone of which its reconciler noted no edit. -/
theorem spares {action : Reconciler.Action U A} {unit : U} (sound : Sound s)
    (found : s.reconcilers[k]? = some r) (next : r.nextAction? s.timer = some action)
    (busy : s.provider.cycles.running = some unit)
    (foreign : ∀ edit, .noted k edit ∈ s.history → ¬ edit.IsOf unit s.provider.generation) :
    (s.turned k r action).provider = s.provider := by
  have ledger := sound.ledger k r found
  obtain ⟨after, effect⟩ : ∃ after, r.Effect s.history k s.provider after
      (s.turned k r action).provider (r.workHappening k action) :=
    ⟨_, (Reconciler.turn_conduct (Reconciler.nextAction?_due next)).effect⟩
  have quiet := r.workHappening_quiet k action k
  generalize (s.turned k r action).provider = q at effect ⊢
  generalize r.workHappening k action = happening at effect quiet
  cases effect with
  | noted => exact absurd rfl (quiet _)
  | refused | called | returned | launched | took | outdated | kept | killed => rfl
  | judged held =>
    have noted := ledger.launched_noted _ _ (ledger.taken_launched _ held)
    exact Provider.complete_keeps busy (foreign _ noted) _ _
  | @forsook _ edit before later _ _ _ _ duties =>
    have duty : edit ∈ r.duties := by simp [duties]
    exact Provider.complete_keeps busy (foreign _ (ledger.duty_noted duty)) _ _

theorem turns_spare {unit : U} (sound : Sound s) (few : s.edits < UInt64.size)
    (busy : s.provider.cycles.running = some unit)
    (foreign : ∀ edit, .noted k edit ∈ s.history → ¬ edit.IsOf unit s.provider.generation)
    {turns : Nat} {after : System U A}
    (ran : s.run? limits (List.replicate turns (.reconciler k .turn)) = some after) :
    after.provider = s.provider := by
  induction turns generalizing s with
  | zero =>
    cases ran
    rfl
  | succ turns ih =>
    simp only [List.replicate_succ, System.run?] at ran
    split at ran
    · cases ran
    rename_i middle stepped
    obtain ⟨r, action, found, next, rfl⟩ := System.turn_of_step? stepped
    obtain ⟨sound', few'⟩ := sound.turned few found next
    have same := sound.spares found next busy foreign
    -- Turns note no edits, so the cycle stays a foreign one.
    have noted : ∀ edit, .noted k edit ∈ (s.turned k r action).history →
        .noted k edit ∈ s.history :=
      fun edit member => (mem_grown.mp member).resolve_right (r.workHappening_quiet k action k edit)
    rw [← same]
    refine ih sound' few' (by rw [same]; exact busy) (fun edit member => ?_) ran
    rw [same]
    exact foreign edit (noted edit member)

/-- Enough turns of a worker without its handle end the open cycle if its reconciler noted an
edit of it, unless the runtime was killed. -/
theorem turns_end {unit : U} {edit : Edit U} (sound : Sound s) (few : s.edits < UInt64.size)
    (found : s.reconcilers[k]? = some r) (older : k + 1 < s.reconcilers.length)
    (alive : r.phase ≠ .killed) (busy : s.provider.cycles.running = some unit)
    (noted : .noted k edit ∈ s.history) (cycle : edit.IsOf unit s.provider.generation) :
    ∃ turns after, s.run? limits (List.replicate turns (.reconciler k .turn)) = some after ∧
      after.provider.cycles.running = none := by
  induction left : r.toClose using Nat.strongRecOn generalizing s r with
  | ind bound ih =>
    obtain ⟨stop, free⟩ := sound.dropped k r found older
    have last := sound.owed k r found alive unit edit busy noted cycle
    -- A closed worker has no duties, and this one still has its latest edit.
    have unclosed : r.phase ≠ .closed := by
      intro closed
      have shut := sound.shut k r found
      simp [Reconciler.duties, Reconciler.atWork, Reconciler.waiting, free, shut.commands closed,
        shut.inflight closed, shut.pending closed, shut.taken (by simp [closed])] at last
    obtain ⟨action, next⟩ := Reconciler.nextAction?_stopped s.timer stop free alive unclosed
    have due := Reconciler.nextAction?_due next
    obtain ⟨sound', few'⟩ := sound.turned few found next
    have stepped := System.step?_turn limits found next
    cases open' : (s.turned k r action).provider.cycles.running with
    | none => exact ⟨1, _, by simp [System.run?, stepped], open'⟩
    | some still =>
      -- The turn did not end the cycle, and fewer turns are left to take.
      have opens : s.provider.OpensNone (s.turned k r action).provider :=
        (Reconciler.turn_conduct due).effect.opensNone (r.workHappening_quiet k action k)
      have same : still = unit := Option.some.inj ((opens.running still open').symm.trans busy)
      subst same
      have found' : (s.turned k r action).reconcilers[k]? = some _ :=
        List.getElem?_set_self (List.getElem?_eq_some_iff.mp found).1
      have older' : k + 1 < (s.turned k r action).reconcilers.length := by
        change k + 1 < (s.reconcilers.set k _).length
        rwa [List.length_set]
      have cycle' : edit.IsOf still (s.turned k r action).provider.generation := by
        rwa [opens.generation]
      obtain ⟨fewer, alive'⟩ := Reconciler.turn_toClose due stop
        (Reconciler.treeId s.history k action) s.provider
      obtain ⟨turns, after, ran, ended⟩ := ih _ (left ▸ fewer) sound' few' found' older' alive' open'
        (List.mem_append_left _ noted) cycle' rfl
      exact ⟨turns + 1, after, by simpa [List.replicate_succ, System.run?, stepped] using ran, ended⟩

end Sound

def InOrder (history : List (Happening U A)) : Prop :=
  ∀ (older newer earlier later : Nat) (edit other : Edit U),
    history[earlier]? = some (.noted older edit) → history[later]? = some (.noted newer other) →
    older < newer → earlier < later

omit [DecidableEq U] in
theorem InOrder.aside {history : List (Happening U A)} {happening : Happening U A}
    (ordered : InOrder history) (quiet : ∀ k edit, happening ≠ .noted k edit) :
    InOrder (history ++ [happening]) := by
  intro older newer earlier later edit other early late
  apply ordered older newer earlier later edit other
  · exact (entry_append.mp early).resolve_right fun last => quiet _ _ last.2
  · exact (entry_append.mp late).resolve_right fun last => quiet _ _ last.2

omit [DecidableEq U] in
theorem InOrder.moved {history : List (Happening U A)} {happening : Happening U A}
    (ordered : InOrder history) (newest : ∀ edit, happening = .noted k edit →
      ∀ newer other, k < newer → .noted newer other ∉ history)
    (aside : ∀ other, other ≠ k → happening.IsAside other) : InOrder (history ++ [happening]) := by
  intro older newer earlier later edit other early late apart
  rcases entry_append.mp early with early | ⟨_, rfl⟩
  · rcases entry_append.mp late with late | ⟨rfl, _⟩
    · exact ordered older newer earlier later edit other early late apart
    · exact (List.getElem?_eq_some_iff.mp early).1
  · -- The older reconciler noted last, so nothing newer can have noted before.
    have mine : older = k := Classical.byContradiction fun apart => aside older apart rfl
    subst mine
    rcases entry_append.mp late with late | ⟨_, same⟩
    · exact absurd (List.mem_of_getElem? late) (newest edit rfl newer other apart)
    · cases same
      omega

theorem Reaches.inOrder (reaches : Reaches limits Act.IsInternal {} s) (few : s.edits < UInt64.size) :
    InOrder s.history := by
  have both : Sound s ∧ InOrder s.history := by
    refine reaches.invariant (motive := fun s => Sound s ∧ InOrder s.history) few
      ⟨.start, by simp [InOrder]⟩ ?_
    rintro before after ⟨sound, ordered⟩ change few
    refine ⟨sound.change change few, ?_⟩
    cases change with
    | outside _ _ plain => exact ordered.aside fun k => (plain.isAside k).ne_noted
    | asked | spawned => exact ordered.aside nofun
    | request _ effect => exact ordered.aside fun k => (effect.isAside k).ne_noted
    | @moved k r move step happening found mine moved =>
      have effect := Reconciler.move?_effect moved
      refine ordered.moved ?_ fun other apart => effect.aside apart
      rintro edit rfl newer other apart member
      have last := mine (Reconciler.move?_noted moved)
      exact absurd rfl (sound.unknown newer (by omega) _ member)
  exact both.2

/-- Reconciler `k` noted the first edit of this cycle; all others joined it. -/
def Opened (history : List (Happening U A)) (k : Nat) (unit : U) (generation : Generation) : Prop :=
  ∃ (moment : Nat) (edit : Edit U), history[moment]? = some (.noted k edit) ∧
    edit.IsOf unit generation ∧
    ∀ (earlier other : Nat) (before : Edit U), earlier < moment →
      history[earlier]? = some (.noted other before) → ¬ before.IsOf unit generation

omit [DecidableEq U] in
theorem Opened.foreign {history : List (Happening U A)} {newer : Nat} {unit : U}
    {generation : Generation} (opened : Opened history newer unit generation)
    (ordered : InOrder history) (older : k < newer) (edit : Edit U)
    (noted : .noted k edit ∈ history) : ¬ edit.IsOf unit generation := by
  obtain ⟨moment, first, entry, _, none⟩ := opened
  obtain ⟨earlier, note⟩ := List.getElem?_of_mem noted
  exact none earlier k edit (ordered k newer earlier moment edit first note entry older) note

/-- A worker that lost its handle ends, by its turns alone, just those open
cycles that it noted an edit of itself. A newer reconciler that opened its cycle
has nothing to fear from it, and one that joined the cycle of its predecessor
loses that cycle unless the runtime of the predecessor was killed. -/
theorem dropped_worker_ends_iff {unit : U} (reaches : Reaches limits Act.IsInternal {} s)
    (few : s.edits < UInt64.size) (found : s.reconcilers[k]? = some r)
    (older : k + 1 < s.reconcilers.length) (busy : s.provider.cycles.running = some unit) :
    ((∃ turns after, s.run? limits (List.replicate turns (.reconciler k .turn)) = some after ∧
          after.provider.cycles.running = none) ↔
        r.phase ≠ .killed ∧
          ∃ edit, .noted k edit ∈ s.history ∧ edit.IsOf unit s.provider.generation) ∧
      ∀ newer, k < newer → Opened s.history newer unit s.provider.generation →
        ∀ turns after, s.run? limits (List.replicate turns (.reconciler k .turn)) = some after →
          after.provider = s.provider := by
  have sound := reaches.sound few
  constructor
  constructor
  · rintro ⟨turns, after, ran, ended⟩
    have changed : after.provider ≠ s.provider := by
      intro same
      rw [same, busy] at ended
      cases ended
    constructor
    · intro dead
      -- A killed worker takes no turns at all.
      have stuck : s.step? limits (.reconciler k .turn) = none := by
        simp [System.step?, System.moveReconciler?, found, Reconciler.Move.isOnHandle,
          Reconciler.move?, Reconciler.nextAction?, dead]
      cases turns with
      | zero =>
        cases ran
        exact changed rfl
      | succ turns =>
        simp [List.replicate_succ, System.run?, stuck] at ran
    · by_cases own : ∃ edit, .noted k edit ∈ s.history ∧ edit.IsOf unit s.provider.generation
      · exact own
      · have spared := sound.turns_spare few busy (fun edit noted cycle => own ⟨edit, noted, cycle⟩) ran
        exact absurd spared changed
  · rintro ⟨alive, edit, noted, cycle⟩
    exact sound.turns_end few found older alive busy noted cycle
  · intro newer later opened turns after ran
    exact sound.turns_spare few busy (opened.foreign (reaches.inOrder few) later) ran

def openingRun : List (Act Nat Nat) :=
  [.spawn { debounceMs := 0 }, .reconciler 0 (.note 7), .reconciler 0 .send, .reconciler 0 .stop,
    .spawn { debounceMs := 0 }, .reconciler 1 (.note 8)]

theorem opened_cycle_stays :
    ∃ s : System Nat Nat, System.run? ⟨{}, 1000⟩ {} openingRun = some s ∧
      s.provider.cycles.running = some 8 ∧
      ¬ ∃ turns after, s.run? ⟨{}, 1000⟩ (List.replicate turns (.reconciler 0 .turn)) = some after ∧
        after.provider.cycles.running = none := by
  have internal : ∀ act ∈ openingRun, act.IsInternal := by simp [openingRun, Act.IsInternal]
  have ran : System.run? ⟨{}, 1000⟩ {} openingRun =
      some ((System.run? ⟨{}, 1000⟩ {} openingRun).get rfl) := rfl
  have reaches : Reaches ⟨{}, 1000⟩ Act.IsInternal {} _ := Reaches.refl.of_run? internal ran
  refine ⟨_, ran, rfl, fun ends => ?_⟩
  obtain ⟨_, edit, noted, mine⟩ :=
    (dropped_worker_ends_iff reaches (by decide) rfl (by decide) rfl).1.mp ends
  have history : ((System.run? ⟨{}, 1000⟩ {} openingRun).get rfl).history =
      [.spawned 0, .noted 0 ⟨7, ⟨1⟩, 1⟩, .accepted 0 ⟨7, ⟨1⟩, 1⟩, .stopped 0, .spawned 1,
        .noted 1 ⟨8, ⟨2⟩, 1⟩] := rfl
  rw [history] at noted
  have other : edit = ⟨7, ⟨1⟩, 1⟩ := by simpa using noted
  subst other
  cases mine.1

/-- An edit of unit 7, a drop, and another edit of it on the next reconciler,
after which the older worker leaves its loop. -/
def joiningRun : List (Act Nat Nat) :=
  [.setActive (some 7), .spawn { debounceMs := 0 }, .reconciler 0 (.note 7), .reconciler 0 .send,
    .reconciler 0 .stop, .spawn { debounceMs := 0 }, .reconciler 1 (.note 7), .reconciler 1 .send,
    .reconciler 0 .turn]

def parsingOn : List (Act Nat Nat) :=
  [.reconciler 1 .turn, .reconciler 1 .turn, .reconciler 1 (.call 0),
    .reconciler 1 (.finish 0 (.returned (.ok 5))), .reconciler 1 .turn, .reconciler 1 .turn]

/-- A step of the older worker ends the cycle of an edit that the newer
reconciler accepted, and the tree parsed for that edit is discarded as stale. -/
theorem joined_cycle_ended :
    ∃ (s after last : System Nat Nat) (edit : Edit Nat),
      System.run? ⟨{}, 1000⟩ {} joiningRun = some s ∧ .accepted 1 edit ∈ s.history ∧
        s.provider.cycles.running = some edit.unit ∧ s.provider.generation = edit.generation ∧
        s.step? ⟨{}, 1000⟩ (.reconciler 0 .turn) = some after ∧
        after.provider.cycles.running = none ∧
        after.run? ⟨{}, 1000⟩ parsingOn = some last ∧
        .returned (.job 1 0) (.ok 5) ∈ last.history ∧ last.provider.cached = none ∧
        .staleDiscarded ∈ Note.events last.told := by
  refine ⟨(System.run? ⟨{}, 1000⟩ {} joiningRun).get rfl, _, _, ⟨7, ⟨1⟩, 1⟩, rfl, ?_, rfl, rfl, rfl,
    rfl, rfl, ?_, rfl, ?_⟩
  · exact List.mem_of_getElem? (i := 7) rfl
  · exact List.mem_of_getElem? (i := 13) rfl
  · decide

end FreshTree
