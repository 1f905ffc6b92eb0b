import FreshTree.Proofs.Convergence
import FreshTree.Proofs.Delivery
import FreshTree.Proofs.Discards

/-!
What becomes of the results of a running reconciler that is the only one. Its
latest edit opened or joined the open cycle, and its worker hands over nothing
but the result for that edit, so only a move of the focus can come between them.
Each result that is discarded as stale is paid for by a cycle that such a move
abandoned.
-/

namespace FreshTree

variable {U A : Type} [DecidableEq U]

namespace Reconciler

variable {history : List (Happening U A)} {k : Nat} {p q : Provider U A}
  {r after : Reconciler U A} {happening : Happening U A}

/-- A worker with a result in hand has started no other parse. -/
def OneAtWork (r : Reconciler U A) : Prop := r.taken ≠ none → r.inflight = none

omit [DecidableEq U] in
theorem Forgets.oneAtWork (forgets : r.Forgets after) (one : r.OneAtWork) : after.OneAtWork := by
  intro busy
  obtain ⟨taken, held⟩ := Option.ne_none_iff_exists'.mp busy
  have idle := one (by rw [forgets.taken taken held]; nofun)
  apply Option.eq_none_iff_forall_ne_some.mpr
  intro inflight flies
  rw [forgets.inflight inflight flies] at idle
  cases idle

omit [DecidableEq U] in
theorem Forgets.duties (forgets : r.Forgets after) {edit : Edit U} (duty : edit ∈ after.duties) :
    edit ∈ r.duties := by
  simp only [Reconciler.duties, atWork, List.mem_append, List.mem_map, Option.mem_toList] at duty ⊢
  rcases duty with (⟨taken, held, rfl⟩ | ⟨inflight, flies, rfl⟩) | waits
  · exact Or.inl (Or.inl ⟨taken, forgets.taken taken held, rfl⟩)
  · exact Or.inl (Or.inr ⟨inflight, forgets.inflight inflight flies, rfl⟩)
  · exact Or.inr (forgets.waiting.subset waits)

theorem Effect.oneAtWork (effect : Effect history k p r after q happening) (one : r.OneAtWork) :
    after.OneAtWork := by
  cases effect with
  | noted | refused | called | returned => exact one
  | launched _ idle => exact fun busy => absurd idle busy
  | took => exact fun _ => rfl
  | judged | outdated => exact fun busy => absurd rfl busy
  | forsook _ forgets | kept forgets | killed forgets => exact forgets.oneAtWork one

omit [DecidableEq U] in
theorem taken_of_judge {now : Instant} {taken : Taken U A}
    (next : r.nextAction? now = some (.judge taken)) : r.taken = some taken := by
  cases nextAction?_due next with
  | judge _ held => exact held

omit [DecidableEq U] in
theorem judged_latest (ledger : Ledger history k r) (one : r.OneAtWork) {taken : Taken U A}
    (held : r.taken = some taken) (current : r.noted = taken.stamp) {edit : Edit U}
    (duty : edit ∈ ({ r with taken := none } : Reconciler U A).duties) : edit.stamp ≠ r.noted := by
  intro latest
  -- With a result in hand and no parse in flight, every other duty is still waiting.
  have idle := one (by rw [held]; nofun)
  have waits : edit ∈ r.waiting := by
    have rest : ({ r with taken := none } : Reconciler U A).duties = r.waiting := by
      simp [duties, atWork, idle, waiting]
    rwa [rest] at duty
  have launched := ledger.taken_launched taken held
  have same : edit = taken.edit :=
    ledger.noted_apart _ _ (ledger.waiting_noted edit waits) (ledger.launched_noted _ _ launched)
      (latest.trans current)
  subst same
  exact ledger.waiting_new _ waits _ launched

theorem Effect.latest (effect : Effect history k p r after q happening) (ledger : Ledger history k r)
    (one : r.OneAtWork) (running : r.phase = .running) (quiet : happening.isEdit = false)
    {edit : Edit U} (duty : edit ∈ after.duties) (latest : edit.stamp = after.noted) :
    q.cycles = p.cycles ∧ edit ∈ r.duties ∧ edit.stamp = r.noted := by
  cases effect with
  | noted | refused => cases quiet
  | called | returned => exact ⟨rfl, duty, latest⟩
  | @launched pending _ idle none held =>
    refine ⟨rfl, ?_, latest⟩
    have left : edit = pending.edit ∨ r.noting = some edit := by
      simpa [duties, atWork, waiting, launch, idle, none, held] using duty
    simpa [duties, atWork, waiting, idle, none, held] using Or.inr left
  | took _ idle results flies same =>
    refine ⟨rfl, ?_, latest⟩
    have taken := ledger.taken_edit (by simp [results]) flies same
    simpa [duties, atWork, waiting, idle, flies, taken] using duty
  | judged held free current => exact absurd latest (judged_latest ledger one held current duty)
  | outdated =>
    refine ⟨rfl, ?_, latest⟩
    simp only [duties, atWork, waiting, Option.toList, List.map_nil, List.nil_append] at duty ⊢
    exact List.mem_append.mpr ((List.mem_append.mp duty).imp (List.mem_append_right _) id)
  | forsook closing => exact absurd running closing
  | kept forgets | killed forgets =>
    exact ⟨rfl, forgets.duties duty, latest.trans forgets.noted⟩

theorem beginNote_latest (ledger : Ledger history k r) (free : r.noting = none)
    (few : r.noted.toNat + 1 < UInt64.size) (unit : U) {edit : Edit U}
    (duty : edit ∈ (beginNote unit p r).1.reconciler.duties)
    (latest : edit.stamp = (beginNote unit p r).1.reconciler.noted) :
    (beginNote unit p r).1.provider.IsOpen edit.unit edit.generation := by
  have older : edit ∈ r.duties → edit.stamp ≠ r.noted + 1 := by
    intro before same
    have bound := ledger.noted_stamp edit (ledger.duty_noted before)
    rw [same, succ_toNat few] at bound
    omega
  rcases p.begin_cases unit with ⟨gone, reply, same⟩ | ⟨service, reply, begun⟩
  · simp only [beginNote, reply] at duty latest
    exact absurd latest (older duty)
  · simp only [beginNote, reply, begun] at duty latest ⊢
    have last : ∀ new : Edit U, ({ r with noted := r.noted + 1, noting := some new }
        : Reconciler U A).duties = r.duties ++ [new] := by
      intro new
      simp [duties, waiting, atWork, free]
    rw [last] at duty
    rcases List.mem_append.mp duty with before | now
    · exact absurd latest (older before)
    · obtain rfl := List.mem_singleton.mp now
      constructor
      · rw [Provider.invalidate_cycles]
        exact Cycles.begin_running _ _
      · simp [Provider.generation]

theorem move?_latest {now : Instant} {move : Move U A} {step : Step U A}
    (moved : r.move? now history k p move = some (step, happening)) (ledger : Ledger history k r)
    (one : r.OneAtWork) (running : r.phase = .running)
    (few : happening.isEdit = true → r.noted.toNat + 1 < UInt64.size) {edit : Edit U}
    (duty : edit ∈ step.reconciler.duties) (latest : edit.stamp = step.reconciler.noted) :
    step.provider.IsOpen edit.unit edit.generation ∨ happening.isEdit = false ∧
      step.provider.cycles = p.cycles ∧ edit ∈ r.duties ∧ edit.stamp = r.noted := by
  by_cases quiet : happening.isEdit = false
  · exact Or.inr ⟨quiet, (move?_effect moved).latest ledger one running quiet duty latest⟩
  · have counted : happening.isEdit = true := by simpa using quiet
    obtain ⟨unit, rfl⟩ := move?_edit moved counted
    simp only [move?] at moved
    split at moved
    · cases moved
    · rename_i free
      cases moved
      exact Or.inl (beginNote_latest ledger (by simpa using free) (few counted) unit duty latest)

end Reconciler

namespace Moment

def Abandons (m : Moment U A) (unit : U) (generation : Generation) : Prop :=
  (∃ focus, m.happening = .focused focus) ∧ m.before.IsOpen unit generation ∧
    m.after.cycles.running = none

def isAbandoning (m : Moment U A) : Bool :=
  match m.happening with
  | .focused _ => m.before.cycles.running.isSome && m.after.cycles.running.isNone
  | _ => false

omit [DecidableEq U] in
theorem isAbandoning_iff (m : Moment U A) :
    m.isAbandoning = true ↔ ∃ unit generation, m.Abandons unit generation := by
  unfold isAbandoning Abandons Provider.IsOpen
  cases m.happening with
  | focused focus => simp [Option.isSome_iff_exists]
  | _ => simp

end Moment

def abandonments (past : List (Moment U A)) : Nat := past.countP Moment.isAbandoning

/-- The cycle was abandoned, and no edit was noted since. -/
def AbandonedSince (past : List (Moment U A)) (unit : U) (generation : Generation) : Prop :=
  ∃ earlier m later, past = earlier ++ m :: later ∧ m.Abandons unit generation ∧
    ∀ n ∈ later, n.happening.isEdit = false

omit [DecidableEq U] in
theorem abandonments_concat (past : List (Moment U A)) (m : Moment U A) :
    abandonments (past ++ [m]) = abandonments past + if m.isAbandoning then 1 else 0 := by
  simp [abandonments, List.countP_append, List.countP_singleton]

omit [DecidableEq U] in
theorem AbandonedSince.grow {past : List (Moment U A)} {unit : U} {generation : Generation}
    (since : AbandonedSince past unit generation) {m : Moment U A}
    (quiet : m.happening.isEdit = false) : AbandonedSince (past ++ [m]) unit generation := by
  obtain ⟨earlier, abandoned, later, rfl, abandons, edits⟩ := since
  refine ⟨earlier, abandoned, later ++ [m], by simp, abandons, ?_⟩
  exact List.forall_mem_append.mpr ⟨edits, by simpa using quiet⟩

/-- The cycle of the edit is open, or it was abandoned and no discarded result has
paid for it yet. -/
def Edit.IsOutstanding (past : List (Moment U A)) (s : System U A) (edit : Edit U) : Prop :=
  s.provider.IsOpen edit.unit edit.generation ∨
    AbandonedSince past edit.unit edit.generation ∧ Note.stale s.told < abandonments past

/-- No more results were discarded than cycles abandoned, and if the latest edit of
a reconciler is among its duties, it is outstanding. -/
structure Settles (past : List (Moment U A)) (s : System U A) : Prop where
  stale : Note.stale s.told ≤ abandonments past
  latest : ∀ (k : Nat) (r : Reconciler U A) (edit : Edit U), s.reconcilers[k]? = some r →
    edit ∈ r.duties → edit.stamp = r.noted → edit.IsOutstanding past s
  oneAtWork : ∀ (k : Nat) (r : Reconciler U A), s.reconcilers[k]? = some r → r.OneAtWork
  focus : ∀ m ∈ past, m.isAbandoning = true → m.after.active ≠ m.before.active

omit [DecidableEq U] in
theorem Edit.IsOutstanding.keep {past : List (Moment U A)} {s after : System U A} {edit : Edit U}
    (outstanding : edit.IsOutstanding past s) {m : Moment U A}
    (quiet : m.happening.isEdit = false) (cycles : after.provider.cycles = s.provider.cycles)
    (told : Note.stale after.told = Note.stale s.told) :
    edit.IsOutstanding (past ++ [m]) after := by
  rcases outstanding with isOpen | ⟨since, unpaid⟩
  · left
    unfold Provider.IsOpen Provider.generation
    rw [cycles]
    exact isOpen
  · right
    refine ⟨since.grow quiet, ?_⟩
    rw [told, abandonments_concat]
    exact Nat.lt_of_lt_of_le unpaid (Nat.le_add_right _ _)

theorem Provider.setActive_abandons {p : Provider U A} {unit : Option U}
    (changed : (p.setActive unit).provider.cycles ≠ p.cycles) :
    (∃ left, p.cycles.running = some left) ∧ (p.setActive unit).provider.cycles.running = none ∧
      (p.setActive unit).provider.active ≠ p.active := by
  rcases p.setActive_cases unit with ⟨same, _⟩ | ⟨_, moved, after⟩
  · rw [same] at changed
    exact absurd rfl changed
  · rw [after] at changed ⊢
    by_cases elsewhere : p.cycles.isBusyElsewhere unit = true
    · refine ⟨?_, ?_, ?_⟩
      · obtain ⟨left, busy, _⟩ := Cycles.isBusyElsewhere_iff.mp elsewhere
        exact ⟨left, busy⟩
      · simp [elsewhere]
      · change (p.focus.set unit).active ≠ p.active
        rw [Focus.set_active]
        exact Ne.symm moved
    · simp [elsewhere] at changed

omit [DecidableEq U] in
theorem Sound.only {s : System U A} {k j : Nat} {r other : Reconciler U A} (sound : Sound s)
    (steady : Steady s) (found : s.reconcilers[k]? = some r)
    (found' : s.reconcilers[j]? = some other) : j = k := by
  have last : ∀ {i : Nat} {r : Reconciler U A}, s.reconcilers[i]? = some r →
      s.reconcilers.length ≤ i + 1 := by
    intro i r found
    apply Nat.le_of_not_lt
    intro more
    have stopped := (sound.dropped i r found (by omega)).1
    rw [(steady i r found).2] at stopped
    cases stopped
  have inside := (List.getElem?_eq_some_iff.mp found).1
  have inside' := (List.getElem?_eq_some_iff.mp found').1
  have one := last found
  have one' := last found'
  omega

namespace Settles

variable {past : List (Moment U A)} {s after : System U A} {m : Moment U A}

omit [DecidableEq U] in
theorem start : Settles [] ({} : System U A) := by
  constructor <;> simp [Note.stale, Note.events, abandonments]

omit [DecidableEq U] in
theorem focus_concat (settles : Settles past s)
    (moved : m.isAbandoning = true → m.after.active ≠ m.before.active) :
    ∀ n ∈ past ++ [m], n.isAbandoning = true → n.after.active ≠ n.before.active :=
  List.forall_mem_append.mpr ⟨settles.focus, by simpa using moved⟩

omit [DecidableEq U] in
theorem aside (settles : Settles past s) (idle : m.isAbandoning = false)
    (quiet : m.happening.isEdit = false) (cycles : after.provider.cycles = s.provider.cycles)
    (told : Note.stale after.told = Note.stale s.told)
    (same : ∀ (k : Nat) (r : Reconciler U A), after.reconcilers[k]? = some r →
      s.reconcilers[k]? = some r ∨ r.duties = [] ∧ r.taken = none) :
    Settles (past ++ [m]) after where
  stale := by
    rw [told, abandonments_concat]
    exact Nat.le_trans settles.stale (Nat.le_add_right _ _)
  latest := by
    intro k r edit found duty latest
    rcases same k r found with before | ⟨none, _⟩
    · exact (settles.latest k r edit before duty latest).keep quiet cycles told
    · rw [none] at duty
      cases duty
  oneAtWork := by
    intro k r found
    rcases same k r found with before | ⟨_, idle⟩
    · exact settles.oneAtWork k r before
    · exact fun busy => absurd idle busy
  focus := settles.focus_concat fun abandons => by
    rw [idle] at abandons
    cases abandons

theorem focused (settles : Settles past s) (unit : Option U)
    (provider : after.provider = (s.provider.setActive unit).provider)
    (reconcilers : after.reconcilers = s.reconcilers)
    (told : Note.stale after.told = Note.stale s.told)
    (entered : m = ⟨s.provider, .focused unit, after.provider⟩) : Settles (past ++ [m]) after := by
  -- Unless the cycles stay as they are, the focus left the unit whose cycle was open.
  by_cases kept : after.provider.cycles = s.provider.cycles
  · refine settles.aside ?_ (by rw [entered]; rfl) kept told fun k r found => ?_
    · cases busy : s.provider.cycles.running <;> simp [entered, Moment.isAbandoning, kept, busy]
    · left
      rw [← reconcilers]
      exact found
  · obtain ⟨⟨left, busy⟩, idle, away⟩ := Provider.setActive_abandons (provider ▸ kept)
    rw [← provider] at idle away
    have abandons : m.isAbandoning = true := by
      rw [entered]
      exact (Moment.isAbandoning_iff _).mpr ⟨left, _, ⟨unit, rfl⟩, ⟨busy, rfl⟩, idle⟩
    have paid : abandonments (past ++ [m]) = abandonments past + 1 := by
      rw [abandonments_concat, if_pos abandons]
    constructor
    case stale =>
      rw [told, paid]
      exact Nat.le_succ_of_le settles.stale
    case latest =>
      intro k r edit found duty latest
      rw [reconcilers] at found
      right
      refine ⟨?_, by rw [told, paid]; exact Nat.lt_succ_of_le settles.stale⟩
      -- The latest edit owns the cycle that is abandoned now, or one abandoned before.
      rcases settles.latest k r edit found duty latest with isOpen | ⟨since, _⟩
      · refine ⟨past, m, [], rfl, ?_, by simp⟩
        rw [entered]
        exact ⟨⟨unit, rfl⟩, isOpen, idle⟩
      · exact since.grow (by rw [entered]; rfl)
    case oneAtWork =>
      rw [reconcilers]
      exact settles.oneAtWork
    case focus =>
      apply settles.focus_concat
      intro _
      rw [entered]
      exact away

omit [DecidableEq U] in
theorem outstanding {k : Nat} {r : Reconciler U A} {taken : Taken U A} (settles : Settles past s)
    (found : s.reconcilers[k]? = some r) (held : r.taken = some taken)
    (current : r.noted = taken.stamp) : taken.edit.IsOutstanding past s := by
  refine settles.latest k r taken.edit found ?_ current.symm
  simp [Reconciler.duties, Reconciler.atWork, held]

theorem judged {k : Nat} {r : Reconciler U A} {taken : Taken U A} (settles : Settles past s)
    (sound : Sound s) (steady : Steady s) (found : s.reconcilers[k]? = some r)
    (next : r.nextAction? s.timer = some (.judge taken)) (current : r.noted = taken.stamp)
    (turned : after = s.turned k r (.judge taken))
    (entered : m = ⟨s.provider, .worked k (.judge taken), after.provider⟩) :
    Settles (past ++ [m]) after := by
  have held := Reconciler.taken_of_judge next
  have idle : m.isAbandoning = false := by
    rw [entered]
    rfl
  have left : (r.perform s.timer (Reconciler.treeId s.history k (.judge taken)) s.provider
      (.judge taken)).reconciler = { r with taken := none } := by
    simp only [Reconciler.perform, Reconciler.judge]
    split <;> rfl
  have found_after : ∀ (j : Nat) (r' : Reconciler U A), after.reconcilers[j]? = some r' →
      j = k ∧ r' = { r with taken := none } := by
    intro j r' found'
    rw [turned] at found'
    rcases getElem?_set_cases found found' with ⟨here, same⟩ | ⟨apart, before⟩
    · exact ⟨here, same.symm.trans left⟩
    · exact absurd (sound.only steady found before) apart
  constructor
  case stale =>
    obtain ⟨_, complaints, silent, notes⟩ := Reconciler.perform_judge (p := s.provider) current s.timer
      (Reconciler.treeId s.history k (.judge taken))
    have one := s.provider.complete_stale_le (Reconciler.treeId s.history k (.judge taken))
      taken.parsed.result.toOption taken.parsed.unit taken.parsed.generation
    have none : s.provider.IsOpen taken.edit.unit taken.edit.generation → _ = 0 :=
      fun isOpen => Provider.complete_stale_open isOpen
        (Reconciler.treeId s.history k (.judge taken)) taken.parsed.result.toOption
    have told : Note.stale after.told = Note.stale s.told + Note.stale (s.provider.complete
        (Reconciler.treeId s.history k (.judge taken)) taken.parsed.result.toOption
        taken.parsed.unit taken.parsed.generation).notes := by
      rw [turned]
      simp only [System.turned, System.record, Note.stale_append, notes]
      simp [Note.stale, silent]
    rw [told, abandonments_concat, idle]
    -- A result of the open cycle is not discarded, and one of an abandoned cycle is paid for.
    rcases settles.outstanding found held current with isOpen | ⟨_, unpaid⟩
    · exact Nat.le_trans (Nat.le_of_eq (congrArg (_ + ·) (none isOpen))) settles.stale
    · simp only [Bool.false_eq_true, if_false]
      omega
  case latest =>
    intro j r' edit found' duty latest
    obtain ⟨_, rfl⟩ := found_after j r' found'
    exact absurd latest (Reconciler.judged_latest (sound.ledger k r found)
      (settles.oneAtWork k r found) held current duty)
  case oneAtWork =>
    intro j r' found'
    obtain ⟨_, rfl⟩ := found_after j r' found'
    exact fun busy => absurd rfl busy
  case focus =>
    apply settles.focus_concat
    intro abandons
    rw [idle] at abandons
    cases abandons

theorem worked {k : Nat} {r : Reconciler U A} {move : Reconciler.Move U A}
    {step : Reconciler.Step U A} {happening : Happening U A} (settles : Settles past s)
    (sound : Sound s) (steady : Steady s) (found : s.reconcilers[k]? = some r)
    (moved : r.move? s.timer s.history k s.provider move = some (step, happening))
    (kept : ∀ taken, happening = .worked k (.judge taken) → r.noted ≠ taken.stamp)
    (few : happening.isEdit = true → r.noted.toNat + 1 < UInt64.size)
    (provider : after.provider = step.provider)
    (reconcilers : after.reconcilers = s.reconcilers.set k step.reconciler)
    (told : after.told = s.told ++ step.notes)
    (entered : m = ⟨s.provider, happening, after.provider⟩) : Settles (past ++ [m]) after := by
  have idle : m.isAbandoning = false := by
    have theirs := Reconciler.move?_isReconcilers moved
    rw [entered]
    cases happening <;> first | rfl | cases theirs
  have same : Note.stale after.told = Note.stale s.told := by
    rw [told, Note.stale_append, Reconciler.move?_stale moved (steady k r found).1 kept]
    rfl
  constructor
  case stale =>
    rw [same, abandonments_concat]
    exact Nat.le_trans settles.stale (Nat.le_add_right _ _)
  case latest =>
    intro j r' edit found' duty latest
    rw [reconcilers] at found'
    rcases getElem?_set_cases found found' with ⟨_, rfl⟩ | ⟨apart, before⟩
    · have one := settles.oneAtWork k r found
      rcases Reconciler.move?_latest moved (sound.ledger k r found) one (steady k r found).1 few
        duty latest with isOpen | ⟨quiet, cycles, old, stamp⟩
      · left
        rw [provider]
        exact isOpen
      · apply (settles.latest k r edit found old stamp).keep _ (by rw [provider]; exact cycles) same
        rw [entered]
        exact quiet
    · exact absurd (sound.only steady found before) apart
  case oneAtWork =>
    intro j r' found'
    rw [reconcilers] at found'
    rcases getElem?_set_cases found found' with ⟨_, rfl⟩ | ⟨_, before⟩
    · exact (Reconciler.move?_effect moved).oneAtWork (settles.oneAtWork k r found)
    · exact settles.oneAtWork j r' before
  case focus =>
    apply settles.focus_concat
    intro abandons
    rw [idle] at abandons
    cases abandons

end Settles

/-- The acts of a time in which the reconciler is not told to stop, its runtime
lives, the provider is not disposed, and nobody else opens or completes cycles. -/
def Act.IsServing : Act U A → Prop
  | .dispose => False
  | act => act.IsSteady

omit [DecidableEq U] in
theorem Act.IsServing.isSteady {act : Act U A} (serving : act.IsServing) : act.IsSteady := by
  cases act with
  | dispose => cases serving
  | _ => exact serving

variable {limits : Limits} {s after : System U A} {past : List (Moment U A)}

theorem Request.Effect.cycles {called : Option Nat} {i : Nat} {p q : Provider U A}
    {r next : Request U A} {happening : Happening U A}
    (effect : r.Effect called i p next q happening) : q.cycles = p.cycles := by
  cases effect with
  | looked | woken | called | returned => rfl
  | offered _ _ _ installed =>
    rcases installed with rfl | installed
    · rfl
    · obtain ⟨_, _, _, _, rfl⟩ := Provider.installForeground?_some installed
      rfl

theorem Settles.step {act : Act U A} {happening : Happening U A} (settles : Settles past s)
    (sound : Sound s) (steady : Steady s) (fine : act.IsServing)
    (stepped : s.step? limits act = some after)
    (grown : after.history = s.history ++ [happening]) (few : after.edits < UInt64.size) :
    Settles (past ++ [⟨s.provider, happening, after.provider⟩]) after := by
  have entered := System.entry_eq grown
  cases act with
  | begin | deliver | dispose => cases fine
  | pass | tick | ask =>
    cases stepped
    obtain rfl := entered _ rfl
    exact settles.aside rfl rfl rfl (by simp [System.record]) fun _ _ found => Or.inl found
  | setActive unit =>
    cases stepped
    obtain rfl := entered _ rfl
    refine settles.focused unit rfl rfl ?_ rfl
    rw [System.record, Note.stale_append, Provider.setActive_stale]
    rfl
  | request i move =>
    obtain ⟨r, next, p, notes, found, moved, rfl⟩ := System.moveRequest?_moved stepped
    obtain rfl := entered _ rfl
    have effect : r.Effect (callMoment? s.history (.request i)) i s.provider next p _ :=
      (Request.move?_course moved).effect i
    refine settles.aside ?_ ?_ effect.cycles ?_ fun _ _ found => Or.inl found
    · cases move <;> rfl
    · cases move <;> rfl
    · rw [System.record, Note.stale_append, Request.move?_stale moved]
      rfl
  | spawn settings =>
    simp only [System.step?] at stepped
    split at stepped
    · cases stepped
      obtain rfl := entered _ rfl
      refine settles.aside rfl rfl rfl ?_ fun k r found => ?_
      · rw [System.record, Note.stale_append]
        rfl
      · rcases entry_append.mp found with before | ⟨_, rfl⟩
        · exact Or.inl before
        · exact Or.inr ⟨rfl, rfl⟩
    · cases stepped
  | reconciler k move =>
    obtain ⟨r, step, entry, found, _, moved, rfl⟩ := System.moveReconciler?_some stepped
    obtain rfl := entered _ rfl
    -- A result that is handed over is the one thing that can be discarded as stale.
    by_cases handed : ∃ taken, entry = .worked k (.judge taken) ∧ r.noted = taken.stamp
    · obtain ⟨taken, rfl, current⟩ := handed
      obtain ⟨rfl, next⟩ := Reconciler.move?_worked moved
      rw [System.step?_turn limits found next] at stepped
      exact settles.judged sound steady found next current (Option.some.inj stepped).symm rfl
    · refine settles.worked sound steady found moved ?_ ?_ rfl rfl rfl rfl
      · exact fun taken worked current => handed ⟨taken, worked, current⟩
      · intro counted
        have more := System.edits_append grown
        have bound := sound.counted k r found
        rw [if_pos counted] at more
        omega

theorem Chronicle.settles (chronicle : Chronicle limits Act.IsServing {} past s)
    (few : s.edits < UInt64.size) : Settles past s := by
  induction chronicle with
  | start => exact .start
  | @next past before after act happening told fine stepped grown ih =>
    have fewer : before.edits < UInt64.size := by
      have more := System.edits_append grown
      omega
    have steady := told.reaches.weaken fun _ => Act.IsServing.isSteady
    have sound := (steady.weaken fun _ => Act.IsSteady.isInternal).sound fewer
    exact (ih fewer).step sound steady.steady fine stepped grown few

/-- Cycles are opened by edits alone, so before the first one none is abandoned. -/
theorem Chronicle.unabandoned {earlier later : List (Moment U A)}
    (chronicle : Chronicle limits Act.IsServing {} (earlier ++ later) s)
    (unedited : ∀ m ∈ earlier, m.happening.isEdit = false) :
    ∀ m ∈ earlier, m.isAbandoning = false := by
  intro m member
  obtain ⟨j, entry⟩ := List.mem_iff_getElem?.mp member
  have inside := (List.getElem?_eq_some_iff.mp entry).1
  obtain ⟨before, _, _, told, _, _, _, same, _⟩ :=
    chronicle.cut ((List.getElem?_append_left inside).trans entry)
  rw [List.take_append_of_le_length (Nat.le_of_lt inside)] at told
  have history : before.history = (earlier.take j).map Moment.happening := by
    simpa using told.history
  have unnoted : ∀ happening ∈ before.history, happening.isEdit = false := by
    rw [history]
    exact List.forall_mem_map.mpr fun n taken => unedited n (List.mem_of_mem_take taken)
  -- No bound on the edits is given here, but none was noted so far.
  have few : before.edits < UInt64.size := by
    have none : before.edits = 0 :=
      List.countP_eq_zero.mpr fun happening entered => by simp [unnoted happening entered]
    rw [none]
    decide
  have sound := (told.reaches.weaken fun _ fine => fine.isSteady.isInternal).sound few
  apply Bool.eq_false_iff.mpr
  intro abandons
  obtain ⟨unit, _, _, ⟨busy, _⟩, _⟩ := m.isAbandoning_iff.mp abandons
  rw [same] at busy
  obtain ⟨k, edit, noted, _⟩ := sound.tracked.opened unit busy
  have edited := unnoted _ noted
  cases edited

/-- While one reconciler alone opens and completes the cycles of a provider, and
neither is told to end, every result that its worker hands over is of the open
cycle, or of one that a move of the focus abandoned after the last edit. So at
most as many results are discarded as stale as cycles were abandoned that way, and
none if the focus stays from the first edit on. -/
theorem results_outstanding (chronicle : Chronicle limits Act.IsServing {} past s)
    (few : s.edits < UInt64.size) :
    (∀ k d, s.delivery? (.reconciler k .turn) = some d →
        s.provider.IsOpen d.unit d.generation ∨ AbandonedSince past d.unit d.generation) ∧
      (Note.events s.told).count .staleDiscarded ≤ abandonments past ∧
      ∀ earlier later, past = earlier ++ later →
        (∀ m ∈ earlier, m.happening.isEdit = false) →
        (∀ m ∈ later, m.after.active = m.before.active) →
        (Note.events s.told).count .staleDiscarded = 0 := by
  have settles := chronicle.settles few
  refine ⟨fun k d due => ?_, settles.stale, ?_⟩
  · obtain ⟨r, taken, found, next, current, rfl⟩ := System.delivery?_turn due
    rcases settles.outstanding found (Reconciler.taken_of_judge next) current with
      isOpen | ⟨since, _⟩
    · exact Or.inl isOpen
    · exact Or.inr since
  · rintro earlier later rfl unedited still
    have none : abandonments (earlier ++ later) = 0 := by
      apply List.countP_eq_zero.mpr
      intro m member abandons
      rcases List.mem_append.mp member with before | since
      · rw [chronicle.unabandoned unedited m before] at abandons
        cases abandons
      · exact settles.focus m member abandons (still m since)
    exact Nat.le_zero.mp (none ▸ settles.stale)

/-- The focus leaves unit 7 when its edit is parsed, and the worker takes the
result. -/
def leftRun : List (Act Nat Nat) :=
  [.setActive (some 7), .spawn { debounceMs := 0 }, .reconciler 0 (.note 7), .reconciler 0 .send,
    .reconciler 0 .turn, .reconciler 0 .turn, .reconciler 0 (.call 0),
    .reconciler 0 (.finish 0 (.returned (.ok 5))), .setActive (some 8), .reconciler 0 .turn]

theorem results_outstanding_left :
    ∃ (s after : System Nat Nat) (d : Delivery Nat Nat) (past : List (Moment Nat Nat)),
      System.run? ⟨{}, 1000⟩ {} leftRun = some s ∧
        past = System.moments ⟨{}, 1000⟩ {} (leftRun ++ [.reconciler 0 .turn]) ∧
        s.delivery? (.reconciler 0 .turn) = some d ∧
        (s.provider.IsOpen d.unit d.generation ∨
          AbandonedSince (System.moments ⟨{}, 1000⟩ {} leftRun) d.unit d.generation) ∧
        s.step? ⟨{}, 1000⟩ (.reconciler 0 .turn) = some after ∧ abandonments past = 1 ∧
        (Note.events after.told).count .staleDiscarded = 1 ∧
        (Note.events after.told).count .staleDiscarded ≤ abandonments past := by
  have serving : ∀ act ∈ leftRun ++ [.reconciler 0 .turn], act.IsServing := by
    simp [leftRun, Act.IsServing, Act.IsSteady]
  have ran : System.run? ⟨{}, 1000⟩ {} leftRun =
      some ((System.run? ⟨{}, 1000⟩ {} leftRun).get rfl) := rfl
  have ran_on : System.run? ⟨{}, 1000⟩ {} (leftRun ++ [.reconciler 0 .turn]) =
      some ((System.run? ⟨{}, 1000⟩ {} (leftRun ++ [.reconciler 0 .turn])).get rfl) := rfl
  have before := Chronicle.of_run? (fun act member => serving act (List.mem_append_left _ member)) ran
  have paid := results_outstanding (Chronicle.of_run? serving ran_on) (by decide)
  exact ⟨_, _, ⟨6, some 5, 7, ⟨1⟩⟩, _, ran, rfl, rfl,
    (results_outstanding before (by decide)).1 0 _ rfl, rfl, by decide, by decide, paid.2.1⟩

end FreshTree
