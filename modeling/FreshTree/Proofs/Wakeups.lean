import FreshTree.Proofs.Patience

/-!
Which acts wake the requests that sleep. Whoever ends a wait wakes them, be it by a
completion, by moving the focus, or by the disposal, with one exception: to begin a cycle
of another unit ends the cycle that they sleep for, and tells nobody. They notice at the
end of their slice, or when something else wakes them.
-/

namespace FreshTree

variable {U A : Type}

def Act.BeginsElsewhere (unit : U) (act : Act U A) : Prop :=
  ∃ other, other ≠ unit ∧ (act = .begin other ∨ ∃ k, act = .reconciler k (.note other))

variable [DecidableEq U]

/-! What each section does without waking anybody. -/

namespace Provider

variable {p : Provider U A} {unit other : U}

theorem setActive_silent {focus : Option U} (silent : (p.setActive focus).wakes = false) :
    (p.setActive focus).provider = p := by
  unfold setActive at silent ⊢
  split
  · rfl
  split
  · rfl
  · simp_all

theorem dispose_silent (silent : p.dispose.wakes = false) : p.dispose.provider = p := by
  unfold dispose at silent ⊢
  split <;> simp_all

theorem begin_wakes (p : Provider U A) (unit : U) : (p.begin unit).wakes = false := by
  unfold begin
  split <;> rfl

theorem Detains.begin (detained : p.Detains unit) : (p.begin unit).provider = p := by
  have joined : p.cycles.begin unit = p.cycles := Cycles.begin_of_running detained.busy
  have nothing : p.invalidate unit = p := by simp [invalidate, cachedUnit, detained.missing]
  rcases p.begin_cases unit with ⟨_, _, same⟩ | ⟨_, _, begun⟩
  · exact same
  · rw [begun, joined]
    exact nothing

theorem begin_frees (service : p.disposed = false) (apart : other ≠ unit) :
    ¬ (p.begin other).provider.Detains unit := by
  intro detained
  have busy := detained.busy
  rcases p.begin_cases other with ⟨gone, _⟩ | ⟨_, _, begun⟩
  · rw [service] at gone
    cases gone
  · rw [begun, invalidate_cycles] at busy
    exact apart (Option.some.inj ((p.cycles.begin_running other).symm.trans busy))

end Provider

namespace Reconciler

variable {history : List (Happening U A)} {k : Nat} {now : Instant} {p : Provider U A}
  {r : Reconciler U A}

theorem perform_silent {id : TreeId} {action : Action U A}
    (silent : (r.perform now id p action).wakes = false) :
    (r.perform now id p action).provider = p := by
  cases action with
  | judge taken =>
    simp only [perform, judge] at silent ⊢
    split at silent
    · rename_i outdated
      simp [outdated]
    · cases silent
  | receive parsed =>
    simp only [perform, receive]
    split
    · rfl
    · split <;> rfl
  | obey command => cases command <;> rfl
  | drain command =>
    cases command with
    | edit edit => cases silent
    | flush => rfl
  | forsakeInflight | forsakePending => cases silent
  | leave | launch | close => rfl

theorem beginNote_begin (unit : U) :
    (beginNote unit p r).1.provider = (p.begin unit).provider ∧
      (beginNote unit p r).1.wakes = false := by
  simp only [beginNote]
  split
  · exact ⟨rfl, rfl⟩
  · exact ⟨rfl, p.begin_wakes unit⟩

theorem move?_silent {move : Move U A} {step : Step U A} {happening : Happening U A}
    (moved : r.move? now history k p move = some (step, happening)) (silent : step.wakes = false) :
    step.provider = p ∨
      ∃ unit, move = .note unit ∧ step.provider = (p.begin unit).provider := by
  cases move with
  | note unit =>
    simp only [move?] at moved
    split at moved
    · cases moved
    · cases moved
      exact Or.inr ⟨unit, rfl, (beginNote_begin unit).1⟩
  | send =>
    simp only [move?] at moved
    split at moved
    · cases moved
    · cases moved
      simp only [sendNote] at silent ⊢
      split at silent
      · rename_i accepting
        simp [accepting]
      · cases silent
  | flush | stop | kill =>
    cases moved
    exact Or.inl rfl
  | call seq | finish seq ending =>
    simp only [move?] at moved
    split at moved
    · cases moved
      exact Or.inl rfl
    · cases moved
  | turn =>
    simp only [move?] at moved
    split at moved
    · cases moved
    · cases moved
      exact Or.inl (perform_silent silent)

end Reconciler

namespace System

variable {limits : Limits} {s after : System U A} {act : Act U A} {unit : U}

/-- While a request for `unit` is detained, whoever wakes nobody leaves the provider as
it is or begins a cycle of another unit. -/
theorem step?_silent (detained : s.provider.Detains unit)
    (stepped : s.step? limits act = some after) (silent : s.signals act = false) :
    after.provider = s.provider ∨ act.BeginsElsewhere unit := by
  cases act with
  | pass | tick | ask =>
    cases stepped
    exact Or.inl rfl
  | setActive focus =>
    cases stepped
    exact Or.inl (Provider.setActive_silent silent)
  | dispose =>
    cases stepped
    exact Or.inl (Provider.dispose_silent silent)
  | begin other =>
    cases stepped
    by_cases same : other = unit
    · subst same
      exact Or.inl detained.begin
    · exact Or.inr ⟨other, same, Or.inl rfl⟩
  | deliver => cases silent
  | request i move =>
    obtain ⟨r, next, p, happening, notes, found, effect, rfl⟩ := moveRequest?_some stepped
    cases effect with
    | looked | woken | called | returned => exact Or.inl rfl
    | offered _ _ _ installed =>
      -- A foreground tree is installed while no cycle is open only.
      rcases installed with same | installed
      · exact Or.inl same
      · have idle := (Provider.installForeground?_some installed).2.1
        rw [detained.busy] at idle
        cases idle
  | spawn settings =>
    simp only [step?] at stepped
    split at stepped
    · cases stepped
      exact Or.inl rfl
    · cases stepped
  | reconciler k move =>
    obtain ⟨r, step, happening, found, _, moved, rfl⟩ := moveReconciler?_some stepped
    have quiet : step.wakes = false := by simpa [signals, found, moved] using silent
    rcases Reconciler.move?_silent moved quiet with same | ⟨other, rfl, begun⟩
    · exact Or.inl same
    · by_cases own : other = unit
      · subst own
        exact Or.inl (begun.trans detained.begin)
      · exact Or.inr ⟨other, own, Or.inr ⟨k, rfl⟩⟩

theorem step?_beginsElsewhere (service : s.provider.disposed = false)
    (stepped : s.step? limits act = some after) (elsewhere : act.BeginsElsewhere unit) :
    ¬ after.provider.Detains unit ∧ s.signals act = false := by
  obtain ⟨other, apart, rfl | ⟨k, rfl⟩⟩ := elsewhere
  · cases stepped
    exact ⟨Provider.begin_frees service apart, s.provider.begin_wakes other⟩
  · obtain ⟨r, step, happening, found, _, moved, rfl⟩ := moveReconciler?_some stepped
    have same := moved
    simp only [Reconciler.move?] at same
    split at same
    · cases same
    · cases same
      obtain ⟨begun, quiet⟩ := Reconciler.beginNote_begin (p := s.provider) (r := r) other
      refine ⟨?_, by simp [signals, found, moved, quiet]⟩
      change ¬ (Reconciler.beginNote other s.provider r).1.provider.Detains unit
      rw [begun]
      exact Provider.begin_frees service apart

end System

theorem Request.detains_of_sleepsOn {limits : Limits} {now : Instant} {p : Provider U A}
    {r : Request U A} (home : p.IsHome) (asleep : r.sleepsOn limits now false p = true) :
    p.Detains r.unit := by
  have glance := r.wake.validate_glance limits now false p
  unfold sleepsOn at asleep
  split at asleep
  · rename_i slice blocked
    generalize (r.wake.validate limits now false p).1 = next at glance blocked
    generalize Note.events (r.wake.validate limits now false p).2 = events at glance
    cases glance with
    | disposed => cases blocked
    | decided service decision =>
      rw [← r.wake_unit, ← r.wake.noticed_unit limits now p]
      cases decision with
      | sleeps awaits => exact awaits.detains service home
      | _ => cases blocked
  · cases asleep

/-- To begin a cycle of another unit is the one act that ends a wait and wakes nobody.
A unit detains requests until the act; then the act frees them without a signal exactly if
it begins a cycle of another unit. So it is for every single request that would sleep on
until then, with its token unfired and its deadline ahead. -/
theorem lost_wakeup_iff {limits : Limits} {acts : List (Act U A)} {act : Act U A}
    {s after : System U A} (ran : System.run? limits {} acts = some s)
    (stepped : s.step? limits act = some after) :
    (∀ unit, s.provider.Detains unit →
      (¬ after.provider.Detains unit ∧ s.signals act = false ↔ act.BeginsElsewhere unit)) ∧
    ∀ r : Request U A, r.sleepsOn limits s.now false s.provider = true →
      (r.sleepsOn limits s.now false after.provider = false ∧ s.signals act = false ↔
        act.BeginsElsewhere r.unit) := by
  have told : Chronicle limits (fun _ => True) {} (System.moments limits {} acts) s :=
    Chronicle.of_run? (fun _ _ => trivial) ran
  have home : s.provider.IsHome := told.home nofun
  obtain ⟨happening, turn⟩ := System.step?_turned stepped
  have home' : after.provider.IsHome := turn.home home
  refine ⟨fun unit detained => ⟨fun ⟨freed, silent⟩ => ?_, ?_⟩, fun r asleep => ?_⟩
  · rcases System.step?_silent detained stepped silent with same | elsewhere
    · exact absurd (same ▸ detained) freed
    · exact elsewhere
  · exact System.step?_beginsElsewhere detained.service stepped
  have detained := Request.detains_of_sleepsOn home asleep
  refine ⟨fun ⟨freed, silent⟩ => ?_, fun elsewhere => ?_⟩
  · rcases System.step?_silent detained stepped silent with same | elsewhere
    · rw [same, asleep] at freed
      cases freed
    · exact elsewhere
  · obtain ⟨freed, silent⟩ := System.step?_beginsElsewhere detained.service stepped elsewhere
    refine ⟨Bool.eq_false_iff.mpr fun on => freed ?_, silent⟩
    exact Request.detains_of_sleepsOn home' on

def slumberRun : List (Act Nat Nat) :=
  [.setActive (some 7), .spawn {}, .begin 7, .ask 7 .waitForCurrent, .request 0 (.look false),
    .request 0 (.look false)]

def slumber : System Nat Nat := (System.run? ⟨{}, Clock.day⟩ {} slumberRun).get rfl

def slept : Request Nat Nat := slumber.requests.get ⟨0, by decide⟩

theorem lost_wakeup_iff_noted :
    ∃ after, System.run? ⟨{}, Clock.day⟩ {} slumberRun = some slumber ∧
      slumber.step? ⟨{}, Clock.day⟩ (.reconciler 0 (.note 8)) = some after ∧
      slumber.provider.Detains 7 ∧
      (¬ after.provider.Detains 7 ∧ slumber.signals (.reconciler 0 (.note 8)) = false) ∧
      slept.sleepsOn ⟨{}, Clock.day⟩ slumber.now false slumber.provider = true ∧
      slept.sleepsOn ⟨{}, Clock.day⟩ slumber.now false after.provider = false := by
  have ran : System.run? ⟨{}, Clock.day⟩ {} slumberRun = some slumber := rfl
  have stepped : slumber.step? ⟨{}, Clock.day⟩ (.reconciler 0 (.note 8)) =
      some ((slumber.step? ⟨{}, Clock.day⟩ (.reconciler 0 (.note 8))).get rfl) := rfl
  have detained : slumber.provider.Detains 7 := ⟨rfl, rfl, rfl, rfl⟩
  have elsewhere : (Act.reconciler 0 (.note 8) : Act Nat Nat).BeginsElsewhere 7 :=
    ⟨8, by decide, Or.inr ⟨0, rfl⟩⟩
  obtain ⟨units, requests⟩ := lost_wakeup_iff ran stepped
  exact ⟨_, ran, stepped, detained, (units 7 detained).mpr elsewhere, rfl,
    ((requests slept rfl).mpr elsewhere).1⟩

/-- Somebody begins a cycle of unit 8 while a request sleeps for that of unit 7. It would
go on at its next look, and is not woken for it. -/
theorem begun_elsewhere_unheard :
    ∃ (after : System Nat Nat) (slice : Instant),
      System.run? ⟨{}, Clock.day⟩ {} slumberRun = some slumber ∧
        slumber.requests[0]? = some slept ∧ slept.policy = .waitForCurrent ∧
        slept.stage = .blocked slice ∧ slumber.now < slept.deadline ∧
        slumber.step? ⟨{}, Clock.day⟩ (.begin 8) = some after ∧
        slumber.provider.Detains 7 ∧ ¬ after.provider.Detains 7 ∧
        slept.sleepsOn ⟨{}, Clock.day⟩ slumber.now false slumber.provider = true ∧
        slept.sleepsOn ⟨{}, Clock.day⟩ slumber.now false after.provider = false ∧
        slumber.signals (.begin 8) = false ∧ after.requests[0]? = some slept := by
  refine ⟨(slumber.step? ⟨{}, Clock.day⟩ (.begin 8)).get rfl, _, rfl, rfl, rfl, rfl, by decide, rfl,
    ⟨rfl, rfl, rfl, rfl⟩, fun detained => ?_, rfl, rfl, rfl, rfl⟩
  cases detained.busy

end FreshTree
