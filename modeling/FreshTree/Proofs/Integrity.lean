import FreshTree.Proofs.Chronicle

/-!
What holds of a provider and of the requests made of it after every run,
whoever calls it and however the calls interleave. The cached tree belongs to
the active unit and not to the unit of the open cycle; a request that parses the
active unit remembers a generation in which no cycle of that unit was open, and
an older one than that of a reconciled tree cached for its unit.
-/

namespace FreshTree

variable {U A : Type}

structure Provider.Intact (p : Provider U A) : Prop where
  active : ∀ tree, p.cached = some tree → p.active = some tree.unit
  apart : ∀ tree, p.cached = some tree → p.cycles.running ≠ some tree.unit
  origin : ∀ tree, p.cached = some tree → tree.origin = .foreground ∨
    ∃ generation, tree.origin = .reconciled generation ∧
      generation.toNat ≤ p.generation.toNat
  disposed : p.disposed = true → p.active = none ∧ p.cached = none ∧ p.cycles.running = none

def Stage.since? : Stage U A → Option Generation
  | .parsing (.foreground since) | .installing _ since => some since
  | _ => none

/-- A request that parses, or offers its tree, is in step with the provider. -/
structure Request.InStep (p : Provider U A) (r : Request U A) : Prop where
  quiet : ∀ since, r.stage.since? = some since →
    since.toNat ≤ p.generation.toNat ∧
      (p.generation = since → p.cycles.running ≠ some r.unit)
  offer : ∀ tree since, r.stage = .installing tree since →
    tree.unit = r.unit ∧ tree.origin = .foreground
  behind : ∀ tree generation since, p.cached = some tree →
    tree.origin = .reconciled generation → tree.unit = r.unit →
    r.stage.since? = some since → since.toNat < generation.toNat

structure System.Regular (s : System U A) : Prop where
  provider : s.provider.Intact
  requests : ∀ (i : Nat) (r : Request U A), s.requests[i]? = some r → r.InStep s.provider

namespace Provider.Intact

variable {p q : Provider U A}

theorem start : ({} : Provider U A).Intact := by
  constructor <;> simp

variable [DecidableEq U]

theorem setActive (intact : p.Intact) (unit : Option U) : (p.setActive unit).provider.Intact := by
  rcases p.setActive_cases unit with ⟨same, _⟩ | ⟨service, moved, changed⟩
  · rw [same]
    exact intact
  · -- The tree cached so far belonged to the old active unit, so it is evicted.
    have empty : (p.setActive unit).provider.cached = none := by
      rw [changed]
      cases cached : p.cached with
      | none => simp
      | some tree =>
        have other : some tree.unit ≠ unit := by
          rw [← intact.active tree cached]
          exact moved
        simp [cachedUnit, cached, other]
    constructor
    case disposed =>
      rw [changed]
      intro gone
      rw [service] at gone
      cases gone
    all_goals
      intro tree cached
      rw [empty] at cached
      cases cached

theorem dispose (intact : p.Intact) : p.dispose.provider.Intact := by
  unfold Provider.dispose
  split
  · exact intact
  · constructor
    case disposed =>
      intro _
      exact ⟨Focus.set_active _ _, rfl, rfl⟩
    all_goals
      intro tree cached
      cases cached

theorem begin (intact : p.Intact) (service : p.disposed = false) (unit : U)
    (advances : p.Advances ({ p with cycles := p.cycles.begin unit }.invalidate unit)) :
    ({ p with cycles := p.cycles.begin unit }.invalidate unit).Intact := by
  constructor
  · intro tree cached
    rw [invalidate_active]
    exact intact.active tree (invalidate_cached cached).1
  · intro tree cached busy
    rw [invalidate_cycles, Cycles.begin_running] at busy
    exact (invalidate_cached cached).2 (Option.some.inj busy).symm
  · intro tree cached
    rcases intact.origin tree (invalidate_cached cached).1 with own | ⟨generation, own, bound⟩
    · exact Or.inl own
    · exact Or.inr ⟨generation, own, Nat.le_trans bound advances.le⟩
  · intro gone
    rw [invalidate_disposed] at gone
    rw [service] at gone
    cases gone

theorem complete (intact : p.Intact) (id : TreeId) (ast : Option A) (unit : U)
    (generation : Generation) : (p.complete id ast unit generation).provider.Intact := by
  have slot := p.complete_slot id ast unit generation
  change (p.receive id ast unit generation).1.Intact
  change (p.receive id ast unit generation).1.cached = _ ∨ _ ∧
    ∃ content, _ ∧ (p.receive id ast unit generation).1.cached = _ at slot
  rcases p.receive_cases id ast unit generation with ⟨same, _⟩ | ⟨⟨service, _, _⟩, _, closed, _⟩
  · rw [same]
    exact intact
  · rw [closed] at slot ⊢
    constructor
    · intro tree inside
      rcases slot with old | ⟨⟨_, _, _, here⟩, content, _, new⟩
      · exact intact.active tree (old.symm.trans inside)
      · cases new.symm.trans inside
        exact here
    · intro tree _ running
      cases running
    · intro tree inside
      rcases slot with old | ⟨⟨_, _, now, _⟩, content, _, new⟩
      · exact intact.origin tree (old.symm.trans inside)
      · cases new.symm.trans inside
        exact Or.inr ⟨generation, rfl, Nat.le_of_eq (by rw [← now]; rfl)⟩
    · intro gone
      rw [service] at gone
      cases gone

/-- A foreground tree comes into the cache only while no cycle is open. -/
theorem of_install {tree : Tree U A} {since : Generation}
    (installed : p.installForeground? tree since = some q) (own : tree.origin = .foreground) :
    q.Intact := by
  obtain ⟨service, idle, _, here, rfl⟩ := installForeground?_some installed
  constructor
  · intro other cached
    cases cached
    exact here
  · intro other _ busy
    rw [idle] at busy
    cases busy
  · intro other cached
    cases cached
    exact Or.inl own
  · intro gone
    rw [service] at gone
    cases gone

theorem touch {happening : Happening U A} (intact : p.Intact) (touch : p.Touch happening q)
    (advances : p.Advances q) : q.Intact := by
  cases touch with
  | kept => exact intact
  | focused unit => exact intact.setActive unit
  | disposed => exact intact.dispose
  | begun unit service => exact intact.begin service unit advances
  | completed id ast unit generation => exact intact.complete id ast unit generation

theorem serves (intact : p.Intact) {tree : Tree U A} (cached : p.cached = some tree) :
    p.serve tree.unit = some tree := by
  simp [serve, intact.active tree cached, cached]

end Provider.Intact

theorem Provider.Touch.cached [DecidableEq U] {p q : Provider U A} {happening : Happening U A}
    (touch : p.Touch happening q) {tree : Tree U A} (cached : q.cached = some tree) :
    p.cached = some tree ∨
      p.cycles.running = some tree.unit ∧ tree.origin = .reconciled p.generation := by
  cases touch with
  | kept => exact Or.inl cached
  | focused unit => exact Or.inl (p.setActive_addsNone unit tree cached)
  | disposed => exact Or.inl (p.dispose_addsNone tree cached)
  | begun unit => exact Or.inl (invalidate_cached cached).1
  | completed id ast unit generation =>
    rcases p.complete_slot id ast unit generation with same | ⟨⟨_, busy, now, _⟩, content, _, new⟩
    · exact Or.inl (same.symm.trans cached)
    · cases new.symm.trans cached
      exact Or.inr ⟨busy, by rw [now]⟩

namespace Request.InStep

variable {p q : Provider U A} {r after : Request U A}

theorem of_none (none : r.stage.since? = none) : r.InStep p := by
  constructor
  · intro since some
    rw [none] at some
    cases some
  · intro tree since stage
    simp [stage, Stage.since?] at none
  · intro tree generation since _ _ _ some
    rw [none] at some
    cases some

theorem keep (inStep : r.InStep p) (advances : p.Advances q)
    (cached : ∀ tree generation, q.cached = some tree → tree.origin = .reconciled generation →
      p.cached = some tree ∨ p.cycles.running = some tree.unit ∧ generation = p.generation) :
    r.InStep q := by
  constructor
  · intro since some
    obtain ⟨bound, free⟩ := inStep.quiet since some
    refine ⟨Nat.le_trans bound advances.le, fun current busy => ?_⟩
    -- Generations do not come back, so that of `since` was current all along.
    have same : p.generation = since := by
      have le := advances.le
      rw [current] at le
      exact Generation.toNat_inj (Nat.le_antisymm le bound)
    exact free same (advances.running (current.trans same.symm) _ busy)
  · exact inStep.offer
  · intro tree generation since inside own mine some
    rcases cached tree generation inside own with before | ⟨busy, rfl⟩
    · exact inStep.behind tree generation since before own mine some
    · obtain ⟨bound, free⟩ := inStep.quiet since some
      apply Nat.lt_of_le_of_ne bound
      intro same
      rw [mine] at busy
      exact free (Generation.toNat_inj same).symm busy

variable [DecidableEq U]

theorem move {called : Option Nat} {i : Nat} {happening : Happening U A} (inStep : r.InStep p)
    (intact : p.Intact) (effect : r.Effect called i p after q happening) : after.InStep q := by
  cases effect with
  | looked looking unit sight =>
    by_cases parses : after.stage.since? = none
    · exact of_none parses
    · generalize stage : after.stage = reached at sight parses
      cases sight with
      | again | asleep | refused | served | detached => exact absurd rfl parses
      | foreground nothing free =>
        constructor
        · intro since some
          rw [stage] at some
          cases some
          rw [unit]
          exact ⟨Nat.le_refl _, fun _ => free⟩
        · intro tree since ready
          rw [stage] at ready
          cases ready
        · -- A tree cached for the unit would have been served.
          intro tree generation since cached _ mine
          rw [unit] at mine
          rw [← mine, intact.serves cached] at nothing
          cases nothing
  | woken => exact of_none rfl
  | called => exact inStep
  | returned parsing called unit outlook =>
    by_cases parses : after.stage.since? = none
    · exact of_none parses
    · generalize stage : after.stage = reached at outlook parses
      cases outlook with
      | refused | detached => exact absurd rfl parses
      | foreground =>
        have same : after.stage.since? = r.stage.since? := by
          rw [stage, parsing]
          rfl
        constructor
        · rw [same, unit]
          exact inStep.quiet
        · intro tree since ready
          rw [stage] at ready
          cases ready
          exact ⟨unit.symm, rfl⟩
        · rw [same, unit]
          exact inStep.behind
  | offered ready unit answered =>
    apply of_none
    rcases answered with stage | stage <;> rw [stage] <;> rfl

end Request.InStep

namespace System.Regular

variable [DecidableEq U] {s after : System U A} {happening : Happening U A}

omit [DecidableEq U] in
theorem start : ({} : System U A).Regular :=
  ⟨.start, by simp⟩

theorem turn (regular : s.Regular) (turn : s.Turn happening after)
    (advances : s.provider.Advances after.provider) : after.Regular := by
  cases turn with
  | touched touch =>
    constructor
    · exact regular.provider.touch touch advances
    · intro i r found
      apply (regular.requests i r found).keep advances
      intro tree generation cached own
      rcases touch.cached cached with before | ⟨busy, same⟩
      · exact Or.inl before
      · exact Or.inr ⟨busy, by simpa [own] using same⟩
  | asked =>
    constructor
    · exact regular.provider
    · intro i r found
      rcases entry_append.mp found with before | ⟨_, rfl⟩
      · exact regular.requests i r before
      · exact .of_none rfl
  | @moved i r next q _ _ found effect =>
    have inStep := regular.requests i r found
    have intact : q.Intact := by
      cases effect with
      | looked | woken | called | returned => exact regular.provider
      | offered ready _ _ installed =>
        rcases installed with rfl | installed
        · exact regular.provider
        · exact .of_install installed (inStep.offer _ _ ready).2
    refine ⟨intact, fun j r' found' => ?_⟩
    rcases getElem?_set_cases found found' with ⟨_, rfl⟩ | ⟨_, before⟩
    · exact inStep.move regular.provider effect
    · apply (regular.requests j r' before).keep advances
      intro tree generation cached own
      left
      -- The tree that this request may have installed is none of a cycle.
      cases effect with
      | looked | woken | called | returned => exact cached
      | offered ready _ _ installed =>
        rcases installed with rfl | installed
        · exact cached
        · obtain ⟨_, _, _, _, rfl⟩ := Provider.installForeground?_some installed
          cases cached
          rw [(inStep.offer _ _ ready).2] at own
          cases own

end System.Regular

variable [DecidableEq U] {limits : Limits} {allowed : Act U A → Prop} {s : System U A}
  {past : List (Moment U A)}

theorem Chronicle.regular (chronicle : Chronicle limits allowed {} past s)
    (few : openings past < UInt64.size) : s.Regular := by
  refine chronicle.invariant (motive := fun _ s => s.Regular) few .start ?_
  intro past before happening after told regular turn few
  exact regular.turn turn (told.counts turn few).advances

/-- After every run the cached tree belongs to the active unit and to no unit
with an open cycle, it is a foreground tree or that of a cycle not later than
the current one, an open cycle names its unit, and a disposed provider holds
nothing. The generation goes up by one when a cycle is opened and never
otherwise. -/
theorem provider_intact (chronicle : Chronicle limits allowed {} past s)
    (few : openings past < UInt64.size) :
    s.provider.Intact ∧
      (∀ generation, s.provider.cycles.openGeneration? = some generation →
        ∃ unit, s.provider.cycles.isBusy unit = true) ∧
      ∀ m ∈ past, m.after.generation.toNat =
        m.before.generation.toNat + if m.isOpening then 1 else 0 := by
  refine ⟨(chronicle.regular few).provider, ?_, fun m member => chronicle.grows few member⟩
  intro generation opened
  have busy : s.provider.cycles.busy = true := by
    unfold Cycles.openGeneration? at opened
    split at opened
    · assumption
    · cases opened
  obtain ⟨unit, runs⟩ := Cycles.running_of_busy busy
  exact ⟨unit, Cycles.isBusy_iff.mpr runs⟩

/-- A request sets out to parse unit 7, which leaves the focus and comes back
while a cycle of it is open, and offers its tree after that cycle has ended. -/
def lateRun : List (Act Nat Nat) :=
  [.setActive (some 7), .ask 7 .waitForCurrent, .request 0 (.look false), .request 0 .call,
    .setActive (some 8), .begin 7, .setActive (some 7), .deliver (some 5) 7 ⟨1⟩,
    .deliver (some 6) 7 ⟨2⟩, .request 0 (.finish false (.returned (.ok 4))),
    .request 0 (.install false)]

theorem provider_intact_late :
    ∃ (s : System Nat Nat) (tree : Tree Nat Nat),
      Chronicle ⟨{}, 1000⟩ (fun _ => True) {} (System.moments ⟨{}, 1000⟩ {} lateRun) s ∧
        openings (System.moments ⟨{}, 1000⟩ {} lateRun) = 1 ∧
        s.provider.cached = some tree ∧ tree.origin = .reconciled ⟨1⟩ ∧
        s.provider.active = some tree.unit ∧ s.provider.cycles.running ≠ some tree.unit ∧
        ∀ m ∈ System.moments ⟨{}, 1000⟩ {} lateRun,
          m.before.generation.toNat ≤ m.after.generation.toNat := by
  have all : ∀ act ∈ lateRun, (fun _ => True) act := fun _ _ => trivial
  have ran : System.run? ⟨{}, 1000⟩ {} lateRun =
      some ((System.run? ⟨{}, 1000⟩ {} lateRun).get rfl) := rfl
  have told := Chronicle.of_run? all ran
  obtain ⟨intact, _, grows⟩ := provider_intact told (by decide)
  refine ⟨_, _, told, rfl, rfl, rfl, intact.active _ rfl, intact.apart _ rfl, ?_⟩
  intro m member
  rw [grows m member]
  exact Nat.le_add_right _ _

end FreshTree
