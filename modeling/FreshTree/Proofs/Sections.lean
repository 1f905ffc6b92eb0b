import FreshTree.System

/-!
What each critical section does to the state that all parties share. Every
section but the opening of a cycle leaves the generation alone and at most ends
the open cycle, so whatever holds of one cycle has to be argued at its opening
and at its end only.
-/

namespace FreshTree

namespace Generation

def toNat (g : Generation) : Nat := g.count.toNat

theorem toNat_inj {g other : Generation} (same : g.toNat = other.toNat) : g = other := by
  cases g
  cases other
  exact congrArg Generation.mk (UInt64.toNat_inj.mp same)

theorem next_toNat {g : Generation} (few : g.toNat + 1 < UInt64.size) : g.next.toNat = g.toNat + 1 := by
  unfold toNat at few ⊢
  rw [next, UInt64.toNat_add]
  exact Nat.mod_eq_of_lt few

end Generation

namespace Provider

variable {U A : Type} [DecidableEq U]

/-- No cycle was opened between these two states. The one that was open may
have ended. -/
structure OpensNone (p after : Provider U A) : Prop where
  generation : after.generation = p.generation
  running : ∀ unit, after.cycles.running = some unit → p.cycles.running = some unit
  disposed : after.disposed = true → p.disposed = true ∨ after.cycles.running = none

omit [DecidableEq U] in
theorem OpensNone.refl (p : Provider U A) : p.OpensNone p :=
  ⟨rfl, fun _ busy => busy, fun gone => Or.inl gone⟩

def AddsNone (p after : Provider U A) : Prop :=
  ∀ tree, after.cached = some tree → p.cached = some tree

theorem setActive_cases (p : Provider U A) (unit : Option U) :
    (p.setActive unit).provider = p ∧ (p.disposed = true ∨ p.active = unit) ∨
      p.disposed = false ∧ p.active ≠ unit ∧
        (p.setActive unit).provider =
          { p with
            focus := p.focus.set unit
            cached := if p.cached.isSome && p.cachedUnit ≠ unit then none else p.cached
            cycles := if p.cycles.isBusyElsewhere unit then p.cycles.abandon else p.cycles } := by
  unfold setActive
  split
  · exact Or.inl ⟨rfl, Or.inl (by assumption)⟩
  split
  · exact Or.inl ⟨rfl, Or.inr (by assumption)⟩
  · exact Or.inr ⟨by simp_all, by assumption, rfl⟩

theorem setActive_opensNone (p : Provider U A) (unit : Option U) :
    p.OpensNone (p.setActive unit).provider := by
  unfold setActive
  split
  · exact .refl p
  split
  · exact .refl p
  refine ⟨?_, ?_, Or.inl⟩
  · simp only [generation]
    split <;> rfl
  · intro unit busy
    dsimp only at busy
    split at busy
    · rw [Cycles.abandon_running] at busy
      cases busy
    · exact busy

theorem setActive_addsNone (p : Provider U A) (unit : Option U) :
    p.AddsNone (p.setActive unit).provider := by
  intro tree cached
  unfold setActive at cached
  split at cached
  · exact cached
  split at cached
  · exact cached
  dsimp only at cached
  split at cached
  · cases cached
  · exact cached

theorem dispose_opensNone (p : Provider U A) : p.OpensNone p.dispose.provider := by
  unfold dispose
  split
  · exact .refl p
  · exact ⟨rfl, by simp, fun _ => Or.inr (by simp)⟩

theorem dispose_disposed (p : Provider U A) : p.dispose.provider.disposed = true := by
  unfold dispose
  split
  · assumption
  · rfl

theorem dispose_addsNone (p : Provider U A) : p.AddsNone p.dispose.provider := by
  intro tree cached
  unfold dispose at cached
  split at cached
  · exact cached
  · cases cached

/-- The two ways a completion is received: it changes nothing, or it ends the
open cycle and caches at most the tree that it carries. -/
theorem receive_cases (p : Provider U A) (id : TreeId) (ast : Option A) (unit : U)
    (generation : Generation) :
    (p.receive id ast unit generation).1 = p ∧
        ¬ (p.disposed = false ∧ p.cycles.running = some unit ∧ p.generation = generation) ∨
      (p.disposed = false ∧ p.cycles.running = some unit ∧ p.generation = generation) ∧
        ∃ slot, (p.receive id ast unit generation).1 =
            { p with cycles := p.cycles.close, cached := slot } ∧
          slot = match (if p.active = some unit then ast else none) with
            | some ast => some ⟨id, unit, .reconciled generation, ast⟩
            | none => p.cached := by
  by_cases gone : p.disposed
  · exact Or.inl ⟨by simp [receive, gone], by simp [gone]⟩
  by_cases mine : p.cycles.running = some unit ∧ p.cycles.generation = generation
  · refine Or.inr ⟨⟨by simpa using gone, mine⟩, _, ?_, rfl⟩
    by_cases here : p.active = some unit
    · cases ast <;> simp [receive, gone, Cycles.finish?_eq, mine, here]
    · simp [receive, gone, Cycles.finish?_eq, mine, here]
  · exact Or.inl ⟨by simp [receive, gone, Cycles.finish?_eq, mine], fun all => mine all.2⟩

theorem complete_opensNone (p : Provider U A) (id : TreeId) (ast : Option A) (unit : U)
    (generation : Generation) : p.OpensNone (p.complete id ast unit generation).provider := by
  change p.OpensNone (p.receive id ast unit generation).1
  rcases p.receive_cases id ast unit generation with ⟨same, _⟩ | ⟨_, slot, closed, _⟩
  · rw [same]
    exact .refl p
  · rw [closed]
    exact ⟨rfl, by simp, fun _ => Or.inr (by simp)⟩

theorem complete_ends {p : Provider U A} (service : p.disposed = false) {unit : U}
    (busy : p.cycles.running = some unit) (id : TreeId) (ast : Option A) :
    (p.complete id ast unit p.generation).provider.cycles.running = none := by
  change (p.receive id ast unit p.generation).1.cycles.running = none
  rcases p.receive_cases id ast unit p.generation with ⟨_, other⟩ | ⟨_, slot, closed, _⟩
  · exact absurd ⟨service, busy, rfl⟩ other
  · rw [closed, Cycles.close_running]

theorem complete_keeps {p : Provider U A} {unit other : U} {generation : Generation}
    (busy : p.cycles.running = some unit) (apart : ¬ (other = unit ∧ generation = p.generation))
    (id : TreeId) (ast : Option A) :
    (p.complete id ast other generation).provider = p := by
  change (p.receive id ast other generation).1 = p
  rcases p.receive_cases id ast other generation with ⟨same, _⟩ | ⟨⟨_, mine, now⟩, _⟩
  · exact same
  · rw [busy] at mine
    exact absurd ⟨(Option.some.inj mine).symm, now.symm⟩ apart

theorem complete_idle {p : Provider U A} (idle : p.cycles.running = none) (id : TreeId)
    (ast : Option A) (unit : U) (generation : Generation) :
    (p.complete id ast unit generation).provider = p := by
  change (p.receive id ast unit generation).1 = p
  rcases p.receive_cases id ast unit generation with ⟨same, _⟩ | ⟨⟨_, busy, _⟩, _⟩
  · exact same
  · rw [idle] at busy
    cases busy

theorem complete_installs {p : Provider U A} (service : p.disposed = false) {unit : U}
    (busy : p.cycles.running = some unit) (here : p.active = some unit) (id : TreeId) (ast : A) :
    (p.complete id (some ast) unit p.generation).provider.cached =
      some ⟨id, unit, .reconciled p.generation, ast⟩ := by
  change (p.receive id (some ast) unit p.generation).1.cached = _
  rcases p.receive_cases id (some ast) unit p.generation with ⟨_, other⟩ | ⟨_, slot, closed, filled⟩
  · exact absurd ⟨service, busy, rfl⟩ other
  · simp [closed, filled, here]

theorem complete_slot (p : Provider U A) (id : TreeId) (ast : Option A) (unit : U)
    (generation : Generation) :
    (p.complete id ast unit generation).provider.cached = p.cached ∨
      (p.disposed = false ∧ p.cycles.running = some unit ∧ p.generation = generation ∧
          p.active = some unit) ∧
        ∃ content, ast = some content ∧ (p.complete id ast unit generation).provider.cached =
          some ⟨id, unit, .reconciled generation, content⟩ := by
  change (p.receive id ast unit generation).1.cached = p.cached ∨ _ ∧
    ∃ content, _ ∧ (p.receive id ast unit generation).1.cached = _
  rcases p.receive_cases id ast unit generation with ⟨same, _⟩ | ⟨⟨service, busy, now⟩, slot, closed, filled⟩
  · rw [same]
    exact Or.inl rfl
  · rw [closed]
    by_cases here : p.active = some unit
    · cases ast with
      | none => exact Or.inl (by simp [filled])
      | some content =>
        exact Or.inr ⟨⟨service, busy, now, here⟩, content, rfl, by simp [filled, here]⟩
    · exact Or.inl (by simp [filled, here])

theorem complete_cached {p : Provider U A} {id : TreeId} {ast : Option A} {unit : U}
    {generation : Generation} {tree : Tree U A}
    (cached : (p.complete id ast unit generation).provider.cached = some tree) :
    p.cached = some tree ∨
      ∃ content, ast = some content ∧ tree = ⟨id, unit, .reconciled generation, content⟩ := by
  rcases p.complete_slot id ast unit generation with same | ⟨_, content, given, new⟩
  · exact Or.inl (same.symm.trans cached)
  · rw [new] at cached
    exact Or.inr ⟨content, given, (Option.some.inj cached).symm⟩

/-- A foreground tree is installed only while no cycle is open, and only if none
was opened since `since` was the current generation. -/
theorem installForeground?_some {p after : Provider U A} {tree : Tree U A} {since : Generation}
    (installed : p.installForeground? tree since = some after) :
    p.disposed = false ∧ p.cycles.running = none ∧ p.generation = since ∧
      p.active = some tree.unit ∧ after = { p with cached := some tree } := by
  unfold installForeground? at installed
  split at installed
  · cases installed
  · rename_i quiet
    unfold store? at installed
    split at installed
    · rename_i here
      simp only [Option.some.injEq] at installed
      simp only [Bool.or_eq_true, Bool.not_eq_true', not_or, Bool.not_eq_true,
        Bool.not_eq_false, Cycles.isQuietSince_iff] at quiet
      exact ⟨quiet.1, quiet.2.1, quiet.2.2, here, installed.symm⟩
    · cases installed

theorem complete_frame (p : Provider U A) (id : TreeId) (ast : Option A) (unit : U)
    (generation : Generation) :
    (p.complete id ast unit generation).provider.active = p.active ∧
      (p.complete id ast unit generation).provider.disposed = p.disposed := by
  change (p.receive id ast unit generation).1.active = _ ∧
    (p.receive id ast unit generation).1.disposed = _
  rcases p.receive_cases id ast unit generation with ⟨same, _⟩ | ⟨_, slot, closed, _⟩
  · rw [same]
    exact ⟨rfl, rfl⟩
  · rw [closed]
    exact ⟨rfl, rfl⟩

@[simp] theorem invalidate_cycles (p : Provider U A) (unit : U) :
    (p.invalidate unit).cycles = p.cycles := by
  unfold invalidate
  split <;> rfl

@[simp] theorem invalidate_disposed (p : Provider U A) (unit : U) :
    (p.invalidate unit).disposed = p.disposed := by
  unfold invalidate
  split <;> rfl

@[simp] theorem invalidate_active (p : Provider U A) (unit : U) :
    (p.invalidate unit).active = p.active := by
  unfold invalidate active
  split <;> rfl

theorem invalidate_cached {p : Provider U A} {unit : U} {tree : Tree U A}
    (cached : (p.invalidate unit).cached = some tree) :
    p.cached = some tree ∧ tree.unit ≠ unit := by
  unfold invalidate at cached
  split at cached
  · cases cached
  · rename_i other
    refine ⟨cached, fun same => other ?_⟩
    simp [cachedUnit, cached, same]

theorem invalidate_keeps {p : Provider U A} {unit : U} {tree : Tree U A}
    (cached : p.cached = some tree) (other : tree.unit ≠ unit) :
    (p.invalidate unit).cached = some tree := by
  simp [invalidate, cachedUnit, cached, other]

theorem begin_cases (p : Provider U A) (unit : U) :
    p.disposed = true ∧ (p.begin unit).reply = none ∧ (p.begin unit).provider = p ∨
      p.disposed = false ∧ (p.begin unit).reply = some (p.cycles.begin unit).generation ∧
        (p.begin unit).provider =
          { p with cycles := p.cycles.begin unit }.invalidate unit := by
  unfold begin
  split
  · exact Or.inl ⟨by assumption, rfl, rfl⟩
  · exact Or.inr ⟨by simp_all, rfl, rfl⟩

end Provider

end FreshTree
