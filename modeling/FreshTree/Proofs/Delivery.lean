import FreshTree.Proofs.Chronicle
import FreshTree.Proofs.Handover

/-!
Deliveries. Two acts hand the result of a cycle to the provider: somebody
completes a cycle without a reconciler, or a worker judges the result it took
and finds no edit noted since its parse. Besides these, only the offer of a
request puts a tree into the cache.
-/

namespace FreshTree

variable {U A : Type}

structure Delivery (U A : Type) where
  id : TreeId
  ast : Option A
  unit : U
  generation : Generation

def Delivery.tree (d : Delivery U A) (ast : A) : Tree U A :=
  ⟨d.id, d.unit, .reconciled d.generation, ast⟩

variable [DecidableEq U]

def Delivery.outcome (d : Delivery U A) (p : Provider U A) : Outcome U A Completion :=
  p.complete d.id d.ast d.unit d.generation

def Reconciler.handed? (history : List (Happening U A)) (k : Nat) (r : Reconciler U A) :
    Action U A → Option (Delivery U A)
  | .judge taken =>
    if r.noted = taken.stamp then
      some ⟨treeId history k (.judge taken), taken.parsed.result.toOption, taken.parsed.unit,
        taken.parsed.generation⟩
    else none
  | _ => none

/-- What an act hands to the provider as the result of a cycle. -/
def System.delivery? (s : System U A) : Act U A → Option (Delivery U A)
  | .deliver ast unit generation => some ⟨s.history.length, ast, unit, generation⟩
  | .reconciler k .turn =>
    s.reconcilers[k]?.bind fun r => (r.nextAction? s.timer).bind (r.handed? s.history k)
  | _ => none

namespace Reconciler

variable {history : List (Happening U A)} {k : Nat} {p : Provider U A} {r : Reconciler U A}

omit [DecidableEq U] in
theorem handed?_some {action : Action U A} {d : Delivery U A}
    (handed : r.handed? history k action = some d) :
    ∃ taken, action = .judge taken ∧ r.noted = taken.stamp ∧
      d = ⟨treeId history k (.judge taken), taken.parsed.result.toOption, taken.parsed.unit,
        taken.parsed.generation⟩ := by
  cases action with
  | judge taken =>
    simp only [handed?] at handed
    split at handed
    · exact ⟨taken, rfl, by assumption, (Option.some.inj handed).symm⟩
    · cases handed
  | _ => cases handed

theorem perform_judge {taken : Taken U A} (current : r.noted = taken.stamp) (now : Instant)
    (id : TreeId) :
    (r.perform now id p (.judge taken)).provider =
        (p.complete id taken.parsed.result.toOption taken.parsed.unit
          taken.parsed.generation).provider ∧
      ∃ complaints, Note.events complaints = [] ∧
        (r.perform now id p (.judge taken)).notes = complaints ++
          (p.complete id taken.parsed.result.toOption taken.parsed.unit
            taken.parsed.generation).notes := by
  simp only [perform, judge, current, ne_eq, not_true_eq_false, if_false]
  refine ⟨trivial, _, ?_, rfl⟩
  cases taken.parsed.result <;> rfl

theorem move?_worked {now : Instant} {move : Move U A} {step : Step U A} {action : Action U A}
    (moved : r.move? now history k p move = some (step, .worked k action)) :
    move = .turn ∧ r.nextAction? now = some action := by
  cases move with
  | note unit =>
    simp only [move?] at moved
    split at moved
    · cases moved
    · have entered := congrArg Prod.snd (Option.some.inj moved)
      dsimp only at entered
      split at entered <;> cases entered
  | send =>
    simp only [move?] at moved
    split at moved
    · cases moved
    · have entered := congrArg Prod.snd (Option.some.inj moved)
      dsimp only at entered
      split at entered <;> cases entered
  | flush | stop | kill => simp [move?] at moved
  | call seq | finish seq ending =>
    simp only [move?] at moved
    split at moved <;> simp at moved
  | turn =>
    simp only [move?] at moved
    split at moved
    · cases moved
    · rename_i other next
      have entered := congrArg Prod.snd (Option.some.inj moved)
      cases other <;> cases entered <;> exact ⟨rfl, next⟩

theorem Effect.addsNone {after : Reconciler U A} {q : Provider U A} {happening : Happening U A}
    (effect : r.Effect history k p after q happening)
    (kept : ∀ taken, happening = .worked k (.judge taken) → r.noted ≠ taken.stamp) :
    p.AddsNone q := by
  intro tree cached
  cases effect with
  | noted => exact (Provider.invalidate_cached cached).1
  | judged _ _ current => exact absurd current (kept _ rfl)
  | forsook =>
    rcases Provider.complete_cached cached with before | ⟨content, nothing, _⟩
    · exact before
    · cases nothing
  | refused | called | returned | launched | took | outdated | kept | killed => exact cached

end Reconciler

namespace System

variable {limits : Limits} {s after : System U A} {act : Act U A}

omit [DecidableEq U] in
theorem delivery?_turn {k : Nat} {d : Delivery U A}
    (due : s.delivery? (.reconciler k .turn) = some d) :
    ∃ r taken, s.reconcilers[k]? = some r ∧ r.nextAction? s.timer = some (.judge taken) ∧
      r.noted = taken.stamp ∧
      d = ⟨Reconciler.treeId s.history k (.judge taken), taken.parsed.result.toOption,
        taken.parsed.unit, taken.parsed.generation⟩ := by
  obtain ⟨r, found, next⟩ := Option.bind_eq_some_iff.mp due
  obtain ⟨action, next, handed⟩ := Option.bind_eq_some_iff.mp next
  obtain ⟨taken, rfl, current, same⟩ := Reconciler.handed?_some handed
  exact ⟨r, taken, found, next, current, same⟩

theorem step?_delivery {d : Delivery U A} (due : s.delivery? act = some d)
    (stepped : s.step? limits act = some after) :
    after.provider = (d.outcome s.provider).provider ∧ after.requests = s.requests ∧
      ∃ happening, after.history = s.history ++ [happening] ∧ happening.cycle? = none := by
  cases act with
  | deliver ast unit generation =>
    cases due
    cases stepped
    exact ⟨rfl, rfl, _, rfl, rfl⟩
  | reconciler k move =>
    cases move with
    | turn =>
      obtain ⟨r, taken, found, next, current, rfl⟩ := delivery?_turn due
      rw [step?_turn limits found next] at stepped
      cases stepped
      exact ⟨(Reconciler.perform_judge current s.timer _).1, rfl, _, rfl, rfl⟩
    | _ => cases due
  | _ => cases due

/-- Whoever neither delivers a result nor moves a request caches nothing. -/
theorem step?_addsNone (quiet : s.delivery? act = none)
    (other : ∀ i move, act ≠ .request i move) (stepped : s.step? limits act = some after) :
    s.provider.AddsNone after.provider := by
  cases act with
  | pass | tick | ask =>
    cases stepped
    exact fun _ cached => cached
  | setActive unit =>
    cases stepped
    exact s.provider.setActive_addsNone unit
  | dispose =>
    cases stepped
    exact s.provider.dispose_addsNone
  | begin unit =>
    cases stepped
    intro tree cached
    rcases s.provider.begin_cases unit with ⟨_, _, same⟩ | ⟨_, _, begun⟩
    · rwa [same] at cached
    · rw [begun] at cached
      exact (Provider.invalidate_cached cached).1
  | deliver => cases quiet
  | request i move => exact absurd rfl (other i move)
  | spawn settings =>
    simp only [step?] at stepped
    split at stepped
    · cases stepped
      exact fun _ cached => cached
    · cases stepped
  | reconciler k move =>
    obtain ⟨r, step, happening, found, _, moved, rfl⟩ := moveReconciler?_some stepped
    apply (Reconciler.move?_effect moved).addsNone
    -- A worker that judges a result with the current stamp would be delivering it.
    rintro taken rfl current
    obtain ⟨rfl, next⟩ := Reconciler.move?_worked moved
    simp [delivery?, found, next, Reconciler.handed?, current] at quiet

end System

end FreshTree
