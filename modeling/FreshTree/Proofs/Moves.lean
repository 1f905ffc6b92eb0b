import FreshTree.Proofs.Course

/-!
What each move of a request does to it and to the provider. Only two of these
matter to others: a look may take the cached tree, and an offer may install a
tree that was parsed while no cycle was open for its unit.
-/

namespace FreshTree

namespace Request

variable {U A : Type} [DecidableEq U]

inductive Sight (p : Provider U A) (unit : U) : Stage U A → Prop where
  | again : Sight p unit .validating
  | asleep {slice : Instant} : Sight p unit (.blocked slice)
  | refused : Sight p unit (.answered none)
  | served {tree : Tree U A} :
      p.cached = some tree → tree.unit = unit → Sight p unit (.answered (some tree))
  | detached : Sight p unit (.parsing .detached)
  | foreground :
      p.serve unit = none → p.cycles.running ≠ some unit →
      Sight p unit (.parsing (.foreground p.generation))

inductive Outlook (id : TreeId) (unit : U) :
    Purpose → Except ParseFailure A → Stage U A → Prop where
  | refused {purpose : Purpose} {result : Except ParseFailure A} :
      Outlook id unit purpose result (.answered none)
  | detached {ast : A} :
      Outlook id unit .detached (.ok ast) (.answered (some ⟨id, unit, .detached, ast⟩))
  | foreground {since : Generation} {ast : A} :
      Outlook id unit (.foreground since) (.ok ast)
        (.installing ⟨id, unit, .foreground, ast⟩ since)

/-- What a move of request `i` does, to it and to the provider, and how it
enters the history. -/
inductive Effect (called : Option Nat) (i : Nat) (p : Provider U A) (r : Request U A) :
    Request U A → Provider U A → Happening U A → Prop where
  | looked {after : Request U A} :
      r.stage = .validating → after.unit = r.unit → Sight p r.unit after.stage →
      Effect called i p r after p (.looked i)
  | woken {slice : Instant} :
      r.stage = .blocked slice → Effect called i p r { r with stage := .validating } p (.woken i)
  | called {purpose : Purpose} :
      r.stage = .parsing purpose → called = none →
      Effect called i p r r p (.called (.request i) r.unit)
  | returned {after : Request U A} {purpose : Purpose} {id : Nat}
      {result : Except ParseFailure A} :
      r.stage = .parsing purpose → called = some id → after.unit = r.unit →
      Outlook id r.unit purpose result after.stage →
      Effect called i p r after p (.returned (.request i) result)
  | offered {q : Provider U A} {after : Request U A} {tree : Tree U A} {since : Generation} :
      r.stage = .installing tree since → after.unit = r.unit →
      after.stage = .answered none ∨ after.stage = .answered (some tree) →
      q = p ∨ p.installForeground? tree since = some q →
      Effect called i p r after q (.offered i)

section Courses

variable {limits : Limits} {now : Instant} {called : Option Nat} {p q : Provider U A}
  {r next : Request U A} {cancelled : Bool} {move : Move A} {events : List Event}

theorem Decision.sight (decision : r.Decision limits now p next events) :
    Sight p r.unit next.stage := by
  cases decision with
  | refused | missed | timedOut => exact .refused
  | detached => exact .detached
  | served served =>
    obtain ⟨_, cached, mine⟩ := Provider.serve_eq_some.mp served
    exact .served cached mine
  | foreground lacks _ free => exact .foreground lacks.missing free
  | sleeps => exact .asleep
  | waits => exact .again

theorem Glance.sight (glance : r.Glance limits now p cancelled next events) :
    Sight p r.unit next.stage := by
  cases glance with
  | disposed | cancelled => exact .refused
  | decided _ decision =>
    rw [← r.noticed_unit limits now p]
    exact decision.sight

theorem Course.effect (course : r.Course limits now called p move q next events) (i : Nat) :
    Effect called i p r next q (move.happening i r.unit) := by
  have unit := course.same.1
  cases course with
  | looked looking glance => exact .looked looking unit glance.sight
  | woken asleep => exact .woken asleep
  | called parsing uncalled => exact .called parsing uncalled
  | failed parsing mine | dropped parsing mine => exact .returned parsing mine rfl .refused
  | detached parsing mine result => exact .returned parsing mine rfl (result ▸ .detached)
  | parsed parsing mine result => exact .returned parsing mine rfl (result ▸ .foreground)
  | withdrawn ready => exact .offered ready rfl (Or.inl rfl) (Or.inl rfl)
  | installed ready taken => exact .offered ready rfl (Or.inr rfl) (Or.inr taken)
  | superseded ready => exact .offered ready rfl (Or.inr rfl) (Or.inl rfl)

end Courses

variable {called : Option Nat} {i : Nat} {p q : Provider U A} {r after : Request U A}
  {happening : Happening U A}

theorem Effect.unit (effect : Effect called i p r after q happening) : after.unit = r.unit := by
  cases effect with
  | looked _ unit | returned _ _ unit | offered _ unit => exact unit
  | woken | called => rfl

theorem Effect.opensNone (effect : Effect called i p r after q happening) : p.OpensNone q := by
  cases effect with
  | looked | woken | called | returned => exact .refl p
  | offered ready unit answered installed =>
    rcases installed with rfl | installed
    · exact .refl _
    · obtain ⟨_, _, _, _, rfl⟩ := Provider.installForeground?_some installed
      exact ⟨rfl, fun _ busy => busy, Or.inl⟩

end Request

end FreshTree
