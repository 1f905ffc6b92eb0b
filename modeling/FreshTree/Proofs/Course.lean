import FreshTree.Proofs.Sections

/-!
The whole course of each move of a request: where it leads the request, what
becomes of the provider, and which events the request tells on the way. Whatever
holds of a request along its runs is argued by the cases listed here.
-/

namespace FreshTree

variable {U A : Type}

def ParseFailure.event : ParseFailure → Event
  | .cancelled => .cancelled
  | .failed _ => .parseFailed

def Note.isRetry : Note U → Bool
  | .trace (.requestRetried _ _) => true
  | _ => false

@[simp] theorem Note.events_append (notes more : List (Note U)) :
    Note.events (notes ++ more) = Note.events notes ++ Note.events more :=
  List.filterMap_append

def Stage.isLooking : Stage U A → Bool
  | .validating | .blocked _ => true
  | _ => false

def Stage.isAnswered : Stage U A → Bool
  | .answered _ => true
  | _ => false

theorem Stage.isLooking_of_isAnswered {stage : Stage U A} (done : stage.isAnswered = true) :
    stage.isLooking = false := by
  cases stage with
  | answered => rfl
  | _ => cases done

variable [DecidableEq U]

structure Provider.Lacks (p : Provider U A) (unit : U) : Prop where
  active : p.active = some unit
  missing : p.serve unit = none

theorem Provider.serve_eq_some {p : Provider U A} {unit : U} {tree : Tree U A} :
    p.serve unit = some tree ↔
      p.active = some unit ∧ p.cached = some tree ∧ tree.unit = unit := by
  unfold serve
  split
  · rename_i here
    simp [here, Option.filter_eq_some_iff]
  · rename_i away
    simp [away]

namespace Request

structure Awaits (p : Provider U A) (r : Request U A) : Prop where
  policy : r.policy = .waitForCurrent
  lacks : p.Lacks r.unit
  busy : p.cycles.running = some r.unit

/-- The focus moved since the latest look, as far as its count tells. -/
def IsBehind (p : Provider U A) (r : Request U A) : Prop :=
  ∃ old, r.seen = some old ∧ old ≠ p.focus.changes

def noticed (limits : Limits) (now : Instant) (p : Provider U A) (r : Request U A) : Request U A :=
  (r.notice limits now p.focus.changes).1

/-- What a request decides that finds the provider in service. -/
inductive Decision (limits : Limits) (now : Instant) (p : Provider U A) (r : Request U A) :
    Request U A → List Event → Prop where
  | refused :
      p.active ≠ some r.unit → r.policy = .activeOnly → Decision limits now p r (r.answer none) []
  | detached :
      p.active ≠ some r.unit → r.policy ≠ .activeOnly →
      Decision limits now p r { r with stage := .parsing .detached } [.detachedParse]
  | served {tree : Tree U A} :
      p.serve r.unit = some tree → Decision limits now p r (r.answer (some tree)) [.cacheHit]
  | missed :
      p.Lacks r.unit → r.policy ≠ .waitForCurrent →
      Decision limits now p r (r.answer none) [.cacheMiss]
  | foreground :
      p.Lacks r.unit → r.policy = .waitForCurrent → p.cycles.running ≠ some r.unit →
      Decision limits now p r { r with stage := .parsing (.foreground p.generation) }
        [.cacheMiss, .foregroundParse]
  | timedOut :
      r.Awaits p → r.deadline ≤ now → Decision limits now p r (r.answer none) [.waitTimedOut]
  | sleeps {slice : Instant} :
      r.Awaits p → now < r.deadline → r.waiting = true →
      Decision limits now p r { r with stage := .blocked slice } []
  | waits :
      r.Awaits p → now < r.deadline → r.waiting = false →
      Decision limits now p r { r with waiting := true, stage := .validating } [.waitEntered]

inductive Glance (limits : Limits) (now : Instant) (p : Provider U A) (r : Request U A) :
    Bool → Request U A → List Event → Prop where
  | disposed {cancelled : Bool} :
      p.disposed = true → Glance limits now p r cancelled (r.answer none) []
  | cancelled : p.disposed = false → Glance limits now p r true (r.answer none) [.cancelled]
  | decided {next : Request U A} {events : List Event} :
      p.disposed = false → (r.noticed limits now p).Decision limits now p next events →
      Glance limits now p r false next events

/-- How a move of a request goes. -/
inductive Course (limits : Limits) (now : Instant) (called : Option Nat) (p : Provider U A)
    (r : Request U A) : Move A → Provider U A → Request U A → List Event → Prop where
  | looked {cancelled : Bool} {next : Request U A} {events : List Event} :
      r.stage = .validating → r.Glance limits now p cancelled next events →
      Course limits now called p r (.look cancelled) p next events
  | woken {slice : Instant} :
      r.stage = .blocked slice →
      Course limits now called p r .wake p { r with stage := .validating } []
  | called {purpose : Purpose} :
      r.stage = .parsing purpose → called = none → Course limits now called p r .call p r []
  | failed {purpose : Purpose} {id : TreeId} {cancelled : Bool} {ending : Ending A}
      {why : ParseFailure} :
      r.stage = .parsing purpose → called = some id → ending.result = .error why →
      Course limits now called p r (.finish cancelled ending) p (r.answer none) [why.event]
  | dropped {purpose : Purpose} {id : TreeId} {ending : Ending A} {ast : A} :
      r.stage = .parsing purpose → called = some id → ending.result = .ok ast →
      Course limits now called p r (.finish true ending) p (r.answer none) [.cancelled]
  | detached {id : TreeId} {ending : Ending A} {ast : A} :
      r.stage = .parsing .detached → called = some id → ending.result = .ok ast →
      Course limits now called p r (.finish false ending) p
        (r.answer (some ⟨id, r.unit, .detached, ast⟩)) []
  | parsed {id : TreeId} {since : Generation} {ending : Ending A} {ast : A} :
      r.stage = .parsing (.foreground since) → called = some id → ending.result = .ok ast →
      Course limits now called p r (.finish false ending) p
        { r with stage := .installing ⟨id, r.unit, .foreground, ast⟩ since } []
  | withdrawn {tree : Tree U A} {since : Generation} :
      r.stage = .installing tree since →
      Course limits now called p r (.install true) p (r.answer none) [.cancelled]
  | installed {tree : Tree U A} {since : Generation} {q : Provider U A} :
      r.stage = .installing tree since → p.installForeground? tree since = some q →
      Course limits now called p r (.install false) q (r.answer (some tree)) [.treeInstalled]
  | superseded {tree : Tree U A} {since : Generation} :
      r.stage = .installing tree since → p.installForeground? tree since = none →
      Course limits now called p r (.install false) p (r.answer (some tree)) []

variable {limits : Limits} {now : Instant} {p q : Provider U A} {r next : Request U A}

omit [DecidableEq U] in
theorem noticed_cases (limits : Limits) (now : Instant) (p : Provider U A) (r : Request U A) :
    ¬ r.IsBehind p ∧ r.noticed limits now p = { r with seen := some p.focus.changes } ∨
      r.IsBehind p ∧ r.noticed limits now p =
        { r with
          seen := some p.focus.changes
          waiting := false
          deadline := limits.deadline now } := by
  unfold noticed notice IsBehind
  cases looked : r.seen with
  | none => simp
  | some old =>
    by_cases same : old = p.focus.changes
    · simp [same]
    · simp [same]

omit [DecidableEq U] in
theorem noticed_unit (limits : Limits) (now : Instant) (p : Provider U A) (r : Request U A) :
    (r.noticed limits now p).unit = r.unit := by
  rcases r.noticed_cases limits now p with ⟨_, same⟩ | ⟨_, same⟩ <;> rw [same]

omit [DecidableEq U] in
theorem noticed_policy (limits : Limits) (now : Instant) (p : Provider U A) (r : Request U A) :
    (r.noticed limits now p).policy = r.policy := by
  rcases r.noticed_cases limits now p with ⟨_, same⟩ | ⟨_, same⟩ <;> rw [same]

omit [DecidableEq U] in
theorem noticed_seen (limits : Limits) (now : Instant) (p : Provider U A) (r : Request U A) :
    (r.noticed limits now p).seen = some p.focus.changes := by
  rcases r.noticed_cases limits now p with ⟨_, same⟩ | ⟨_, same⟩ <;> rw [same]

omit [DecidableEq U] in
theorem notice_events (changes : UInt64) (r : Request U A) :
    Note.events (r.notice limits now changes).2 = [] := by
  unfold notice
  split <;> rfl

theorem await_decision (awaits : r.Awaits p) :
    r.Decision limits now p (r.await limits now p.generation).1
      (Note.events (r.await limits now p.generation).2) := by
  unfold await
  split
  · exact .timedOut awaits (by assumption)
  · rename_i early
    split
    · exact .sleeps awaits (Nat.not_le.mp early) (by assumption)
    · exact .waits awaits (Nat.not_le.mp early) (by simp_all)

theorem miss_decision (lacks : p.Lacks r.unit) :
    r.Decision limits now p (r.miss limits now p).1 (Note.events (r.miss limits now p).2) := by
  unfold miss
  split
  · rename_i policy
    exact .missed lacks (by simp [policy])
  · rename_i policy
    have missed : r.Decision limits now p (r.answer none) [.cacheMiss] :=
      .missed lacks (by simp [policy])
    dsimp only
    split <;> exact missed
  · rename_i policy
    split
    · rename_i busy
      exact await_decision ⟨policy, lacks, Cycles.isBusy_iff.mp busy⟩
    · rename_i free
      exact .foreground lacks policy (mt Cycles.isBusy_iff.mpr free)

theorem decide_decision (limits : Limits) (now : Instant) (p : Provider U A) (r : Request U A) :
    r.Decision limits now p (r.decide limits now p).1 (Note.events (r.decide limits now p).2) := by
  unfold decide
  split
  · rename_i away
    split
    · exact .refused away (by assumption)
    · exact .detached away (by assumption)
  · rename_i here
    cases served : p.serve r.unit with
    | some tree => exact .served served
    | none => exact miss_decision ⟨by simpa using here, served⟩

theorem validate_glance (limits : Limits) (now : Instant) (cancelled : Bool) (p : Provider U A)
    (r : Request U A) :
    r.Glance limits now p cancelled (r.validate limits now cancelled p).1
      (Note.events (r.validate limits now cancelled p).2) := by
  unfold validate
  cases gone : p.disposed with
  | true => exact .disposed gone
  | false =>
    cases cancelled with
    | true => exact .cancelled gone
    | false =>
      simp only [Bool.false_eq_true, if_false, Note.events_append, notice_events, List.nil_append]
      exact .decided gone (decide_decision limits now p _)

theorem parsed_course {purpose : Purpose} {id : TreeId} {called : Option Nat}
    (parsing : r.stage = .parsing purpose) (mine : called = some id) (cancelled : Bool)
    (ending : Ending A) :
    r.Course limits now called p (.finish cancelled ending) p
      (r.parsed limits id cancelled ending.result).1
      (Note.events (r.parsed limits id cancelled ending.result).2) := by
  unfold parsed
  rw [parsing]
  cases result : ending.result with
  | error why =>
    have failed : r.Course limits now called p (.finish cancelled ending) p (r.answer none)
      [why.event] := .failed parsing mine result
    cases why <;> exact failed
  | ok ast =>
    cases cancelled with
    | true => exact .dropped parsing mine result
    | false =>
      cases purpose with
      | detached => exact .detached parsing mine result
      | foreground since => exact .parsed parsing mine result

theorem install_course {tree : Tree U A} {since : Generation} {called : Option Nat}
    (ready : r.stage = .installing tree since) (cancelled : Bool) :
    r.Course limits now called p (.install cancelled) (r.install limits cancelled p).1
      (r.install limits cancelled p).2.1 (Note.events (r.install limits cancelled p).2.2) := by
  unfold install
  rw [ready]
  cases cancelled with
  | true => exact .withdrawn ready
  | false =>
    cases installed : p.installForeground? tree since with
    | none =>
      simp only [installed, Bool.false_eq_true, if_false]
      exact .superseded ready installed
    | some q =>
      simp only [installed, Bool.false_eq_true, if_false]
      exact .installed ready installed

theorem move?_course {called : Option Nat} {move : Move A} {notes : List (Note U)}
    (moved : r.move? limits now called p move = some (q, next, notes)) :
    r.Course limits now called p move q next (Note.events notes) := by
  cases move with
  | look cancelled =>
    simp only [move?] at moved
    split at moved
    · rename_i looking
      obtain ⟨rfl, rfl, rfl⟩ : p = q ∧ _ ∧ _ := by simpa [Prod.ext_iff] using moved
      exact .looked looking (validate_glance limits now cancelled p r)
    · cases moved
  | wake =>
    simp only [move?] at moved
    split at moved
    · rename_i slice asleep
      simp only [wake, asleep] at moved
      cases moved
      exact .woken asleep
    · cases moved
  | call =>
    simp only [move?] at moved
    split at moved
    · rename_i purpose parsing
      cases moved
      exact .called parsing rfl
    · cases moved
  | finish cancelled ending =>
    simp only [move?] at moved
    split at moved
    · rename_i purpose id parsing
      obtain ⟨rfl, rfl, rfl⟩ : p = q ∧ _ ∧ _ := by simpa [Prod.ext_iff] using moved
      exact parsed_course parsing rfl cancelled ending
    · cases moved
  | install cancelled =>
    simp only [move?] at moved
    split at moved
    · rename_i tree since ready
      have course : r.Course limits now called p _ _ _ _ := install_course ready cancelled
      rw [Option.some.inj moved] at course
      exact course
    · cases moved

theorem Decision.same {events : List Event} (decision : r.Decision limits now p next events) :
    next.unit = r.unit ∧ next.policy = r.policy := by
  cases decision <;> exact ⟨rfl, rfl⟩

theorem Decision.memory {events : List Event} (decision : r.Decision limits now p next events) :
    next.deadline = r.deadline ∧ next.seen = r.seen := by
  cases decision <;> exact ⟨rfl, rfl⟩

theorem Course.same {called : Option Nat} {move : Move A} {events : List Event}
    (course : r.Course limits now called p move q next events) :
    next.unit = r.unit ∧ next.policy = r.policy := by
  cases course with
  | looked _ glance =>
    cases glance with
    | disposed | cancelled => exact ⟨rfl, rfl⟩
    | decided _ decision =>
      exact ⟨decision.same.1.trans (r.noticed_unit limits now p),
        decision.same.2.trans (r.noticed_policy limits now p)⟩
  | _ => exact ⟨rfl, rfl⟩

/-- Only an offer writes to the provider. -/
theorem Course.kept {called : Option Nat} {move : Move A} {events : List Event}
    (course : r.Course limits now called p move q next events) :
    q = p ∨ ∃ tree since, move = .install false ∧ r.stage = .installing tree since ∧
      p.installForeground? tree since = some q ∧ next = r.answer (some tree) := by
  cases course with
  | installed ready taken => exact Or.inr ⟨_, _, rfl, ready, taken, rfl⟩
  | _ => exact Or.inl rfl

theorem Course.unanswered {called : Option Nat} {move : Move A} {events : List Event}
    (course : r.Course limits now called p move q next events) : r.stage.isAnswered = false := by
  cases course with
  | looked stage | woken stage | called stage | failed stage | dropped stage | detached stage
  | parsed stage | withdrawn stage | installed stage | superseded stage =>
    rw [stage]
    rfl

theorem Course.of_call {called : Option Nat} {events : List Event}
    (course : r.Course limits now called p .call q next events) : next = r := by
  cases course
  rfl

/-- What a request saw that now parses its unit for the cache, if it did not do so before. -/
theorem Course.foreground {called : Option Nat} {move : Move A} {events : List Event}
    {since : Generation} (course : r.Course limits now called p move q next events)
    (parses : next.stage = .parsing (.foreground since)) :
    move = .call ∧ next = r ∨
      r.stage = .validating ∧ r.policy = .waitForCurrent ∧ p.Lacks r.unit ∧
        p.cycles.running ≠ some r.unit ∧ p.disposed = false ∧ since = p.generation := by
  cases course with
  | called => exact Or.inl ⟨rfl, rfl⟩
  | looked looking glance =>
    right
    cases glance with
    | disposed | cancelled => cases parses
    | decided service decision =>
      have unit := r.noticed_unit limits now p
      have policy := r.noticed_policy limits now p
      cases decision with
      | foreground lacks mine free =>
        cases parses
        exact ⟨looking, policy ▸ mine, unit ▸ lacks, unit ▸ free, service, rfl⟩
      | _ => cases parses
  | _ => cases parses

theorem Course.of_finish {called : Option Nat} {events : List Event} {since : Generation}
    {ending : Ending A} {ast : A}
    (course : r.Course limits now called p (.finish false ending) q next events)
    (parsing : r.stage = .parsing (.foreground since)) (ok : ending.result = .ok ast) :
    ∃ id, called = some id ∧ q = p ∧
      next = { r with stage := .installing ⟨id, r.unit, .foreground, ast⟩ since } := by
  cases course with
  | failed _ _ failed =>
    rw [ok] at failed
    cases failed
  | detached beside =>
    rw [parsing] at beside
    cases beside
  | parsed same mine result =>
    cases same.symm.trans parsing
    cases result.symm.trans ok
    exact ⟨_, mine, rfl, rfl⟩

theorem Course.offer {called : Option Nat} {move : Move A} {events : List Event}
    {tree : Tree U A} {since : Generation}
    (course : r.Course limits now called p move q next events)
    (ready : next.stage = .installing tree since) :
    ∃ id ending ast, move = .finish false ending ∧ r.stage = .parsing (.foreground since) ∧
      called = some id ∧ ending.result = .ok ast ∧ tree = ⟨id, r.unit, .foreground, ast⟩ := by
  cases course with
  | parsed parsing mine result =>
    cases ready
    exact ⟨_, _, _, rfl, parsing, mine, result, rfl⟩
  | looked _ glance =>
    cases glance with
    | disposed | cancelled => cases ready
    | decided _ decision =>
      cases decision with
      | _ => cases ready
  | called parsing =>
    rw [parsing] at ready
    cases ready
  | _ => cases ready

end Request

end FreshTree
