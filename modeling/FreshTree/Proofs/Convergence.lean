import FreshTree.Proofs.Freshness

/-!
What the last edit comes to. As long as its cycle is open, the last edit is the
last duty of the reconciler, whatever earlier edits, superseded parses and
queued results there are; so the cycle can only be ended by the result of the
parse launched for that very edit. Once it has ended with a tree, no request
that is under way can replace the tree, because none was begun in its generation.
-/

namespace FreshTree

variable {U A : Type}

def CallsOnce (history : List (Happening U A)) : Prop :=
  ∀ (caller : Caller) (first second : Nat) (unit other : U),
    history[first]? = some (.called caller unit) →
    history[second]? = some (.called caller other) → first = second

theorem CallsOnce.keep {history : List (Happening U A)} {happening : Happening U A}
    (once : CallsOnce history)
    (new : ∀ caller unit, happening = .called caller unit → callMoment? history caller = none) :
    CallsOnce (history ++ [happening]) := by
  intro caller first second unit other early late
  rcases entry_append.mp early with early | ⟨rfl, now⟩
  · rcases entry_append.mp late with late | ⟨_, now⟩
    · exact once caller first second unit other early late
    · exact absurd (List.mem_of_getElem? early) (callMoment?_none (new caller other now) unit)
  · rcases entry_append.mp late with late | ⟨rfl, _⟩
    · exact absurd (List.mem_of_getElem? late) (callMoment?_none (new caller unit now) other)
    · rfl

variable [DecidableEq U] {limits : Limits}

theorem Request.Effect.call_new {called : Option Nat} {i : Nat} {p q : Provider U A}
    {r after : Request U A} {caller : Caller} {unit : U}
    (effect : r.Effect called i p after q (.called caller unit)) :
    caller = .request i ∧ called = none := by
  cases effect with
  | called _ new => exact ⟨rfl, new⟩

theorem Reconciler.Effect.call_new {history : List (Happening U A)} {k : Nat} {p q : Provider U A}
    {r after : Reconciler U A} {caller : Caller} {unit : U}
    (effect : r.Effect history k p after q (.called caller unit)) :
    callMoment? history caller = none := by
  cases effect with
  | called _ new => exact new
  | forsook _ _ _ _ plain | kept _ _ _ plain | killed _ _ plain => cases plain

theorem System.Change.callsOnce {s after : System U A} (change : s.Change limits after)
    (once : CallsOnce s.history) : CallsOnce after.history := by
  cases change with
  | outside _ _ plain =>
    apply once.keep
    rintro caller unit rfl
    cases plain
  | asked | spawned => exact once.keep nofun
  | request found effect =>
    apply once.keep
    rintro caller unit rfl
    obtain ⟨rfl, new⟩ := effect.call_new
    exact new
  | moved found mine moved =>
    apply once.keep
    rintro caller unit rfl
    exact (Reconciler.move?_effect moved).call_new

theorem Reaches.callsOnce {s : System U A} (reaches : Reaches limits Act.IsInternal {} s)
    (few : s.edits < UInt64.size) : CallsOnce s.history :=
  reaches.invariant (motive := fun s => CallsOnce s.history) few (by simp [CallsOnce])
    fun _ _ once change _ => change.callsOnce once

def Act.IsSteady : Act U A → Prop
  | .begin _ | .deliver _ _ _ | .reconciler _ .stop | .reconciler _ .kill => False
  | _ => True

def Act.Keeps (unit : U) : Act U A → Prop
  | .setActive other => other = some unit
  | .dispose | .reconciler _ (.note _) => False
  | act => act.IsSteady

omit [DecidableEq U] in
theorem Act.IsSteady.isInternal {act : Act U A} (steady : act.IsSteady) : act.IsInternal := by
  cases act with
  | begin | deliver => cases steady
  | _ => trivial

omit [DecidableEq U] in
theorem Act.Keeps.isSteady {act : Act U A} {unit : U} (keeps : act.Keeps unit) : act.IsSteady := by
  cases act with
  | reconciler k move =>
    cases move with
    | stop | kill => cases keeps
    | _ => trivial
  | begin | deliver => cases keeps
  | _ => trivial

theorem Reaches.weaken {allowed wider : Act U A → Prop} {first last : System U A}
    (reaches : Reaches limits allowed first last) (wide : ∀ act, allowed act → wider act) :
    Reaches limits wider first last := by
  induction reaches with
  | refl => exact .refl
  | next _ fine stepped before => exact .next before (wide _ fine) stepped

theorem Reaches.trans {allowed : Act U A → Prop} {first middle last : System U A}
    (early : Reaches limits allowed first middle) (late : Reaches limits allowed middle last) :
    Reaches limits allowed first last := by
  induction late with
  | refl => exact early
  | next _ fine stepped before => exact .next before fine stepped

def Steady (s : System U A) : Prop :=
  ∀ (k : Nat) (r : Reconciler U A), s.reconcilers[k]? = some r →
    r.phase = .running ∧ r.stopped = false

theorem Steady.step {s after : System U A} {act : Act U A} (steady : Steady s)
    (fine : act.IsSteady) (stepped : s.step? limits act = some after) : Steady after := by
  cases act with
  | begin | deliver => cases fine
  | pass | tick | setActive | dispose | ask =>
    cases stepped
    exact steady
  | request i move =>
    obtain ⟨_, _, _, _, _, _, _, rfl⟩ := System.moveRequest?_some stepped
    exact steady
  | spawn settings =>
    simp only [System.step?] at stepped
    split at stepped
    · cases stepped
      intro k r found
      rcases entry_append.mp found with before | ⟨_, rfl⟩
      · exact steady k r before
      · exact ⟨rfl, rfl⟩
    · cases stepped
  | reconciler k move =>
    obtain ⟨r, step, happening, found, _, moved, rfl⟩ := System.moveReconciler?_some stepped
    obtain ⟨running, go⟩ := steady k r found
    have alive : move ≠ .stop ∧ move ≠ .kill := by
      constructor <;> (rintro rfl; cases fine)
    intro i r' found'
    rcases getElem?_set_cases found found' with ⟨_, rfl⟩ | ⟨_, before⟩
    · exact (Reconciler.move?_conduct moved).steady running go alive
    · exact steady i r' before

theorem Reaches.steady {s : System U A} (reaches : Reaches limits Act.IsSteady {} s) :
    Steady s := by
  induction reaches with
  | refl => simp [Steady]
  | next _ fine stepped steady => exact steady.step fine stepped

/-- No request for the unit of the edit may still install a tree in the
generation of the edit. -/
def Undisturbed (requests : List (Request U A)) (edit : Edit U) : Prop :=
  ∀ (i : Nat) (r : Request U A) (since : Generation), requests[i]? = some r →
    r.unit = edit.unit →
    (r.stage = .parsing (.foreground since) ∨ ∃ tree, r.stage = .installing tree since) →
    since ≠ edit.generation

structure Settled (s : System U A) (edit : Edit U) : Prop where
  idle : s.provider.cycles.running = none
  outcome : ∃ (seq : UInt64) (call : Nat) (result : Except ParseFailure A),
    .launched 0 seq edit ∈ s.history ∧
    s.history[call]? = some (.called (.job 0 seq) edit.unit) ∧
    .returned (.job 0 seq) result ∈ s.history ∧
    ∀ ast, result = .ok ast →
      s.provider.cached = some ⟨call, edit.unit, .reconciled edit.generation, ast⟩ ∧
        Undisturbed s.requests edit

/-- The edit is the last one, and its cycle is open or was ended by its parse. -/
structure Converging (s : System U A) (edit : Edit U) : Prop where
  service : s.provider.disposed = false
  active : s.provider.active = some edit.unit
  generation : s.provider.generation = edit.generation
  noted : .noted 0 edit ∈ s.history
  current : ∀ r, s.reconcilers[0]? = some r → r.noted = edit.stamp
  outcome : s.provider.cycles.running = some edit.unit ∨ Settled s edit

omit [DecidableEq U] in
/-- While a cycle is open for a unit, no request for it began in its generation. -/
theorem Fresh.undisturbed {s : System U A} {edit : Edit U} (fresh : Fresh s)
    (busy : s.provider.cycles.running = some edit.unit)
    (generation : s.provider.generation = edit.generation) : Undisturbed s.requests edit := by
  rintro i r since found mine under rfl
  have holds := (fresh.requests i r found).holds
  rw [mine] at holds
  rcases under with stage | ⟨tree, stage⟩
  · rw [stage] at holds
    cases holds with
    | foreground _ quiet => exact (quiet generation).1 busy
  · rw [stage] at holds
    cases holds with
    | installing _ _ _ _ quiet => exact (quiet generation).1 busy

omit [DecidableEq U] in
theorem Undisturbed.set {requests : List (Request U A)} {edit : Edit U} {i : Nat}
    {r next : Request U A} (quiet : Undisturbed requests edit) (found : requests[i]? = some r)
    (fine : ∀ since, next.unit = edit.unit →
      (next.stage = .parsing (.foreground since) ∨ ∃ tree, next.stage = .installing tree since) →
      since ≠ edit.generation) : Undisturbed (requests.set i next) edit := by
  intro j r' since found' mine under
  rcases getElem?_set_cases found found' with ⟨_, rfl⟩ | ⟨_, before⟩
  · exact fine since mine under
  · exact quiet j r' since before mine under

theorem Undisturbed.request {s : System U A} {edit : Edit U} {called : Option Nat} {i : Nat}
    {r next : Request U A} {q : Provider U A} {happening : Happening U A}
    (quiet : Undisturbed s.requests edit) (found : s.requests[i]? = some r)
    (effect : r.Effect called i s.provider next q happening)
    (served : s.provider.serve edit.unit ≠ none) : Undisturbed (s.requests.set i next) edit := by
  apply quiet.set found
  intro since mine under
  rw [effect.unit] at mine
  cases effect with
  | looked _ _ sight =>
    generalize next.stage = stage at sight under
    cases sight with
    | foreground nothing =>
      rw [mine] at nothing
      exact absurd nothing served
    | again | asleep | refused | served | detached => simp at under
  | woken => simp at under
  | called => exact quiet i r since found mine under
  | returned parsing _ _ outlook =>
    generalize next.stage = stage at outlook under
    cases outlook with
    | refused | detached => simp at under
    | @foreground began =>
      have same : began = since := by simpa using under
      exact quiet i r since found mine (Or.inl (same ▸ parsing))
  | offered _ _ answered => rcases answered with stage | stage <;> simp [stage] at under

theorem Reconciler.Effect.of_noted {history : List (Happening U A)} {k : Nat} {p q : Provider U A}
    {r after : Reconciler U A} {edit : Edit U}
    (effect : r.Effect history k p after q (.noted k edit)) :
    p.disposed = false ∧ after.noted = edit.stamp ∧
      edit.generation = (p.cycles.begin edit.unit).generation ∧
      q = { p with cycles := p.cycles.begin edit.unit }.invalidate edit.unit := by
  cases effect with
  | noted _ service same =>
    subst same
    exact ⟨service, rfl, rfl, rfl⟩
  | forsook _ _ _ _ plain | kept _ _ _ plain | killed _ _ plain => cases plain

namespace Converging

variable {s after : System U A} {edit : Edit U} {happening : Happening U A}

theorem serves (converging : Converging s edit) {call : Nat} {ast : A}
    (cached : s.provider.cached =
      some ⟨call, edit.unit, .reconciled edit.generation, ast⟩) :
    s.provider.serve edit.unit ≠ none := by
  simp [Provider.serve, converging.active, cached]

theorem keep (converging : Converging s edit) (grown : after.history = s.history ++ [happening])
    (same : after.provider = s.provider)
    (current : ∀ r, after.reconcilers[0]? = some r → r.noted = edit.stamp)
    (quiet : s.provider.serve edit.unit ≠ none → Undisturbed s.requests edit →
      Undisturbed after.requests edit) : Converging after edit where
  service := by rw [same]; exact converging.service
  active := by rw [same]; exact converging.active
  generation := by rw [same]; exact converging.generation
  noted := by rw [grown]; exact List.mem_append_left _ converging.noted
  current := current
  outcome := by
    rw [same]
    apply converging.outcome.imp_right
    intro settled
    obtain ⟨seq, call, result, launched, called, returned, tree⟩ := settled.outcome
    refine ⟨same ▸ settled.idle, seq, call, result, ?_⟩
    rw [grown, same]
    refine ⟨List.mem_append_left _ launched, entry_grow called, List.mem_append_left _ returned, ?_⟩
    intro ast ok
    obtain ⟨cached, undisturbed⟩ := tree ast ok
    exact ⟨cached, quiet (converging.serves cached) undisturbed⟩

/-- A request installs a tree only if the parse of the edit gave none. -/
theorem installs {i : Nat} {r : Request U A} {tree : Tree U A} {since : Generation}
    (converging : Converging s edit) (fresh : Fresh s)
    (grown : after.history = s.history ++ [happening])
    (same : after.reconcilers = s.reconcilers) (found : s.requests[i]? = some r)
    (ready : r.stage = .installing tree since)
    (installed : s.provider.installForeground? tree since = some after.provider) :
    Converging after edit := by
  obtain ⟨_, idle, current, here, filled⟩ := Provider.installForeground?_some installed
  have mine : r.unit = edit.unit := by
    have holds := (fresh.requests i r found).holds
    rw [ready] at holds
    cases holds with
    | installing mine =>
      rw [converging.active, mine] at here
      exact (Option.some.inj here).symm
  rcases converging.outcome with busy | settled
  · rw [idle] at busy
    cases busy
  obtain ⟨seq, call, result, launched, called, returned, tree'⟩ := settled.outcome
  -- With a tree in the cache the request would not have set out in this generation.
  have failed : ∀ ast, result ≠ .ok ast := fun ast ok =>
    (tree' ast ok).2 i r since found mine (Or.inr ⟨tree, ready⟩)
      (current.symm.trans converging.generation)
  constructor
  case service => rw [filled]; exact converging.service
  case active => rw [filled]; exact converging.active
  case generation => rw [filled]; exact converging.generation
  case noted => rw [grown]; exact List.mem_append_left _ converging.noted
  case current => rw [same]; exact converging.current
  case outcome =>
    refine Or.inr ⟨by rw [filled]; exact idle, seq, call, result, ?_⟩
    rw [grown]
    exact ⟨List.mem_append_left _ launched, entry_grow called, List.mem_append_left _ returned,
      fun ast ok => absurd ok (failed ast)⟩

theorem request {i : Nat} {r next : Request U A} (converging : Converging s edit) (fresh : Fresh s)
    (grown : after.history = s.history ++ [happening])
    (same : after.reconcilers = s.reconcilers) (set : after.requests = s.requests.set i next)
    (found : s.requests[i]? = some r)
    (effect : r.Effect (callMoment? s.history (.request i)) i s.provider next after.provider
      happening) : Converging after edit := by
  have current : ∀ r, after.reconcilers[0]? = some r → r.noted = edit.stamp := by
    rw [same]
    exact converging.current
  have quiet : s.provider.serve edit.unit ≠ none → Undisturbed s.requests edit →
      Undisturbed after.requests edit := by
    rw [set]
    exact fun served undisturbed => undisturbed.request found effect served
  by_cases unchanged : after.provider = s.provider
  · exact converging.keep grown unchanged current quiet
  · generalize changed : after.provider = q at effect
    cases effect with
    | looked | woken | called | returned => exact absurd changed unchanged
    | offered ready _ _ installed =>
      rcases installed with rfl | installed
      · exact absurd changed unchanged
      · rw [← changed] at installed
        exact converging.installs fresh grown same found ready installed

/-- A result that is not outdated is that of the last edit, and ends its cycle. -/
theorem settles {r : Reconciler U A} {taken : Taken U A} (converging : Converging s edit)
    (fresh : Fresh s) (found : s.reconcilers[0]? = some r) (held : r.taken = some taken)
    (stamp : r.noted = taken.stamp)
    (busy : s.provider.cycles.running = some edit.unit)
    (grown : after.history = s.history ++ [.worked 0 (.judge taken)])
    (same : after.requests = s.requests)
    (completed : after.provider =
      (s.provider.complete (Reconciler.treeId s.history 0 (.judge taken))
        taken.parsed.result.toOption taken.parsed.unit taken.parsed.generation).provider) :
    Settled after edit := by
  have ledger := fresh.sound.ledger 0 r found
  have launched := ledger.taken_launched taken held
  have mine : taken.edit = edit := by
    -- Stamps are unique, and the last edit has the current one.
    apply ledger.noted_apart _ _ (ledger.launched_noted _ _ launched) converging.noted
    exact stamp.symm.trans (converging.current r found)
  have returned := ledger.taken_returned taken held
  obtain ⟨call, moment⟩ := callMoment?_of_mem returned.called
  obtain ⟨unit, entry⟩ := callMoment?_some moment
  have unit : taken.parsed.unit = edit.unit := congrArg Edit.unit mine
  have generation : taken.parsed.generation = edit.generation := congrArg Edit.generation mine
  have id : Reconciler.treeId s.history 0 (.judge taken) = call := by
    simp [Reconciler.treeId, moment]
  rw [id, unit, generation, ← converging.generation] at completed
  rw [mine] at launched
  refine ⟨?_, taken.parsed.seq, call, taken.parsed.result, ?_⟩
  · rw [completed]
    exact Provider.complete_ends converging.service busy call _
  rw [grown]
  refine ⟨List.mem_append_left _ launched, ?_, List.mem_append_left _ returned.returned, ?_⟩
  · obtain ⟨edit', launched', same'⟩ := ledger.called_launched _ _ (List.mem_of_getElem? entry)
    have only := (ledger.launched_apart _ _ _ _ launched' launched).mp rfl
    rw [only] at same'
    exact same' ▸ entry_grow entry
  · intro ast ok
    rw [ok] at completed
    rw [completed, same]
    refine ⟨?_, fresh.undisturbed busy converging.generation⟩
    rw [← converging.generation]
    exact Provider.complete_installs converging.service busy converging.active call ast

theorem reconciler {r next : Reconciler U A} (converging : Converging s edit) (fresh : Fresh s)
    (grown : after.history = s.history ++ [happening])
    (same : after.requests = s.requests) (set : after.reconcilers = s.reconcilers.set 0 next)
    (found : s.reconcilers[0]? = some r) (running : r.phase = .running)
    (quiet : happening.isEdit = false)
    (effect : r.Effect s.history 0 s.provider next after.provider happening) :
    Converging after edit := by
  have current : ∀ r', after.reconcilers[0]? = some r' → r'.noted = edit.stamp := by
    intro r' found'
    rw [set] at found'
    rcases getElem?_set_cases found found' with ⟨_, rfl⟩ | ⟨apart, _⟩
    · rw [effect.noted_eq quiet]
      exact converging.current r found
    · exact absurd rfl apart
  by_cases unchanged : after.provider = s.provider
  · exact converging.keep grown unchanged current fun _ undisturbed => same ▸ undisturbed
  · generalize changed : after.provider = q at effect
    cases effect with
    | noted => cases quiet
    | refused | called | returned | launched | took | outdated | kept | killed =>
      exact absurd changed unchanged
    | forsook out => exact absurd running out
    | @judged taken held free stamp =>
      rcases converging.outcome with busy | settled
      · have ends := converging.settles fresh found held stamp busy grown same changed
        have frame := s.provider.complete_frame (Reconciler.treeId s.history 0 (.judge taken))
          taken.parsed.result.toOption taken.parsed.unit taken.parsed.generation
        have opens := s.provider.complete_opensNone (Reconciler.treeId s.history 0 (.judge taken))
          taken.parsed.result.toOption taken.parsed.unit taken.parsed.generation
        rw [← changed] at frame opens
        constructor
        case service => rw [frame.2]; exact converging.service
        case active => rw [frame.1]; exact converging.active
        case generation => rw [opens.generation]; exact converging.generation
        case noted => rw [grown]; exact List.mem_append_left _ converging.noted
        case current => exact current
        case outcome => exact Or.inr ends
      · -- Nothing is open any more, so a late completion is stale.
        rw [Provider.complete_idle settled.idle] at changed
        exact absurd changed unchanged

theorem step {act : Act U A} (converging : Converging s edit) (fresh : Fresh s)
    (steady : Steady s) (alone : s.reconcilers.length ≤ 1) (keeps : act.Keeps edit.unit)
    (stepped : s.step? limits act = some after) : Converging after edit := by
  cases act with
  | begin | deliver | dispose => cases keeps
  | pass length | tick length =>
    cases stepped
    exact converging.keep rfl rfl converging.current fun _ undisturbed => undisturbed
  | setActive unit =>
    cases keeps
    cases stepped
    refine converging.keep rfl ?_ converging.current fun _ undisturbed => undisturbed
    simp [System.record, Provider.setActive, converging.service, converging.active]
  | ask unit policy =>
    cases stepped
    refine converging.keep rfl rfl converging.current fun _ undisturbed => ?_
    intro i r since found mine under
    rcases entry_append.mp found with before | ⟨_, rfl⟩
    · exact undisturbed i r since before mine under
    · simp [Request.start] at under
  | request i move =>
    obtain ⟨r, next, p, happening, notes, found, effect, rfl⟩ := System.moveRequest?_some stepped
    exact converging.request fresh rfl rfl rfl found effect
  | spawn settings =>
    simp only [System.step?] at stepped
    split at stepped
    · cases stepped
      refine converging.keep rfl rfl ?_ fun _ undisturbed => undisturbed
      intro r found
      rcases entry_append.mp found with before | ⟨first, _⟩
      · exact converging.current r before
      · -- The reconciler that noted the edit is there already.
        exact absurd rfl (fresh.sound.unknown 0 (Nat.le_of_eq first.symm) _ converging.noted)
    · cases stepped
  | reconciler k move =>
    obtain ⟨r, step, happening, found, _, moved, rfl⟩ := System.moveReconciler?_some stepped
    have inside := (List.getElem?_eq_some_iff.mp found).1
    obtain rfl : k = 0 := by omega
    have quiet : happening.isEdit = false := by
      apply Bool.eq_false_iff.mpr
      intro noted
      obtain ⟨unit, rfl⟩ := Reconciler.move?_edit moved noted
      cases keeps
    exact converging.reconciler fresh rfl rfl rfl found (steady 0 r found).1 quiet
      (Reconciler.move?_effect moved)

theorem start {first : System U A} (active : s.provider.active = some edit.unit)
    (stepped : s.step? limits (.reconciler 0 (.note edit.unit)) = some first)
    (entered : first.history = s.history ++ [.noted 0 edit]) : Converging first edit := by
  obtain ⟨r, step, happening, found, _, moved, rfl⟩ := System.moveReconciler?_some stepped
  have effect := Reconciler.move?_effect moved
  obtain rfl : happening = .noted 0 edit := by simpa [System.record] using entered
  obtain ⟨service, stamp, generation, opened⟩ := effect.of_noted
  have cycles : step.provider.cycles = s.provider.cycles.begin edit.unit := by
    rw [opened, Provider.invalidate_cycles]
  constructor
  case service =>
    change step.provider.disposed = false
    rw [opened, Provider.invalidate_disposed]
    exact service
  case active =>
    change step.provider.active = _
    rw [opened, Provider.invalidate_active]
    exact active
  case generation =>
    change step.provider.cycles.generation = _
    rw [cycles]
    exact generation.symm
  case noted => exact List.mem_append_right _ (List.mem_singleton_self _)
  case current =>
    intro r' found'
    rcases getElem?_set_cases found found' with ⟨_, rfl⟩ | ⟨apart, _⟩
    · exact stamp
    · exact absurd rfl apart
  case outcome =>
    left
    change step.provider.cycles.running = _
    rw [cycles]
    exact Cycles.begin_running _ _

end Converging

def Reconciler.AtRest (r : Reconciler U A) : Prop :=
  r.commands = [] ∧ r.results = [] ∧ r.pending = none ∧ r.inflight = none ∧ r.taken = none ∧
    r.noting = none

theorem Reaches.converging {s first last : System U A} {edit : Edit U}
    (before : Reaches limits Act.IsSteady {} s) (active : s.provider.active = some edit.unit)
    (noted : s.step? limits (.reconciler 0 (.note edit.unit)) = some first)
    (entered : first.history = s.history ++ [.noted 0 edit])
    (after : Reaches limits (Act.Keeps edit.unit) first last) (few : last.edits < UInt64.size)
    (alone : last.reconcilers.length ≤ 1) :
    Reaches limits Act.IsSteady {} last ∧ Converging last edit := by
  have fine : (Act.reconciler 0 (.note edit.unit) : Act U A).IsSteady := trivial
  have start : Reaches limits Act.IsSteady {} first := before.next fine noted
  refine ⟨start.trans (after.weaken fun _ keeps => keeps.isSteady), ?_⟩
  induction after with
  | refl => exact .start active noted entered
  | @next middle last act earlier keeps stepped converging =>
    have change := System.step?_change keeps.isSteady.isInternal stepped
    have few' := Nat.lt_of_le_of_lt change.edits_le few
    have alone' := Nat.le_trans change.reconcilers_le alone
    have steady := start.trans (earlier.weaken fun _ keeps => keeps.isSteady)
    have fresh := (steady.weaken fun _ fine => fine.isInternal).fresh few' alone'
    exact (converging few' alone').step fresh steady.steady alone' keeps stepped

/-- Take any run of one reconciler up to the note of an edit of the active unit,
and go on without another note, another active unit, a disposal or a stop. Once
the reconciler is at rest, exactly one engine call was made for that edit, no
cycle is open, and if the call returned a tree then that tree is cached. -/
theorem last_edit_converges {s first last : System U A} {edit : Edit U} {r : Reconciler U A}
    (before : Reaches limits Act.IsSteady {} s) (active : s.provider.active = some edit.unit)
    (noted : s.step? limits (.reconciler 0 (.note edit.unit)) = some first)
    (entered : first.history = s.history ++ [.noted 0 edit])
    (after : Reaches limits (Act.Keeps edit.unit) first last) (few : last.edits < UInt64.size)
    (alone : last.reconcilers = [r]) (rest : r.AtRest) :
    last.provider.cycles.running = none ∧
      ∃ (seq : UInt64) (call : Nat),
        .launched 0 seq edit ∈ last.history ∧
        last.history[call]? = some (.called (.job 0 seq) edit.unit) ∧
        (∀ (seq' : UInt64) (call' : Nat) (unit : U), .launched 0 seq' edit ∈ last.history →
          last.history[call']? = some (.called (.job 0 seq') unit) → call' = call) ∧
        ∀ ast, .returned (.job 0 seq) (.ok ast) ∈ last.history →
          last.provider.cached =
            some ⟨call, edit.unit, .reconciled edit.generation, ast⟩ := by
  have short : last.reconcilers.length ≤ 1 := by simp [alone]
  have found : last.reconcilers[0]? = some r := by simp [alone]
  obtain ⟨steady, converging⟩ := before.converging active noted entered after few short
  have internal := steady.weaken fun _ fine => fine.isInternal
  have sound := internal.sound few
  have ledger := sound.ledger 0 r found
  obtain ⟨commands, _, pending, inflight, taken, free⟩ := rest
  rcases converging.outcome with busy | settled
  · -- The edit would still be the last duty, and there is none.
    have alive : r.phase ≠ .killed := by simp [(steady.steady 0 r found).1]
    have last := sound.owed 0 r found alive edit.unit edit busy converging.noted
      ⟨rfl, converging.generation.symm⟩
    simp [Reconciler.duties, Reconciler.atWork, Reconciler.waiting, commands, pending, inflight,
      taken, free] at last
  obtain ⟨seq, call, result, launched, called, returned, tree⟩ := settled.outcome
  refine ⟨settled.idle, seq, call, launched, called, ?_, ?_⟩
  · -- One parse for the edit, and one call for the parse.
    intro seq' call' unit launched' called'
    obtain rfl := (ledger.launched_apart _ _ _ _ launched' launched).mpr rfl
    exact internal.callsOnce few _ call' call _ _ called' called
  · intro ast returned'
    exact (tree ast (ledger.returned_apart _ _ _ returned returned')).1

def editingRun : List (Act Nat Nat) :=
  [.setActive (some 7), .spawn { debounceMs := 0 }, .reconciler 0 (.note 7), .reconciler 0 .send,
    .reconciler 0 .turn, .reconciler 0 .turn, .reconciler 0 (.call 0)]

/-- After a second edit of the unit, the first parse returns late and the second is delivered. -/
def restingRun : List (Act Nat Nat) :=
  [.reconciler 0 .send, .reconciler 0 .turn, .reconciler 0 .turn, .reconciler 0 (.call 1),
    .reconciler 0 (.finish 0 (.returned (.ok 4))), .reconciler 0 .turn,
    .reconciler 0 (.finish 1 (.returned (.ok 5))), .reconciler 0 .turn, .reconciler 0 .turn]

def edited : System Nat Nat := (System.run? ⟨{}, 1000⟩ {} editingRun).getD {}

def editedAgain : System Nat Nat := (edited.step? ⟨{}, 1000⟩ (.reconciler 0 (.note 7))).getD {}

def rested : System Nat Nat := (editedAgain.run? ⟨{}, 1000⟩ restingRun).getD {}

theorem last_edit_converges_late :
    rested.provider.cycles.running = none ∧
      ∃ (seq : UInt64) (call : Nat),
        .launched 0 seq ⟨7, ⟨1⟩, 2⟩ ∈ rested.history ∧
        (.returned (.job 0 seq) (.ok 5) ∈ rested.history →
          rested.provider.cached = some ⟨call, 7, .reconciled ⟨1⟩, 5⟩) := by
  have before : Reaches ⟨{}, 1000⟩ Act.IsSteady {} edited :=
    Reaches.refl.of_run? (show ∀ act ∈ editingRun, _ by simp [editingRun, Act.IsSteady]) rfl
  have after : Reaches ⟨{}, 1000⟩ (Act.Keeps 7) editedAgain rested :=
    Reaches.refl.of_run? (show ∀ act ∈ restingRun, _ by simp [restingRun, Act.Keeps, Act.IsSteady]) rfl
  have noted : edited.step? ⟨{}, 1000⟩ (.reconciler 0 (.note 7)) = some editedAgain := rfl
  have entered : editedAgain.history = edited.history ++ [.noted 0 ⟨7, ⟨1⟩, 2⟩] := rfl
  have rest : Reconciler.AtRest (rested.reconcilers.headD (.spawn {} 0)) :=
    ⟨rfl, rfl, rfl, rfl, rfl, rfl⟩
  obtain ⟨idle, seq, call, launched, _, _, cached⟩ :=
    last_edit_converges before rfl noted entered after (by decide) rfl rest
  exact ⟨idle, seq, call, launched, cached 5⟩

end FreshTree
