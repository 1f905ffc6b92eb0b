import FreshTree.Proofs.Convergence

/-!
Runs told moment by moment, with the provider before and after each moment.
Generations are machine words, and a cycle that is joined uses none up, so what
a run must not have too many of is moments that open a cycle. As long as there
are fewer than 2^64 of them, the generation counts them.
-/

namespace FreshTree

variable {U A : Type}

def Happening.cycle? : Happening U A → Option (U × Generation)
  | .begun unit (some generation) => some (unit, generation)
  | .noted _ edit => some (edit.unit, edit.generation)
  | _ => none

def Happening.isReconcilers : Happening U A → Bool
  | .noted _ _ | .refused _ _ | .accepted _ _ | .rejected _ _ | .flushed _ | .stopped _
  | .killed _ | .launched _ _ _ | .worked _ _ | .called (.job _ _) _
  | .returned (.job _ _) _ => true
  | _ => false

structure Moment (U A : Type) where
  before : Provider U A
  happening : Happening U A
  after : Provider U A

variable [DecidableEq U]

namespace Moment

def Opens (m : Moment U A) (unit : U) (generation : Generation) : Prop :=
  m.happening.cycle? = some (unit, generation) ∧ m.before.cycles.running ≠ some unit

def isOpening (m : Moment U A) : Bool :=
  m.happening.cycle?.any fun cycle => m.before.cycles.running ≠ some cycle.1

omit [DecidableEq U] in
theorem Opens.cycle {m : Moment U A} {unit other : U} {generation last : Generation}
    (opens : m.Opens unit generation) (again : m.Opens other last) :
    unit = other ∧ generation = last := by
  have same := opens.1.symm.trans again.1
  simpa using same

theorem isOpening_iff (m : Moment U A) :
    m.isOpening = true ↔ ∃ unit generation, m.Opens unit generation := by
  unfold isOpening Opens
  cases m.happening.cycle? with
  | none => simp
  | some cycle =>
    constructor
    · intro opens
      exact ⟨cycle.1, cycle.2, rfl, by simpa using opens⟩
    · rintro ⟨unit, generation, same, opens⟩
      cases same
      simpa using opens

theorem isOpening_eq_false {m : Moment U A} (none : m.happening.cycle? = none) :
    m.isOpening = false := by
  simp [isOpening, none]

end Moment

def openings (past : List (Moment U A)) : Nat := past.countP Moment.isOpening

theorem openings_append (past later : List (Moment U A)) :
    openings (past ++ later) = openings past + openings later :=
  List.countP_append

theorem openings_le_append (past later : List (Moment U A)) :
    openings past ≤ openings (past ++ later) := by
  rw [openings_append]
  exact Nat.le_add_right _ _

theorem openings_take_le (past : List (Moment U A)) (count : Nat) :
    openings (past.take count) ≤ openings past :=
  (List.take_sublist count past).countP_le

theorem openings_concat (past : List (Moment U A)) (m : Moment U A) :
    openings (past ++ [m]) = openings past + if m.isOpening then 1 else 0 := by
  rw [openings_append]
  simp [openings, List.countP_singleton]

omit [DecidableEq U] in
theorem mem_take {past : List (Moment U A)} {i j : Nat} {m : Moment U A} (before : i < j)
    (entry : past[i]? = some m) : m ∈ past.take j := by
  apply List.mem_of_getElem? (i := i)
  rw [List.getElem?_take_of_lt before]
  exact entry

/-- The moments of a run of allowed acts from one system to another. -/
inductive Chronicle (limits : Limits) (allowed : Act U A → Prop) (first : System U A) :
    List (Moment U A) → System U A → Prop where
  | start : Chronicle limits allowed first [] first
  | next {past : List (Moment U A)} {before after : System U A} {act : Act U A}
      {happening : Happening U A} :
      Chronicle limits allowed first past before → allowed act →
      before.step? limits act = some after → after.history = before.history ++ [happening] →
      Chronicle limits allowed first (past ++ [⟨before.provider, happening, after.provider⟩]) after

def System.moments (limits : Limits) (s : System U A) : List (Act U A) → List (Moment U A)
  | [] => []
  | act :: rest =>
    match s.step? limits act with
    | none => []
    | some next =>
      match next.history.getLast? with
      | none => []
      | some happening => ⟨s.provider, happening, next.provider⟩ :: next.moments limits rest

/-- What somebody does to the provider otherwise than by offering a tree to it. -/
inductive Provider.Touch (p : Provider U A) : Happening U A → Provider U A → Prop where
  | kept {happening : Happening U A} : happening.cycle? = none → Touch p happening p
  | focused (unit : Option U) : Touch p (.focused unit) (p.setActive unit).provider
  | disposed : Touch p .disposed p.dispose.provider
  | begun {happening : Happening U A} (unit : U) :
      p.disposed = false → happening.cycle? = some (unit, (p.cycles.begin unit).generation) →
      Touch p happening ({ p with cycles := p.cycles.begin unit }.invalidate unit)
  | completed {happening : Happening U A} (id : TreeId) (ast : Option A) (unit : U)
      (generation : Generation) :
      happening.cycle? = none →
      Touch p happening (p.complete id ast unit generation).provider

omit [DecidableEq U] in
theorem Happening.IsPlain.cycle?_eq_none {happening : Happening U A} (plain : happening.IsPlain)
    (unbegun : ∀ unit reply, happening ≠ .begun unit reply) : happening.cycle? = none := by
  cases happening with
  | begun unit reply => exact absurd rfl (unbegun unit reply)
  | noted => cases plain
  | _ => rfl

namespace Reconciler

variable {now : Instant} {history : List (Happening U A)} {k : Nat} {p : Provider U A}
  {r : Reconciler U A}

theorem move?_isReconcilers {move : Move U A} {step : Step U A} {happening : Happening U A}
    (moved : r.move? now history k p move = some (step, happening)) :
    happening.isReconcilers = true := by
  cases move with
  | note unit =>
    simp only [move?] at moved
    split at moved
    · cases moved
    · cases moved
      split <;> rfl
  | send =>
    simp only [move?] at moved
    split at moved
    · cases moved
    · cases moved
      split <;> rfl
  | flush | stop | kill =>
    cases moved
    rfl
  | call seq | finish seq ending =>
    simp only [move?] at moved
    split at moved
    · cases moved
      rfl
    · cases moved
  | turn =>
    simp only [move?] at moved
    split at moved
    · cases moved
    · rename_i action _
      cases moved
      cases action <;> rfl

theorem move?_unbegun {move : Move U A} {step : Step U A} {happening : Happening U A}
    (moved : r.move? now history k p move = some (step, happening)) (unit : U)
    (reply : Option Generation) : happening ≠ .begun unit reply := by
  rintro rfl
  cases move?_isReconcilers moved

theorem move?_touch {move : Move U A} {step : Step U A} {happening : Happening U A}
    (moved : r.move? now history k p move = some (step, happening)) :
    p.Touch happening step.provider := by
  have unbegun := move?_unbegun moved
  have effect := move?_effect moved
  generalize step.provider = q at effect ⊢
  generalize step.reconciler = after at effect
  cases effect with
  | noted _ service same =>
    subst same
    exact .begun _ service rfl
  | refused | called | returned | launched | took | outdated => exact .kept rfl
  | judged => exact .completed _ _ _ _ rfl
  | forsook _ _ _ _ plain => exact .completed _ _ _ _ (plain.cycle?_eq_none unbegun)
  | kept _ _ _ plain | killed _ _ plain => exact .kept (plain.cycle?_eq_none unbegun)

end Reconciler

theorem Request.Effect.cycle?_eq_none {called : Option Nat} {i : Nat} {p q : Provider U A}
    {r after : Request U A} {happening : Happening U A}
    (effect : r.Effect called i p after q happening) : happening.cycle? = none := by
  cases effect <;> rfl

namespace System

/-- What one act does, whoever acts: the provider is touched and no request
moves, a request is made, or one request moves. -/
inductive Turn (s : System U A) : Happening U A → System U A → Prop where
  | touched {now timer : Instant} {p : Provider U A} {reconcilers : List (Reconciler U A)}
      {happening : Happening U A} {notes : List (Note U)} :
      s.provider.Touch happening p → (∀ i, happening.IsApart i) →
      Turn s happening
        ({ s with now, timer, provider := p, reconcilers }.record happening notes)
  | asked {limits : Limits} {unit : U} {policy : Policy} :
      Turn s (.asked s.requests.length unit policy)
        ({ s with requests := s.requests ++ [Request.start limits s.now unit policy] }.record
          (.asked s.requests.length unit policy) [])
  | moved {i : Nat} {r after : Request U A} {p : Provider U A} {happening : Happening U A}
      {notes : List (Note U)} :
      s.requests[i]? = some r →
      r.Effect (callMoment? s.history (.request i)) i s.provider after p happening →
      Turn s happening
        ({ s with provider := p, requests := s.requests.set i after }.record happening notes)

variable {limits : Limits} {s after : System U A}

theorem Turn.history {happening : Happening U A} (turn : s.Turn happening after) :
    after.history = s.history ++ [happening] := by
  cases turn <;> rfl

theorem step?_turned {act : Act U A} (stepped : s.step? limits act = some after) :
    ∃ happening, s.Turn happening after := by
  cases act with
  | pass length | tick length =>
    cases stepped
    exact ⟨_, .touched (.kept rfl) fun _ => trivial⟩
  | setActive unit =>
    cases stepped
    exact ⟨_, .touched (.focused unit) fun _ => trivial⟩
  | dispose =>
    cases stepped
    exact ⟨_, .touched .disposed fun _ => trivial⟩
  | begin unit =>
    cases stepped
    refine ⟨_, .touched ?_ fun _ => trivial⟩
    -- A begin after the disposal touches nothing and is of no cycle.
    rcases s.provider.begin_cases unit with ⟨_, reply, same⟩ | ⟨service, reply, begun⟩
    · rw [reply, same]
      exact .kept rfl
    · rw [reply, begun]
      exact .begun unit service rfl
  | deliver ast unit generation =>
    cases stepped
    exact ⟨_, .touched (.completed _ ast unit generation rfl) fun _ => trivial⟩
  | ask unit policy =>
    cases stepped
    exact ⟨_, .asked⟩
  | request i move =>
    obtain ⟨r, next, p, happening, notes, found, effect, rfl⟩ := moveRequest?_some stepped
    exact ⟨_, .moved found effect⟩
  | spawn settings =>
    simp only [step?] at stepped
    split at stepped
    · cases stepped
      exact ⟨_, .touched (.kept rfl) fun _ => trivial⟩
    · cases stepped
  | reconciler k move =>
    obtain ⟨r, step, happening, found, _, moved, rfl⟩ := moveReconciler?_some stepped
    have effect := Reconciler.move?_effect moved
    exact ⟨_, .touched (Reconciler.move?_touch moved) effect.isApart⟩

end System

theorem System.Turn.begun {s after : System U A} {happening : Happening U A}
    (turn : s.Turn happening after) {unit : U} {generation : Generation}
    (cycle : happening.cycle? = some (unit, generation)) :
    s.provider.disposed = false ∧ generation = (s.provider.cycles.begin unit).generation ∧
      after.provider = { s.provider with cycles := s.provider.cycles.begin unit }.invalidate unit ∧
      after.requests = s.requests := by
  cases turn with
  | touched touch =>
    cases touch with
    | focused | disposed => cases cycle
    | kept none | completed _ _ _ _ none =>
      rw [none] at cycle
      cases cycle
    | begun unit service same =>
      rw [same] at cycle
      cases cycle
      exact ⟨service, rfl, rfl, rfl⟩
  | asked => cases cycle
  | moved _ effect =>
    rw [effect.cycle?_eq_none] at cycle
    cases cycle

theorem System.Turn.begun_now {s after : System U A} {happening : Happening U A}
    (turn : s.Turn happening after) {unit : U} {generation : Generation}
    (cycle : happening.cycle? = some (unit, generation)) :
    after.provider.cycles.running = some unit ∧ after.provider.generation = generation := by
  obtain ⟨_, now, provider, _⟩ := turn.begun cycle
  rw [provider, Provider.generation, Provider.invalidate_cycles]
  exact ⟨Cycles.begin_running _ _, now.symm⟩

/-- Within one generation a cycle is never reopened once it has ended. -/
structure Provider.Advances (p q : Provider U A) : Prop where
  le : p.generation.toNat ≤ q.generation.toNat
  running : q.generation = p.generation →
    ∀ unit, q.cycles.running = some unit → p.cycles.running = some unit

namespace Provider

variable {p q : Provider U A}

omit [DecidableEq U] in
theorem Advances.refl (p : Provider U A) : p.Advances p :=
  ⟨Nat.le_refl _, fun _ _ busy => busy⟩

omit [DecidableEq U] in
theorem Advances.trans {middle : Provider U A} (early : p.Advances middle)
    (late : middle.Advances q) : p.Advances q where
  le := Nat.le_trans early.le late.le
  running := by
    intro same unit busy
    -- Generations do not come back, so the one in the middle was the same.
    have between : middle.generation = p.generation := by
      apply Generation.toNat_inj
      have first := early.le
      have last := late.le
      rw [same] at last
      omega
    exact early.running between unit (late.running (same.trans between.symm) unit busy)

omit [DecidableEq U] in
theorem OpensNone.advances (opens : p.OpensNone q) : p.Advances q :=
  ⟨Nat.le_of_eq (by rw [opens.generation]), fun _ => opens.running⟩

theorem begin_generation_toNat (unit : U)
    (few : p.cycles.running ≠ some unit → p.generation.toNat + 1 < UInt64.size) :
    (p.cycles.begin unit).generation.toNat =
      p.generation.toNat + if p.cycles.running = some unit then 0 else 1 := by
  rw [Cycles.begin_generation]
  split
  · rfl
  · exact Generation.next_toNat (few (by assumption))

theorem begin_advances (unit : U)
    (few : p.cycles.running ≠ some unit → p.generation.toNat + 1 < UInt64.size) :
    p.Advances ({ p with cycles := p.cycles.begin unit }.invalidate unit) := by
  constructor
  · simp only [generation, invalidate_cycles]
    rw [begin_generation_toNat unit few]
    exact Nat.le_add_right _ _
  · intro same other busy
    simp only [generation, invalidate_cycles] at same busy
    rw [Cycles.begin_running] at busy
    cases busy
    rw [Cycles.begin_generation] at same
    split at same
    · assumption
    · exact absurd same p.generation.next_ne

end Provider

/-- What a moment does to the generation: it goes up by one when a cycle is
opened, and else it stays. -/
structure System.Counts (s : System U A) (happening : Happening U A) (after : System U A) :
    Prop where
  toNat : after.provider.generation.toNat = s.provider.generation.toNat +
    if (⟨s.provider, happening, after.provider⟩ : Moment U A).isOpening then 1 else 0
  advances : s.provider.Advances after.provider

theorem System.Turn.counts {s after : System U A} {happening : Happening U A}
    (turn : s.Turn happening after)
    (few : s.provider.generation.toNat +
      (if (⟨s.provider, happening, after.provider⟩ : Moment U A).isOpening then 1 else 0) <
        UInt64.size) : s.Counts happening after := by
  -- Whatever opens no cycle leaves the generation alone.
  have idle : happening.cycle? = none → s.provider.OpensNone after.provider →
      s.Counts happening after := by
    intro none opens
    constructor
    · rw [Moment.isOpening_eq_false none, opens.generation]
      rfl
    · exact opens.advances
  cases turn with
  | @touched _ _ _ _ _ _ touch =>
    cases touch with
    | kept none => exact idle none (.refl _)
    | focused unit => exact idle rfl (s.provider.setActive_opensNone unit)
    | disposed => exact idle rfl s.provider.dispose_opensNone
    | completed id ast unit generation none =>
      exact idle none (s.provider.complete_opensNone id ast unit generation)
    | begun unit service cycle =>
      simp only [Moment.isOpening, cycle, Option.any_some, decide_not, Bool.not_eq_true',
        decide_eq_false_iff_not] at few
      have few' : s.provider.cycles.running ≠ some unit →
          s.provider.generation.toNat + 1 < UInt64.size := by
        intro other
        simpa [other] using few
      constructor
      · change (Provider.generation (Provider.invalidate _ unit)).toNat = _
        simp only [Provider.generation, Provider.invalidate_cycles]
        rw [Provider.begin_generation_toNat unit few']
        by_cases joined : s.provider.cycles.running = some unit
        · simp [Moment.isOpening, cycle, joined, Provider.generation]
        · simp [Moment.isOpening, cycle, joined, Provider.generation]
      · exact Provider.begin_advances unit few'
  | asked => exact idle rfl (.refl _)
  | moved found effect => exact idle effect.cycle?_eq_none effect.opensNone

theorem System.Turn.of_step? {limits : Limits} {s after : System U A} {act : Act U A}
    {happening : Happening U A} (stepped : s.step? limits act = some after)
    (grown : after.history = s.history ++ [happening]) : s.Turn happening after := by
  obtain ⟨other, turn⟩ := step?_turned stepped
  obtain rfl : other = happening := by
    have both := turn.history.symm.trans grown
    simpa using both
  exact turn

namespace Chronicle

variable {limits : Limits} {allowed : Act U A → Prop} {first s last : System U A}
  {past later : List (Moment U A)}

theorem history (chronicle : Chronicle limits allowed first past last) :
    last.history = first.history ++ past.map Moment.happening := by
  induction chronicle with
  | start => simp
  | next _ _ _ grown ih => simp [grown, ih]

theorem trans (early : Chronicle limits allowed first past s)
    (late : Chronicle limits allowed s later last) :
    Chronicle limits allowed first (past ++ later) last := by
  induction late with
  | start => simpa using early
  | next _ fine stepped grown ih =>
    rw [← List.append_assoc]
    exact ih.next fine stepped grown

theorem weaken {wider : Act U A → Prop} (chronicle : Chronicle limits allowed first past last)
    (wide : ∀ act, allowed act → wider act) : Chronicle limits wider first past last := by
  induction chronicle with
  | start => exact .start
  | next _ fine stepped grown ih => exact ih.next (wide _ fine) stepped grown

theorem reaches (chronicle : Chronicle limits allowed first past last) :
    Reaches limits allowed first last := by
  induction chronicle with
  | start => exact .refl
  | next _ fine stepped _ ih => exact .next ih fine stepped

theorem of_run? {acts : List (Act U A)} (all : ∀ act ∈ acts, allowed act)
    (ran : first.run? limits acts = some last) :
    Chronicle limits allowed first (first.moments limits acts) last := by
  induction acts generalizing first with
  | nil =>
    cases ran
    exact .start
  | cons act rest ih =>
    simp only [System.run?] at ran
    split at ran
    · cases ran
    · rename_i next stepped
      have told := ih (fun other member => all other (List.mem_cons_of_mem _ member)) ran
      obtain ⟨happening, turn⟩ := System.step?_turned stepped
      have grown := turn.history
      have one : Chronicle limits allowed first ([] ++ [_]) next :=
        start.next (all act List.mem_cons_self) stepped grown
      simpa [System.moments, stepped, grown] using one.trans told

theorem cut (chronicle : Chronicle limits allowed first past last) {j : Nat} {m : Moment U A}
    (entry : past[j]? = some m) :
    ∃ before after act, Chronicle limits allowed first (past.take j) before ∧ allowed act ∧
      before.step? limits act = some after ∧ before.Turn m.happening after ∧
      m = ⟨before.provider, m.happening, after.provider⟩ ∧
      Chronicle limits allowed after (past.drop (j + 1)) last := by
  induction chronicle with
  | start => simp at entry
  | @next past before after act happening told fine stepped grown ih =>
    rcases entry_append.mp entry with earlier | ⟨rfl, rfl⟩
    · obtain ⟨before', after', act', told', fine', stepped', turn', same, rest⟩ := ih earlier
      have short := (List.getElem?_eq_some_iff.mp earlier).1
      refine ⟨before', after', act', ?_, fine', stepped', turn', same, ?_⟩
      · rwa [List.take_append_of_le_length (Nat.le_of_lt short)]
      · rw [List.drop_append_of_le_length short]
        exact rest.next fine stepped grown
    · refine ⟨before, after, act, ?_, fine, stepped, .of_step? stepped grown, rfl, ?_⟩
      · rw [List.take_left]
        exact told
      · simpa using start

/-- What every turn preserves while few cycles are opened holds after every run. -/
theorem invariant {motive : List (Moment U A) → System U A → Prop}
    (chronicle : Chronicle limits allowed first past last) (few : openings past < UInt64.size)
    (begins : motive [] first)
    (preserved : ∀ past before happening after, Chronicle limits allowed first past before →
      motive past before → before.Turn happening after →
      openings (past ++ [⟨before.provider, happening, after.provider⟩]) < UInt64.size →
      motive (past ++ [⟨before.provider, happening, after.provider⟩]) after) :
    motive past last := by
  induction chronicle with
  | start => exact begins
  | @next past before after act happening told fine stepped grown ih =>
    have fewer := Nat.lt_of_le_of_lt (openings_le_append past _) few
    exact preserved past before happening after told (ih fewer) (.of_step? stepped grown) few

/-- Fewer than 2^64 cycles do not use up the generations. -/
theorem generation_toNat (chronicle : Chronicle limits allowed {} past s)
    (few : openings past < UInt64.size) : s.provider.generation.toNat = openings past := by
  refine chronicle.invariant (motive := fun past s => s.provider.generation.toNat = openings past)
    few rfl ?_
  intro past before happening after _ counted turn few
  rw [openings_concat, ← counted] at few ⊢
  exact (turn.counts few).toNat

theorem counts (chronicle : Chronicle limits allowed {} past s) {happening : Happening U A}
    {after : System U A} (turn : s.Turn happening after)
    (few : openings (past ++ [⟨s.provider, happening, after.provider⟩]) < UInt64.size) :
    s.Counts happening after := by
  have counted := chronicle.generation_toNat (Nat.lt_of_le_of_lt (openings_le_append past _) few)
  rw [openings_concat, ← counted] at few
  exact turn.counts few

theorem advances (chronicle : Chronicle limits allowed {} past s)
    (few : openings past < UInt64.size) {m : Moment U A} (member : m ∈ past) :
    m.before.Advances m.after ∧ m.after.Advances s.provider := by
  refine chronicle.invariant
    (motive := fun past s => ∀ m ∈ past, m.before.Advances m.after ∧ m.after.Advances s.provider)
    few (by simp) ?_ m member
  intro past before happening after told earlier turn few m member
  have advances := (told.counts turn few).advances
  rcases List.mem_append.mp member with old | new
  · exact ⟨(earlier m old).1, (earlier m old).2.trans advances⟩
  · obtain rfl := List.mem_singleton.mp new
    exact ⟨advances, .refl _⟩

theorem grows (chronicle : Chronicle limits allowed {} past s) (few : openings past < UInt64.size)
    {m : Moment U A} (member : m ∈ past) : m.after.generation.toNat =
      m.before.generation.toNat + if m.isOpening then 1 else 0 := by
  refine chronicle.invariant (motive := fun past _ => ∀ m ∈ past, m.after.generation.toNat =
    m.before.generation.toNat + if m.isOpening then 1 else 0) few (by simp) ?_ m member
  intro past before happening after told earlier turn few m member
  rcases List.mem_append.mp member with old | new
  · exact earlier m old
  · obtain rfl := List.mem_singleton.mp new
    exact (told.counts turn few).toNat

theorem between (chronicle : Chronicle limits allowed {} past s)
    (few : openings past < UInt64.size) {i j : Nat} {m n : Moment U A} (before : i < j)
    (early : past[i]? = some m) (late : past[j]? = some n) : m.after.Advances n.before := by
  obtain ⟨state, _, _, told, _, _, _, same, _⟩ := chronicle.cut late
  have fewer := Nat.lt_of_le_of_lt (openings_take_le past j) few
  rw [same]
  exact (told.advances fewer (mem_take before early)).2

theorem opens (chronicle : Chronicle limits allowed {} past s)
    (few : openings past < UInt64.size) {m : Moment U A} (member : m ∈ past) {unit : U}
    {generation : Generation} (opens : m.Opens unit generation) :
    m.after.generation = generation ∧ generation.toNat = m.before.generation.toNat + 1 := by
  have counted := chronicle.grows few member
  rw [(Moment.isOpening_iff m).mpr ⟨unit, generation, opens⟩, if_pos rfl] at counted
  obtain ⟨j, entry⟩ := List.mem_iff_getElem?.mp member
  obtain ⟨before, after, _, _, _, _, turn, same, _⟩ := chronicle.cut entry
  have current : m.after.generation = generation := by
    rw [same]
    exact (turn.begun_now opens.1).2
  rw [current] at counted
  exact ⟨current, counted⟩

theorem opens_apart (chronicle : Chronicle limits allowed {} past s)
    (few : openings past < UInt64.size) {i j : Nat} {m n : Moment U A}
    (early : past[i]? = some m) (late : past[j]? = some n) {unit other : U} {generation : Generation}
    (opens : m.Opens unit generation) (again : n.Opens other generation) : ¬ i < j := by
  intro before
  have le := (chronicle.between few before early late).le
  obtain ⟨current, _⟩ := chronicle.opens few (List.mem_of_getElem? early) opens
  obtain ⟨_, next⟩ := chronicle.opens few (List.mem_of_getElem? late) again
  rw [current] at le
  omega

theorem opened (chronicle : Chronicle limits allowed {} past s)
    (few : openings past < UInt64.size) (generation : Generation) (positive : 0 < generation.toNat)
    (bound : generation.toNat ≤ s.provider.generation.toNat) :
    ∃ m ∈ past, ∃ unit, m.Opens unit generation := by
  refine chronicle.invariant (motive := fun past s =>
    generation.toNat ≤ s.provider.generation.toNat → ∃ m ∈ past, ∃ unit, m.Opens unit generation)
    few ?_ ?_ bound
  · intro bound
    exact absurd positive (Nat.not_lt.mpr bound)
  · intro past before happening after told earlier turn few bound
    have counts := told.counts turn few
    by_cases old : generation.toNat ≤ before.provider.generation.toNat
    · obtain ⟨m, member, opens⟩ := earlier old
      exact ⟨m, List.mem_append_left _ member, opens⟩
    · have counted := counts.toNat
      have opening : (⟨before.provider, happening, after.provider⟩ : Moment U A).isOpening = true := by
        by_cases opening : (⟨before.provider, happening, after.provider⟩ : Moment U A).isOpening = true
        · exact opening
        · rw [if_neg opening] at counted
          omega
      rw [if_pos opening] at counted
      obtain ⟨unit, now, opens⟩ := (Moment.isOpening_iff _).mp opening
      obtain rfl : now = generation := by
        apply Generation.toNat_inj
        rw [← (turn.begun_now opens.1).2]
        omega
      exact ⟨_, by simp, unit, opens⟩

end Chronicle

end FreshTree
