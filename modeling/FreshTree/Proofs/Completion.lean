import FreshTree.Proofs.Integrity

/-!
Each cycle completes at most once, in whatever order completions arrive. A cycle
is open from the moment that opened it until its completion, a cycle of another
unit, or the focus leaving its unit ends it. As long as the provider is in
service, the one cycle that the provider has open is the one that is still open
by this account, so a completion is accepted if and only if its cycle is open.
-/

namespace FreshTree

variable {U A : Type}

/-- An operation on the provider or a section of a request. Whatever a
reconciler does to the provider, anybody may do as well. -/
def Act.IsDirect : Act U A → Prop
  | .spawn _ | .reconciler _ _ => False
  | _ => True

def Completion.isAccepted : Completion → Bool
  | .installed | .empty | .inactive => true
  | .stale | .disposed => false

def Happening.IsIdle : Happening U A → Prop
  | .focused _ | .disposed | .begun _ _ | .delivered _ _ _ | .noted _ _ => False
  | _ => True

/-- The cycle `generation` of `unit` ends, if it is open: it is completed,
superseded by a cycle of another unit, or abandoned by the focus. -/
def Moment.Ends (unit : U) (generation : Generation) (m : Moment U A) : Prop :=
  match m.happening with
  | .delivered other late completion =>
    other = unit ∧ late = generation ∧ completion.isAccepted = true
  | .begun other (some _) => other ≠ unit
  | .focused focus => focus ≠ some unit ∧ m.after.active ≠ m.before.active
  | _ => False

def StillOpen (past : List (Moment U A)) (unit : U) (generation : Generation) : Prop :=
  ∃ (i : Nat) (m : Moment U A), past[i]? = some m ∧ m.Opens unit generation ∧
    ∀ (j : Nat) (n : Moment U A), i < j → past[j]? = some n → ¬ n.Ends unit generation

theorem stillOpen_concat (past : List (Moment U A)) (m : Moment U A) (unit : U)
    (generation : Generation) :
    StillOpen (past ++ [m]) unit generation ↔
      StillOpen past unit generation ∧ ¬ m.Ends unit generation ∨ m.Opens unit generation := by
  have now : (past ++ [m])[past.length]? = some m := entry_append.mpr (Or.inr ⟨rfl, rfl⟩)
  constructor
  · rintro ⟨i, n, entry, opens, quiet⟩
    rcases entry_append.mp entry with before | ⟨_, rfl⟩
    · left
      constructor
      · exact ⟨i, n, before, opens,
          fun j n' later old => quiet j n' later (entry_append.mpr (Or.inl old))⟩
      · exact quiet past.length m (List.getElem?_eq_some_iff.mp before).1 now
    · exact Or.inr opens
  · rintro (⟨⟨i, n, entry, opens, quiet⟩, stays⟩ | opens)
    · refine ⟨i, n, entry_append.mpr (Or.inl entry), opens, fun j n' later last => ?_⟩
      rcases entry_append.mp last with before | ⟨_, rfl⟩
      · exact quiet j n' later before
      · exact stays
    · refine ⟨past.length, m, now, opens, fun j n' later last => ?_⟩
      have inside := (List.getElem?_eq_some_iff.mp last).1
      simp at inside
      omega

variable [DecidableEq U]

namespace Provider

inductive Operation (p : Provider U A) : Happening U A → Provider U A → Prop where
  | focused (unit : Option U) : Operation p (.focused unit) (p.setActive unit).provider
  | disposed : Operation p .disposed p.dispose.provider
  | begun (unit : U) : p.disposed = false →
      Operation p (.begun unit (some (p.cycles.begin unit).generation))
        ({ p with cycles := p.cycles.begin unit }.invalidate unit)
  | refused (unit : U) : p.disposed = true → Operation p (.begun unit none) p
  | completed {unit : U} {completion : Completion} {slot : Option (Tree U A)} :
      p.disposed = false → p.cycles.running = some unit → completion.isAccepted = true →
      (completion = .installed → ∃ id ast, slot = some ⟨id, unit, .reconciled p.generation, ast⟩) →
      (completion ≠ .installed → slot = p.cached) →
      Operation p (.delivered unit p.generation completion)
        { p with cycles := p.cycles.close, cached := slot }
  | discarded {unit : U} {generation : Generation} {completion : Completion} :
      ¬ (p.disposed = false ∧ p.cycles.running = some unit ∧ p.generation = generation) →
      completion.isAccepted = false → Operation p (.delivered unit generation completion) p
  | idle {happening : Happening U A} (cached : Option (Tree U A)) :
      happening.IsIdle → Operation p happening { p with cached := cached }

variable {p q : Provider U A}

theorem complete_operation (p : Provider U A) (id : TreeId) (ast : Option A) (unit : U)
    (generation : Generation) :
    p.Operation (.delivered unit generation (p.complete id ast unit generation).reply)
      (p.complete id ast unit generation).provider := by
  change p.Operation (.delivered unit generation (p.receive id ast unit generation).2)
    (p.receive id ast unit generation).1
  unfold receive
  split
  · rename_i gone
    exact .discarded (by simp [gone]) rfl
  · rename_i service
    rw [Cycles.finish?_eq]
    by_cases mine : p.cycles.running = some unit ∧ p.cycles.generation = generation
    · obtain ⟨busy, rfl⟩ := mine
      rw [if_pos ⟨busy, rfl⟩]
      dsimp only
      split
      · exact .completed (by simpa using service) busy rfl nofun fun _ => rfl
      · cases ast with
        | none => exact .completed (by simpa using service) busy rfl nofun fun _ => rfl
        | some ast =>
          exact .completed (by simpa using service) busy rfl (fun _ => ⟨id, ast, rfl⟩) (absurd rfl ·)
    · rw [if_neg mine]
      exact .discarded (fun all => mine all.2) rfl

theorem setActive_running (p : Provider U A) (focus : Option U) (unit : U) :
    (p.setActive focus).provider.cycles.running = some unit ↔
      p.cycles.running = some unit ∧
        ¬ (focus ≠ some unit ∧ (p.setActive focus).provider.active ≠ p.active) := by
  rcases p.setActive_cases focus with ⟨same, _⟩ | ⟨_, moved, changed⟩
  · simp [same]
  · have apart : (p.setActive focus).provider.active ≠ p.active := by
      rw [changed]
      intro same
      exact moved (same.symm.trans (Focus.set_active p.focus focus))
    simp only [apart, ne_eq, not_false_eq_true, and_true, Decidable.not_not]
    rw [changed]
    dsimp only
    by_cases elsewhere : p.cycles.isBusyElsewhere focus = true
    · rw [if_pos elsewhere]
      constructor
      · intro busy
        rw [Cycles.abandon_running] at busy
        cases busy
      · rintro ⟨busy, here⟩
        obtain ⟨other, busy', away⟩ := Cycles.isBusyElsewhere_iff.mp elsewhere
        cases busy.symm.trans busy'
        exact absurd here away
    · rw [if_neg elsewhere]
      constructor
      · intro busy
        apply And.intro busy
        apply Classical.byContradiction
        intro away
        exact elsewhere (Cycles.isBusyElsewhere_iff.mpr ⟨unit, busy, away⟩)
      · exact And.left

namespace Operation

variable {happening : Happening U A}

theorem service (operation : p.Operation happening q) (service : q.disposed = false) :
    p.disposed = false := by
  cases operation with
  | focused unit =>
    rcases p.setActive_cases unit with ⟨same, _⟩ | ⟨before, _⟩
    · rwa [same] at service
    · exact before
  | disposed =>
    rw [p.dispose_disposed] at service
    cases service
  | begun | completed => assumption
  | refused | discarded | idle => exact service

theorem running (operation : p.Operation happening q) (service : q.disposed = false) (unit : U)
    (generation : Generation) :
    (p.cycles.running = some unit ∧ p.generation = generation) ∧
          ¬ Moment.Ends unit generation ⟨p, happening, q⟩ ∨
        Moment.Opens ⟨p, happening, q⟩ unit generation ↔
      q.cycles.running = some unit ∧ q.generation = generation := by
  cases operation with
  | focused focus =>
    rw [setActive_running, (p.setActive_opensNone focus).generation]
    simp only [Moment.Ends, Moment.Opens, Happening.cycle?]
    simp [and_right_comm]
  | disposed =>
    rw [p.dispose_disposed] at service
    cases service
  | begun other =>
    simp only [Moment.Ends, Moment.Opens, Happening.cycle?, Provider.generation, invalidate_cycles,
      Cycles.begin_running, Cycles.begin_generation, Option.some.injEq, Prod.mk.injEq]
    by_cases same : other = unit
    · subst same
      by_cases joined : p.cycles.running = some other <;> simp [joined]
    · simp [same]
  | refused other gone =>
    rw [gone] at service
    cases service
  | @completed other _ _ _ busy accepted =>
    simp only [Moment.Ends, Moment.Opens, Happening.cycle?, busy, accepted]
    simp
  | discarded _ refused => simp [Moment.Ends, Moment.Opens, Happening.cycle?, refused]
  | idle cached idle =>
    cases happening with
    | focused | disposed | begun | delivered | noted => cases idle
    | _ => simp [Moment.Ends, Moment.Opens, Happening.cycle?, Provider.generation]

theorem delivered {unit : U} {generation : Generation} {completion : Completion}
    (operation : p.Operation (.delivered unit generation completion) q) :
    completion.isAccepted = true ∧
        (p.disposed = false ∧ p.cycles.running = some unit ∧ p.generation = generation) ∧
        q.cycles.running = none ∧ q.generation = generation ∧
        (completion = .installed →
          ∃ id ast, q.cached = some ⟨id, unit, .reconciled generation, ast⟩) ∧
        (completion ≠ .installed → q.cached = p.cached) ∨
      completion.isAccepted = false ∧
        ¬ (p.disposed = false ∧ p.cycles.running = some unit ∧ p.generation = generation) ∧ q = p := by
  cases operation with
  | completed service busy accepted installed kept =>
    exact Or.inl ⟨accepted, ⟨service, busy, rfl⟩, p.cycles.close_running, rfl, installed, kept⟩
  | discarded other refused => exact Or.inr ⟨refused, other, rfl⟩
  | idle _ idle => cases idle

end Operation

end Provider

theorem System.step?_operation {limits : Limits} {s after : System U A} {act : Act U A}
    (direct : act.IsDirect) (stepped : s.step? limits act = some after) :
    ∃ happening, after.history = s.history ++ [happening] ∧
      s.provider.Operation happening after.provider := by
  cases act with
  | pass | tick | ask =>
    cases stepped
    exact ⟨_, rfl, .idle s.provider.cached trivial⟩
  | setActive unit =>
    cases stepped
    exact ⟨_, rfl, .focused unit⟩
  | dispose =>
    cases stepped
    exact ⟨_, rfl, .disposed⟩
  | begin unit =>
    cases stepped
    refine ⟨_, rfl, ?_⟩
    rcases s.provider.begin_cases unit with ⟨gone, reply, same⟩ | ⟨service, reply, begun⟩
    · simp only [record, reply, same]
      exact .refused unit gone
    · simp only [record, reply, begun]
      exact .begun unit service
  | deliver ast unit generation =>
    cases stepped
    exact ⟨_, rfl, s.provider.complete_operation _ ast unit generation⟩
  | request i move =>
    obtain ⟨r, next, p, happening, notes, found, effect, rfl⟩ := moveRequest?_some stepped
    refine ⟨happening, rfl, ?_⟩
    cases effect with
    | looked | woken | called | returned => exact .idle s.provider.cached trivial
    | offered _ _ _ installed =>
      rcases installed with rfl | installed
      · exact .idle s.provider.cached trivial
      · obtain ⟨_, _, _, _, rfl⟩ := Provider.installForeground?_some installed
        exact .idle _ trivial
  | spawn | reconciler => cases direct

theorem Provider.Operation.of_step? {limits : Limits} {s after : System U A} {act : Act U A}
    {happening : Happening U A} (direct : act.IsDirect) (stepped : s.step? limits act = some after)
    (grown : after.history = s.history ++ [happening]) :
    s.provider.Operation happening after.provider := by
  obtain ⟨other, grown', operation⟩ := System.step?_operation direct stepped
  obtain rfl : other = happening := by
    have both := grown'.symm.trans grown
    simpa using both
  exact operation

namespace Chronicle

variable {limits : Limits} {s : System U A} {past : List (Moment U A)}

/-- While the provider is in service, the cycle that it has open is the one that
was opened and not ended. -/
theorem stillOpen_iff (chronicle : Chronicle limits Act.IsDirect {} past s)
    (service : s.provider.disposed = false) (unit : U) (generation : Generation) :
    StillOpen past unit generation ↔
      s.provider.cycles.running = some unit ∧ s.provider.generation = generation := by
  induction chronicle with
  | start =>
    constructor
    · rintro ⟨i, m, entry, _⟩
      simp at entry
    · rintro ⟨busy, _⟩
      cases busy
  | next told direct stepped grown ih =>
    have operation := Provider.Operation.of_step? direct stepped grown
    rw [stillOpen_concat, ih (operation.service service)]
    exact operation.running service unit generation

theorem operation (chronicle : Chronicle limits Act.IsDirect {} past s) {j : Nat} {m : Moment U A}
    (entry : past[j]? = some m) :
    ∃ before, Chronicle limits Act.IsDirect {} (past.take j) before ∧ before.provider = m.before ∧
      m.before.Operation m.happening m.after := by
  obtain ⟨before, after, act, told, direct, stepped, turn, same, _⟩ := chronicle.cut entry
  refine ⟨before, told, by rw [same], ?_⟩
  rw [same]
  exact .of_step? direct stepped turn.history

end Chronicle

section Direct

variable {limits : Limits} {s : System U A} {past : List (Moment U A)}

theorem Chronicle.delivered (chronicle : Chronicle limits Act.IsDirect {} past s) {j : Nat}
    {m : Moment U A} (entry : past[j]? = some m) {unit : U} {generation : Generation}
    {completion : Completion} (delivered : m.happening = .delivered unit generation completion) :
    (m.after ≠ m.before ↔ m.before.disposed = false ∧ StillOpen (past.take j) unit generation) ∧
      (completion.isAccepted = true ↔ m.after ≠ m.before) ∧
      (m.after ≠ m.before → m.before.cycles.running = some unit ∧
        m.before.generation = generation ∧ m.after.cycles.running = none ∧
        m.after.generation = generation) := by
  obtain ⟨before, told, same, operation⟩ := chronicle.operation entry
  have account : m.before.disposed = false ∧ StillOpen (past.take j) unit generation ↔
      m.before.disposed = false ∧ m.before.cycles.running = some unit ∧
        m.before.generation = generation := by
    apply and_congr_right
    intro service
    rw [← same] at service ⊢
    exact told.stillOpen_iff service unit generation
  rw [account]
  rw [delivered] at operation
  rcases operation.delivered with
    ⟨accepted, mine, closed, current, _⟩ | ⟨refused, other, unchanged⟩
  · have changed : m.after ≠ m.before := by
      intro unchanged
      rw [unchanged, mine.2.1] at closed
      cases closed
    exact ⟨iff_of_true changed mine, iff_of_true accepted changed,
      fun _ => ⟨mine.2.1, mine.2.2, closed, current⟩⟩
  · have quiet : ¬ m.after ≠ m.before := fun changed => changed unchanged
    refine ⟨iff_of_false quiet other, iff_of_false ?_ quiet, fun changed => absurd changed quiet⟩
    simp [refused]

theorem Chronicle.completes_lt (chronicle : Chronicle limits Act.IsDirect {} past s)
    (few : openings past < UInt64.size) {i j : Nat} {m n : Moment U A} (before : i < j)
    (early : past[i]? = some m) (late : past[j]? = some n) {unit other : U}
    {generation later : Generation} {completion reception : Completion}
    (delivered : m.happening = .delivered unit generation completion)
    (again : n.happening = .delivered other later reception) (changed : m.after ≠ m.before)
    (changed' : n.after ≠ n.before) : generation.toNat < later.toNat := by
  obtain ⟨_, _, closes⟩ := chronicle.delivered early delivered
  obtain ⟨_, _, closes'⟩ := chronicle.delivered late again
  obtain ⟨_, _, closed, current⟩ := closes changed
  obtain ⟨busy, current', _⟩ := closes' changed'
  have advances := chronicle.between few before early late
  have le := advances.le
  rw [current, current'] at le
  apply Nat.lt_of_le_of_ne le
  intro same
  -- Under one number the cycle would have been open again after it was closed.
  have both : n.before.generation = m.after.generation := by
    rw [current, current']
    exact Generation.toNat_inj same.symm
  have still := advances.running both other busy
  rw [closed] at still
  cases still

theorem Chronicle.joins (chronicle : Chronicle limits Act.IsDirect {} past s)
    (few : openings past < UInt64.size) {j : Nat} {m n : Moment U A} (entry : past[j]? = some m)
    {unit : U} {reply : Option Generation} {generation : Generation}
    (begun : m.happening = .begun unit reply) (earlier : n ∈ past.take j)
    (opens : n.Opens unit generation) :
    reply = some generation ↔
      m.before.disposed = false ∧ StillOpen (past.take j) unit generation := by
  obtain ⟨before, told, same, operation⟩ := chronicle.operation entry
  rw [begun] at operation
  generalize m.after = q at operation
  cases operation with
  | refused _ gone => simp [gone]
  | idle _ idle => cases idle
  | begun _ service =>
    have still := told.stillOpen_iff (same ▸ service) unit generation
    rw [still, same]
    by_cases busy : m.before.cycles.running = some unit
    · simp [Cycles.begin_generation, busy, service, Provider.generation]
    · -- A new cycle would have a generation that was not in use before.
      have fewer := Nat.lt_of_le_of_lt (openings_take_le past j) few
      obtain ⟨current, _⟩ := told.opens fewer earlier opens
      have le := (told.advances fewer earlier).2.le
      rw [current, same] at le
      have next : (⟨m.before, m.happening, m.after⟩ : Moment U A).Opens unit m.before.generation.next := by
        constructor
        · simp [Happening.cycle?, begun, Cycles.begin_generation, busy, Provider.generation]
        · exact busy
      obtain ⟨_, count⟩ := chronicle.opens few (List.mem_of_getElem? entry) next
      have apart : m.before.generation.next ≠ generation := by
        rintro rfl
        omega
      simp only [Cycles.begin_generation, busy, Option.some.injEq, false_and, and_false,
        iff_false]
      exact apart

end Direct

theorem System.run?_begins (s : System U A) (limits : Limits) (units : List U) (unit : U) :
    ∃ middle, s.run? limits (units.map .begin ++ [.begin unit]) = some middle ∧
      middle.history.getLast? = some (.begun unit
        (if middle.provider.disposed then none else some middle.provider.generation)) ∧
      (middle.provider.disposed = false → middle.provider.cycles.running = some unit) := by
  induction units generalizing s with
  | nil =>
    refine ⟨_, rfl, ?_⟩
    simp only [record]
    rcases s.provider.begin_cases unit with ⟨gone, reply, same⟩ | ⟨service, reply, begun⟩
    · simp [reply, same, gone]
    · simp [reply, begun, service, Provider.generation, Cycles.begin_running]
  | cons other rest ih =>
    obtain ⟨middle, ran, latest⟩ := ih _
    exact ⟨middle, ran, latest⟩

theorem System.run?_deliveries (s : System U A) (limits : Limits)
    (deliveries : List (Option A × U × Generation)) {unit : U} (busy : s.provider.disposed = false →
      ∀ other, s.provider.cycles.running = some other → other = unit) :
    ∃ last, s.run? limits (deliveries.map fun (ast, other, generation) =>
        .deliver ast other generation) = some last ∧
      (last.provider.cached = s.provider.cached ∨
        ∃ id ast, (some ast, unit, s.provider.generation) ∈ deliveries ∧
          last.provider.cached = some ⟨id, unit, .reconciled s.provider.generation, ast⟩) := by
  induction deliveries generalizing s with
  | nil => exact ⟨s, rfl, Or.inl rfl⟩
  | cons delivery rest ih =>
    obtain ⟨ast, other, generation⟩ := delivery
    have opens := s.provider.complete_opensNone s.history.length ast other generation
    obtain ⟨_, service⟩ := s.provider.complete_frame s.history.length ast other generation
    obtain ⟨next, stepped, provider⟩ : ∃ next,
        s.step? limits (.deliver ast other generation) = some next ∧
          next.provider = (s.provider.complete s.history.length ast other generation).provider :=
      ⟨_, rfl, rfl⟩
    -- A delivery opens no cycle, so whatever is open after it was open before.
    have busy' : next.provider.disposed = false →
        ∀ other, next.provider.cycles.running = some other → other = unit := by
      rw [provider, service]
      intro inService other running
      exact busy inService other (opens.running other running)
    obtain ⟨last, ran, cached⟩ := ih next busy'
    rw [provider, opens.generation] at cached
    refine ⟨last, ?_, ?_⟩
    · simp only [List.map_cons, run?, stepped]
      exact ran
    · rcases cached with kept | ⟨id, content, member, new⟩
      · rcases s.provider.complete_slot s.history.length ast other generation with
          same | ⟨⟨inService, running, now, _⟩, content, given, new⟩
        · exact Or.inl (kept.trans same)
        · right
          subst given now
          obtain rfl := busy inService other running
          exact ⟨_, content, List.mem_cons_self, kept.trans new⟩
      · exact Or.inr ⟨id, content, List.mem_cons_of_mem _ member, new⟩

structure CompletesOnce (limits : Limits) (past : List (Moment U A)) (s : System U A) : Prop where
  opened : ∀ generation : Generation, 0 < generation.toNat →
    generation.toNat ≤ s.provider.generation.toNat →
    ∃ (i : Nat) (m : Moment U A) (unit : U), past[i]? = some m ∧ m.Opens unit generation ∧
      ∀ (j : Nat) (n : Moment U A) (other : U), past[j]? = some n → n.Opens other generation →
        j = i ∧ other = unit
  joined : ∀ (i j : Nat) (m n : Moment U A) (unit : U) (generation : Generation)
    (reply : Option Generation), past[i]? = some m → m.Opens unit generation → i < j →
    past[j]? = some n → n.happening = .begun unit reply →
    (reply = some generation ↔
      n.before.disposed = false ∧ StillOpen (past.take j) unit generation)
  effective : ∀ (j : Nat) (m : Moment U A) (unit : U) (generation : Generation)
    (completion : Completion), past[j]? = some m →
    m.happening = .delivered unit generation completion →
    (m.after ≠ m.before ↔
        m.before.disposed = false ∧ StillOpen (past.take j) unit generation) ∧
      (completion.isAccepted = true ↔ m.after ≠ m.before)
  once : ∀ (i j : Nat) (m n : Moment U A) (unit other : U) (generation : Generation)
    (completion reception : Completion), past[i]? = some m → past[j]? = some n →
    m.happening = .delivered unit generation completion →
    n.happening = .delivered other generation reception →
    m.after ≠ m.before → n.after ≠ n.before → i = j
  installed : ∀ m ∈ past, ∀ (unit : U) (generation : Generation) (completion : Completion),
    m.happening = .delivered unit generation completion →
    (completion = .installed →
        ∃ id ast, m.after.cached = some ⟨id, unit, .reconciled generation, ast⟩) ∧
      (completion ≠ .installed → m.after.cached = m.before.cached)
  rising : ∀ (i j : Nat) (m n : Moment U A) (unit other : U) (generation later : Generation),
    i < j → past[i]? = some m → past[j]? = some n →
    m.happening = .delivered unit generation .installed →
    n.happening = .delivered other later .installed → generation.toNat < later.toNat
  /-- Whatever is delivered after some cycles were begun, in whatever order and
  however often, the cache takes a tree of the latest one only. -/
  latest : ∀ (units : List U) (unit : U) (deliveries : List (Option A × U × Generation)),
    ∃ middle last, s.run? limits (units.map .begin ++ [.begin unit]) = some middle ∧
      middle.history.getLast? = some (.begun unit
        (if middle.provider.disposed then none else some middle.provider.generation)) ∧
      middle.run? limits (deliveries.map fun (ast, other, generation) =>
        .deliver ast other generation) = some last ∧
      (last.provider.cached = middle.provider.cached ∨
        ∃ id ast, (some ast, unit, middle.provider.generation) ∈ deliveries ∧
          last.provider.cached = some ⟨id, unit, .reconciled middle.provider.generation, ast⟩)

/-- In every run of operations on the provider, with requests among them, each
cycle is opened once, for one unit, and is joined while it is open. A completion
takes effect if and only if the provider is in service and the cycle that it
names is still open, and so at most once for each cycle; any other completion
changes nothing. The trees that completions install are of ever later cycles. -/
theorem cycles_complete_once {limits : Limits} {s : System U A} {past : List (Moment U A)}
    (chronicle : Chronicle limits Act.IsDirect {} past s) (few : openings past < UInt64.size) :
    CompletesOnce limits past s where
  opened := by
    intro generation positive bound
    obtain ⟨m, member, unit, opens⟩ := chronicle.opened few generation positive bound
    obtain ⟨i, entry⟩ := List.mem_iff_getElem?.mp member
    refine ⟨i, m, unit, entry, opens, fun j n other entry' opens' => ?_⟩
    obtain rfl : j = i := by
      rcases Nat.lt_trichotomy j i with before | same | after
      · exact absurd before (chronicle.opens_apart few entry' entry opens' opens)
      · exact same
      · exact absurd after (chronicle.opens_apart few entry entry' opens opens')
    rw [entry] at entry'
    cases entry'
    exact ⟨rfl, (opens'.cycle opens).1⟩
  joined := by
    intro i j m n unit generation reply early opens before late begun
    exact chronicle.joins few late begun (mem_take before early) opens
  effective := by
    intro j m unit generation completion entry delivered
    obtain ⟨account, accepted, _⟩ := chronicle.delivered entry delivered
    exact ⟨account, accepted⟩
  once := by
    intro i j m n unit other generation completion reception early late delivered again changed changed'
    rcases Nat.lt_trichotomy i j with before | same | after
    · have less := chronicle.completes_lt few before early late delivered again changed changed'
      exact absurd less (Nat.lt_irrefl _)
    · exact same
    · have less := chronicle.completes_lt few after late early again delivered changed' changed
      exact absurd less (Nat.lt_irrefl _)
  installed := by
    intro m member unit generation completion delivered
    obtain ⟨j, entry⟩ := List.mem_iff_getElem?.mp member
    obtain ⟨_, _, _, operation⟩ := chronicle.operation entry
    rw [delivered] at operation
    rcases operation.delivered with ⟨_, _, _, _, installed⟩ | ⟨refused, _, same⟩
    · exact installed
    · constructor
      · rintro rfl
        cases refused
      · intro _
        rw [same]
  rising := by
    intro i j m n unit other generation later before early late delivered again
    have changed := ((chronicle.delivered early delivered).2.1).mp rfl
    have changed' := ((chronicle.delivered late again).2.1).mp rfl
    exact chronicle.completes_lt few before early late delivered again changed changed'
  latest := by
    intro units unit deliveries
    obtain ⟨middle, begun, reply, busy⟩ := s.run?_begins limits units unit
    have alone : middle.provider.disposed = false →
        ∀ other, middle.provider.cycles.running = some other → other = unit := by
      intro service other running
      rw [busy service] at running
      exact (Option.some.inj running).symm
    obtain ⟨last, delivered, cached⟩ := middle.run?_deliveries limits deliveries alone
    exact ⟨middle, last, begun, reply, delivered, cached⟩

/-- Unit 7 has a cycle that is joined and then superseded, one that the focus
abandons on a round trip, and one that completes. Each is delivered late, forged
or twice. -/
def adverseRun : List (Act Nat Nat) :=
  [.setActive (some 7), .begin 7, .begin 7, .deliver (some 1) 7 ⟨2⟩, .begin 8,
    .deliver (some 2) 7 ⟨1⟩, .begin 7, .setActive (some 8), .setActive (some 7),
    .deliver (some 3) 7 ⟨3⟩, .begin 7, .deliver (some 4) 7 ⟨4⟩, .deliver (some 5) 7 ⟨4⟩]

theorem cycles_complete_once_adverse :
    ∃ s : System Nat Nat, System.run? ⟨{}, 1000⟩ {} adverseRun = some s ∧
      CompletesOnce ⟨{}, 1000⟩ (System.moments ⟨{}, 1000⟩ {} adverseRun) s ∧
      s.provider.cached = some ⟨11, 7, .reconciled ⟨4⟩, 4⟩ ∧
      ¬ StillOpen ((System.moments ⟨{}, 1000⟩ {} adverseRun).take 9) 7 ⟨3⟩ ∧
      StillOpen ((System.moments ⟨{}, 1000⟩ {} adverseRun).take 11) 7 ⟨4⟩ := by
  have direct : ∀ act ∈ adverseRun, act.IsDirect := by simp [adverseRun, Act.IsDirect]
  have ran : System.run? ⟨{}, 1000⟩ {} adverseRun =
      some ((System.run? ⟨{}, 1000⟩ {} adverseRun).get rfl) := rfl
  have once := cycles_complete_once (Chronicle.of_run? direct ran) (by decide)
  refine ⟨_, ran, once, rfl, fun still => ?_, ?_⟩
  · obtain ⟨account, _⟩ := once.effective 9 _ 7 ⟨3⟩ .stale rfl rfl
    exact absurd (account.mpr ⟨rfl, still⟩) (by decide)
  · obtain ⟨account, _⟩ := once.effective 11 _ 7 ⟨4⟩ .installed rfl rfl
    exact (account.mp (by decide)).2

end FreshTree
