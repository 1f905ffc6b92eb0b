import FreshTree.Proofs.Provenance

/-!
Whoever begins a cycle of a unit and requests its tree after that gets nothing
from before the cycle. The cache of the unit is emptied when the cycle begins,
and a foreground parse that set out before it carries an older generation, so
its tree stays out of the cache. What such a request parses itself is called for
after it was made.
-/

namespace FreshTree

variable {U A : Type}

def Tree.IsSince (generation : Generation) (begun : Nat) (tree : Tree U A) : Prop :=
  match tree.origin with
  | .reconciled own => generation.toNat ≤ own.toNat
  | .foreground | .detached => begun < tree.id

theorem Tree.isSince_of_origin {generation : Generation} {begun : Nat} {tree : Tree U A}
    (own : tree.origin.isReconciled = false) (after : begun < tree.id) :
    tree.IsSince generation begun := by
  unfold IsSince
  cases origin : tree.origin with
  | reconciled => simp [origin, Origin.isReconciled] at own
  | foreground | detached => exact after

def CallsAfter (history : List (Happening U A)) (begun : Nat) (caller : Caller) : Prop :=
  ∀ call, callMoment? history caller = some call → begun < call

theorem CallsAfter.grow {history : List (Happening U A)} {begun : Nat} {caller : Caller}
    (calls : CallsAfter history begun caller) (past : begun < history.length)
    (happening : Happening U A) : CallsAfter (history ++ [happening]) begun caller := by
  intro call found
  cases before : callMoment? history caller with
  | some earlier =>
    -- The first call on record stays the first.
    have same : callMoment? (history ++ [happening]) caller = some earlier := by
      simp [callMoment?, List.findIdx?_append] at before ⊢
      simp [before]
    rw [found] at same
    cases same
    exact calls call before
  | none =>
    obtain ⟨unit, entry⟩ := callMoment?_some found
    rcases entry_append.mp entry with old | ⟨rfl, _⟩
    · exact absurd (List.mem_of_getElem? old) (callMoment?_none before unit)
    · exact past

/-- How request `i` for the unit stands to the cycle: a parse for the cache that
was called for before the cycle has an older generation, and a request made
after the first `earlier` ones is answered with nothing older than the cycle. -/
structure Request.Since (generation : Generation) (begun earlier : Nat)
    (history : List (Happening U A)) (i : Nat) (r : Request U A) : Prop where
  parse : ∀ since, r.stage.since? = some since →
    since.toNat < generation.toNat ∨ CallsAfter history begun (.request i)
  answer : earlier ≤ i → ∀ tree, r.stage = .answered (some tree) → tree.IsSince generation begun

/-- The cycle `generation` of `unit` was begun at the moment `begun`, when
`earlier` requests had been made. -/
structure System.Since (unit : U) (generation : Generation) (begun earlier : Nat)
    (s : System U A) : Prop where
  past : begun < s.history.length
  le : generation.toNat ≤ s.provider.generation.toNat
  cached : ∀ tree, s.provider.cached = some tree → tree.unit = unit →
    tree.IsSince generation begun
  since : ∀ (i : Nat) (r : Request U A), s.requests[i]? = some r → r.unit = unit →
    r.Since generation begun earlier s.history i
  calls : ∀ i, earlier ≤ i → CallsAfter s.history begun (.request i)

namespace Request.Since

variable {generation : Generation} {begun earlier : Nat} {history : List (Happening U A)} {i : Nat}
  {r after : Request U A} {happening : Happening U A}

theorem keep (since : r.Since generation begun earlier history i) (past : begun < history.length)
    (happening : Happening U A) : r.Since generation begun earlier (history ++ [happening]) i := by
  constructor
  · intro set parses
    rcases since.parse set parses with old | calls
    · exact Or.inl old
    · exact Or.inr (calls.grow past happening)
  · exact since.answer

variable [DecidableEq U] {p q : Provider U A}

theorem move (since : r.Since generation begun earlier history i) (inStep : r.InStep p)
    (traced : r.Traced history i) (past : begun < history.length)
    (calls : earlier ≤ i → CallsAfter history begun (.request i))
    (cached : ∀ tree, p.cached = some tree → tree.unit = r.unit → tree.IsSince generation begun)
    (effect : r.Effect (callMoment? history (.request i)) i p after q happening) :
    after.Since generation begun earlier (history ++ [happening]) i := by
  have kept := since.keep past happening
  cases effect with
  | looked looking unit sight =>
    have uncalled := traced.uncalled (by rw [looking]; rfl)
    constructor
    · -- Who looks has called nothing yet.
      intro set parses
      right
      apply CallsAfter.grow _ past
      intro call found
      rw [uncalled] at found
      cases found
    · intro new tree answered
      rw [answered] at sight
      cases sight with
      | served held mine => exact cached tree held mine
  | woken =>
    constructor
    · intro set parses
      cases parses
    · intro new tree answered
      cases answered
  | called => exact kept
  | @returned _ _ id _ parsing called unit outlook =>
    constructor
    · intro set parses
      apply kept.parse set
      rw [← parses, parsing]
      generalize after.stage = reached at outlook parses ⊢
      cases outlook with
      | refused | detached => cases parses
      | foreground => rfl
    · intro new tree answered
      rw [answered] at outlook
      cases outlook with
      | detached => exact calls new id called
  | @offered _ _ tree set ready unit answered =>
    constructor
    · intro other parses
      rcases answered with stage | stage <;> rw [stage] at parses <;> cases parses
    · intro new last stage
      rcases answered with refused | same
      · rw [refused] at stage
        cases stage
      · rw [same] at stage
        cases stage
        apply Tree.isSince_of_origin
        · rw [(inStep.offer tree set ready).2]
          rfl
        · exact calls new tree.id (traced.offer tree set ready).1

end Request.Since

namespace System.Since

variable [DecidableEq U] {unit : U} {generation : Generation} {begun earlier : Nat}
  {s after : System U A} {happening : Happening U A}

omit [DecidableEq U] in
theorem offered (since : s.Since unit generation begun earlier) (regular : s.Regular)
    (traced : s.Traced) {i : Nat} {r : Request U A} (found : s.requests[i]? = some r)
    {tree : Tree U A} {set : Generation} (ready : r.stage = .installing tree set)
    (current : s.provider.generation = set) (mine : tree.unit = unit) :
    tree.IsSince generation begun := by
  obtain ⟨own, origin⟩ := (regular.requests i r found).offer tree set ready
  apply Tree.isSince_of_origin
  · rw [origin]
    rfl
  · rcases (since.since i r found (own.symm.trans mine)).parse set (by rw [ready]; rfl) with old | after
    · have bound := since.le
      rw [current] at bound
      omega
    · exact after tree.id ((traced.requests i r found).offer tree set ready).1

theorem outdated (turn : s.Turn happening after)
    (cycle : happening.cycle? = some (unit, generation)) (counts : s.Counts happening after)
    {r : Request U A} (inStep : r.InStep s.provider) (mine : r.unit = unit) {set : Generation}
    (parses : r.stage.since? = some set) : set.toNat < generation.toNat := by
  obtain ⟨bound, free⟩ := inStep.quiet set parses
  obtain ⟨_, opened, _⟩ := turn.begun cycle
  have counted := counts.toNat
  rw [(turn.begun_now cycle).2] at counted
  -- Its number may be an old one if the cycle is joined, but no request sets out to parse
  -- while the cycle of its unit is open.
  by_cases joined : s.provider.cycles.running = some unit
  · apply Nat.lt_of_le_of_ne
    · omega
    · intro current
      have back : s.provider.generation = set := by
        rw [← Generation.toNat_inj current.symm, opened, Cycles.begin_generation, if_pos joined,
          Provider.generation]
      rw [mine] at free
      exact free back joined
  · have opens : (⟨s.provider, happening, after.provider⟩ : Moment U A).isOpening = true := by
      simp [Moment.isOpening, cycle, joined]
    rw [if_pos opens] at counted
    omega

theorem start (turn : s.Turn happening after) (cycle : happening.cycle? = some (unit, generation))
    (counts : s.Counts happening after) (regular : s.Regular) (traced : s.Traced) :
    after.Since unit generation s.history.length s.requests.length := by
  obtain ⟨_, opened, provider, same⟩ := turn.begun cycle
  obtain ⟨_, now⟩ := turn.begun_now cycle
  have uncalled : ∀ i, s.requests.length ≤ i →
      CallsAfter after.history s.history.length (.request i) := by
    intro i new call found
    obtain ⟨other, entry⟩ := callMoment?_some found
    rw [turn.history] at entry
    rcases entry_append.mp entry with before | ⟨_, rfl⟩
    · exact absurd rfl (traced.unasked i new _ (List.mem_of_getElem? before))
    · cases cycle
  constructor
  · simp [turn.history]
  · exact Nat.le_of_eq (by rw [now])
  · intro tree cached mine
    rw [provider] at cached
    exact absurd mine (Provider.invalidate_cached cached).2
  · intro i r found mine
    rw [same] at found
    have inside := (List.getElem?_eq_some_iff.mp found).1
    constructor
    · intro set parses
      exact Or.inl (outdated turn cycle counts (regular.requests i r found) mine parses)
    · intro new
      omega
  · exact uncalled

theorem turn (since : s.Since unit generation begun earlier) (regular : s.Regular)
    (traced : s.Traced) (turn : s.Turn happening after) (counts : s.Counts happening after) :
    after.Since unit generation begun earlier := by
  have past : begun < after.history.length := by
    rw [turn.history, List.length_append]
    exact Nat.lt_add_right _ since.past
  have le := Nat.le_trans since.le counts.advances.le
  have calls : ∀ i, earlier ≤ i → CallsAfter after.history begun (.request i) := by
    intro i new
    rw [turn.history]
    exact (since.calls i new).grow since.past happening
  cases turn with
  | touched touch =>
    refine ⟨past, le, fun tree cached mine => ?_, fun i r found mine => ?_, calls⟩
    · rcases touch.cached cached with before | ⟨_, reconciled⟩
      · exact since.cached tree before mine
      · unfold Tree.IsSince
        rw [reconciled]
        exact since.le
    · exact (since.since i r found mine).keep since.past _
  | asked =>
    refine ⟨past, le, since.cached, fun i r found mine => ?_, calls⟩
    rcases entry_append.mp found with before | ⟨_, rfl⟩
    · exact (since.since i r before mine).keep since.past _
    · constructor
      · intro set parses
        cases parses
      · intro new tree answered
        cases answered
  | @moved j r next _ _ _ found effect =>
    refine ⟨past, le, fun tree cached mine => ?_, fun i r' found' mine => ?_, calls⟩
    · cases effect with
      | looked | woken | called | returned => exact since.cached tree cached mine
      | offered ready _ _ installed =>
        rcases installed with rfl | installed
        · exact since.cached tree cached mine
        · obtain ⟨_, _, current, _, rfl⟩ := Provider.installForeground?_some installed
          cases cached
          exact since.offered regular traced found ready current mine
    · rcases getElem?_set_cases found found' with ⟨rfl, rfl⟩ | ⟨_, before⟩
      · rw [effect.unit] at mine
        have cached : ∀ tree, s.provider.cached = some tree → tree.unit = r.unit →
            tree.IsSince generation begun :=
          fun tree cached own => since.cached tree cached (own.trans mine)
        exact (since.since i r found mine).move (regular.requests i r found)
          (traced.requests i r found) since.past (since.calls i) cached effect
      · exact (since.since i r' before mine).keep since.past _

end System.Since

variable [DecidableEq U] {limits : Limits} {allowed : Act U A → Prop} {first s last : System U A}
  {past later : List (Moment U A)}

namespace System.Turn

variable {after : System U A} {happening : Happening U A}

theorem requests (turn : s.Turn happening after) {i : Nat} {r : Request U A}
    (found : s.requests[i]? = some r) : ∃ r', after.requests[i]? = some r' ∧ r'.unit = r.unit := by
  cases turn with
  | touched => exact ⟨r, found, rfl⟩
  | asked => exact ⟨r, entry_append.mpr (Or.inl found), rfl⟩
  | @moved j other next _ _ _ found' effect =>
    by_cases here : i = j
    · subst here
      rw [found] at found'
      cases found'
      have inside := (List.getElem?_eq_some_iff.mp found).1
      exact ⟨next, List.getElem?_set_self inside, effect.unit⟩
    · refine ⟨r, ?_, rfl⟩
      change (s.requests.set j next)[i]? = some r
      rw [List.getElem?_set_ne (Ne.symm here)]
      exact found

theorem asks (turn : s.Turn happening after) {i : Nat} {unit : U} {policy : Policy}
    (asked : happening = .asked i unit policy) :
    i = s.requests.length ∧ ∃ r, after.requests[i]? = some r ∧ r.unit = unit := by
  cases turn with
  | touched _ apart =>
    rw [asked] at apart
    exact absurd rfl (apart i)
  | asked =>
    cases asked
    exact ⟨rfl, _, entry_append.mpr (Or.inr ⟨rfl, rfl⟩), rfl⟩
  | moved _ effect => cases effect <;> cases asked

theorem requests_le (turn : s.Turn happening after) : s.requests.length ≤ after.requests.length := by
  cases turn with
  | touched => exact Nat.le_refl _
  | asked => simp [System.record]
  | moved => simp [System.record]

end System.Turn

theorem Chronicle.asked (chronicle : Chronicle limits allowed first later last) :
    first.requests.length ≤ last.requests.length ∧
      ∀ (asked i : Nat) (unit : U) (policy : Policy),
        last.history[asked]? = some (.asked i unit policy) → first.history.length ≤ asked →
        first.requests.length ≤ i ∧ ∃ r, last.requests[i]? = some r ∧ r.unit = unit := by
  induction chronicle with
  | start =>
    refine ⟨Nat.le_refl _, fun asked i unit policy entry inside => ?_⟩
    have short := (List.getElem?_eq_some_iff.mp entry).1
    omega
  | next _ _ stepped grown ih =>
    have turn := System.Turn.of_step? stepped grown
    refine ⟨Nat.le_trans ih.1 turn.requests_le, fun asked i unit policy entry inside => ?_⟩
    rw [grown] at entry
    rcases entry_append.mp entry with before | ⟨_, now⟩
    · obtain ⟨new, r, found, mine⟩ := ih.2 asked i unit policy before inside
      obtain ⟨r', found', same⟩ := turn.requests found
      exact ⟨new, r', found', same.trans mine⟩
    · obtain ⟨rfl, made⟩ := turn.asks now
      exact ⟨ih.1, made⟩

namespace Chronicle

theorem before (chronicle : Chronicle limits allowed {} past s) (few : openings past < UInt64.size)
    {n : Moment U A} (member : n ∈ past) :
    n.before.Intact ∧ ∀ tree, n.before.cached = some tree → tree.origin.isReconciled = false →
      tree.id < past.length := by
  refine chronicle.invariant (motive := fun past _ => ∀ n ∈ past, n.before.Intact ∧
    ∀ tree, n.before.cached = some tree → tree.origin.isReconciled = false →
      tree.id < past.length) few (by simp) ?_ n member
  intro past before happening after told earlier turn few n member
  rw [List.length_append]
  rcases List.mem_append.mp member with old | new
  · obtain ⟨intact, called⟩ := earlier n old
    exact ⟨intact, fun tree cached own => Nat.lt_add_right _ (called tree cached own)⟩
  · obtain rfl := List.mem_singleton.mp new
    have fewer := Nat.lt_of_le_of_lt (openings_le_append past _) few
    refine ⟨(told.regular fewer).provider, fun tree cached own => ?_⟩
    obtain ⟨caller, called, _⟩ := (told.traced fewer).cached tree cached own
    have inside := (List.getElem?_eq_some_iff.mp called).1
    simp only [told.history, List.nil_append, List.length_map] at inside
    exact Nat.lt_add_right _ inside

theorem held_older (chronicle : Chronicle limits allowed {} past s)
    (few : openings past < UInt64.size) {begun : Nat} (now : past.length = begun + 1)
    {n : Moment U A} (member : n ∈ past) {tree : Tree U A} (cached : n.before.cached = some tree)
    (busy : s.provider.cycles.running = some tree.unit) :
    ¬ tree.IsSince s.provider.generation begun := by
  intro since
  obtain ⟨intact, called⟩ := chronicle.before few member
  obtain ⟨early, late⟩ := chronicle.advances few member
  have advances := early.trans late
  unfold Tree.IsSince at since
  rcases intact.origin tree cached with foreground | ⟨own, reconciled, bound⟩
  · have before := called tree cached (by rw [foreground]; rfl)
    rw [now] at before
    rw [foreground] at since
    exact Nat.lt_irrefl _ (Nat.lt_of_lt_of_le before since)
  · rw [reconciled] at since
    -- So the cycle was open already, and its unit had nothing in the cache.
    have le := advances.le
    dsimp only at since
    have same : s.provider.generation = n.before.generation := Generation.toNat_inj (by omega)
    exact intact.apart tree cached (advances.running same _ busy)

theorem since (chronicle : Chronicle limits allowed {} past s) (few : openings past < UInt64.size)
    {begun : Nat} {m : Moment U A} (entry : past[begun]? = some m) {unit : U}
    {generation : Generation} (cycle : m.happening.cycle? = some (unit, generation)) :
    ∃ after, Chronicle limits allowed {} (past.take (begun + 1)) after ∧
      Chronicle limits allowed after (past.drop (begun + 1)) s ∧
      after.history.length = begun + 1 ∧ after.provider.cycles.running = some unit ∧
      after.provider.generation = generation ∧
      s.Since unit generation begun after.requests.length := by
  obtain ⟨before, after, act, told, fine, stepped, turn, same, rest⟩ := chronicle.cut entry
  have opened := told.next fine stepped turn.history
  rw [← same] at opened
  have upTo : past.take begun ++ [m] = past.take (begun + 1) := by
    rw [List.take_add_one, entry]
    rfl
  have inside := (List.getElem?_eq_some_iff.mp entry).1
  have moment : before.history.length = begun := by
    simp only [told.history, List.nil_append, List.length_map, List.length_take]
    omega
  obtain ⟨_, _, _, requests⟩ := turn.begun cycle
  obtain ⟨busy, now⟩ := turn.begun_now cycle
  have whole : openings ((past.take begun ++ [m]) ++ past.drop (begun + 1)) < UInt64.size := by
    rw [upTo, List.take_append_drop]
    exact few
  have start : after.Since unit generation begun after.requests.length := by
    have upToThis := Nat.lt_of_le_of_lt (openings_le_append _ _) whole
    have fewer := Nat.lt_of_le_of_lt (openings_le_append _ _) upToThis
    have counts : before.Counts m.happening after := by
      apply told.counts turn
      rw [← same]
      exact upToThis
    have since := System.Since.start turn cycle counts (told.regular fewer) (told.traced fewer)
    rwa [moment, ← requests] at since
  refine ⟨after, upTo ▸ opened, rest, ?_, busy, now, ?_⟩
  · rw [turn.history, List.length_append, moment]
    rfl
  -- The begin establishes the invariant, and every later turn keeps it.
  · refine opened.invariant_from (motive := System.Since _ _ _ _) rest whole start ?_
    intro _ _ _ regular traced turn counts _ since
    exact since.turn regular traced turn counts

end Chronicle

/-- A request that was made after a cycle of its unit was begun is never answered
with a tree that the cache held before: a reconciled tree comes from this cycle or a
later one, and any other tree from an engine call that started after it was begun. -/
theorem own_cycle_read (chronicle : Chronicle limits allowed {} past s)
    (few : openings past < UInt64.size) {begun asked i : Nat} {m : Moment U A} {unit : U}
    {generation : Generation} {policy : Policy} {r : Request U A} {tree : Tree U A}
    (entry : past[begun]? = some m) (cycle : m.happening.cycle? = some (unit, generation))
    (asks : s.history[asked]? = some (.asked i unit policy)) (later : begun < asked)
    (found : s.requests[i]? = some r) (answered : r.stage = .answered (some tree)) :
    tree.unit = unit ∧ (∀ n ∈ past.take (begun + 1), n.before.cached ≠ some tree) ∧
      match tree.origin with
      | .reconciled own => generation.toNat ≤ own.toNat
      | .foreground | .detached => begun < tree.id ∧ tree.Comes s.history := by
  obtain ⟨after, told, rest, moment, busy, rfl, since⟩ := chronicle.since few entry cycle
  -- The request is new to the part of the run after the begin.
  obtain ⟨new, r', found', mine⟩ := rest.asked.2 asked i unit policy asks (by omega)
  rw [found] at found'
  cases found'
  have own := (since.since i r found mine).answer new tree answered
  obtain ⟨unit', comes⟩ := ((chronicle.traced few).requests i r found).answer tree answered
  have its : tree.unit = unit := unit'.trans mine
  refine ⟨its, fun n member cached => ?_, ?_⟩
  · have inside := (List.getElem?_eq_some_iff.mp entry).1
    have length : (past.take (begun + 1)).length = begun + 1 := by
      rw [List.length_take]
      omega
    rw [← its] at busy
    exact told.held_older (Nat.lt_of_le_of_lt (openings_take_le past _) few) length member cached
      busy own
  · unfold Tree.IsSince at own
    cases origin : tree.origin with
    | reconciled => simpa [origin] using own
    | foreground | detached =>
      rw [origin] at own
      exact ⟨own, comes (by rw [origin]; rfl)⟩

/-- Request 0 sets out to parse unit 7 before a cycle of it is begun, which the
focus abandons by leaving and coming back, and offers its tree before request 1,
made after that, looks at the provider. -/
def roundTripRun : List (Act Nat Nat) :=
  [.setActive (some 7), .ask 7 .waitForCurrent, .request 0 (.look false), .request 0 .call,
    .begin 7, .setActive (some 8), .setActive (some 7), .ask 7 .waitForCurrent,
    .request 0 (.finish false (.returned (.ok 4))), .request 0 (.install false),
    .request 1 (.look false), .request 1 .call, .request 1 (.finish false (.returned (.ok 5))),
    .request 1 (.install false)]

theorem own_cycle_read_roundTrip :
    ∃ (s : System Nat Nat) (m : Moment Nat Nat) (r : Request Nat Nat),
      System.run? ⟨{}, 1000⟩ {} roundTripRun = some s ∧
        (System.moments ⟨{}, 1000⟩ {} roundTripRun)[4]? = some m ∧
        m.happening.cycle? = some (7, ⟨1⟩) ∧ s.history[7]? = some (.asked 1 7 .waitForCurrent) ∧
        s.requests[1]? = some r ∧ r.stage = .answered (some ⟨11, 7, .foreground, 5⟩) ∧ 4 < 11 ∧
        (⟨11, 7, .foreground, 5⟩ : Tree Nat Nat).Comes s.history := by
  have ran : System.run? ⟨{}, 1000⟩ {} roundTripRun =
      some ((System.run? ⟨{}, 1000⟩ {} roundTripRun).get rfl) := rfl
  have told : Chronicle ⟨{}, 1000⟩ (fun _ => True) {} (System.moments ⟨{}, 1000⟩ {} roundTripRun)
      ((System.run? ⟨{}, 1000⟩ {} roundTripRun).get rfl) :=
    Chronicle.of_run? (fun _ _ => trivial) ran
  have stage : ((System.run? ⟨{}, 1000⟩ {} roundTripRun).get rfl).requests[1]?.map Request.stage =
      some (.answered (some ⟨11, 7, .foreground, 5⟩)) := rfl
  obtain ⟨r, found, answered⟩ := Option.map_eq_some_iff.mp stage
  have entry : ((System.moments ⟨{}, 1000⟩ {} roundTripRun)[4]?.map fun m => m.happening.cycle?) =
      some (some (7, ⟨1⟩)) := rfl
  obtain ⟨m, begun, cycle⟩ := Option.map_eq_some_iff.mp entry
  have asked : ((System.run? ⟨{}, 1000⟩ {} roundTripRun).get rfl).history[7]? =
      some (.asked 1 7 .waitForCurrent) := rfl
  obtain ⟨_, _, after, comes⟩ :=
    own_cycle_read told (by decide) begun cycle asked (by decide) found answered
  exact ⟨_, m, r, ran, begun, cycle, asked, found, answered, after, comes⟩

end FreshTree
