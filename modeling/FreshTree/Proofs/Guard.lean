import FreshTree.Proofs.Footprint

/-!
The guard of a foreground install. A request remembers the generation at the look that
made it parse, and the generation counts the cycles that are opened. So whether its tree
is kept depends on the provider at the offer and on whether any cycle was opened since
that look. Nothing else that happens in between matters.
-/

namespace FreshTree

variable {U A : Type} [DecidableEq U]

/-! The generation counts the cycles that are opened. -/

theorem System.Turn.generation {s after : System U A} {happening : Happening U A}
    (turn : s.Turn happening after) :
    after.provider.generation.count =
      s.provider.generation.count +
        UInt64.ofNat (openings [⟨s.provider, happening, after.provider⟩]) := by
  have idle : happening.cycle? = none → s.provider.OpensNone after.provider →
      after.provider.generation.count = s.provider.generation.count +
        UInt64.ofNat (openings [⟨s.provider, happening, after.provider⟩]) := by
    intro none opens
    have unopened : (⟨s.provider, happening, after.provider⟩ : Moment U A).isOpening = false :=
      Moment.isOpening_eq_false none
    simp [openings, unopened, opens.generation]
  cases turn with
  | @touched _ _ _ _ _ _ touch =>
    cases touch with
    | kept none => exact idle none (.refl _)
    | focused unit => exact idle rfl (s.provider.setActive_opensNone unit)
    | disposed => exact idle rfl s.provider.dispose_opensNone
    | completed id ast unit generation none =>
      exact idle none (s.provider.complete_opensNone id ast unit generation)
    | begun unit service cycle =>
      change (Provider.generation (Provider.invalidate _ unit)).count = _
      rw [Provider.generation, Provider.invalidate_cycles, Cycles.begin_generation]
      by_cases joined : s.provider.cycles.running = some unit
      · simp [openings, Moment.isOpening, cycle, joined, Provider.generation]
      · simp [openings, Moment.isOpening, cycle, joined, Provider.generation, Generation.next]
  | asked => exact idle rfl (.refl _)
  | moved found effect => exact idle effect.cycle?_eq_none effect.opensNone

namespace Chronicle

variable {limits : Limits} {allowed : Act U A → Prop} {first last : System U A}
  {later : List (Moment U A)}

/-- The generation wraps, so it counts modulo 2^64. -/
theorem generation_count (late : Chronicle limits allowed first later last) :
    last.provider.generation.count =
      first.provider.generation.count + UInt64.ofNat (openings later) := by
  induction late with
  | start => simp [openings]
  | next _ _ stepped grown ih =>
    rw [(System.Turn.of_step? stepped grown).generation, ih, openings_append, UInt64.ofNat_add,
      UInt64.add_assoc]

theorem generation_eq_iff (late : Chronicle limits allowed first later last)
    (few : openings later < UInt64.size) :
    last.provider.generation = first.provider.generation ↔ openings later = 0 := by
  have words : last.provider.generation = first.provider.generation ↔
      last.provider.generation.count = first.provider.generation.count :=
    ⟨congrArg Generation.count, congrArg Generation.mk⟩
  rw [words, late.generation_count]
  exact add_ofNat_eq_self few

end Chronicle

/-! Whose tree is in the cache. -/

/-- A tree in the cache that was parsed in the foreground is one of a request that was
answered. -/
def System.IsSettled (s : System U A) : Prop :=
  ∀ tree, s.provider.cached = some tree → tree.origin = .foreground →
    ∃ j r, s.requests[j]? = some r ∧ r.stage.isAnswered = true ∧
      callMoment? s.history (.request j) = some tree.id

namespace System

variable {limits : Limits} {s after : System U A} {act : Act U A} {happening : Happening U A}
  {tree : Tree U A}

theorem step?_cached (stepped : s.step? limits act = some after)
    (grown : after.history = s.history ++ [happening]) (other : ∀ j move, act ≠ .request j move)
    (cached : after.provider.cached = some tree) (origin : tree.origin = .foreground) :
    s.provider.cached = some tree := by
  cases System.Turn.of_step? stepped grown with
  | touched touch =>
    rcases touch.cached cached with before | ⟨_, reconciled⟩
    · exact before
    · rw [origin] at reconciled
      cases reconciled
  | asked => exact cached
  | @moved j _ _ _ _ _ _ effect =>
    refine absurd ?_ (step?_owner stepped grown (other j))
    cases effect <;> rfl

theorem step?_answered (stepped : s.step? limits act = some after)
    (grown : after.history = s.history ++ [happening]) {j : Nat} {r : Request U A}
    (found : s.requests[j]? = some r) (done : r.stage.isAnswered = true) :
    after.requests[j]? = some r := by
  cases sees stepped grown j with
  | own found' moved =>
    cases found.symm.trans found'
    rw [(Request.move?_course moved).unanswered] at done
    cases done
  | others _ _ same => exact same.trans found
  | made new => exact absurd new (Nat.ne_of_lt (List.getElem?_eq_some_iff.mp found).1)

theorem IsSettled.step (settled : s.IsSettled) (stepped : s.step? limits act = some after)
    (grown : after.history = s.history ++ [happening])
    (offer : ∀ j r tree since, s.requests[j]? = some r → r.stage = .installing tree since →
      callMoment? s.history (.request j) = some tree.id) : after.IsSettled := by
  intro tree cached origin
  -- Either the tree was cached before, or this act is the offer that brought it.
  have kept : s.provider.cached = some tree → ∃ j r, after.requests[j]? = some r ∧
      r.stage.isAnswered = true ∧ callMoment? after.history (.request j) = some tree.id := by
    intro before
    obtain ⟨j, r, found, done, call⟩ := settled tree before origin
    refine ⟨j, r, step?_answered stepped grown found done, done, ?_⟩
    rw [grown]
    exact callMoment?_append call _
  by_cases own : ∃ j move, act = .request j move
  · obtain ⟨j, move, rfl⟩ := own
    cases sees stepped grown j with
    | own found moved found' =>
      rcases (Request.move?_course moved).kept with
        same | ⟨tree', since, rfl, ready, taken, rfl⟩
      · rw [same] at cached
        exact kept cached
      · obtain ⟨_, _, _, _, installed⟩ := Provider.installForeground?_some taken
        rw [installed] at cached
        cases cached
        refine ⟨j, _, found', rfl, ?_⟩
        rw [grown]
        exact callMoment?_append (offer j _ tree since found ready) _
    | others other => exact absurd rfl (other move)
  · have other : ∀ j move, act ≠ .request j move := fun j move same => own ⟨j, move, same⟩
    exact kept (step?_cached stepped grown other cached origin)

end System

theorem Chronicle.settled {limits : Limits} {allowed : Act U A → Prop} {past : List (Moment U A)}
    {s : System U A} (chronicle : Chronicle limits allowed {} past s) : s.IsSettled := by
  induction chronicle with
  | start =>
    intro tree cached
    cases cached
  | next early _ stepped grown ih =>
    refine ih.step stepped grown fun j r tree since found ready => ?_
    have own := (((early.footing j).2 r found).offer tree since ready).2
    have told := early.history
    rw [told]
    exact own.call

/-! The request between its look and its offer. -/

def Act.OnlyCalls (i : Nat) (act : Act U A) : Prop := ∀ move, act = .request i move → move = .call

theorem Chronicle.keeps_request {limits : Limits} {i : Nat} {r : Request U A}
    {first last : System U A} {later : List (Moment U A)}
    (late : Chronicle limits (Act.OnlyCalls i) first later last)
    (found : first.requests[i]? = some r) : last.requests[i]? = some r := by
  induction late with
  | start => exact found
  | next _ fine stepped grown ih =>
    cases System.sees stepped grown i with
    | own found' moved after =>
      obtain rfl := fine _ rfl
      cases ih.symm.trans found'
      rw [after, (Request.move?_course moved).of_call]
    | others _ _ same => exact same.trans ih
    | made new => exact absurd new (Nat.ne_of_lt (List.getElem?_eq_some_iff.mp ih).1)

/-- What the cache asks of a foreground tree for `unit`: the provider as it is at the
offer, and the moments since the look that made the request parse. -/
structure Provider.Admits (p : Provider U A) (unit : U) (since : List (Moment U A)) : Prop where
  service : p.disposed = false
  active : p.active = some unit
  idle : p.cycles.running = none
  unopened : openings since = 0

/-- The generation tells whether a cycle was opened, so an offer is taken exactly if the
cache admits the tree. -/
theorem Provider.installForeground?_admits {p : Provider U A} {since : Generation}
    {between : List (Moment U A)} (tree : Tree U A)
    (current : p.generation = since ↔ openings between = 0) :
    (p.Admits tree.unit between → p.installForeground? tree since = some { p with cached := some tree }) ∧
      (¬ p.Admits tree.unit between → p.installForeground? tree since = none) := by
  constructor
  · intro fits
    obtain rfl := current.mpr fits.unopened
    have quiet : p.cycles.isQuietSince p.generation = true :=
      Cycles.isQuietSince_iff.mpr ⟨fits.idle, rfl⟩
    simp [installForeground?, store?, quiet, fits.service, fits.active]
  · intro unfit
    cases taken : p.installForeground? tree since with
    | none => rfl
    | some q =>
      obtain ⟨service, idle, same, here, _⟩ := installForeground?_some taken
      exact absurd ⟨service, here, idle, current.mp same⟩ unfit

section Guard

variable {limits : Limits} {allowed : Act U A → Prop} {s t d f w : System U A} {i : Nat}
  {r : Request U A} {looked : Bool} {since : Generation} {ending : Ending A} {ast : A}
  {past first second : List (Moment U A)}

theorem System.step?_install {tree : Tree U A} (limits : Limits)
    (found : s.requests[i]? = some r) (ready : r.stage = .installing tree since) :
    ∃ after, s.step? limits (.request i (.install false)) = some after ∧
      after.provider = (s.provider.installForeground? tree since).getD s.provider ∧
      after.requests[i]? = some (r.answer (some tree)) := by
  have moved : r.move? limits s.now (callMoment? s.history (.request i)) s.provider
      (.install false) = some (r.install limits false s.provider) := by
    simp only [Request.move?, ready]
  have offered : (r.install limits false s.provider).1 =
        (s.provider.installForeground? tree since).getD s.provider ∧
      (r.install limits false s.provider).2.1 = r.answer (some tree) := by
    unfold Request.install
    cases taken : s.provider.installForeground? tree since <;> simp [ready, taken]
  obtain ⟨after, stepped, provider, _, next⟩ := step?_request found moved
  exact ⟨after, stepped, provider.trans offered.1, next.trans (congrArg some offered.2)⟩

theorem System.looked_since (decided : s.step? limits (.request i (.look looked)) = some t)
    (found : t.requests[i]? = some r) (parses : r.stage = .parsing (.foreground since)) :
    t.provider = s.provider ∧ since = s.provider.generation := by
  obtain ⟨happening, turn⟩ := step?_turned decided
  cases sees decided turn.history i with
  | own _ moved found' =>
    cases found.symm.trans found'
    have course := Request.move?_course moved
    refine ⟨?_, ?_⟩
    · rcases course.kept with same | ⟨_, _, offer, _⟩
      · exact same
      · cases offer
    · rcases course.foreground parses with ⟨call, _⟩ | ⟨_, _, _, _, _, now⟩
      · cases call
      · exact now
  | others other => exact absurd rfl (other _)

theorem System.finished (returned : d.step? limits (.request i (.finish false ending)) = some f)
    (found : d.requests[i]? = some r) (parses : r.stage = .parsing (.foreground since))
    (ok : ending.result = .ok ast) :
    ∃ id, callMoment? d.history (.request i) = some id ∧ f.provider = d.provider ∧
      f.history = d.history ++ [.returned (.request i) ending.result] ∧
      f.requests[i]? =
        some { r with stage := .installing ⟨id, r.unit, .foreground, ast⟩ since } := by
  obtain ⟨happening, turn⟩ := step?_turned returned
  have grown := turn.history
  cases sees returned grown i with
  | own found' moved after =>
    cases found.symm.trans found'
    obtain ⟨id, call, same, next⟩ := (Request.move?_course moved).of_finish parses ok
    exact ⟨id, call, same, grown, after.trans (congrArg some next)⟩
  | others other => exact absurd rfl (other _)

omit [DecidableEq U] in
theorem callMoment?_inj {history : List (Happening U A)} {caller other : Caller} {moment : Nat}
    (call : callMoment? history caller = some moment)
    (same : callMoment? history other = some moment) : caller = other := by
  obtain ⟨_, entry⟩ := callMoment?_some call
  obtain ⟨_, entry'⟩ := callMoment?_some same
  cases entry.symm.trans entry'
  rfl

omit [DecidableEq U] in
theorem System.IsSettled.unoffered {tree : Tree U A} (settled : w.IsSettled)
    (found : w.requests[i]? = some r) (running : r.stage.isAnswered = false)
    (origin : tree.origin = .foreground)
    (call : callMoment? w.history (.request i) = some tree.id) :
    w.provider.cached ≠ some tree := by
  intro cached
  obtain ⟨j, other, found', done, call'⟩ := settled tree cached origin
  -- One engine call belongs to one request, and this one is not answered yet.
  cases callMoment?_inj call call'
  cases found.symm.trans found'
  rw [running] at done
  cases done

/-- The tree of a foreground parse. Whatever others do, from the look that decided on it
over the return of the engine call to the offer, the request is answered with its tree.
The tree is left in the cache exactly if the provider is in service then, the unit is
active, no cycle is open, and none was opened in between. -/
theorem foreground_install_guard (early : Chronicle limits allowed {} past s)
    (decided : s.step? limits (.request i (.look looked)) = some t)
    (found : t.requests[i]? = some r) (parses : r.stage = .parsing (.foreground since))
    (parsing : Chronicle limits (Act.OnlyCalls i) t first d)
    (returned : d.step? limits (.request i (.finish false ending)) = some f)
    (ok : ending.result = .ok ast) (waiting : Chronicle limits (Act.OnlyCalls i) f second w)
    (few : openings (first ++ second) < UInt64.size) :
    ∃ id after r',
      callMoment? d.history (.request i) = some id ∧
        w.step? limits (.request i (.install false)) = some after ∧
        after.requests[i]? = some r' ∧
        r'.stage = .answered (some ⟨id, r.unit, .foreground, ast⟩) ∧
        (after.provider.cached = some ⟨id, r.unit, .foreground, ast⟩ ↔
          w.provider.Admits r.unit (first ++ second)) ∧
        (w.provider.Admits r.unit (first ++ second) →
          after.provider = { w.provider with cached := some ⟨id, r.unit, .foreground, ast⟩ }) ∧
        (¬ w.provider.Admits r.unit (first ++ second) → after.provider = w.provider) := by
  obtain ⟨same, rfl⟩ := System.looked_since decided found parses
  obtain ⟨id, call, still, grown, ready⟩ :=
    System.finished returned (parsing.keeps_request found) parses ok
  have ready' := waiting.keeps_request ready
  -- The run from the look on, and the whole run.
  have before : Chronicle limits (fun _ => True) t first d := parsing.weaken fun _ _ => trivial
  have between := (before.next trivial returned grown).trans (waiting.weaken fun _ _ => trivial)
  obtain ⟨happening, turn⟩ := System.step?_turned decided
  have earlier : Chronicle limits (fun _ => True) {} past s := early.weaken fun _ _ => trivial
  have whole := (earlier.next trivial decided turn.history).trans between
  obtain ⟨after, stepped, provider, answered⟩ := System.step?_install limits ready' rfl
  -- The return of the engine call opens no cycle, so it does not count.
  have count : openings (first ++ [⟨d.provider, .returned (.request i) ending.result, f.provider⟩] ++
      second) = openings (first ++ second) := by
    rw [openings_append, openings_concat, Moment.isOpening_eq_false rfl, openings_append]
    simp
  have current := between.generation_eq_iff (Nat.lt_of_le_of_lt (Nat.le_of_eq count) few)
  rw [same, count] at current
  obtain ⟨taken, refused⟩ := Provider.installForeground?_admits
    ⟨id, r.unit, .foreground, ast⟩ current
  have kept : ¬ w.provider.Admits r.unit (first ++ second) → after.provider = w.provider := by
    intro unfit
    rw [provider, refused unfit]
    rfl
  have left : w.provider.Admits r.unit (first ++ second) →
      after.provider = { w.provider with cached := some ⟨id, r.unit, .foreground, ast⟩ } := by
    intro fits
    rw [provider, taken fits]
    rfl
  have call' : callMoment? w.history (.request i) = some id := by
    rw [waiting.history, grown, List.append_assoc]
    exact callMoment?_append call _
  -- A refused tree is not in the cache: nothing else can have brought it there.
  refine ⟨id, after, _, call, stepped, answered, rfl, ⟨fun cached => ?_, fun fits => ?_⟩, left, kept⟩
  · refine Classical.byContradiction fun unfit => ?_
    rw [kept unfit] at cached
    exact whole.settled.unoffered ready' rfl rfl call' cached
  · rw [left fits]

end Guard

def wishingRun : List (Act Nat Nat) := [.setActive (some 7), .begin 8, .ask 7 .waitForCurrent]

def wishing : System Nat Nat := (System.run? ⟨{}, 1000⟩ {} wishingRun).get rfl

def committed : System Nat Nat :=
  (wishing.step? ⟨{}, 1000⟩ (.request 0 (.look false))).get rfl

def absenceRun : List (Act Nat Nat) :=
  [.request 0 .call, .deliver none 8 ⟨1⟩, .setActive none]

def away : System Nat Nat := (committed.run? ⟨{}, 1000⟩ absenceRun).get rfl

def back : System Nat Nat :=
  (away.step? ⟨{}, 1000⟩ (.request 0 (.finish false (.returned (.ok 5))))).get rfl

def calmRun : List (Act Nat Nat) := [.setActive (some 7), .deliver (some 9) 8 ⟨1⟩, .pass 5]

def cycleRun : List (Act Nat Nat) :=
  [.setActive (some 7), .begin 7, .setActive (some 8), .setActive (some 7)]

theorem foreground_install_guard_absent :
    ∃ calm kept late refused : System Nat Nat,
      wishing.provider.cycles.running = some 8 ∧
        back.run? ⟨{}, 1000⟩ calmRun = some calm ∧
        calm.step? ⟨{}, 1000⟩ (.request 0 (.install false)) = some kept ∧
        kept.provider.cached = some ⟨4, 7, .foreground, 5⟩ ∧
        back.run? ⟨{}, 1000⟩ cycleRun = some late ∧
        late.provider.active = some 7 ∧ late.provider.cycles.running = none ∧
        late.step? ⟨{}, 1000⟩ (.request 0 (.install false)) = some refused ∧
        refused.requests[0]?.map Request.stage =
          some (.answered (some ⟨4, 7, .foreground, 5⟩)) ∧
        refused.provider = late.provider := by
  have early : Chronicle ⟨{}, 1000⟩ (fun _ => True) {} (System.moments ⟨{}, 1000⟩ {} wishingRun)
      wishing := Chronicle.of_run? (fun _ _ => trivial) rfl
  have decided : wishing.step? ⟨{}, 1000⟩ (.request 0 (.look false)) = some committed := rfl
  have parsing : Chronicle ⟨{}, 1000⟩ (Act.OnlyCalls 0) committed
      (System.moments ⟨{}, 1000⟩ committed absenceRun) away :=
    Chronicle.of_run? (by simp [absenceRun, Act.OnlyCalls]) rfl
  have returned :
      away.step? ⟨{}, 1000⟩ (.request 0 (.finish false (.returned (.ok 5)))) = some back := rfl
  have calm : Chronicle ⟨{}, 1000⟩ (Act.OnlyCalls 0) back
      (System.moments ⟨{}, 1000⟩ back calmRun) ((back.run? ⟨{}, 1000⟩ calmRun).get rfl) :=
    Chronicle.of_run? (by simp [calmRun, Act.OnlyCalls]) rfl
  have late : Chronicle ⟨{}, 1000⟩ (Act.OnlyCalls 0) back
      (System.moments ⟨{}, 1000⟩ back cycleRun) ((back.run? ⟨{}, 1000⟩ cycleRun).get rfl) :=
    Chronicle.of_run? (by simp [cycleRun, Act.OnlyCalls]) rfl
  have found : committed.requests[0]? = some (committed.requests.get ⟨0, by decide⟩) := rfl
  have call : callMoment? away.history (.request 0) = some 4 := rfl
  obtain ⟨id, kept, _, call', stepped, _, _, cached, _⟩ :=
    foreground_install_guard early decided found rfl parsing returned rfl calm (by decide)
  obtain ⟨id', refused, _, call'', stepped', found', stage, _, _, same⟩ :=
    foreground_install_guard early decided found rfl parsing returned rfl late (by decide)
  cases call.symm.trans call'
  cases call.symm.trans call''
  refine ⟨_, kept, _, refused, rfl, rfl, stepped, cached.mpr ⟨rfl, rfl, rfl, by decide⟩, rfl, rfl,
    rfl, stepped', ?_, same fun admits => absurd admits.unopened (by decide)⟩
  rw [found']
  exact congrArg some stage

end FreshTree
