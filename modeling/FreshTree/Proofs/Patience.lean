import FreshTree.Proofs.Diary

/-!
How long a request waits. It may count its deadline from when it was made or from the
latest look at which it told that it starts over, which it tells exactly if the active
unit moved since the look before. It gives up at a look only, and only if the cycle of
its unit is still open past the deadline; whatever else it finds there ends its wait at
once, the deadline notwithstanding.
-/

namespace FreshTree

variable {U A : Type}

def Provider.IsHome (p : Provider U A) : Prop :=
  ∀ tree, p.cached = some tree → p.active = some tree.unit

variable [DecidableEq U]

/-- A request for `unit` has to wait: the provider is in service, the unit is active and
without a tree, and its cycle is open. -/
structure Provider.Detains (p : Provider U A) (unit : U) : Prop where
  service : p.disposed = false
  active : p.active = some unit
  missing : p.cached = none
  busy : p.cycles.running = some unit

/-! The cached tree belongs to the active unit, however many cycles are opened. -/

namespace Provider

variable {p q : Provider U A} {happening : Happening U A}

theorem setActive_home (home : p.IsHome) (unit : Option U) : (p.setActive unit).provider.IsHome := by
  rcases p.setActive_cases unit with ⟨same, _⟩ | ⟨_, moved, changed⟩
  · rw [same]
    exact home
  · -- The tree cached so far belonged to the old active unit, so it is evicted.
    intro tree cached
    rw [changed] at cached
    dsimp only at cached
    split at cached
    · cases cached
    · rename_i evicted
      have away : some tree.unit ≠ unit := by
        rw [← home tree cached]
        exact moved
      simp [cachedUnit, cached, away] at evicted

theorem complete_home (home : p.IsHome) (id : TreeId) (ast : Option A) (unit : U)
    (generation : Generation) : (p.complete id ast unit generation).provider.IsHome := by
  intro tree cached
  rw [(p.complete_frame id ast unit generation).1]
  rcases p.complete_slot id ast unit generation with same | ⟨⟨_, _, _, here⟩, content, _, new⟩
  · exact home tree (same.symm.trans cached)
  · cases new.symm.trans cached
    exact here

theorem Touch.home (touch : p.Touch happening q) (home : p.IsHome) : q.IsHome := by
  cases touch with
  | kept => exact home
  | focused unit => exact setActive_home home unit
  | disposed =>
    unfold dispose
    split
    · exact home
    · intro tree cached
      cases cached
  | begun unit =>
    intro tree cached
    rw [invalidate_active]
    exact home tree (invalidate_cached cached).1
  | completed id ast unit generation => exact complete_home home id ast unit generation

theorem Lacks.empty {unit : U} (lacks : p.Lacks unit) (home : p.IsHome) : p.cached = none := by
  cases cached : p.cached with
  | none => rfl
  | some tree =>
    have mine : some unit = some tree.unit := lacks.active.symm.trans (home tree cached)
    have served : p.serve unit = some tree :=
      serve_eq_some.mpr ⟨lacks.active, cached, (Option.some.inj mine).symm⟩
    rw [lacks.missing] at served
    cases served

end Provider

theorem System.Turn.home {s after : System U A} {happening : Happening U A}
    (turn : s.Turn happening after) (home : s.provider.IsHome) : after.provider.IsHome := by
  cases turn with
  | touched touch => exact touch.home home
  | asked => exact home
  | moved _ effect =>
    cases effect with
    | looked | woken | called | returned => exact home
    | offered _ _ _ installed =>
      rcases installed with rfl | installed
      · exact home
      · obtain ⟨_, _, _, here, rfl⟩ := Provider.installForeground?_some installed
        intro tree cached
        cases cached
        exact here

theorem Chronicle.home {limits : Limits} {allowed : Act U A → Prop} {first last : System U A}
    {later : List (Moment U A)} (late : Chronicle limits allowed first later last)
    (home : first.provider.IsHome) : last.provider.IsHome := by
  induction late with
  | start => exact home
  | next _ _ stepped grown ih => exact (System.Turn.of_step? stepped grown).home ih

/-! A request tells that it starts over exactly when it notices that the focus moved. -/

namespace Request

variable {limits : Limits} {now : Instant} {called : Option Nat} {p q : Provider U A}
  {r next : Request U A} {cancelled : Bool} {told : List (Note U)} {events : List Event}

omit [DecidableEq U] in
theorem regrets_retry (limits : Limits) (r : Request U A) (why : Unavailable) :
    (r.regrets limits why).any Note.isRetry = false := by
  cases why <;> rfl

omit [DecidableEq U] in
theorem notice_retry (limits : Limits) (now : Instant) (p : Provider U A) (r : Request U A) :
    (r.notice limits now p.focus.changes).2.any Note.isRetry = true ↔ r.IsBehind p := by
  unfold notice IsBehind
  cases looked : r.seen with
  | none => simp
  | some old =>
    by_cases same : old = p.focus.changes
    · simp [same]
    · simp [same, Note.isRetry]

theorem decide_retry (limits : Limits) (now : Instant) (p : Provider U A) (r : Request U A) :
    (r.decide limits now p).2.any Note.isRetry = false := by
  have await : (r.await limits now p.generation).2.any Note.isRetry = false := by
    unfold await
    split
    · exact r.regrets_retry limits .waitTimedOut
    · split <;> rfl
  have miss : (r.miss limits now p).2.any Note.isRetry = false := by
    unfold miss
    split
    · rfl
    · dsimp only
      split <;> rfl
    · split
      · exact await
      · rfl
  unfold decide
  split
  · split
    · exact r.regrets_retry limits .notActive
    · rfl
  · split
    · rfl
    · exact miss

theorem validate_retry (limits : Limits) (now : Instant) (cancelled : Bool) (p : Provider U A)
    (r : Request U A) :
    (r.validate limits now cancelled p).2.any Note.isRetry = true ↔
      p.disposed = false ∧ cancelled = false ∧ r.IsBehind p := by
  unfold validate
  cases p.disposed with
  | true => simp [refuse, regrets_retry]
  | false =>
    cases cancelled with
    | true => simp [refuse, regrets_retry]
    | false =>
      simp only [Bool.false_eq_true, if_false, List.any_append, decide_retry, Bool.or_false,
        notice_retry, true_and]

/-- What a look does to the memory of a request: it takes notice of the focus, unless
the request ends at the door. -/
theorem validate_memory (limits : Limits) (now : Instant) (cancelled : Bool) (p : Provider U A)
    (r : Request U A) :
    (r.validate limits now cancelled p).1.deadline =
        (if (r.validate limits now cancelled p).2.any Note.isRetry then limits.deadline now
        else r.deadline) ∧
      ((r.validate limits now cancelled p).1.stage.isAnswered = true ∨
        (r.validate limits now cancelled p).1.seen = some p.focus.changes) := by
  have glance := r.validate_glance limits now cancelled p
  have retry := r.validate_retry limits now cancelled p
  generalize r.validate limits now cancelled p = turn at glance retry ⊢
  obtain ⟨next, told⟩ := turn
  dsimp only at glance retry ⊢
  generalize Note.events told = events at glance
  cases glance with
  | disposed gone =>
    rw [if_neg (by simp [retry, gone])]
    exact ⟨rfl, Or.inl rfl⟩
  | cancelled =>
    rw [if_neg (by simp [retry])]
    exact ⟨rfl, Or.inl rfl⟩
  | decided service decision =>
    obtain ⟨deadline, seen⟩ := decision.memory
    rw [deadline, seen, r.noticed_seen limits now p]
    refine ⟨?_, Or.inr rfl⟩
    rcases r.noticed_cases limits now p with ⟨level, same⟩ | ⟨behind, same⟩
    · rw [same, if_neg (fun told => level (retry.mp told).2.2)]
    · rw [same, if_pos (retry.mpr ⟨service, rfl, behind⟩)]

theorem move?_look (moved : r.move? limits now called p (.look cancelled) = some (q, next, told)) :
    q = p ∧ r.validate limits now cancelled p = (next, told) := by
  simp only [move?] at moved
  split at moved
  · obtain ⟨same, turn⟩ := Prod.mk.inj (Option.some.inj moved)
    exact ⟨same.symm, turn⟩
  · cases moved

theorem look_retry (moved : r.move? limits now called p (.look cancelled) = some (q, next, told)) :
    told.any Note.isRetry = true ↔ p.disposed = false ∧ cancelled = false ∧ r.IsBehind p := by
  have retries := r.validate_retry limits now cancelled p
  rw [(move?_look moved).2] at retries
  exact retries

theorem Course.memory {move : Move A} (course : r.Course limits now called p move q next events)
    (blind : ∀ cancelled, move ≠ .look cancelled) :
    next.deadline = r.deadline ∧ next.seen = r.seen := by
  cases course with
  | looked => exact absurd rfl (blind _)
  | _ => exact ⟨rfl, rfl⟩

end Request

structure Keeping (limits : Limits) (d : Diary U A) (p : Provider U A) (r : Request U A) :
    Prop where
  deadline : r.deadline = limits.deadline d.since
  unseen : r.stage.isAnswered = false → r.seen = none → d.sight = none
  seen : r.stage.isAnswered = false → ∀ changes, r.seen = some changes →
    d.sight.isSome = true ∧ p.focus.changes = changes + UInt64.ofNat d.unseen

namespace Keeping

variable {limits : Limits} {now : Instant} {called : Option Nat} {p q : Provider U A}
  {r next : Request U A} {d : Diary U A} {told : List (Note U)} {move : Request.Move A}

theorem look {cancelled : Bool} (keeping : Keeping limits d p r)
    (turn : r.validate limits now cancelled p = (next, told)) :
    Keeping limits (d.move now p told (.look cancelled)) p next := by
  have memory := r.validate_memory limits now cancelled p
  rw [turn] at memory
  obtain ⟨deadline, known⟩ := memory
  -- Unless the look ended the request, it has seen the present count.
  have looks : next.stage.isAnswered = false → next.seen = some p.focus.changes := by
    intro running
    rcases known with done | seen
    · rw [running] at done
      cases done
    · exact seen
  constructor
  · rw [deadline, keeping.deadline]
    exact (apply_ite limits.deadline _ now d.since).symm
  · intro running none
    rw [looks running] at none
    cases none
  · intro running changes seen
    rw [looks running] at seen
    cases seen
    exact ⟨rfl, (UInt64.add_zero _).symm⟩

theorem moved (keeping : Keeping limits d p r)
    (went : r.move? limits now called p move = some (q, next, told)) :
    Keeping limits (d.move now p told move) q next := by
  by_cases look : ∃ cancelled, move = .look cancelled
  · obtain ⟨cancelled, rfl⟩ := look
    obtain ⟨rfl, turn⟩ := Request.move?_look went
    exact keeping.look turn
  · have blind := not_exists.mp look
    have course := Request.move?_course went
    obtain ⟨deadline, seen⟩ := course.memory blind
    -- What is no look adds to the notes only.
    have same : d.move now p told move = { d with notes := d.notes ++ told } := by
      cases move with
      | look => exact absurd rfl (blind _)
      | _ => rfl
    have running := course.unanswered
    rw [same]
    refine ⟨deadline.trans keeping.deadline, fun _ none => ?_, fun looking changes some => ?_⟩
    · exact keeping.unseen running (seen ▸ none)
    · rcases course.kept with rfl | ⟨_, _, _, _, _, rfl⟩
      · exact keeping.seen running changes (seen ▸ some)
      · cases looking

theorem passed (keeping : Keeping limits d p r) (shifts : p.Shifts q) :
    Keeping limits (d.pass p q) q r := by
  -- The count of the focus and that of the diary go up together.
  rcases shifts with ⟨still, same⟩ | ⟨moved, one⟩
  · rw [Diary.pass, if_pos still]
    refine ⟨keeping.deadline, keeping.unseen, ?_⟩
    rw [same]
    exact keeping.seen
  · rw [Diary.pass, if_neg moved]
    refine ⟨keeping.deadline, keeping.unseen, fun running changes some => ?_⟩
    obtain ⟨sighted, count⟩ := keeping.seen running changes some
    refine ⟨sighted, ?_⟩
    rw [one, count, UInt64.add_assoc, UInt64.ofNat_add]
    rfl

theorem ofRun {i : Nat} {acts : List (Act U A)} {last : System U A}
    (ran : System.run? limits {} acts = some last) (found : last.requests[i]? = some r) :
    Keeping limits (Diary.ofRun limits i acts) last.provider r := by
  refine Diary.ofRun_holds (motive := Keeping limits) ?_ ?_ ?_ ?_ ran found
  · exact fun now p unit policy => ⟨rfl, fun _ _ => rfl, fun _ _ none => by cases none⟩
  · exact fun d now called p r move q next notes keeping went => keeping.moved went
  · exact fun d p q r _ shifts keeping => keeping.passed shifts
  · intro d p q r done keeping
    refine ⟨keeping.deadline, keeping.unseen, fun running => ?_⟩
    rw [running] at done
    cases done

omit [DecidableEq U] in
theorem moved_of_behind (keeping : Keeping limits d p r) (running : r.stage.isAnswered = false)
    (behind : r.IsBehind p) : d.sight.isSome = true ∧ d.unseen ≠ 0 := by
  obtain ⟨old, some, moved⟩ := behind
  obtain ⟨sighted, count⟩ := keeping.seen running old some
  refine ⟨sighted, fun none => moved ?_⟩
  rw [count, none]
  exact (UInt64.add_zero old).symm

omit [DecidableEq U] in
/-- A change of the focus is noticed even if it is back where it was. -/
theorem behind_of_moved (keeping : Keeping limits d p r) (running : r.stage.isAnswered = false)
    (sighted : d.sight.isSome = true) (moved : d.unseen ≠ 0) (few : d.unseen < UInt64.size) :
    r.IsBehind p := by
  cases seen : r.seen with
  | none =>
    rw [keeping.unseen running seen] at sighted
    cases sighted
  | some old =>
    -- Fewer than 2^64 changes do not bring the count back to where it was.
    refine ⟨old, seen, fun same => moved ?_⟩
    obtain ⟨_, count⟩ := keeping.seen running old seen
    exact (add_ofNat_eq_self few).mp (count.symm.trans same.symm)

end Keeping

/-! What a look decides. -/

/-- How a request that may wait for `unit` leaves a look at the provider `p`, and which
events it tells there. All but the last three end its wait, whether or not its deadline has
passed; a disposed provider is told of by silence even if the token fired. -/
inductive Verdict (deadline now : Instant) (p : Provider U A) (unit : U) :
    Bool → Stage U A → List Event → Prop where
  | disposed {cancelled : Bool} :
      p.disposed = true → Verdict deadline now p unit cancelled (.answered none) []
  | cancelled :
      p.disposed = false → Verdict deadline now p unit true (.answered none) [.cancelled]
  | away :
      p.disposed = false → p.active ≠ some unit →
      Verdict deadline now p unit false (.parsing .detached) [.detachedParse]
  | served {tree : Tree U A} :
      p.disposed = false → p.active = some unit → p.cached = some tree →
      Verdict deadline now p unit false (.answered (some tree)) [.cacheHit]
  | free :
      p.disposed = false → p.active = some unit → p.cached = none →
      p.cycles.running ≠ some unit →
      Verdict deadline now p unit false (.parsing (.foreground p.generation))
        [.cacheMiss, .foregroundParse]
  | due :
      p.Detains unit → deadline ≤ now →
      Verdict deadline now p unit false (.answered none) [.waitTimedOut]
  | waits :
      p.Detains unit → now < deadline →
      Verdict deadline now p unit false .validating [.waitEntered]
  | sleeps {slice : Instant} :
      p.Detains unit → now < deadline → Verdict deadline now p unit false (.blocked slice) []

namespace Request

variable {limits : Limits} {now : Instant} {called : Option Nat} {p q : Provider U A}
  {r next : Request U A} {cancelled : Bool} {events : List Event}

theorem Awaits.detains (awaits : r.Awaits p) (service : p.disposed = false) (home : p.IsHome) :
    p.Detains r.unit :=
  ⟨service, awaits.lacks.active, awaits.lacks.empty home, awaits.busy⟩

theorem Glance.verdict (glance : r.Glance limits now p cancelled next events) (home : p.IsHome)
    (waits : r.policy = .waitForCurrent) :
    Verdict next.deadline now p r.unit cancelled next.stage events := by
  cases glance with
  | disposed gone => exact .disposed gone
  | cancelled service => exact .cancelled service
  | decided service decision =>
    rw [← r.noticed_policy limits now p] at waits
    rw [← r.noticed_unit limits now p]
    cases decision with
    | refused _ policy =>
      rw [waits] at policy
      cases policy
    | missed _ policy => exact absurd waits policy
    | detached away => exact .away service away
    | served served =>
      obtain ⟨active, cached, _⟩ := Provider.serve_eq_some.mp served
      exact .served service active cached
    | foreground lacks _ free => exact .free service lacks.active (lacks.empty home) free
    | timedOut awaits late => exact .due (awaits.detains service home) late
    | sleeps awaits early => exact .sleeps (awaits.detains service home) early
    | waits awaits early => exact .waits (awaits.detains service home) early

theorem Course.gaveUp {move : Move A} (course : r.Course limits now called p move q next events)
    (home : p.IsHome) (told : .waitTimedOut ∈ events) :
    move = .look false ∧ p.Detains r.unit ∧ next.deadline ≤ now := by
  cases course with
  | looked _ glance =>
    cases glance with
    | disposed | cancelled => simp at told
    | decided service decision =>
      cases decision with
      | timedOut awaits late =>
        rw [← r.noticed_unit limits now p]
        exact ⟨rfl, awaits.detains service home, late⟩
      | _ => simp at told
  | @failed _ _ _ _ why => cases why <;> simp [ParseFailure.event] at told
  | _ => simp at told

end Request

/-! One more act of a run. -/

theorem System.step?_own {limits : Limits} {s after : System U A} {i : Nat} {r next : Request U A}
    {move : Request.Move A} (stepped : s.step? limits (.request i move) = some after)
    (found : s.requests[i]? = some r) (found' : after.requests[i]? = some next) :
    r.move? limits s.now (callMoment? s.history (.request i)) s.provider move =
      some (after.provider, next, after.told.drop s.told.length) := by
  obtain ⟨happening, turn⟩ := step?_turned stepped
  cases sees stepped turn.history i with
  | own before moved now told =>
    cases found.symm.trans before
    cases found'.symm.trans now
    rw [told, List.drop_left]
    exact moved
  | others other => exact absurd rfl (other move)

namespace Diary

variable {s after : System U A} {i : Nat} {act : Act U A} {r : Request U A}

theorem follow_look (d : Diary U A) (cancelled : Bool) :
    (d.follow i s (.request i (.look cancelled)) after).since =
      if (after.told.drop s.told.length).any Note.isRetry then s.now else d.since := by
  simp only [follow, if_true, move]

theorem follow_since (d : Diary U A) (found : s.requests[i]? = some r) :
    (d.follow i s act after).since = d.since ∨
      ∃ cancelled, act = .request i (.look cancelled) ∧
        (after.told.drop s.told.length).any Note.isRetry = true ∧
        (d.follow i s act after).since = s.now := by
  by_cases own : ∃ move, act = .request i move
  · obtain ⟨move, rfl⟩ := own
    cases move with
    | look cancelled =>
      rw [follow_look]
      split
      · exact Or.inr ⟨cancelled, rfl, by assumption, rfl⟩
      · exact Or.inl rfl
    | _ => simp [follow, Diary.move]
  · left
    have short := (List.getElem?_eq_some_iff.mp found).1
    rw [follow_other (not_exists.mp own) (Nat.ne_of_lt short), pass]
    split
    · rfl
    · split <;> rfl

end Diary

/-- A request that may wait gives up at a look only, and only if the provider is in service,
its token did not fire, its unit is active and nothing is cached, the cycle of its unit is
open, and its deadline is reached. The deadline lies the timeout after the request was made
or, if later, after it last told that it starts over. Nothing else moves it; and a look that
finds the provider in service and the token unfired tells so if the active unit changed
since the look before, be it the same again. A look that finds one of the other things
amiss ends the wait, with the events of the first of them only: by disposal in silence, by
cancellation with nothing but its event, else with a parse beside the cache if the unit is
not active, else with the cached tree, else with a parse for the cache. -/
theorem waiters_give_up_when_due {limits : Limits} {acts : List (Act U A)} {act : Act U A}
    {s after : System U A} {i : Nat} {r next : Request U A} {d d' : Diary U A}
    (ran : System.run? limits {} acts = some s) (found : s.requests[i]? = some r)
    (waits : r.policy = .waitForCurrent) (stepped : s.step? limits act = some after)
    (found' : after.requests[i]? = some next) (past : d = Diary.ofRun limits i acts)
    (now : d' = Diary.ofRun limits i (acts ++ [act])) :
    (∀ move, act = .request i move →
        .waitTimedOut ∈ Note.events (after.told.drop s.told.length) →
      move = .look false ∧ s.provider.Detains r.unit ∧ limits.deadline d'.since ≤ s.now) ∧
    (d'.since + limits.settings.waitTimeout ≤ limits.horizon →
      limits.deadline d'.since = d'.since + limits.settings.waitTimeout) ∧
    next.deadline = limits.deadline d'.since ∧
    (d'.since = d.since ∧ next.deadline = r.deadline ∨
      act = .request i (.look false) ∧ d.sight.isSome = true ∧ d.unseen ≠ 0 ∧ d'.since = s.now) ∧
    (act = .request i (.look false) → s.provider.disposed = false → d.sight.isSome = true →
        d.unseen ≠ 0 → d.unseen < UInt64.size →
      (after.told.drop s.told.length).any Note.isRetry = true ∧ d'.since = s.now) ∧
    ∀ cancelled, act = .request i (.look cancelled) →
      Verdict (limits.deadline d'.since) s.now s.provider r.unit cancelled next.stage
        (Note.events (after.told.drop s.told.length)) := by
  obtain ⟨followed, ran'⟩ := Diary.along_concat (d := {}) (i := i) ran stepped
  have keeping : Keeping limits d s.provider r := past ▸ .ofRun ran found
  have keeping' : Keeping limits d' after.provider next := now ▸ .ofRun ran' found'
  have since : d' = d.follow i s act after := by
    rw [now, past]
    exact followed
  have told : Chronicle limits (fun _ => True) {} (System.moments limits {} acts) s :=
    Chronicle.of_run? (fun _ _ => trivial) ran
  -- What is cached is of the active unit, so where its tree is missing nothing is cached.
  have home : s.provider.IsHome := told.home nofun
  have own : ∀ {move}, act = .request i move →
      r.move? limits s.now (callMoment? s.history (.request i)) s.provider move =
        some (after.provider, next, after.told.drop s.told.length) := by
    rintro move rfl
    exact System.step?_own stepped found found'
  refine ⟨fun move mine gaveUp => ?_, Clock.after_of_le, keeping'.deadline, ?_,
    fun mine service sighted moved few => ?_, fun cancelled mine => ?_⟩
  · rw [← keeping'.deadline]
    exact (Request.move?_course (own mine)).gaveUp home gaveUp
  · rcases d.follow_since found with same | ⟨cancelled, mine, retry, late⟩
    · rw [← since] at same
      exact Or.inl ⟨same, by rw [keeping'.deadline, keeping.deadline, same]⟩
    · obtain ⟨_, rfl, behind⟩ := (Request.look_retry (own mine)).mp retry
      obtain ⟨sighted, moved⟩ :=
        keeping.moved_of_behind (Request.move?_course (own mine)).unanswered behind
      exact Or.inr ⟨mine, sighted, moved, since ▸ late⟩
  · have running := (Request.move?_course (own mine)).unanswered
    have behind := keeping.behind_of_moved running sighted moved few
    have retry := (Request.look_retry (own mine)).mpr ⟨service, rfl, behind⟩
    refine ⟨retry, ?_⟩
    rw [since, mine, Diary.follow_look]
    exact if_pos retry
  · have glance := r.validate_glance limits s.now cancelled s.provider
    rw [(Request.move?_look (own mine)).2] at glance
    rw [← keeping'.deadline]
    exact glance.verdict home waits

/-- Request 0 notices after 20 s that the active unit went away and came back, and sleeps
on for 30 s over a stale completion and a cycle that is joined. -/
def vigilRun : List (Act Nat Nat) :=
  [.setActive (some 7), .begin 7, .ask 7 .waitForCurrent, .request 0 (.look false),
    .request 0 (.look false), .pass 20000000000, .setActive none, .setActive (some 7), .begin 7,
    .request 0 .wake, .request 0 (.look false), .request 0 (.look false), .pass 29999999999,
    .deliver (some 5) 7 ⟨1⟩, .begin 7, .request 0 .wake, .request 0 (.look false), .pass 1,
    .request 0 .wake]

def vigil : System Nat Nat := (System.run? ⟨{}, Clock.day⟩ {} vigilRun).get rfl

def relieved : System Nat Nat := (vigil.step? ⟨{}, Clock.day⟩ (.request 0 (.look false))).get rfl

theorem waiters_give_up_when_due_late :
    ∃ next : Request Nat Nat,
      System.run? ⟨{}, Clock.day⟩ {} vigilRun = some vigil ∧
        vigil.step? ⟨{}, Clock.day⟩ (.request 0 (.look false)) = some relieved ∧
        relieved.requests[0]? = some next ∧ next.stage = .answered none ∧
        vigil.provider.Detains 7 ∧ vigil.now = 50000000000 ∧
        next.deadline = 20000000000 + 30000000000 := by
  have ran : System.run? ⟨{}, Clock.day⟩ {} vigilRun = some vigil := rfl
  have stepped : vigil.step? ⟨{}, Clock.day⟩ (.request 0 (.look false)) = some relieved := rfl
  have found : vigil.requests[0]? = some (vigil.requests.get ⟨0, by decide⟩) := rfl
  have found' : relieved.requests[0]? = some (relieved.requests.get ⟨0, by decide⟩) := rfl
  obtain ⟨due, fits, deadline, _⟩ :=
    waiters_give_up_when_due ran found rfl stepped found' rfl rfl
  have since : (Diary.ofRun ⟨{}, Clock.day⟩ 0 (vigilRun ++ [.request 0 (.look false)])).since =
      20000000000 := rfl
  rw [since] at fits deadline
  exact ⟨_, ran, stepped, found', rfl, (due _ rfl (by decide)).2.1, rfl,
    deadline.trans (fits (by decide))⟩

end FreshTree
