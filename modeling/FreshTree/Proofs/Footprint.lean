import FreshTree.Proofs.Loop

/-!
What a request leaves behind in the provider. Of all its critical sections only the
offer of a foreground tree may write, and it comes last, so a request writes at most
once and is answered with what it wrote. Once its token fired it neither writes nor
gets a tree.
-/

namespace FreshTree

variable {U A : Type}

def Moment.isOf (i : Nat) (m : Moment U A) : Bool := m.happening.request? = some i

def deeds (i : Nat) (past : List (Moment U A)) : List (Moment U A) := past.filter (Moment.isOf i)

def Quiet (moments : List (Moment U A)) : Prop := ∀ m ∈ moments, m.after = m.before

theorem deeds_concat_of {i : Nat} (past : List (Moment U A)) {m : Moment U A}
    (own : m.happening.request? = some i) : deeds i (past ++ [m]) = deeds i past ++ [m] := by
  simp [deeds, Moment.isOf, own]

theorem deeds_concat_apart {i : Nat} (past : List (Moment U A)) {m : Moment U A}
    (apart : m.happening.request? ≠ some i) : deeds i (past ++ [m]) = deeds i past := by
  simp [deeds, Moment.isOf, apart]

theorem Quiet.concat {moments : List (Moment U A)} (quiet : Quiet moments) {m : Moment U A}
    (same : m.after = m.before) : Quiet (moments ++ [m]) := by
  intro other member
  rcases List.mem_append.mp member with before | now
  · exact quiet other before
  · rw [List.mem_singleton.mp now]
    exact same

theorem callMoment?_append {history : List (Happening U A)} {caller : Caller} {moment : Nat}
    (found : callMoment? history caller = some moment) (more : List (Happening U A)) :
    callMoment? (history ++ more) caller = some moment := by
  unfold callMoment? at found ⊢
  rw [List.findIdx?_append, found]
  rfl

structure Tree.ParsedBy (history : List (Happening U A)) (i : Nat) (unit : U) (tree : Tree U A) :
    Prop where
  unit : tree.unit = unit
  origin : tree.origin = .foreground
  call : callMoment? history (.request i) = some tree.id
  result : .returned (.request i) (.ok tree.ast) ∈ history

theorem Tree.ParsedBy.grow {history : List (Happening U A)} {i : Nat} {unit : U} {tree : Tree U A}
    (own : tree.ParsedBy history i unit) (happening : Happening U A) :
    tree.ParsedBy (history ++ [happening]) i unit where
  unit := own.unit
  origin := own.origin
  call := callMoment?_append own.call _
  result := List.mem_append_left _ own.result

namespace Request

/-- What request `i` did to the provider: nothing, or one install of its own tree, which
it was answered with. -/
inductive Footprint (i : Nat) (r : Request U A) (past : List (Moment U A)) : Prop where
  | untouched : Quiet (deeds i past) → Footprint i r past
  | installed {quiet : List (Moment U A)} {p : Provider U A} {tree : Tree U A} :
      deeds i past = quiet ++ [⟨p, .offered i, { p with cached := some tree }⟩] → Quiet quiet →
      r.policy = .waitForCurrent → r.stage = .answered (some tree) →
      tree.ParsedBy (past.map Moment.happening) i r.unit → Footprint i r past

structure Footing (i : Nat) (r : Request U A) (past : List (Moment U A)) : Prop where
  footprint : r.Footprint i past
  foreground : ∀ since, r.stage = .parsing (.foreground since) → r.policy = .waitForCurrent
  offer : ∀ tree since, r.stage = .installing tree since →
    r.policy = .waitForCurrent ∧ tree.ParsedBy (past.map Moment.happening) i r.unit

variable {i : Nat} {r next : Request U A} {past : List (Moment U A)}

theorem Footprint.quiet (footprint : r.Footprint i past) (running : r.stage.isAnswered = false) :
    Quiet (deeds i past) := by
  cases footprint with
  | untouched quiet => exact quiet
  | installed _ _ _ done =>
    rw [done] at running
    cases running

theorem Footing.aside (footing : r.Footing i past) {m : Moment U A}
    (apart : m.happening.request? ≠ some i) : r.Footing i (past ++ [m]) where
  footprint := by
    have same := deeds_concat_apart past apart
    cases footing.footprint with
    | untouched quiet => exact .untouched (same.symm ▸ quiet)
    | installed wrote quiet policy done own =>
      refine .installed (same.trans wrote) quiet policy done ?_
      rw [List.map_append]
      exact own.grow m.happening
  foreground := footing.foreground
  offer tree since ready := by
    rw [List.map_append]
    exact ⟨(footing.offer tree since ready).1, (footing.offer tree since ready).2.grow m.happening⟩

variable [DecidableEq U]

omit [DecidableEq U] in
theorem happening_request? (move : Move A) (i : Nat) (unit : U) :
    (move.happening i unit : Happening U A).request? = some i := by
  cases move <;> rfl

omit [DecidableEq U] in
theorem Footing.start (limits : Limits) (now : Instant) (unit : U) (policy : Policy)
    (none : deeds i past = []) : (Request.start limits now unit policy).Footing i past where
  footprint := .untouched (by simp [none, Quiet])
  foreground since parses := by cases parses
  offer tree since ready := by cases ready

theorem Footing.own {limits : Limits} {now : Instant} {p q : Provider U A} {move : Move A}
    {events : List Event} (footing : r.Footing i past)
    (course : r.Course limits now (callMoment? (past.map Moment.happening) (.request i)) p move q
      next events) :
    next.Footing i (past ++ [⟨p, move.happening i r.unit, q⟩]) := by
  -- An install would have ended the request, so there was none before this move.
  have quiet := footing.footprint.quiet course.unanswered
  have mine := deeds_concat_of past (m := ⟨p, move.happening i r.unit, q⟩)
    (happening_request? move i r.unit)
  refine ⟨?_, fun since parses => ?_, fun tree since ready => ?_⟩
  · rcases course.kept with rfl | ⟨tree, since, rfl, ready, taken, rfl⟩
    · exact .untouched (mine.symm ▸ quiet.concat rfl)
    · obtain ⟨policy, own⟩ := footing.offer tree since ready
      obtain ⟨_, _, _, _, rfl⟩ := Provider.installForeground?_some taken
      refine .installed mine quiet policy rfl ?_
      rw [List.map_append]
      exact own.grow _
  · rw [course.same.2]
    rcases course.foreground parses with ⟨_, rfl⟩ | ⟨_, policy, _⟩
    · exact footing.foreground since parses
    · exact policy
  · obtain ⟨id, ending, ast, rfl, parsing, call, result, rfl⟩ := course.offer ready
    rw [course.same.2]
    rw [course.same.1]
    refine ⟨footing.foreground since parsing, rfl, rfl, ?_, ?_⟩
    · rw [List.map_append]
      exact callMoment?_append call _
    · simp [Move.happening, result]

end Request

namespace Chronicle

variable [DecidableEq U] {limits : Limits} {allowed : Act U A → Prop} {past : List (Moment U A)}
  {s : System U A}

theorem footing (chronicle : Chronicle limits allowed {} past s) (i : Nat) :
    (s.requests[i]? = none → deeds i past = []) ∧
      ∀ r, s.requests[i]? = some r → r.Footing i past := by
  induction chronicle with
  | start => exact ⟨fun _ => rfl, fun r none => by simp at none⟩
  | @next past before after act happening early _ stepped grown ih =>
    have told : before.history = past.map Moment.happening := by simpa using early.history
    -- As long as the request is not made, no moment can be one of it.
    obtain ⟨unmade, footing⟩ := ih
    cases System.sees stepped grown i with
    | @own r next _ _ _ found moved found' =>
      have course := Request.move?_course moved
      rw [told] at course
      refine ⟨fun none => ?_, fun r' same => ?_⟩
      · rw [found'] at none
        cases none
      · obtain rfl : next = r' := Option.some.inj (found'.symm.trans same)
        exact (footing r found).own course
    | others _ apart same =>
      rw [same, deeds_concat_apart past apart]
      exact ⟨unmade, fun r found => (footing r found).aside apart⟩
    | made new apart found =>
      refine ⟨fun none => ?_, fun r' same => ?_⟩
      · rw [found] at none
        cases none
      · cases found.symm.trans same
        apply Request.Footing.start
        rw [deeds_concat_apart past apart]
        exact unmade (List.getElem?_eq_none (Nat.le_of_eq new.symm))

end Chronicle

/-! Requests whose token fired. -/

def Request.Move.Fired : Request.Move A → Prop
  | .look cancelled | .finish cancelled _ | .install cancelled => cancelled = true
  | .wake | .call => True

def Act.Fired (i : Nat) (act : Act U A) : Prop := ∀ move, act = .request i move → move.Fired

def Stage.IsBarren (stage : Stage U A) : Prop := stage = .answered none ∨ stage.isAnswered = false

namespace Request

variable [DecidableEq U] {limits : Limits} {now : Instant} {called : Option Nat}
  {p q : Provider U A} {r next : Request U A} {move : Move A} {events : List Event}

theorem Course.fired (course : r.Course limits now called p move q next events)
    (fired : move.Fired) : q = p ∧ next.stage.IsBarren := by
  cases course with
  | looked _ glance =>
    obtain rfl := fired
    cases glance with
    | disposed | cancelled => exact ⟨rfl, Or.inl rfl⟩
  | woken => exact ⟨rfl, Or.inr rfl⟩
  | called parsing =>
    refine ⟨rfl, Or.inr ?_⟩
    rw [parsing]
    rfl
  | failed | dropped | withdrawn => exact ⟨rfl, Or.inl rfl⟩
  | detached | parsed | installed | superseded => cases fired

theorem validate_fired (limits : Limits) (now : Instant) (p : Provider U A) (r : Request U A) :
    (r.validate limits now true p).1 = r.answer none := by
  unfold validate
  cases p.disposed <;> rfl

omit [DecidableEq U] in
theorem parsed_fired {purpose : Purpose} (parsing : r.stage = .parsing purpose) (limits : Limits)
    (id : TreeId) (result : Except ParseFailure A) :
    (r.parsed limits id true result).1 = r.answer none := by
  unfold parsed
  rw [parsing]
  cases result <;> rfl

/-- What is left to do for request `i` when its token has fired: whatever it is at, up
to its next look at the token. -/
def windUp (i : Nat) (called : Option Nat) (ending : Ending A) (r : Request U A) :
    List (Act U A) :=
  match r.stage with
  | .validating | .blocked _ => r.revalidate i true
  | .parsing _ =>
    if called.isSome then [.request i (.finish true ending)]
    else [.request i .call, .request i (.finish true ending)]
  | .installing _ _ => [.request i (.install true)]
  | .answered _ => []

end Request

section Fired

variable [DecidableEq U] {limits : Limits} {s first last : System U A} {i : Nat}
  {r : Request U A} {past later : List (Moment U A)}

theorem System.step?_finish_fired {purpose : Purpose} {id : Nat} (limits : Limits)
    (found : s.requests[i]? = some r) (parsing : r.stage = .parsing purpose)
    (call : callMoment? s.history (.request i) = some id) (ending : Ending A) :
    ∃ after, s.step? limits (.request i (.finish true ending)) = some after ∧
      after.provider = s.provider ∧ after.requests[i]? = some (r.answer none) := by
  have moved : r.move? limits s.now (callMoment? s.history (.request i)) s.provider
      (.finish true ending) = some (s.provider, r.parsed limits id true ending.result) := by
    simp only [Request.move?, parsing, call]
  obtain ⟨after, stepped, same, _, next⟩ := step?_request found moved
  exact ⟨after, stepped, same,
    next.trans (congrArg some (Request.parsed_fired parsing limits id ending.result))⟩

theorem System.run?_windUp (limits : Limits) (found : s.requests[i]? = some r)
    (barren : r.stage.IsBarren) (ending : Ending A) :
    ∃ after,
      s.run? limits (r.windUp i (callMoment? s.history (.request i)) ending) = some after ∧
        after.provider = s.provider ∧ after.requests[i]? = some (r.answer none) := by
  unfold Request.windUp
  cases stage : r.stage with
  | validating | blocked slice =>
    have looking : r.stage.isLooking = true := by
      rw [stage]
      rfl
    obtain ⟨after, ran, same, _, moved⟩ := run?_revalidate limits true found looking
    refine ⟨after, ran, same, ?_⟩
    rw [moved, Request.validate_fired, Request.wake_answer]
  | parsing purpose =>
    cases call : callMoment? s.history (.request i) with
    | some id =>
      obtain ⟨after, stepped, same, ended⟩ := step?_finish_fired limits found stage call ending
      exact ⟨after, by simp [run?, stepped], same, ended⟩
    | none =>
      have moved : r.move? limits s.now (callMoment? s.history (.request i)) s.provider .call =
          some (s.provider, r, []) := by
        simp only [Request.move?, stage, call]
      -- The engine is called first, and returns to a token that has fired.
      obtain ⟨middle, calling, same, grown, still⟩ := step?_request found moved
      have entered : .called (.request i) r.unit ∈ middle.history := by
        simp [grown, Request.Move.happening]
      obtain ⟨id, call'⟩ := callMoment?_of_mem entered
      obtain ⟨after, stepped, same', ended⟩ := step?_finish_fired limits still stage call' ending
      exact ⟨after, by simp [run?, calling, stepped], same'.trans same, ended⟩
  | installing tree since =>
    have moved : r.move? limits s.now (callMoment? s.history (.request i)) s.provider
        (.install true) = some (r.install limits true s.provider) := by
      simp only [Request.move?, stage]
    have withdrawn : r.install limits true s.provider =
        (s.provider, r.refuse limits .cancelled) := by
      simp only [Request.install, stage, if_true]
    rw [withdrawn] at moved
    obtain ⟨after, stepped, same, _, ended⟩ := step?_request found moved
    exact ⟨after, by simp [run?, stepped], same, ended⟩
  | answered tree =>
    have done : r = r.answer none := by
      rcases barren with done | running
      · cases r
        cases done
        rfl
      · rw [stage] at running
        cases running
    exact ⟨s, rfl, rfl, by rw [← done]; exact found⟩

namespace Chronicle

variable {allowed : Act U A → Prop}

/-- From the time its token fired a request writes nothing and gets no tree. -/
theorem fired (late : Chronicle limits (Act.Fired i) first later last)
    (running : ∀ r, first.requests[i]? = some r → r.stage.isAnswered = false) :
    Quiet (deeds i later) ∧ ∀ r, last.requests[i]? = some r → r.stage.IsBarren := by
  induction late with
  | start => exact ⟨by simp [deeds, Quiet], fun r found => Or.inr (running r found)⟩
  | @next later before after act happening _ fine stepped grown ih =>
    obtain ⟨quiet, barren⟩ := ih
    cases System.sees stepped grown i with
    | @own r next move _ _ _ moved found' =>
      obtain ⟨same, ended⟩ := (Request.move?_course moved).fired (fine move rfl)
      refine ⟨?_, fun r' same => ?_⟩
      · rw [deeds_concat_of later (Request.happening_request? move i r.unit)]
        exact quiet.concat same
      · cases found'.symm.trans same
        exact ended
    | others _ apart same =>
      rw [same, deeds_concat_apart later apart]
      exact ⟨quiet, barren⟩
    | made _ apart found =>
      rw [deeds_concat_apart later apart]
      refine ⟨quiet, fun r same => ?_⟩
      cases found.symm.trans same
      exact Or.inr rfl

theorem fired_uncalled (late : Chronicle limits (Act.Fired i) first later last)
    (looking : ∀ r, first.requests[i]? = some r → r.stage.isLooking = true) :
    callMoment? last.history (.request i) = callMoment? first.history (.request i) ∧
      last.EndsWith none later i := by
  induction late with
  | start => exact ⟨rfl, Or.inr ⟨looking, by simp⟩⟩
  | next _ fine stepped grown ih =>
    obtain ⟨same, ends⟩ := ih
    obtain ⟨uncalled, ends⟩ := ends.step stepped grown fun r cancelled own _ => by
      obtain rfl : cancelled = true := fine _ own
      rw [Request.validate_fired]
      rfl
    refine ⟨?_, ends⟩
    rw [grown, callMoment?_grow uncalled]
    exact same

end Chronicle

/-- All that a request ever does to the provider is one install of the tree that it
parsed in the foreground, as its last deed, if it may wait and is answered with that
tree. So a request under another policy, one that parsed beside the cache and one that
is answered with nothing leave the provider as others made it. And if its token fired
while it ran, it leaves no trace from then on and gets no tree, whatever its engine call
returns; if it had not left its loop by then, it does not even call the engine. -/
theorem requests_write_once {allowed : Act U A → Prop}
    (chronicle : Chronicle limits allowed {} past s) (i : Nat) :
    (∀ r, s.requests[i]? = some r →
      r.Footprint i past ∧
        (r.policy ≠ .waitForCurrent ∨
            (∀ tree, r.stage = .answered (some tree) → tree.origin ≠ .foreground) →
          Quiet (deeds i past))) ∧
      ∀ later last, Chronicle limits (Act.Fired i) s later last →
        (∀ r, s.requests[i]? = some r → r.stage.isAnswered = false) →
          Quiet (deeds i later) ∧
            ((∀ r, s.requests[i]? = some r → r.stage.isLooking = true) →
              ∀ unit, .called (.request i) unit ∉ last.history) ∧
            ∀ r, last.requests[i]? = some r → r.stage.IsBarren ∧ ∀ ending, ∃ after,
              last.run? limits (r.windUp i (callMoment? last.history (.request i)) ending) =
                  some after ∧
                after.provider = last.provider ∧ after.requests[i]? = some (r.answer none) := by
  refine ⟨fun r found => ?_, fun later last late running => ?_⟩
  · have footprint := ((chronicle.footing i).2 r found).footprint
    refine ⟨footprint, fun other => ?_⟩
    cases footprint with
    | untouched quiet => exact quiet
    | installed _ _ policy done own =>
      rcases other with another | beside
      · exact absurd policy another
      · exact absurd own.origin (beside _ done)
  · obtain ⟨quiet, barren⟩ := late.fired running
    refine ⟨quiet, fun looking => ?_, fun r found => ⟨barren r found, fun ending => ?_⟩⟩
    · apply callMoment?_none
      rw [(late.fired_uncalled looking).1]
      exact chronicle.uncalled i looking
    · exact System.run?_windUp limits found (barren r found) ending

end Fired

def crossingRun : List (Act Nat Nat) :=
  [.setActive (some 7), .ask 7 .waitForCurrent, .request 0 (.look false), .ask 7 .waitForCurrent,
    .request 0 .call, .request 1 (.look false), .ask 8 .noWait, .request 2 (.look false),
    .request 2 .call, .request 0 (.finish false (.returned (.ok 4))), .request 1 .call,
    .request 0 (.install false)]

def crossing : System Nat Nat := (System.run? ⟨{}, 1000⟩ {} crossingRun).get rfl

/-- The tokens of requests 1 and 2 fire while their engine calls run, which return trees
all the same. Request 3 is made with a token that fired. -/
def firedRun : List (Act Nat Nat) :=
  [.setActive none, .request 1 (.finish true (.returned (.ok 5))), .setActive (some 7),
    .request 2 (.finish true (.returned (.ok 6))), .ask 7 .waitForCurrent,
    .request 3 (.look true)]

theorem requests_write_once_fired :
    ∃ (r : Request Nat Nat) (last : System Nat Nat),
      crossing.requests[0]? = some r ∧
        r.Footprint 0 (System.moments ⟨{}, 1000⟩ {} crossingRun) ∧
        crossing.provider.cached = some ⟨4, 7, .foreground, 4⟩ ∧
        crossing.run? ⟨{}, 1000⟩ firedRun = some last ∧
        (∀ i ∈ [1, 2, 3], Quiet (deeds i (System.moments ⟨{}, 1000⟩ crossing firedRun))) ∧
        (∀ i ∈ [1, 2, 3], last.requests[i]?.map Request.stage = some (.answered none)) ∧
        ∀ unit, .called (.request 3) unit ∉ last.history := by
  have early : Chronicle ⟨{}, 1000⟩ (fun _ => True) {}
      (System.moments ⟨{}, 1000⟩ {} crossingRun) crossing :=
    Chronicle.of_run? (fun _ _ => trivial) rfl
  have found : crossing.requests[0]? = some (crossing.requests.get ⟨0, by decide⟩) := rfl
  have ran : crossing.run? ⟨{}, 1000⟩ firedRun =
      some ((crossing.run? ⟨{}, 1000⟩ firedRun).get rfl) := rfl
  have late : ∀ i ∈ [1, 2, 3], Chronicle ⟨{}, 1000⟩ (Act.Fired i) crossing
      (System.moments ⟨{}, 1000⟩ crossing firedRun)
      ((crossing.run? ⟨{}, 1000⟩ firedRun).get rfl) := by
    intro i _
    refine Chronicle.of_run? ?_ ran
    simp [firedRun, Act.Fired, Request.Move.Fired]
  have running : ∀ i ∈ [1, 2, 3], ∀ r, crossing.requests[i]? = some r →
      r.stage.isAnswered = false := by
    simp only [List.forall_mem_cons]
    refine ⟨?_, ?_, ?_, by simp⟩ <;> rintro r ⟨⟩ <;> rfl
  refine ⟨_, _, found, ((requests_write_once early 0).1 _ found).1, rfl, ran, ?_, by decide, ?_⟩
  · intro i member
    exact ((requests_write_once early i).2 _ _ (late i member) (running i member)).1
  · have none : ∀ r, crossing.requests[3]? = some r → r.stage.isLooking = true := by
      rintro r ⟨⟩
    exact ((requests_write_once early 3).2 _ _ (late 3 (by simp)) (running 3 (by simp))).2.1 none

end FreshTree
