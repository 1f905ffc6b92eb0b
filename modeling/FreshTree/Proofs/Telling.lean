import FreshTree.Proofs.Diary

/-!
What a request tells. It may tell several times that it waits, at most once more
than the active unit changes while it runs, and then it tells one of a few things,
each of which goes with one kind of answer.
-/

namespace FreshTree

variable {U A : Type} [DecidableEq U]

/-- What a request for `unit` may tell last, and its answer, if its latest look found `p`. -/
inductive Closing (unit : U) (policy : Policy) (p : Provider U A) :
    List Event → Option (Tree U A) → Prop where
  | hit {tree : Tree U A} :
      p.serve unit = some tree → Closing unit policy p [.cacheHit] (some tree)
  | miss :
      policy ≠ .waitForCurrent → p.Lacks unit → Closing unit policy p [.cacheMiss] none
  | installed {tree : Tree U A} :
      policy = .waitForCurrent → p.Lacks unit → tree.unit = unit → tree.origin = .foreground →
      Closing unit policy p [.cacheMiss, .foregroundParse, .treeInstalled] (some tree)
  | superseded {tree : Tree U A} :
      policy = .waitForCurrent → p.Lacks unit → tree.unit = unit → tree.origin = .foreground →
      Closing unit policy p [.cacheMiss, .foregroundParse] (some tree)
  | foregroundLost (why : ParseFailure) :
      policy = .waitForCurrent → p.Lacks unit →
      Closing unit policy p [.cacheMiss, .foregroundParse, why.event] none
  | detached {tree : Tree U A} :
      policy ≠ .activeOnly → p.active ≠ some unit → tree.unit = unit → tree.origin = .detached →
      Closing unit policy p [.detachedParse] (some tree)
  | detachedLost (why : ParseFailure) :
      policy ≠ .activeOnly → p.active ≠ some unit →
      Closing unit policy p [.detachedParse, why.event] none
  | cancelled : Closing unit policy p [.cancelled] none
  | timedOut :
      policy = .waitForCurrent → p.Lacks unit → p.cycles.running = some unit →
      Closing unit policy p [.waitTimedOut] none
  | silent :
      p.disposed = true ∨ policy = .activeOnly ∧ p.active ≠ some unit →
      Closing unit policy p [] none

inductive Stage.Tells (unit : U) (policy : Policy) (sight : Option (Provider U A)) :
    Stage U A → List Event → Prop where
  | validating : Tells unit policy sight .validating []
  | blocked {slice : Instant} : Tells unit policy sight (.blocked slice) []
  | detached {p : Provider U A} :
      sight = some p → policy ≠ .activeOnly → p.active ≠ some unit →
      Tells unit policy sight (.parsing .detached) [.detachedParse]
  | foreground {p : Provider U A} {since : Generation} :
      sight = some p → policy = .waitForCurrent → p.Lacks unit →
      Tells unit policy sight (.parsing (.foreground since)) [.cacheMiss, .foregroundParse]
  | installing {p : Provider U A} {tree : Tree U A} {since : Generation} :
      sight = some p → policy = .waitForCurrent → p.Lacks unit → tree.unit = unit →
      tree.origin = .foreground →
      Tells unit policy sight (.installing tree since) [.cacheMiss, .foregroundParse]
  | answered {p : Provider U A} {tree : Option (Tree U A)} {events : List Event} :
      sight = some p → Closing unit policy p events tree →
      Tells unit policy sight (.answered tree) events

/-- How many waits a request may have told that no change of the active unit has paid for.
In its loop that is one if it waits and has seen the present focus. Past its loop it tells
no more waits, so nothing is lost by granting it one. -/
def Request.spare (p : Provider U A) (r : Request U A) : Nat :=
  if r.stage.isLooking = true ∧ ¬ (r.waiting = true ∧ r.seen = some p.focus.changes) then 0 else 1

/-- A request has told `waits` waits, and after them the events `closing`. -/
structure Telling (waits : Nat) (closing : List Event) (d : Diary U A) (p : Provider U A)
    (r : Request U A) : Prop where
  events : Note.events d.notes = List.replicate waits .waitEntered ++ closing
  stage : r.stage.Tells r.unit r.policy d.sight closing
  patient : r.policy ≠ .waitForCurrent → waits = 0
  bound : waits ≤ d.shifts + r.spare p

namespace Request

variable {limits : Limits} {now : Instant} {p q : Provider U A} {r next : Request U A}

omit [DecidableEq U] in
theorem spare_le (p : Provider U A) (r : Request U A) : r.spare p ≤ 1 := by
  unfold spare
  split
  · exact Nat.zero_le 1
  · exact Nat.le_refl 1

omit [DecidableEq U] in
theorem spare_of_past (past : r.stage.isLooking = false) (p : Provider U A) : r.spare p = 1 := by
  simp [spare, past]

omit [DecidableEq U] in
theorem spare_waiting (waits : r.waiting = true) (current : r.seen = some p.focus.changes) :
    r.spare p = 1 := by
  simp [spare, waits, current]

omit [DecidableEq U] in
theorem spare_noticed (looking : r.stage = .validating)
    (idle : (r.noticed limits now p).waiting = false) : r.spare p = 0 := by
  have isLooking : r.stage.isLooking = true := by
    rw [looking]
    rfl
  rcases r.noticed_cases limits now p with ⟨_, same⟩ | ⟨⟨old, seen, moved⟩, _⟩
  · have idle : r.waiting = false := by
      rw [same] at idle
      exact idle
    simp [spare, isLooking, idle]
  · simp [spare, isLooking, seen, moved]

end Request

/-! What a look, and what a move past the loop, adds to what is told. -/

namespace Telling

variable {limits : Limits} {now : Instant} {called : Option Nat} {p q : Provider U A}
  {r next : Request U A} {d : Diary U A} {waits : Nat} {closing events : List Event}
  {told : List (Note U)} {move : Request.Move A}

theorem made (limits : Limits) (now : Instant) (p : Provider U A) (unit : U) (policy : Policy) :
    Telling 0 [] { since := now } p (Request.start limits now unit policy) where
  events := rfl
  stage := .validating
  patient _ := rfl
  bound := Nat.zero_le _

theorem leaves (before : Telling waits closing d p r) (said : Note.events told = events)
    (unit : next.unit = r.unit) (policy : next.policy = r.policy)
    (past : next.stage.isLooking = false)
    (tells : next.stage.Tells r.unit r.policy (d.move now p told move).sight (closing ++ events)) :
    Telling waits (closing ++ events) (d.move now p told move) q next where
  events := by rw [Diary.move_notes, Note.events_append, before.events, said, List.append_assoc]
  stage := by
    rw [unit, policy]
    exact tells
  patient mine := before.patient (policy ▸ mine)
  bound :=
    calc
      waits ≤ d.shifts + r.spare p := before.bound
      _ ≤ d.shifts + 1 := Nat.add_le_add_left (r.spare_le p) _
      _ = (d.move now p told move).shifts + next.spare q := by
        rw [Diary.move_shifts, Request.spare_of_past past]

theorem decided (before : Telling waits [] d p r) (looking : r.stage = .validating)
    (decision : (r.noticed limits now p).Decision limits now p next (Note.events told)) :
    ∃ waits closing, Telling waits closing (d.move now p told (.look false)) p next := by
  have unit := r.noticed_unit limits now p
  have policy := r.noticed_policy limits now p
  have current := r.noticed_seen limits now p
  generalize said : Note.events told = events at decision
  cases decision with
  | refused away mine =>
    exact ⟨waits, _, before.leaves said unit policy rfl
      (.answered rfl (.silent (.inr ⟨policy ▸ mine, unit ▸ away⟩)))⟩
  | detached away mine =>
    exact ⟨waits, _, before.leaves said unit policy rfl
      (.detached rfl (policy ▸ mine) (unit ▸ away))⟩
  | served served =>
    exact ⟨waits, _, before.leaves said unit policy rfl (.answered rfl (.hit (unit ▸ served)))⟩
  | missed lacks mine =>
    exact ⟨waits, _, before.leaves said unit policy rfl
      (.answered rfl (.miss (policy ▸ mine) (unit ▸ lacks)))⟩
  | foreground lacks mine =>
    exact ⟨waits, _, before.leaves said unit policy rfl
      (.foreground rfl (policy ▸ mine) (unit ▸ lacks))⟩
  | timedOut awaits =>
    exact ⟨waits, _, before.leaves said unit policy rfl
      (.answered rfl (.timedOut (policy ▸ awaits.policy) (unit ▸ awaits.lacks) (unit ▸ awaits.busy)))⟩
  | @sleeps slice awaits early waiting =>
    -- Nothing is told, but one wait is to spare now that the request is known to wait.
    have spare : Request.spare p { r.noticed limits now p with stage := .blocked slice } = 1 :=
      Request.spare_waiting waiting current
    refine ⟨waits, [], ?_, .blocked, fun mine => before.patient (policy ▸ mine), ?_⟩
    · rw [Diary.move_notes, Note.events_append, before.events, said, List.append_nil]
    · rw [Diary.move_shifts, spare]
      exact Nat.le_trans before.bound (Nat.add_le_add_left (r.spare_le p) _)
  | waits awaits early idle =>
    -- The wait told now was not told before, or the focus moved since.
    have spare : Request.spare p
        { r.noticed limits now p with waiting := true, stage := .validating } = 1 :=
      Request.spare_waiting rfl current
    refine ⟨waits + 1, [], ?_, .validating, fun mine => absurd awaits.policy mine, ?_⟩
    · rw [Diary.move_notes, Note.events_append, before.events, said, List.replicate_succ',
        List.append_nil, List.append_nil]
    · have bound := before.bound
      rw [Request.spare_noticed looking idle] at bound
      rw [Diary.move_shifts, spare]
      exact Nat.succ_le_succ bound

theorem glanced (before : Telling waits closing d p r) (looking : r.stage = .validating)
    {cancelled : Bool} (glance : r.Glance limits now p cancelled next (Note.events told)) :
    ∃ waits closing, Telling waits closing (d.move now p told (.look cancelled)) p next := by
  obtain rfl : closing = [] := by
    have stage := before.stage
    rw [looking] at stage
    cases stage
    rfl
  generalize said : Note.events told = events at glance
  cases glance with
  | disposed gone =>
    exact ⟨waits, _, before.leaves said rfl rfl rfl (.answered rfl (.silent (.inl gone)))⟩
  | cancelled => exact ⟨waits, _, before.leaves said rfl rfl rfl (.answered rfl .cancelled)⟩
  | decided _ decision => exact before.decided looking (said.symm ▸ decision)

theorem lost (before : Telling waits closing d p r) {purpose : Purpose}
    (parsing : r.stage = .parsing purpose) (why : ParseFailure) (sight : (d.move now p told move).sight = d.sight)
    (said : Note.events told = [why.event]) :
    Telling waits (closing ++ [why.event]) (d.move now p told move) q (r.answer none) := by
  have stage := before.stage
  rw [parsing] at stage
  refine before.leaves said rfl rfl rfl ?_
  rw [sight]
  cases stage with
  | detached seen mine away => exact .answered seen (.detachedLost why mine away)
  | foreground seen mine lacks => exact .answered seen (.foregroundLost why mine lacks)

theorem moved (before : Telling waits closing d p r)
    (went : r.move? limits now called p move = some (q, next, told)) :
    ∃ waits closing, Telling waits closing (d.move now p told move) q next := by
  have course := Request.move?_course went
  generalize said : Note.events told = events at course
  -- The stage before the move says what was told so far; the move adds its own word.
  have stage := before.stage
  cases course with
  | looked looking glance => exact before.glanced looking (said.symm ▸ glance)
  | woken asleep =>
    rw [asleep] at stage
    cases stage
    refine ⟨waits, [], ?_, .validating, before.patient, ?_⟩
    · rw [Diary.move_notes, Note.events_append, before.events, said, List.append_nil]
    · have same : Request.spare p { r with stage := .validating } = r.spare p := by
        simp [Request.spare, asleep, Stage.isLooking]
      rw [Diary.move_shifts, same]
      exact before.bound
  | called parsing =>
    have past : r.stage.isLooking = false := by
      rw [parsing]
      rfl
    exact ⟨waits, _, before.leaves said rfl rfl past (by rw [List.append_nil]; exact stage)⟩
  | failed parsing => exact ⟨waits, _, before.lost parsing _ rfl said⟩
  | dropped parsing =>
    exact ⟨waits, _, before.lost parsing .cancelled rfl said⟩
  | detached parsing =>
    rw [parsing] at stage
    cases stage with
    | detached seen mine away =>
      exact ⟨waits, _, before.leaves said rfl rfl rfl
        (.answered seen (.detached mine away rfl rfl))⟩
  | parsed parsing =>
    rw [parsing] at stage
    cases stage with
    | foreground seen mine lacks =>
      exact ⟨waits, _, before.leaves said rfl rfl rfl (.installing seen mine lacks rfl rfl)⟩
  | withdrawn ready =>
    rw [ready] at stage
    cases stage with
    | installing seen mine lacks =>
      exact ⟨waits, _, before.leaves said rfl rfl rfl
        (.answered seen (.foregroundLost .cancelled mine lacks))⟩
  | installed ready =>
    rw [ready] at stage
    cases stage with
    | installing seen mine lacks unit origin =>
      exact ⟨waits, _, before.leaves said rfl rfl rfl
        (.answered seen (.installed mine lacks unit origin))⟩
  | superseded ready =>
    rw [ready] at stage
    cases stage with
    | installing seen mine lacks unit origin =>
      exact ⟨waits, _, before.leaves said rfl rfl rfl
        (.answered seen (.superseded mine lacks unit origin))⟩

/-- What others do while the request runs. A wait that is no longer to spare was paid
for by a change of the active unit. -/
theorem passed (before : Telling waits closing d p r) (shifts : p.Shifts q) :
    Telling waits closing (d.pass p q) q r where
  events := by rw [Diary.pass_notes, before.events]
  stage := by
    rw [Diary.pass_sight]
    exact before.stage
  patient := before.patient
  bound := by
    rcases shifts with ⟨still, same⟩ | ⟨moved, _⟩
    · have spare : r.spare q = r.spare p := by rw [Request.spare, Request.spare, same]
      rw [Diary.pass, if_pos still, spare]
      exact before.bound
    · rw [Diary.pass, if_neg moved]
      calc
        waits ≤ d.shifts + r.spare p := before.bound
        _ ≤ d.shifts + 1 := Nat.add_le_add_left (r.spare_le p) _
        _ ≤ d.shifts + 1 + r.spare q := Nat.le_add_right _ _

theorem rested (before : Telling waits closing d p r) (done : r.stage.isAnswered = true)
    (q : Provider U A) : Telling waits closing d q r where
  events := before.events
  stage := before.stage
  patient := before.patient
  bound := by
    have past := Stage.isLooking_of_isAnswered done
    have bound := before.bound
    rw [Request.spare_of_past past] at bound ⊢
    exact bound

theorem ofRun {limits : Limits} {i : Nat} {acts : List (Act U A)} {last : System U A}
    {r : Request U A} (ran : System.run? limits {} acts = some last)
    (found : last.requests[i]? = some r) :
    ∃ waits closing, Telling waits closing (Diary.ofRun limits i acts) last.provider r := by
  refine Diary.ofRun_holds (motive := fun d p r => ∃ waits closing, Telling waits closing d p r)
    ?_ ?_ ?_ ?_ ran found
  · exact fun now p unit policy => ⟨0, [], made limits now p unit policy⟩
  · rintro d now called p r move q next told ⟨waits, closing, before⟩ went
    exact before.moved went
  · rintro d p q r _ shifts ⟨waits, closing, before⟩
    exact ⟨waits, closing, before.passed shifts⟩
  · rintro d p q r done ⟨waits, closing, before⟩
    exact ⟨waits, closing, before.rested done q⟩

end Telling

/-- The events that a request told by the time of its answer: that it waits, only if
it may wait, and at most once more than the active unit changed while it ran; and
then a closing that goes with its answer and with the provider as it was at the
latest look. -/
theorem events_follow_grammar {limits : Limits} {acts : List (Act U A)} {last : System U A}
    {i : Nat} {r : Request U A} {answer : Option (Tree U A)}
    (ran : System.run? limits {} acts = some last) (found : last.requests[i]? = some r)
    (done : r.stage = .answered answer) :
    ∃ waits closing p,
      Note.events (Diary.ofRun limits i acts).notes =
          List.replicate waits .waitEntered ++ closing ∧
        (r.policy ≠ .waitForCurrent → waits = 0) ∧
        waits ≤ 1 + (Diary.ofRun limits i acts).shifts ∧
        (Diary.ofRun limits i acts).sight = some p ∧
        Closing r.unit r.policy p closing answer := by
  obtain ⟨waits, closing, telling⟩ := Telling.ofRun ran found
  have stage := telling.stage
  have bound := telling.bound
  rw [done] at stage
  rw [Request.spare_of_past (by rw [done]; rfl), Nat.add_comm] at bound
  cases stage with
  | answered seen closed =>
    exact ⟨waits, closing, _, telling.events, telling.patient, bound, seen, closed⟩

def waveringRun : List (Act Nat Nat) :=
  [.setActive (some 7), .begin 7, .ask 7 .waitForCurrent, .request 0 (.look false),
    .request 0 (.look false), .setActive none, .setActive (some 7), .begin 7, .request 0 .wake,
    .request 0 (.look false), .deliver (some 5) 7 ⟨1⟩, .request 0 (.look false),
    .setActive (some 8), .setActive (some 7), .request 0 .wake, .request 0 (.look false),
    .request 0 .call, .begin 8, .request 0 (.finish false (.returned (.ok 4))),
    .request 0 (.install false)]

def wavering : System Nat Nat :=
  (System.run? ⟨{}, 1000⟩ {} waveringRun).get rfl

theorem events_follow_grammar_wavering :
    Note.events (Diary.ofRun ⟨{}, 1000⟩ 0 waveringRun).notes =
        [.waitEntered, .waitEntered, .cacheMiss, .foregroundParse] ∧
      ∃ waits closing p,
        [.waitEntered, .waitEntered, .cacheMiss, .foregroundParse] =
            List.replicate waits .waitEntered ++ closing ∧
          waits ≤ 1 + 4 ∧
          (Diary.ofRun ⟨{}, 1000⟩ 0 waveringRun).sight = some p ∧
          Closing 7 .waitForCurrent p closing (some ⟨16, 7, .foreground, 4⟩) := by
  have ran : System.run? ⟨{}, 1000⟩ {} waveringRun = some wavering := rfl
  have told : Note.events (Diary.ofRun ⟨{}, 1000⟩ 0 waveringRun).notes =
      [.waitEntered, .waitEntered, .cacheMiss, .foregroundParse] := rfl
  have found : wavering.requests[0]? = some (wavering.requests.get ⟨0, by decide⟩) := rfl
  obtain ⟨waits, closing, p, events, _, bound, seen, closed⟩ := events_follow_grammar ran found rfl
  exact ⟨told, waits, closing, p, told.symm.trans events, bound, seen, closed⟩

end FreshTree
