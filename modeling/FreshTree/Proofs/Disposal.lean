import FreshTree.Proofs.Loop

/-!
Disposal. Every section of the provider looks at the disposal first, so once it
has happened the provider never changes again, whoever comes with whatever was
under way. Requests in their loop learn of it at their next look and end there.
-/

namespace FreshTree

variable {U A : Type}

structure Provider.Cleared (p : Provider U A) : Prop where
  active : p.active = none
  cached : p.cached = none
  idle : p.cycles.running = none

variable [DecidableEq U]

namespace Provider

variable {p q : Provider U A} {happening : Happening U A}

theorem Touch.of_disposed (touch : p.Touch happening q) (gone : p.disposed = true) :
    q = p ∧ happening.cycle? = none := by
  cases touch with
  | kept none => exact ⟨rfl, none⟩
  | focused unit => exact ⟨by simp [setActive, gone], rfl⟩
  | disposed => exact ⟨by simp [dispose, gone], rfl⟩
  | begun unit service =>
    rw [gone] at service
    cases service
  | completed id ast unit generation none => exact ⟨by simp [complete, receive, gone], none⟩

theorem dispose_cleared (service : p.disposed = false) : p.dispose.provider.Cleared := by
  simp only [dispose, service, Bool.false_eq_true, if_false]
  exact ⟨Focus.set_active _ _, rfl, rfl⟩

theorem Touch.cleared (touch : p.Touch happening q) (service : p.disposed = false)
    (gone : q.disposed = true) : q.Cleared := by
  have same : q.disposed = p.disposed → q.Cleared := by
    intro same
    rw [gone, service] at same
    cases same
  cases touch with
  | kept => exact same rfl
  | focused unit =>
    apply same
    rcases p.setActive_cases unit with ⟨kept, _⟩ | ⟨_, _, moved⟩
    · rw [kept]
    · rw [moved]
  | disposed => exact dispose_cleared service
  | begun unit => exact same (invalidate_disposed _ unit)
  | completed id ast unit generation => exact same (p.complete_frame id ast unit generation).2

theorem install_disposed {tree : Tree U A} {since : Generation} (gone : p.disposed = true) :
    p.installForeground? tree since = none := by
  simp [installForeground?, gone]

end Provider

namespace System

variable {s after : System U A} {happening : Happening U A}

theorem Turn.of_disposed (turn : s.Turn happening after) (gone : s.provider.disposed = true) :
    after.provider = s.provider ∧ happening.cycle? = none := by
  cases turn with
  | touched touch => exact touch.of_disposed gone
  | asked => exact ⟨rfl, rfl⟩
  | moved found effect =>
    refine ⟨?_, effect.cycle?_eq_none⟩
    cases effect with
    | looked | woken | called | returned => rfl
    | offered _ _ _ installed =>
      rcases installed with rfl | installed
      · rfl
      · rw [Provider.install_disposed gone] at installed
        cases installed

theorem Turn.cleared (turn : s.Turn happening after) (service : s.provider.disposed = false)
    (gone : after.provider.disposed = true) : after.provider.Cleared := by
  cases turn with
  | touched touch => exact touch.cleared service gone
  | asked => exact absurd (service.symm.trans gone) nofun
  | @moved i r next q happening notes found effect =>
    have same : q.disposed = s.provider.disposed := by
      cases effect with
      | looked | woken | called | returned => rfl
      | offered _ _ _ installed =>
        rcases installed with rfl | installed
        · rfl
        · obtain ⟨_, _, _, _, rfl⟩ := Provider.installForeground?_some installed
          rfl
    rw [service] at same
    exact absurd (same.symm.trans gone) nofun

end System

namespace Chronicle

variable {limits : Limits} {allowed : Act U A → Prop} {s : System U A} {past : List (Moment U A)}

theorem cleared (chronicle : Chronicle limits allowed {} past s)
    (gone : s.provider.disposed = true) : s.provider.Cleared := by
  induction chronicle with
  | start => cases gone
  | @next past before after act happening told fine stepped grown ih =>
    have turn := System.Turn.of_step? stepped grown
    by_cases earlier : before.provider.disposed = true
    · rw [(turn.of_disposed earlier).1]
      exact ih earlier
    · exact turn.cleared (by simpa using earlier) gone

end Chronicle

theorem Request.validate_disposed {p : Provider U A} (gone : p.disposed = true) (limits : Limits)
    (now : Instant) (cancelled : Bool) (r : Request U A) :
    (r.validate limits now cancelled p).1 = r.answer none := by
  simp [validate, gone, refuse]

namespace Chronicle

variable {limits : Limits} {allowed : Act U A → Prop} {first last : System U A}
  {later : List (Moment U A)}

theorem disposed (late : Chronicle limits allowed first later last)
    (gone : first.provider.disposed = true) :
    last.provider = first.provider ∧ ∀ m ∈ later, m.happening.cycle? = none := by
  induction late with
  | start => exact ⟨rfl, by simp⟩
  | next _ _ stepped grown ih =>
    obtain ⟨same, unbegun⟩ := ih
    have turn := System.Turn.of_step? stepped grown
    obtain ⟨kept, none⟩ := turn.of_disposed (by rw [same]; exact gone)
    exact ⟨kept.trans same, List.forall_mem_append.mpr ⟨unbegun, by simpa using none⟩⟩

theorem ends_disposed (late : Chronicle limits allowed first later last)
    (gone : first.provider.disposed = true) {i : Nat}
    (looking : ∀ r, first.requests[i]? = some r → r.stage.isLooking = true) :
    callMoment? last.history (.request i) = callMoment? first.history (.request i) ∧
      last.EndsWith none later i := by
  induction late with
  | start => exact ⟨rfl, Or.inr ⟨looking, by simp⟩⟩
  | next told _ stepped grown ih =>
    obtain ⟨same, ends⟩ := ih
    have still : _ = true := (congrArg Provider.disposed (told.disposed gone).1).trans gone
    obtain ⟨uncalled, ends⟩ := ends.step stepped grown fun r cancelled _ _ => by
      rw [Request.validate_disposed still]
      rfl
    refine ⟨?_, ends⟩
    rw [grown, callMoment?_grow uncalled]
    exact same

end Chronicle

variable {limits : Limits} {allowed wider : Act U A → Prop} {s t last : System U A}
  {past later : List (Moment U A)}

/-- After a disposal the provider never changes again: it has no active unit, no
cached tree and no open cycle, and keeps its generation. Nobody opens a cycle any
more, and an edit is refused before its command is queued. A request that was in
its loop at the disposal, or is made after it, ends at its next look with
nothing, whatever its policy, token and deadline, and never calls the engine. -/
theorem dispose_terminal (early : Chronicle limits allowed {} past s)
    (disposal : s.step? limits .dispose = some t) (late : Chronicle limits wider t later last) :
    (last.provider.disposed = true ∧ last.provider.Cleared ∧
        last.provider.generation = s.provider.generation) ∧
      (∀ m ∈ later, m.happening.cycle? = none) ∧
      (∀ unit, (last.provider.begin unit).reply = none) ∧
      (∀ unit r, ∃ notes, Reconciler.beginNote unit last.provider r =
        ({ reconciler := { r with noted := r.noted + 1 }, provider := last.provider, notes },
          .error .disposed)) ∧
      ∀ i, (∀ r, t.requests[i]? = some r → r.stage.isLooking = true) →
        (∀ unit, .called (.request i) unit ∉ last.history) ∧
          last.EndsWith none later i ∧
          ∀ r cancelled, last.requests[i]? = some r → r.stage.isLooking = true →
            ∃ after, last.run? limits (r.revalidate i cancelled) = some after ∧
              after.requests[i]? = some (r.answer none) := by
  have disposed : s.Turn .disposed t := .of_step? disposal (by cases disposal; rfl)
  have closed : t.provider = s.provider.dispose.provider := by
    cases disposal
    rfl
  have gone : t.provider.disposed = true := by
    rw [closed]
    exact s.provider.dispose_disposed
  obtain ⟨same, unbegun⟩ := late.disposed gone
  have ended : last.provider.disposed = true := by
    rw [same]
    exact gone
  refine ⟨⟨ended, ?_, ?_⟩, unbegun, fun unit => ?_, fun unit r => ?_, fun i looking => ?_⟩
  · rw [same]
    -- Disposing twice does nothing the second time, so what is left was left by the first.
    by_cases before : s.provider.disposed = true
    · rw [(disposed.of_disposed before).1]
      exact early.cleared before
    · exact disposed.cleared (by simpa using before) gone
  · rw [same, closed]
    exact s.provider.dispose_opensNone.generation
  · simp [Provider.begin, ended]
  · exact ⟨_, by simp [Reconciler.beginNote, Provider.begin, ended]; rfl⟩
  · obtain ⟨calls, ends⟩ := late.ends_disposed gone looking
    refine ⟨?_, ends, fun r cancelled found waits => ?_⟩
    · apply callMoment?_none
      rw [calls]
      exact early.uncalled.turn disposed i looking
    · obtain ⟨after, ran, _, _, moved⟩ := System.run?_revalidate limits cancelled found waits
      refine ⟨after, ran, ?_⟩
      rw [moved, Request.validate_disposed ended, Request.wake_answer]

/-- Request 0 parses unit 7, request 1 waits for its cycle, one edit is parsed in
the background and another is being noted. -/
def midwayRun : List (Act Nat Nat) :=
  [.setActive (some 7), .ask 7 .waitForCurrent, .request 0 (.look false), .request 0 .call,
    .spawn { debounceMs := 0 }, .reconciler 0 (.note 7), .reconciler 0 .send, .reconciler 0 .turn,
    .reconciler 0 .turn, .reconciler 0 (.call 0), .ask 7 .waitForCurrent, .request 1 (.look false),
    .request 1 (.look false), .reconciler 0 (.note 7)]

def midway : System Nat Nat := (System.run? ⟨{}, 1000⟩ {} midwayRun).get rfl

/-- All of them go on after the disposal, and others come. -/
def afterlifeRun : List (Act Nat Nat) :=
  [.request 0 (.finish false (.returned (.ok 4))), .request 0 (.install false), .reconciler 0 .send,
    .reconciler 0 (.finish 0 (.returned (.ok 5))), .reconciler 0 .turn, .reconciler 0 .turn,
    .reconciler 0 (.note 7), .setActive (some 7), .begin 7, .deliver (some 6) 7 ⟨1⟩, .dispose,
    .ask 7 .waitForCurrent, .request 2 (.look true), .reconciler 0 .stop, .reconciler 0 .turn]

theorem dispose_terminal_midway :
    ∃ t last after : System Nat Nat,
      midway.step? ⟨{}, 1000⟩ .dispose = some t ∧ t.run? ⟨{}, 1000⟩ afterlifeRun = some last ∧
        midway.provider.cycles.running = some 7 ∧ last.provider.Cleared ∧
        last.provider.generation = midway.provider.generation ∧
        (∃ slice, last.requests[1]?.map Request.stage = some (.blocked slice)) ∧
        last.run? ⟨{}, 1000⟩ [.request 1 .wake, .request 1 (.look false)] = some after ∧
        after.requests[1]?.map Request.stage = some (.answered none) ∧
        last.requests[2]?.map Request.stage = some (.answered none) ∧
        ∀ unit, .called (.request 1) unit ∉ last.history := by
  have early : Chronicle ⟨{}, 1000⟩ (fun _ => True) {} (System.moments ⟨{}, 1000⟩ {} midwayRun)
      midway := Chronicle.of_run? (fun _ _ => trivial) rfl
  have disposal : midway.step? ⟨{}, 1000⟩ .dispose =
      some ((midway.step? ⟨{}, 1000⟩ .dispose).get rfl) := rfl
  have ran : ((midway.step? ⟨{}, 1000⟩ .dispose).get rfl).run? ⟨{}, 1000⟩ afterlifeRun =
      some ((System.run? ⟨{}, 1000⟩ ((midway.step? ⟨{}, 1000⟩ .dispose).get rfl) afterlifeRun).get rfl) :=
    rfl
  have late : Chronicle ⟨{}, 1000⟩ (fun _ => True) _ (System.moments ⟨{}, 1000⟩ _ afterlifeRun) _ :=
    Chronicle.of_run? (fun _ _ => trivial) ran
  obtain ⟨⟨_, cleared, generation⟩, _, _, _, requests⟩ := dispose_terminal early disposal late
  have waiting : ∀ r, ((midway.step? ⟨{}, 1000⟩ .dispose).get rfl).requests[1]? = some r →
      r.stage.isLooking = true := by
    intro r found
    cases found
    rfl
  obtain ⟨uncalled, _, ends⟩ := requests 1 waiting
  obtain ⟨after, looked, moved⟩ := ends _ false rfl rfl
  refine ⟨_, _, after, disposal, ran, rfl, cleared, generation, ⟨_, rfl⟩, looked, ?_, rfl, uncalled⟩
  rw [moved]
  rfl

end FreshTree
