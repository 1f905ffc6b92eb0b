import FreshTree.Proofs.Threads
import FreshTree.Scenario.Standalone
import Mathlib.Data.List.Chain

/-!
The main list of a scenario, the background and the waiters act on the system and do nothing
else to it, so every state that a scenario reports is one of a run of the system.
-/

namespace FreshTree.Scenario

variable {limits : Limits} {s : System String String} {w : World} {α β : Type}

def Waiter.ByActs (limits : Limits) (waiter : Waiter) : Prop :=
  ∀ sleep resume, waiter.course = .asleep sleep resume →
    ∀ s w, w.Follows limits s → (resume w).Follows limits s

/-- Acts lead from `s` to the world of the scene, and on wherever a thread of it goes on. -/
structure Scene.Follows (limits : Limits) (s : System String String) (scene : Scene) : Prop where
  world : scene.world.Follows limits s
  paused : ∀ paused, scene.paused = some paused →
    ∀ how s w, w.Follows limits s → (paused.resume how w).Follows limits s
  waiters : ∀ waiter ∈ scene.waiters, waiter.ByActs limits

def Direct.ByActs (limits : Limits) (direct : Direct α) : Prop :=
  ∀ s scene, scene.Follows limits s → (direct.run scene).2.Follows limits s

/-! Waiters. -/

theorem Thread.Follows.course {thread : Thread (Option (Tree String String))}
    (follows : thread.Follows limits s) (log : Array Entry) :
    (⟨thread.course.1, log⟩ : Waiter).ByActs limits ∧ thread.course.2.Follows limits s := by
  induction follows with
  | ended follows => exact ⟨nofun, follows⟩
  | held follows _ ih => exact ih _ _ _ follows
  | asleep follows resumes =>
    refine ⟨?_, follows⟩
    rintro sleep resume ⟨⟩
    exact resumes

namespace Waiter

theorem run_follows {play : Play (Option (Tree String String))} (byActs : play.ByActs limits)
    (follows : w.Follows limits s) (log : Array Entry) :
    (run log play w).1.ByActs limits ∧ (run log play w).2.Follows limits s := by
  have logged : ({ w with log } : World).Follows limits s := follows.keep rfl rfl
  obtain ⟨waiter, after⟩ := (byActs s _ logged).course _
  exact ⟨waiter, after.keep rfl rfl⟩

theorem goOn?_follows {waiter next : Waiter} {after : World} (byActs : waiter.ByActs limits)
    (follows : w.Follows limits s) (gone : waiter.goOn? w = some (next, after)) :
    next.ByActs limits ∧ after.Follows limits s := by
  unfold goOn? at gone
  split at gone
  · cases gone
  · rename_i sleep resume asleep
    split at gone
    · have went := run_follows (byActs sleep resume asleep) follows waiter.log
      rw [Option.some.inj gone] at went
      exact went
    · cases gone

theorem turnOver_follows {waiter : Waiter} (byActs : waiter.ByActs limits)
    (follows : w.Follows limits s) :
    (waiter.turnOver w).1.ByActs limits ∧ (waiter.turnOver w).2.Follows limits s := by
  unfold turnOver
  split
  · exact ⟨byActs, follows⟩
  · rename_i sleep resume asleep
    constructor
    · rintro sleep resume ⟨⟩
      exact byActs _ _ asleep
    · dsimp only
      unfold Sleep.turnOver
      split
      · exact (follows.after _).after _
      · exact follows

theorem turnOverAll_follows {waiters : List Waiter} (byActs : ∀ waiter ∈ waiters, waiter.ByActs limits)
    (follows : w.Follows limits s) :
    (∀ waiter ∈ (turnOverAll waiters w).1, waiter.ByActs limits) ∧
      (turnOverAll waiters w).2.Follows limits s := by
  induction waiters generalizing w with
  | nil => exact ⟨byActs, follows⟩
  | cons waiter rest ih =>
    obtain ⟨first, after⟩ := turnOver_follows (byActs waiter List.mem_cons_self) follows
    obtain ⟨others, last⟩ := ih (fun other member => byActs other (.tail _ member)) after
    exact ⟨List.forall_mem_cons.mpr ⟨first, others⟩, last⟩

end Waiter

/-! Letting time pass while threads sleep. -/

namespace Scene.Follows

variable {scene : Scene}

theorem withWorld (follows : scene.Follows limits s) (next : w.Follows limits s) :
    ({ scene with world := w } : Scene).Follows limits s :=
  { follows with world := next }

theorem stirOne? {after : Scene} (follows : scene.Follows limits s)
    (stirred : scene.stirOne? = some after) : after.Follows limits s := by
  obtain ⟨index, _, stirred⟩ := List.exists_of_findSome?_eq_some stirred
  obtain ⟨waiter, found, stirred⟩ := Option.bind_eq_some_iff.mp stirred
  obtain ⟨⟨next, w⟩, gone, stirred⟩ := Option.bind_eq_some_iff.mp stirred
  cases stirred
  obtain ⟨byActs, world⟩ :=
    Waiter.goOn?_follows (follows.waiters waiter (List.mem_of_getElem? found)) follows.world gone
  refine ⟨world, follows.paused, fun other member => ?_⟩
  rcases List.mem_or_eq_of_mem_set member with before | rfl
  · exact follows.waiters other before
  · exact byActs

theorem turnOver (follows : scene.Follows limits s) : scene.turnOver.Follows limits s := by
  obtain ⟨byActs, world⟩ := Waiter.turnOverAll_follows follows.waiters follows.world
  exact ⟨world, follows.paused, byActs⟩

theorem stirFor (steps : Nat) (follows : scene.Follows limits s) :
    (scene.stirFor steps).Follows limits s := by
  induction steps generalizing scene with
  | zero => exact follows
  | succ steps ih =>
    simp only [Scene.stirFor]
    split
    · exact follows.turnOver
    · rename_i stirred
      exact ih (follows.turnOver.stirOne? stirred)

theorem joinFor (index rounds : Nat) (follows : scene.Follows limits s) :
    (scene.joinFor index rounds).Follows limits s := by
  induction rounds generalizing scene with
  | zero => exact follows
  | succ rounds ih =>
    have stirred : scene.stir.Follows limits s := follows.stirFor _
    simp only [Scene.joinFor]
    split
    · exact stirred
    · exact ih (stirred.withWorld (stirred.world.after _))

theorem sleepOut (follows : scene.Follows limits s) (sleep : Sleep) :
    (scene.sleepOut sleep).Follows limits s := by
  -- It is slept out as a waiter of its own, who does nothing once it is over.
  have sleeper : (Waiter.sleeper sleep).ByActs limits := by
    rintro sleep resume ⟨⟩ s w follows
    exact .ended follows
  have longer : ({ scene with waiters := scene.waiters ++ [Waiter.sleeper sleep] } : Scene).Follows
      limits s :=
    { follows with waiters := List.forall_mem_append.mpr ⟨follows.waiters, by simpa using sleeper⟩ }
  have joined := longer.joinFor scene.waiters.length
  exact ⟨(joined _).world, (joined _).paused, fun waiter member =>
    (joined _).waiters waiter (List.mem_of_mem_take member)⟩

end Scene.Follows

theorem Thread.Follows.finish {thread : Thread α} {scene : Scene}
    (follows : thread.Follows limits s) (before : scene.Follows limits s) :
    (thread.finish scene).2.Follows limits s := by
  induction follows generalizing scene with
  | ended follows => exact before.withWorld follows
  | held follows _ ih => exact ih _ _ _ follows before
  | @asleep _ sleep _ _ follows _ ih =>
    have after := (before.withWorld follows).sleepOut sleep
    exact ih _ _ after.world after

theorem Thread.Follows.onPool {thread : Thread Unit} {scene : Scene}
    (follows : thread.Follows limits s) (before : scene.Follows limits s) :
    (thread.onPool scene).Follows limits s := by
  induction follows generalizing scene with
  | ended follows => exact ⟨follows, nofun, before.waiters⟩
  | held follows resumes =>
    refine ⟨follows, ?_, before.waiters⟩
    rintro paused ⟨⟩
    exact resumes
  | @asleep _ sleep _ _ follows _ ih =>
    have after := (before.withWorld follows).sleepOut sleep
    exact ih _ _ after.world after

namespace Direct.ByActs

theorem pure (value : α) : (Pure.pure value : Direct α).ByActs limits := fun _ _ follows => follows

theorem bind {direct : Direct α} {next : α → Direct β} (first : direct.ByActs limits)
    (last : ∀ value, (next value).ByActs limits) : (direct >>= next).ByActs limits :=
  fun s scene follows => last _ s _ (first s scene follows)

theorem peek {next : Scene → Direct β} (last : ∀ scene, (next scene).ByActs limits) :
    ((get : Direct Scene) >>= next).ByActs limits :=
  fun s scene follows => last scene s scene follows

theorem look {next : World → Direct β} (last : ∀ w, (next w).ByActs limits) :
    (Scenario.look >>= next).ByActs limits :=
  fun s scene follows => last scene.world s scene follows

theorem alter {change : Scene → Scene}
    (follows : ∀ s (scene : Scene), scene.Follows limits s → (change scene).Follows limits s) :
    (modify change : Direct Unit).ByActs limits :=
  follows

theorem beside {update : World → World} (bound : ∀ w, (update w).limits = w.limits)
    (system : ∀ w, (update w).system = w.system) : (change update).ByActs limits :=
  fun _ _ follows => follows.withWorld (follows.world.keep (bound _) (system _))

theorem carry (act : Act String String) : (Scenario.carry act).ByActs limits :=
  fun _ _ follows => follows.withWorld (follows.world.after act)

theorem perform {play : Play α} (byActs : play.ByActs limits) :
    (Scenario.perform play).ByActs limits :=
  fun s scene follows => (byActs s scene.world follows.world).finish follows

theorem forM {items : List α} {direct : α → Direct Unit}
    (each : ∀ item, (direct item).ByActs limits) : (items.forM direct).ByActs limits := by
  induction items with
  | nil => exact pure _
  | cons item rest ih => exact bind (each item) fun _ => ih

theorem mapM {items : List α} {direct : α → Direct β}
    (each : ∀ item, (direct item).ByActs limits) : (items.mapM direct).ByActs limits := by
  induction items with
  | nil => exact pure _
  | cons item rest ih =>
    rw [List.mapM_cons]
    exact bind (each item) fun _ => bind ih fun _ => pure _

theorem withField {field : Field α} {next : α → Direct Answer}
    (all : ∀ value, (next value).ByActs limits) :
    (Scenario.withField field next).ByActs limits := by
  cases field with
  | ok value => exact all value
  | error refusal => exact pure _

theorem withHandle {next : Nat → Reconciler String String → Direct Answer}
    (all : ∀ index r, (next index r).ByActs limits) :
    (Scenario.withHandle next).ByActs limits := by
  refine look fun w => ?_
  split
  · exact all _ _
  · exact pure _

end Direct.ByActs

/-! Letting the background catch up. -/

namespace Nested.ByActs

variable {nested : Nested}

theorem turn (byActs : nested.ByActs limits) (index : Nat) :
    (turn nested index).ByActs limits := by
  refine .bind (byActs.enact _ _) fun entry => ?_
  split
  · exact .beside (fun _ => rfl) fun _ => rfl
  · exact .pure _

theorem runWorkers (byActs : nested.ByActs limits) (turns : Nat) :
    (runWorkers nested turns).ByActs limits := by
  induction turns with
  | zero => exact .pure _
  | succ turns ih =>
    refine .peek fun w => ?_
    split
    · exact .pure _
    · exact .bind (byActs.turn _) fun _ => ih

theorem stepPool? (byActs : nested.ByActs limits) {scene after : Scene}
    (follows : scene.Follows limits s) (stepped : scene.stepPool? nested = some after) :
    after.Follows limits s := by
  unfold Scene.stepPool? at stepped
  cases held : scene.paused with
  | some paused =>
    simp only [held] at stepped
    obtain ⟨how, _, rfl⟩ := Option.map_eq_some_iff.mp stepped
    exact (follows.paused paused held how _ _ follows.world).onPool follows
  | none =>
    cases queue : scene.world.poolQueue with
    | nil => simp [held, queue] at stepped
    | cons poolJob rest =>
      simp only [held, queue, Option.some.injEq] at stepped
      have dequeued : ({ scene.world with poolQueue := rest } : World).Follows limits s :=
        follows.world.keep rfl rfl
      exact stepped ▸ (byActs.parseOnPool poolJob _ _ dequeued).onPool follows

theorem runPool (byActs : nested.ByActs limits) (steps : Nat) :
    (runPool nested steps).ByActs limits := by
  induction steps with
  | zero => exact .pure _
  | succ steps ih =>
    intro s scene follows
    cases stepped : scene.stepPool? nested with
    | none =>
      have idle : (Scenario.runPool nested (steps + 1)).run scene = (false, scene) := by
        simp [Scenario.runPool, stepped]
        rfl
      exact idle ▸ follows
    | some after =>
      have worked : ((Scenario.runPool nested (steps + 1)).run scene).2 =
          ((Scenario.runPool nested steps).run after).2 := by
        simp [Scenario.runPool, stepped]
        rfl
      exact worked ▸ ih s after (byActs.stepPool? follows stepped)

theorem settleFor (byActs : nested.ByActs limits) (budget rounds : Nat) :
    (settleFor nested budget rounds).ByActs limits := by
  induction rounds with
  | zero => exact .pure _
  | succ rounds ih =>
    refine .bind (.perform (byActs.runWorkers budget)) fun _ =>
      .bind (byActs.runPool budget) fun worked => ?_
    split
    · exact ih
    · exact .pure _

theorem settlePool (byActs : nested.ByActs limits) : (settlePool nested).ByActs limits := by
  refine .look fun w => ?_
  split
  · exact .bind (byActs.runPool _) fun _ => .pure _
  · exact .pure _

theorem settle (byActs : nested.ByActs limits) : (settle nested).ByActs limits := by
  refine .look fun w => ?_
  split
  · exact byActs.settleFor _ _
  · exact .pure _

end Nested.ByActs

/-! The operations of the main list. -/

/-- The operations of the main list act on the system and do nothing else to it. -/
def Listed.ByActs (limits : Limits) (listed : Listed) : Prop :=
  ∀ operation, (listed operation).ByActs limits

theorem letGo_byActs (index : Nat) : (letGo index).ByActs limits :=
  .bind (.carry _) fun _ => .beside (fun _ => rfl) fun _ => rfl

theorem joinWaiter_byActs (index : Nat) : (joinWaiter index).ByActs limits := by
  refine .bind (.alter fun s scene follows => follows.joinFor index _) fun _ => .peek fun scene => ?_
  split
  · exact .bind (.perform (.presentAnswer _)) fun _ => .pure _
  · exact .pure _

theorem startWaiter_byActs {request : Play (Option (Tree String String))}
    (byActs : request.ByActs limits) : (startWaiter request).ByActs limits := by
  refine .alter fun s scene follows => ?_
  obtain ⟨waiter, world⟩ := Waiter.run_follows byActs follows.world #[]
  exact ⟨world, follows.paused, List.forall_mem_append.mpr ⟨follows.waiters, by simpa [Waiter.start] using waiter⟩⟩

namespace Nested.ByActs

variable {nested : Nested} {carried : Listed}

theorem spawn (byActs : nested.ByActs limits) (debounceMs : UInt64) :
    (spawn nested debounceMs).ByActs limits :=
  .bind (.beside (fun _ => rfl) fun _ => rfl) fun _ =>
    .bind (.perform (byActs.enact _ _)) fun _ => .pure _

theorem playBatch (byActs : nested.ByActs limits) (lists : carried.ByActs limits)
    (operations : List Operation) (answers : List Answer) :
    (playBatch nested carried operations answers).ByActs limits := by
  induction operations generalizing answers with
  | nil => exact .pure _
  | cons operation rest ih =>
    unfold Scenario.playBatch
    split
    · exact .pure _
    · exact .bind (lists operation) fun _ => .bind byActs.settlePool fun _ => ih _

theorem waitWith (byActs : nested.ByActs limits) (lists : carried.ByActs limits) (unit : String)
    (policy : Policy) (token : Option String) (count : Nat) (during : List Operation) :
    (waitWith nested carried unit policy token count during).ByActs limits := by
  have stirs : ∀ operation, (playDuring nested carried operation).ByActs limits :=
    fun operation => .bind (lists operation) fun _ => .bind byActs.settle fun _ =>
      .bind (.alter fun s scene follows => follows.stirFor _) fun _ => .pure _
  refine .peek fun scene => .bind (.forM fun _ => startWaiter_byActs (byActs.requestTree _ _ _ _)) fun _ =>
    .bind (.mapM stirs) fun _ => .bind (.mapM fun _ => joinWaiter_byActs _) fun _ =>
      .bind (.alter fun s scene follows => ?_) fun _ => .pure _
  exact ⟨follows.world, follows.paused, fun waiter member =>
    follows.waiters waiter (List.mem_of_mem_take member)⟩

theorem steer (byActs : nested.ByActs limits) (lists : carried.ByActs limits) :
    Listed.ByActs limits (steer nested carried) := by
  intro operation
  cases operation with
  | spawn debounceMs =>
    refine .look fun w => ?_
    split
    · exact .pure _
    · exact .withField byActs.spawn
  | shutdown =>
    refine .withHandle fun index r => .bind (letGo_byActs index) fun _ => ?_
    split
    · exact .bind (.perform (byActs.giveOutAll _ _)) fun _ => .pure _
    · exact .pure _
  | dropReconciler => exact .withHandle fun index _ => .bind (letGo_byActs index) fun _ => .pure _
  | killRuntime =>
    refine .look fun w => ?_
    split
    · exact .pure _
    · exact .look fun w => .bind (.forM fun index => .carry _) fun _ =>
        .bind (.beside (fun _ => rfl) fun _ => rfl) fun _ => .pure _
  | advance ms =>
    refine .withField fun ms => .look fun w => ?_
    split
    · exact .pure _
    · split
      · exact .pure _
      · exact .bind (.carry _) fun _ => .pure _
  | release =>
    intro s scene follows
    refine { follows with paused := ?_ }
    rintro _ released
    obtain ⟨paused, held, rfl⟩ := Option.map_eq_some_iff.mp released
    exact follows.paused paused held
  | batch operations => exact byActs.playBatch lists operations []
  | waitWith call waiters during =>
    refine .look fun w => ?_
    split
    · exact .pure _
    · exact .withField fun unit => .withField fun policy => .withField fun waiters =>
        byActs.waitWith lists _ _ _ _ _
  | _ => exact .perform (byActs _ _)

theorem listed (byActs : nested.ByActs limits) (depth : Nat) :
    Listed.ByActs limits (Scenario.listed nested depth) := by
  induction depth with
  | zero => exact fun operation => .pure _
  | succ depth ih => exact fun operation => byActs.steer ih operation

end Nested.ByActs

/-! Whole scenarios. -/

theorem takeLog_byActs : takeLog.ByActs limits :=
  fun _ _ follows => follows.withWorld (follows.world.keep rfl rfl)

theorem Scene.Follows.here {scene : Scene} (follows : scene.Follows limits s) :
    scene.Follows limits scene.world.system :=
  { follows with world := ⟨follows.world.bound, .refl⟩ }

namespace Nested.ByActs

variable {nested : Nested} {carried : Listed}

theorem playStep (byActs : nested.ByActs limits) (lists : carried.ByActs limits)
    (operation : Operation) : (playStep nested carried operation).ByActs limits :=
  .bind (lists operation) fun _ => .bind byActs.settle fun _ => .bind takeLog_byActs fun _ =>
    .look fun _ => .pure _

/-- Acts lead from each state that is reported to the next. -/
theorem steps_chain (byActs : nested.ByActs limits) (lists : carried.ByActs limits)
    (operations : List Operation) {scene : Scene} (follows : scene.Follows limits s) :
    ∃ systems, (s :: systems).IsChain (Reaches limits fun _ => True) ∧
      ((operations.mapM (Scenario.playStep nested carried)).run scene).1.map StepReport.state =
        systems.map fun s => Snapshot.of s.provider := by
  induction operations generalizing s scene with
  | nil => exact ⟨[], .singleton _, rfl⟩
  | cons operation rest ih =>
    -- The state reported after this operation is where the next link starts.
    have after := byActs.playStep lists operation s scene follows
    obtain ⟨systems, chain, states⟩ := ih after.here
    refine ⟨_ :: systems, List.isChain_cons_cons.mpr ⟨after.world.reaches, chain⟩, ?_⟩
    rw [List.mapM_cons, List.map_cons, ← states]
    rfl

end Nested.ByActs

/-- Whatever a scenario does to a provider, its requests and its reconcilers is a run of acts,
and the states that it reports after its operations lie on that run. -/
theorem run_reaches (scenario : Scenario) :
    ∃ systems, (({} : System String String) :: systems).IsChain
        (Reaches scenario.world.1.limits fun _ => True) ∧
      scenario.run.steps.map StepReport.state = systems.map fun s => Snapshot.of s.provider := by
  have byActs : (act (scenario.size + 1)).ByActs scenario.world.1.limits := act_byActs _
  have start : Scene.Follows scenario.world.1.limits {} { world := scenario.world.1 } :=
    ⟨⟨rfl, .refl⟩, nofun, nofun⟩
  have opened := Direct.ByActs.bind (.perform (byActs.giveOutAll {} scenario.world.2))
    (fun _ => takeLog_byActs) _ _ start
  exact byActs.steps_chain (byActs.listed _) scenario.operations opened

namespace Standalone

theorem requestFresh_byActs {nested : Nested} (byActs : nested.ByActs limits) (s : Standalone) :
    (requestFresh nested s).ByActs limits := by
  refine .bind (.bind byActs.settle fun _ => .look fun w => ?_) fun _ => .perform
    (.bind (byActs.requestTree _ _ _ _) fun tree => .presentAnswer tree)
  split
  · exact .bind (.carry _) fun _ => byActs.settle
  · exact .pure _

theorem optionally_byActs {direct : Direct α} (byActs : direct.ByActs limits) (wanted : Bool) :
    (optionally wanted direct).ByActs limits := by
  cases wanted with
  | true => exact .bind byActs fun _ => .pure _
  | false => exact .pure _

/-- The state that a standalone run reports at its end is one that acts lead to. -/
theorem run_reaches (s : Standalone) :
    ∃ last : System String String, Reaches s.scenario.world.1.limits (fun _ => True) {} last ∧
      s.run.state = .of last.provider := by
  have byActs : (act (s.scenario.size + 1)).ByActs s.scenario.world.1.limits := act_byActs _
  have lists := byActs.listed (s.scenario.size + 1)
  have start : Scene.Follows s.scenario.world.1.limits {} { world := s.scenario.world.1 } :=
    ⟨⟨rfl, .refl⟩, nofun, nofun⟩
  have plays : s.play.ByActs s.scenario.world.1.limits :=
    .bind (lists _) fun _ => .bind (lists _) fun _ => .bind (.mapM lists) fun _ =>
      .bind (optionally_byActs (lists _) _) fun _ =>
        .bind (optionally_byActs (requestFresh_byActs byActs s) _) fun _ =>
          .bind (lists _) fun _ => .bind (lists _) fun _ => .bind byActs.settle fun _ =>
            .look fun _ => .pure _
  exact ⟨_, (plays _ _ start).world.reaches, rfl⟩

end Standalone

end FreshTree.Scenario
