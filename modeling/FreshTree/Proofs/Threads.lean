import FreshTree.Scenario.Act

/-!
Whatever a thread of a scenario does to the system is a run of acts. A thread may pause,
and others act meanwhile; so what is kept is not a state but a relation: wherever the
thread is when it pauses or ends, acts lead there from where the scenario started, provided
that they lead to every world in which it is resumed.
-/

namespace FreshTree.Scenario

variable {limits : Limits} {s : System String String} {w : World} {α β : Type}

structure World.Follows (limits : Limits) (s : System String String) (w : World) : Prop where
  bound : w.limits = limits
  reaches : Reaches limits (fun _ => True) s w.system

/-- Acts lead from `s` to wherever the thread pauses or ends. -/
inductive Thread.Follows (limits : Limits) : System String String → Thread α → Prop where
  | ended {s : System String String} {value : α} {w : World} :
      w.Follows limits s → Follows limits s (.ended value w)
  | held {s : System String String} {hold : Hold} {w : World}
      {resume : HoldEnd → World → Thread α} :
      w.Follows limits s → (∀ how s w, w.Follows limits s → (resume how w).Follows limits s) →
      Follows limits s (.held hold w resume)
  | asleep {s : System String String} {sleep : Sleep} {w : World} {resume : World → Thread α} :
      w.Follows limits s → (∀ s w, w.Follows limits s → (resume w).Follows limits s) →
      Follows limits s (.asleep sleep w resume)

def Play.ByActs (limits : Limits) (play : Play α) : Prop :=
  ∀ s w, w.Follows limits s → (play w).Follows limits s

/-- Operations inside another one act on the system and do nothing else to it. -/
def Nested.ByActs (limits : Limits) (nested : Nested) : Prop :=
  ∀ place operation, (nested place operation).ByActs limits

namespace World.Follows

theorem keep {after : World} (follows : w.Follows limits s) (bound : after.limits = w.limits)
    (system : after.system = w.system) : after.Follows limits s :=
  ⟨bound.trans follows.bound, system ▸ follows.reaches⟩

theorem after? {after : World} {act : Act String String} (follows : w.Follows limits s)
    (acted : w.after? act = some after) : after.Follows limits s := by
  obtain ⟨next, stepped, rfl⟩ := Option.map_eq_some_iff.mp acted
  rw [follows.bound] at stepped
  exact ⟨follows.bound, .next follows.reaches trivial stepped⟩

theorem after (follows : w.Follows limits s) (act : Act String String) :
    (w.after act).Follows limits s := by
  unfold World.after
  cases acted : w.after? act with
  | none => exact follows
  | some after => exact follows.after? acted

theorem enact (follows : w.Follows limits s) (act : Act String String) :
    (w.enact act).2.Follows limits s := by
  unfold World.enact
  cases acted : w.after? act with
  | none => exact follows
  | some after => exact follows.after? acted

end World.Follows

theorem Thread.Follows.andThen {thread : Thread α} {next : α → World → Thread β}
    (first : thread.Follows limits s)
    (last : ∀ value s w, w.Follows limits s → (next value w).Follows limits s) :
    (thread.andThen next).Follows limits s := by
  induction first with
  | ended follows => exact last _ _ _ follows
  -- What comes next also comes after every way to go on from a pause.
  | held follows _ ih => exact .held follows ih
  | asleep follows _ ih => exact .asleep follows ih

namespace Play.ByActs

theorem pure (value : α) : (Pure.pure value : Play α).ByActs limits := fun _ _ => .ended

theorem bind {play : Play α} {next : α → Play β} (first : play.ByActs limits)
    (last : ∀ value, (next value).ByActs limits) : (play >>= next).ByActs limits :=
  fun s w follows => (first s w follows).andThen last

theorem peek {next : World → Play β} (last : ∀ w, (next w).ByActs limits) :
    ((get : Play World) >>= next).ByActs limits :=
  bind (fun _ _ => .ended) last

theorem modifyGet {change : World → α × World}
    (follows : ∀ s (w : World), w.Follows limits s → (change w).2.Follows limits s) :
    (MonadStateOf.modifyGet change : Play α).ByActs limits :=
  fun s w before => .ended (follows s w before)

theorem beside {change : World → World} (bound : ∀ w, (change w).limits = w.limits)
    (system : ∀ w, (change w).system = w.system) : (modify change : Play Unit).ByActs limits :=
  fun _ w before => .ended (before.keep (bound w) (system w))

theorem forM {items : List α} {play : α → Play Unit}
    (each : ∀ item, (play item).ByActs limits) : (items.forM play).ByActs limits := by
  induction items with
  | nil => exact pure _
  | cons item rest ih => exact bind (each item) fun _ => ih

theorem pause (hold : Hold) : (Play.pause hold).ByActs limits :=
  fun _ _ follows => .held follows fun _ _ _ => .ended

theorem sleep (sleep : Sleep) : (Play.sleep sleep).ByActs limits :=
  fun _ _ follows => .asleep follows fun _ _ => .ended

theorem logEntry (entry : Entry) : (Scenario.logEntry entry).ByActs limits :=
  beside (fun _ => rfl) fun _ => rfl

theorem present (tree : Tree String String) : (Scenario.present tree).ByActs limits := by
  refine modifyGet fun s w follows => ?_
  split
  · exact follows
  · exact follows.keep rfl rfl

theorem presentAnswer (tree : Option (Tree String String)) :
    (Scenario.presentAnswer tree).ByActs limits := by
  cases tree with
  | none => exact pure _
  | some tree => exact bind (present tree) fun _ => pure _

end Play.ByActs

theorem withField_byActs {field : Field α} {next : α → Play Answer}
    (all : ∀ value, (next value).ByActs limits) : (withField field next).ByActs limits := by
  cases field with
  | ok value => exact all value
  | error refusal => exact .pure _

/-! The computations of a thread, from the inside out. -/

namespace Nested.ByActs

variable {nested : Nested}

theorem playBody (byActs : nested.ByActs limits) (place : Place) (body : List Operation) :
    (playBody nested place body).ByActs limits :=
  .forM fun operation => .bind (byActs place operation) fun _ => .logEntry _

theorem giveOut (byActs : nested.ByActs limits) (place : Place) (note : Note String) :
    (giveOut nested place note).ByActs limits := by
  cases note with
  | trace trace =>
    refine .peek fun w => ?_
    split
    · exact .logEntry _
    · exact .pure _
  | event event =>
    refine .bind (.beside (fun _ => rfl) fun _ => rfl) fun _ => .peek fun w => ?_
    split
    · exact .bind (.logEntry _) fun _ => .forM fun hook => byActs.playBody _ hook.body
    · exact .pure _

theorem giveOutAll (byActs : nested.ByActs limits) (place : Place) (notes : List (Note String)) :
    (giveOutAll nested place notes).ByActs limits :=
  .forM (byActs.giveOut place)

theorem enact (byActs : nested.ByActs limits) (place : Place) (act : Act String String) :
    (enact nested place act).ByActs limits :=
  .bind (.modifyGet fun _ _ follows => follows.enact act) fun _ =>
    .bind (byActs.giveOutAll place _) fun _ => .pure _

theorem callEngine (byActs : nested.ByActs limits) (place : Place) (unit : String)
    (token : Token) : (callEngine nested place unit token).ByActs limits := by
  refine .bind (.modifyGet fun s w follows => follows.keep rfl rfl) fun ⟨serial, plan⟩ => ?_
  refine .peek fun w => .bind (.logEntry _) fun _ => .bind (byActs.playBody place plan.body) fun _ => ?_
  dsimp only
  split
  · exact .bind (.pause _) fun how => .bind (.logEntry _) fun _ => .pure _
  · exact .pure _

theorem moveOn (byActs : nested.ByActs limits) (place : Place) (token : Option String)
    (index : Nat) (r : Request String String) :
    (moveOn nested place token index r).ByActs limits := by
  have act := fun move =>
    Play.ByActs.bind (byActs.enact place (.request index move)) fun _ => .pure PUnit.unit
  unfold Scenario.moveOn
  cases r.stage with
  | answered => exact .pure _
  | blocked => exact .peek fun w => .bind (.sleep _) fun _ => act .wake
  | validating => exact .peek fun w => act _
  | parsing =>
    exact .bind (byActs.enact place _) fun _ => .bind (byActs.callEngine place _ _) fun ending =>
      .peek fun w => act _
  | installing => exact .peek fun w => act _

theorem proceed (byActs : nested.ByActs limits) (place : Place) (token : Option String)
    (index steps : Nat) : (proceed nested place token index steps).ByActs limits := by
  induction steps with
  | zero => exact .pure _
  | succ steps ih =>
    refine .peek fun w => ?_
    split
    · exact .pure _
    · rename_i r _
      split
      · exact .pure _
      · exact .bind (byActs.moveOn place token index r) fun _ => ih

theorem requestTree (byActs : nested.ByActs limits) (place : Place) (unit : String)
    (policy : Policy) (token : Option String) :
    (requestTree nested place unit policy token).ByActs limits :=
  .peek fun _ => .bind (byActs.enact place _) fun _ => byActs.proceed place token _ _

theorem parseOnPool (byActs : nested.ByActs limits) (poolJob : PoolJob) :
    (parseOnPool nested poolJob).ByActs limits :=
  .bind (byActs.enact _ _) fun _ => .bind (byActs.callEngine _ _ _) fun _ =>
    .bind (byActs.enact _ _) fun _ => .pure _

theorem noteEdit (byActs : nested.ByActs limits) (place : Place) (unit : String) (index : Nat) :
    (noteEdit nested place unit index).ByActs limits := by
  refine .bind (byActs.enact place _) fun noted => ?_
  split
  · refine .bind (byActs.enact place _) fun sent => ?_
    split <;> exact .pure _
  · exact .pure _

theorem talk (byActs : nested.ByActs limits) (place : Place) (operation : Operation) :
    (talk nested place operation).ByActs limits := by
  refine .peek fun w => ?_
  split
  · exact .pure _
  · exact withField_byActs fun unit => byActs.noteEdit place unit _
  · refine .bind (byActs.enact place _) fun _ => ?_
    split <;> exact .pure _
  · exact .pure _
  · exact .pure _
  · exact .pure _

theorem carryOut (byActs : nested.ByActs limits) (place : Place) (operation : Operation) :
    (carryOut nested place operation).ByActs limits := by
  have other : ∀ operation : Operation, (if operation.isTalking && !place.observing then
      Scenario.talk nested place operation else Pure.pure (.refused .notAllowedHere)
        : Play Answer).ByActs limits := by
    intro operation
    split
    · exact byActs.talk place operation
    · exact .pure _
  cases operation with
  | setActive unit =>
    exact withField_byActs fun unit => .bind (byActs.enact place _) fun _ => .pure _
  | beginCycle unit =>
    refine withField_byActs fun unit => .bind (byActs.enact place _) fun begun => ?_
    split <;> exact .pure _
  | reconciled generation unit ast =>
    refine withField_byActs fun generation => withField_byActs fun unit => ?_
    split
    · exact .pure _
    · exact .bind (byActs.enact place _) fun _ => .pure _
  | request call =>
    exact withField_byActs fun unit => withField_byActs fun policy =>
      .bind (byActs.requestTree place _ _ _) fun tree => .bind (.presentAnswer tree) fun _ => .pure _
  | cancel token =>
    exact withField_byActs fun token => .bind (.beside (fun _ => rfl) fun _ => rfl) fun _ => .pure _
  | dispose => exact .bind (byActs.enact place _) fun _ => .pure _
  | isReconciling unit => exact withField_byActs fun unit => .peek fun w => .pure _
  | state | metrics => exact .peek fun w => .pure _
  | count event => exact withField_byActs fun event => .peek fun w => .pure _
  | treeText index =>
    refine withField_byActs fun index => .peek fun w => ?_
    split <;> exact .pure _
  | sameEngine => exact .pure _
  | noteEdit | flush | isClosed | sameProvider => exact other _
  | _ => exact .pure _

end Nested.ByActs

/-- Operations inside each other act on the system and do nothing else to it, however deep. -/
theorem act_byActs (depth : Nat) : (act depth).ByActs limits := by
  induction depth with
  | zero => exact fun place operation => .pure _
  | succ depth ih => exact fun place operation => ih.carryOut place operation

end FreshTree.Scenario
