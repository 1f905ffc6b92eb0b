import FreshTree.Proofs.Delivery
import FreshTree.Proofs.OwnCycle
import FreshTree.Proofs.Standing

/-!
What a completed cycle brings to those who wait for it. Its tree stays in the
cache until the unit is touched again, so the order of the wake-ups does not
matter, and a request that overslept its deadline finds the tree before it looks
at the clock.
-/

namespace FreshTree

variable {U A : Type} [DecidableEq U]

theorem Delivery.installs {p : Provider U A} {d : Delivery U A} {ast : A} (intact : p.Intact)
    (full : d.ast = some ast) (busy : p.cycles.running = some d.unit)
    (current : p.generation = d.generation) (here : p.active = some d.unit) :
    (d.outcome p).provider.cached = some (d.tree ast) := by
  have service : p.disposed = false := by
    cases gone : p.disposed with
    | false => rfl
    | true =>
      have idle := (intact.disposed gone).2.2
      rw [busy] at idle
      cases idle
  unfold outcome tree
  rw [full, ← current]
  exact Provider.complete_installs service busy here d.id ast

namespace Chronicle

variable {limits : Limits} {allowed : Act U A → Prop} {s last : System U A}
  {past later : List (Moment U A)}

/-- A request in its loop whose unit has a reconciled tree in the cache can only
end with that tree, if its token does not fire. -/
theorem waits (early : Chronicle limits (fun _ => True) {} past s)
    (late : Chronicle limits allowed s later last) (few : openings (past ++ later) < UInt64.size)
    {tree : Tree U A} {generation : Generation} (cached : s.provider.cached = some tree)
    (own : tree.origin = .reconciled generation) (spared : ∀ m ∈ later, m.Spares tree.unit)
    {i : Nat} (patient : ∀ act, allowed act → act ≠ .request i (.look true)) {r : Request U A}
    (found : s.requests[i]? = some r) (mine : r.unit = tree.unit)
    (looking : r.stage.isLooking = true) :
    callMoment? last.history (.request i) = callMoment? s.history (.request i) ∧
      (∃ r', last.requests[i]? = some r' ∧ r'.unit = tree.unit) ∧
      last.EndsWith (some tree) later i := by
  induction late with
  | start =>
    refine ⟨rfl, ⟨r, found, mine⟩, Or.inr ⟨?_, by simp⟩⟩
    intro r' found'
    cases found.symm.trans found'
    exact looking
  | @next later before after act happening told fine stepped grown ih =>
    have so := told.weaken fun _ _ => trivial
    have fewer : openings (past ++ later) < UInt64.size := by
      rw [← List.append_assoc] at few
      exact Nat.lt_of_le_of_lt (openings_le_append _ _) few
    have spared' : ∀ m ∈ later, m.Spares tree.unit :=
      fun m member => spared m (List.mem_append_left _ member)
    obtain ⟨uncalled, ⟨r', found', mine'⟩, ends⟩ := ih fewer spared'
    -- The tree is still cached, so whichever look the request takes now is served with it.
    have held := early.stays so fewer cached own spared'
    have intact := ((early.trans so).regular fewer).provider
    obtain ⟨other, ends⟩ := ends.step stepped grown fun r cancelled look found => by
      cases cancelled with
      | true => exact absurd look (patient act fine)
      | false =>
        cases found'.symm.trans found
        exact intact.validate held mine'
    obtain ⟨next, moved, same⟩ := (System.Turn.of_step? stepped grown).requests found'
    refine ⟨?_, ⟨next, moved, same.trans mine'⟩, ends⟩
    rw [grown, callMoment?_grow other]
    exact uncalled

end Chronicle

variable {limits : Limits} {allowed : Act U A → Prop} {s t last : System U A} {act : Act U A}
  {past later : List (Moment U A)}

/-- When a delivery completes the open cycle of the active unit with a tree, all
requests for the unit that are in their loop get this one tree, if their tokens
do not fire and the unit is left alone until they have looked: each that looks is
answered with it, none of them calls the engine, and each that has not looked yet
is answered with it at its next look. -/
theorem waiters_share_tree (early : Chronicle limits allowed {} past s) {d : Delivery U A} {ast : A}
    (handed : s.delivery? act = some d) (full : d.ast = some ast)
    (busy : s.provider.cycles.running = some d.unit)
    (current : s.provider.generation = d.generation) (here : s.provider.active = some d.unit)
    (stepped : s.step? limits act = some t) {waiters : List Nat}
    (waiting : ∀ i ∈ waiters, ∃ r, s.requests[i]? = some r ∧ r.unit = d.unit ∧
      r.stage.isLooking = true)
    (late : Chronicle limits (fun act => ∀ i ∈ waiters, act ≠ .request i (.look true)) t later last)
    (spared : ∀ m ∈ later, m.Spares d.unit) (few : openings (past ++ later) < UInt64.size) :
    last.provider.cached = some (d.tree ast) ∧
      ∀ i ∈ waiters,
        (∃ r, last.requests[i]? = some r ∧ r.unit = d.unit) ∧
          (∀ unit, .called (.request i) unit ∉ last.history) ∧
          last.EndsWith (some (d.tree ast)) later i ∧
          ∀ r, last.requests[i]? = some r → r.stage.isLooking = true →
            ∃ after r', last.run? limits (r.revalidate i false) = some after ∧
              after.requests[i]? = some r' ∧ r'.stage = .answered (some (d.tree ast)) := by
  obtain ⟨outcome, requests, happening, grown, unbegun⟩ := System.step?_delivery handed stepped
  have before : Chronicle limits (fun _ => True) {} past s := early.weaken fun _ _ => trivial
  have completed := before.next trivial stepped grown
  have so : Chronicle limits (fun _ => True) t later last := late.weaken fun _ _ => trivial
  -- A completion opens no cycle, so the moment of the delivery does not count.
  have few' : openings (past ++ [⟨s.provider, happening, t.provider⟩] ++ later) < UInt64.size := by
    rw [openings_append, openings_concat, Moment.isOpening_eq_false unbegun]
    simpa [openings_append] using few
  have intact := (early.regular (Nat.lt_of_le_of_lt (openings_le_append past later) few)).provider
  have cached : t.provider.cached = some (d.tree ast) := by
    rw [outcome]
    exact Delivery.installs intact full busy current here
  have held := completed.stays so few' cached rfl spared
  refine ⟨held, fun i member => ?_⟩
  obtain ⟨r, found, mine, looking⟩ := waiting i member
  rw [← requests] at found
  obtain ⟨calls, ⟨r', found', mine'⟩, ends⟩ := completed.waits late few' cached rfl spared
    (fun _ patient => patient i member) found mine looking
  refine ⟨⟨r', found', mine'⟩, ?_, ends, ?_⟩
  · apply callMoment?_none
    rw [calls]
    apply completed.uncalled i
    intro other same
    cases found.symm.trans same
    exact looking
  · intro r'' again waits
    cases found'.symm.trans again
    obtain ⟨after, ran, _, _, moved⟩ := System.run?_revalidate limits false found' waits
    refine ⟨after, _, ran, moved, ?_⟩
    apply ((completed.trans so).regular few').provider.validate held
    rw [Request.wake_unit]
    exact mine'

/-- Request 0 parses unit 7 from before its cycle. Request 1 sleeps, request 2
told that it waits, and request 3 was woken for nothing. -/
def crowdedRun : List (Act Nat Nat) :=
  [.setActive (some 7), .ask 7 .waitForCurrent, .request 0 (.look false), .request 0 .call,
    .begin 7, .ask 7 .waitForCurrent, .request 1 (.look false), .request 1 (.look false),
    .ask 7 .waitForCurrent, .request 2 (.look false), .ask 7 .waitForCurrent,
    .request 3 (.look false), .request 3 (.look false), .request 3 .wake]

def crowded : System Nat Nat := (System.run? ⟨{}, 1000⟩ {} crowdedRun).get rfl

def delivered : System Nat Nat :=
  (crowded.step? ⟨{}, 1000⟩ (.deliver (some 5) 7 ⟨1⟩)).get rfl

def scrambleRun : List (Act Nat Nat) :=
  [.pass 100000, .request 3 (.look false), .deliver (some 6) 7 ⟨1⟩, .begin 8,
    .request 0 (.finish false (.returned (.ok 4))), .request 0 (.install false),
    .deliver (some 9) 8 ⟨2⟩, .ask 7 .noWait, .request 4 (.look true), .request 1 .wake,
    .request 1 (.look false)]

theorem waiters_share_tree_scrambled :
    ∃ last after : System Nat Nat,
      crowded.provider.cycles.running = some 7 ∧
        delivered.run? ⟨{}, 1000⟩ scrambleRun = some last ∧
        (∀ i ∈ [1, 3], last.requests[i]?.map Request.stage =
          some (.answered (some ⟨14, 7, .reconciled ⟨1⟩, 5⟩))) ∧
        last.run? ⟨{}, 1000⟩ [.request 2 (.look false)] = some after ∧
        after.requests[2]?.map Request.stage =
          some (.answered (some ⟨14, 7, .reconciled ⟨1⟩, 5⟩)) ∧
        ∀ i ∈ [1, 2, 3], ∀ unit, .called (.request i) unit ∉ last.history := by
  have early : Chronicle ⟨{}, 1000⟩ (fun _ => True) {} (System.moments ⟨{}, 1000⟩ {} crowdedRun)
      crowded := Chronicle.of_run? (fun _ _ => trivial) rfl
  have stepped : crowded.step? ⟨{}, 1000⟩ (.deliver (some 5) 7 ⟨1⟩) = some delivered := rfl
  have waiting : ∀ i ∈ [1, 2, 3], ∃ r, crowded.requests[i]? = some r ∧ r.unit = 7 ∧
      r.stage.isLooking = true := by
    simp only [List.forall_mem_cons]
    exact ⟨⟨_, rfl, rfl, rfl⟩, ⟨_, rfl, rfl, rfl⟩, ⟨_, rfl, rfl, rfl⟩, by simp⟩
  have ran : delivered.run? ⟨{}, 1000⟩ scrambleRun =
      some ((delivered.run? ⟨{}, 1000⟩ scrambleRun).get rfl) := rfl
  have late : Chronicle ⟨{}, 1000⟩ (fun act => ∀ i ∈ [1, 2, 3], act ≠ .request i (.look true))
      delivered (System.moments ⟨{}, 1000⟩ delivered scrambleRun) _ :=
    Chronicle.of_run? (by simp [scrambleRun]) ran
  have spared : ∀ m ∈ System.moments ⟨{}, 1000⟩ delivered scrambleRun, m.Spares 7 := by decide
  obtain ⟨_, served⟩ :=
    waiters_share_tree early rfl rfl rfl rfl rfl stepped waiting late spared (by decide)
  obtain ⟨after, r, looked, moved, answer⟩ := (served 2 (by simp)).2.2.2 _ rfl rfl
  refine ⟨_, after, rfl, ran, by decide, looked, ?_, fun i member => (served i member).2.1⟩
  rw [moved]
  exact congrArg some answer

end FreshTree
