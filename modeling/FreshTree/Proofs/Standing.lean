import FreshTree.Proofs.Loop

/-!
A reconciled tree stays in the cache until a cycle of its unit is opened, the
focus moves or the provider is disposed. Nothing else can put another tree in
its place: a completion would need an open cycle of the active unit, which is
that of the tree, and whoever parses this unit in the foreground set out before
the cycle of the tree was opened.
-/

namespace FreshTree

variable {U A : Type}

structure Moment.Spares (unit : U) (m : Moment U A) : Prop where
  begun : m.happening.cycle?.map Prod.fst ≠ some unit
  active : m.after.active = m.before.active
  disposed : m.after.disposed = m.before.disposed

variable [DecidableEq U]

instance (unit : U) (m : Moment U A) : Decidable (m.Spares unit) :=
  decidable_of_iff (m.happening.cycle?.map Prod.fst ≠ some unit ∧
      m.after.active = m.before.active ∧ m.after.disposed = m.before.disposed)
    ⟨fun ⟨begun, active, disposed⟩ => ⟨begun, active, disposed⟩,
      fun spares => ⟨spares.begun, spares.active, spares.disposed⟩⟩

theorem Provider.Touch.stays {p q : Provider U A} {happening : Happening U A}
    (touch : p.Touch happening q) (intact : p.Intact) {tree : Tree U A}
    (cached : p.cached = some tree) (spares : Moment.Spares tree.unit ⟨p, happening, q⟩) :
    q.cached = some tree := by
  cases touch with
  | kept => exact cached
  | focused unit =>
    rcases p.setActive_cases unit with ⟨same, _⟩ | ⟨_, moved, changed⟩
    · rw [same]
      exact cached
    · have active := spares.active
      dsimp only at active
      rw [changed] at active
      exact absurd (active.symm.trans (Focus.set_active p.focus unit)) moved
  | disposed =>
    have gone : p.disposed = true := spares.disposed.symm.trans p.dispose_disposed
    have empty := (intact.disposed gone).2.1
    rw [cached] at empty
    cases empty
  | begun unit _ cycle =>
    have other : tree.unit ≠ unit := by
      rintro rfl
      exact spares.begun (by simp [cycle])
    exact invalidate_keeps cached other
  | completed id ast unit generation =>
    change (p.receive id ast unit generation).1.cached = some tree
    rcases p.receive_cases id ast unit generation with ⟨same, _⟩ | ⟨⟨_, busy, _⟩, slot, closed, filled⟩
    · rw [same]
      exact cached
    · -- The open cycle is not that of the cached tree, so its unit is not active.
      have away : p.active ≠ some unit := by
        intro here
        have mine := (intact.active tree cached).symm.trans here
        exact intact.apart tree cached (busy.trans mine.symm)
      rw [closed]
      simpa [filled, away] using cached

theorem Provider.Intact.validate {p : Provider U A} (intact : p.Intact) {tree : Tree U A}
    (cached : p.cached = some tree) {limits : Limits} {now : Instant} {r : Request U A}
    (mine : r.unit = tree.unit) :
    (r.validate limits now false p).1.stage = .answered (some tree) := by
  have service : p.disposed = false := by
    cases gone : p.disposed with
    | false => rfl
    | true =>
      have empty := (intact.disposed gone).2.1
      rw [cached] at empty
      cases empty
  have here := intact.active tree cached
  have serves := intact.serves cached
  rw [← mine] at here serves
  have unit : (r.notice limits now p.focus.changes).1.unit = r.unit := r.noticed_unit limits now p
  simp [Request.validate, service, Request.decide, unit, here, serves, Request.answer]

namespace System

variable {s after : System U A} {happening : Happening U A}

/-- A foreground parse cannot replace a reconciled tree, however late it comes:
it set out in an earlier generation. -/
theorem Regular.refuses (regular : s.Regular) {i : Nat} {r : Request U A}
    (found : s.requests[i]? = some r) {offered tree : Tree U A} {since generation : Generation}
    (ready : r.stage = .installing offered since) (cached : s.provider.cached = some tree)
    (own : tree.origin = .reconciled generation) :
    s.provider.installForeground? offered since = none := by
  cases installed : s.provider.installForeground? offered since with
  | none => rfl
  | some q =>
    obtain ⟨_, _, current, here, _⟩ := Provider.installForeground?_some installed
    have inStep := regular.requests i r found
    have mine : tree.unit = r.unit := by
      have same := (regular.provider.active tree cached).symm.trans here
      exact (Option.some.inj same).trans (inStep.offer offered since ready).1
    have earlier : since.toNat < generation.toNat :=
      inStep.behind tree generation since cached own mine (by rw [ready]; rfl)
    rcases regular.provider.origin tree cached with foreground | ⟨other, reconciled, bound⟩
    · rw [own] at foreground
      cases foreground
    · rw [own] at reconciled
      cases reconciled
      rw [current] at bound
      omega

theorem Turn.stays (turn : s.Turn happening after) (regular : s.Regular) {tree : Tree U A}
    {generation : Generation} (cached : s.provider.cached = some tree)
    (own : tree.origin = .reconciled generation)
    (spares : Moment.Spares tree.unit ⟨s.provider, happening, after.provider⟩) :
    after.provider.cached = some tree := by
  cases turn with
  | touched touch => exact touch.stays regular.provider cached spares
  | asked => exact cached
  | moved found effect =>
    cases effect with
    | looked | woken | called | returned => exact cached
    | offered ready _ _ installed =>
      rcases installed with rfl | installed
      · exact cached
      · rw [regular.refuses found ready cached own] at installed
        cases installed

theorem Turn.answered (turn : s.Turn happening after) {i : Nat} {r : Request U A}
    {tree : Option (Tree U A)} (found : s.requests[i]? = some r) (done : r.stage = .answered tree) :
    after.requests[i]? = some r ∧ happening.IsApart i := by
  cases turn with
  | touched _ apart => exact ⟨found, apart i⟩
  | asked =>
    have inside := (List.getElem?_eq_some_iff.mp found).1
    exact ⟨entry_append.mpr (Or.inl found), Nat.ne_of_gt inside⟩
  | @moved j other next _ _ _ found' effect =>
    have apart : i ≠ j := by
      rintro rfl
      rw [found] at found'
      cases found'
      cases effect with
      | looked stage | woken stage | called stage | returned stage | offered stage =>
        rw [done] at stage
        cases stage
    refine ⟨?_, effect.isApart apart⟩
    change (s.requests.set j next)[i]? = some r
    rw [List.getElem?_set_ne (Ne.symm apart)]
    exact found

theorem Regular.look (regular : s.Regular) (limits : Limits) {i : Nat} {r : Request U A}
    {tree : Tree U A} (found : s.requests[i]? = some r) (looking : r.stage = .validating)
    (cached : s.provider.cached = some tree) (mine : r.unit = tree.unit) :
    ∃ after r', s.step? limits (.request i (.look false)) = some after ∧
      after.history = s.history ++ [.looked i] ∧ after.provider = s.provider ∧
      after.requests[i]? = some r' ∧ r'.stage = .answered (some tree) := by
  obtain ⟨after, stepped, same, grown, moved⟩ := step?_look limits false found looking
  exact ⟨after, _, stepped, grown, same, moved, regular.provider.validate cached mine⟩

end System

namespace Chronicle

variable {limits : Limits} {allowed : Act U A → Prop} {first s last : System U A}
  {past later : List (Moment U A)}

theorem stays (early : Chronicle limits allowed {} past s)
    (late : Chronicle limits allowed s later last) (few : openings (past ++ later) < UInt64.size)
    {tree : Tree U A} {generation : Generation} (cached : s.provider.cached = some tree)
    (own : tree.origin = .reconciled generation) (spared : ∀ m ∈ later, m.Spares tree.unit) :
    last.provider.cached = some tree := by
  refine early.invariant_from (motive := fun s => s.provider.cached = some tree) late few cached ?_
  intro before happening after regular _ turn _ member held
  exact turn.stays regular held own (spared _ member)

theorem answered (chronicle : Chronicle limits allowed first later last) {i : Nat}
    {r : Request U A} {tree : Option (Tree U A)} (found : first.requests[i]? = some r)
    (done : r.stage = .answered tree) :
    last.requests[i]? = some r ∧
      callMoment? last.history (.request i) = callMoment? first.history (.request i) := by
  induction chronicle with
  | start => exact ⟨found, rfl⟩
  | next _ _ stepped grown ih =>
    obtain ⟨found, same⟩ := ih
    obtain ⟨still, apart⟩ := (System.Turn.of_step? stepped grown).answered found done
    refine ⟨still, ?_⟩
    rw [grown, callMoment?_grow apart.isCallOf]
    exact same

end Chronicle

variable {limits : Limits} {allowed : Act U A → Prop} {s last : System U A}
  {past later : List (Moment U A)}

/-- A tree that a cycle put into the cache stays there, the same one, as long as
nobody begins a cycle of its unit, moves the focus or disposes the provider. A
request for the unit that looks at the provider meanwhile, with a token that has
not fired, is answered with this tree for good and never calls the engine. -/
theorem reconciled_tree_stays (early : Chronicle limits allowed {} past s)
    (late : Chronicle limits allowed s later last) (few : openings (past ++ later) < UInt64.size)
    {tree : Tree U A} {generation : Generation} (cached : s.provider.cached = some tree)
    (own : tree.origin = .reconciled generation) (spared : ∀ m ∈ later, m.Spares tree.unit) :
    last.provider.cached = some tree ∧
      ∀ (i : Nat) (r : Request U A), last.requests[i]? = some r → r.unit = tree.unit →
        r.stage = .validating →
        ∃ after, last.step? limits (.request i (.look false)) = some after ∧
          after.provider = last.provider ∧
          ∀ rest final, Chronicle limits (fun _ => True) after rest final →
            (∃ r', final.requests[i]? = some r' ∧ r'.stage = .answered (some tree)) ∧
              ∀ unit, .called (.request i) unit ∉ final.history := by
  have held := early.stays late few cached own spared
  refine ⟨held, fun i r found mine looking => ?_⟩
  have whole := early.trans late
  obtain ⟨after, r', stepped, grown, same, answered, done⟩ :=
    (whole.regular few).look limits found looking held mine
  refine ⟨after, stepped, same, fun rest final told => ?_⟩
  obtain ⟨still, calls⟩ := told.answered answered done
  refine ⟨⟨r', still, done⟩, callMoment?_none ?_⟩
  have uncalled := ((whole.traced few).requests i r found).uncalled (by rw [looking]; rfl)
  rw [calls, grown, callMoment?_grow rfl]
  exact uncalled

def settledRun : List (Act Nat Nat) :=
  [.setActive (some 7), .ask 7 .waitForCurrent, .request 0 (.look false), .request 0 .call,
    .begin 7, .deliver (some 5) 7 ⟨1⟩]

def settled : System Nat Nat := (System.run? ⟨{}, 1000⟩ {} settledRun).get rfl

def restlessRun : List (Act Nat Nat) :=
  [.begin 8, .deliver (some 6) 7 ⟨1⟩, .deliver (some 9) 8 ⟨2⟩, .deliver (some 6) 7 ⟨9⟩,
    .ask 7 .noWait, .request 0 (.finish false (.returned (.ok 4))), .request 0 (.install false)]

theorem reconciled_tree_stays_restless :
    ∃ (last after : System Nat Nat) (r : Request Nat Nat),
      System.run? ⟨{}, 1000⟩ settled restlessRun = some last ∧
        (∀ m ∈ System.moments ⟨{}, 1000⟩ settled restlessRun, m.Spares 7) ∧
        settled.provider.cached = some ⟨5, 7, .reconciled ⟨1⟩, 5⟩ ∧
        last.provider.cached = some ⟨5, 7, .reconciled ⟨1⟩, 5⟩ ∧
        last.step? ⟨{}, 1000⟩ (.request 1 (.look false)) = some after ∧
        after.requests[1]? = some r ∧ r.stage = .answered (some ⟨5, 7, .reconciled ⟨1⟩, 5⟩) ∧
        ∀ unit, .called (.request 1) unit ∉ after.history := by
  have early : Chronicle ⟨{}, 1000⟩ (fun _ => True) {} (System.moments ⟨{}, 1000⟩ {} settledRun)
      settled := Chronicle.of_run? (fun _ _ => trivial) rfl
  have restless : System.run? ⟨{}, 1000⟩ settled restlessRun =
      some ((System.run? ⟨{}, 1000⟩ settled restlessRun).get rfl) := rfl
  have late : Chronicle ⟨{}, 1000⟩ (fun _ => True) settled
      (System.moments ⟨{}, 1000⟩ settled restlessRun) _ :=
    Chronicle.of_run? (fun _ _ => trivial) restless
  have spared : ∀ m ∈ System.moments ⟨{}, 1000⟩ settled restlessRun, m.Spares 7 := by decide
  have cached : settled.provider.cached = some ⟨5, 7, .reconciled ⟨1⟩, 5⟩ := rfl
  obtain ⟨held, served⟩ := reconciled_tree_stays early late (by decide) cached rfl spared
  obtain ⟨after, stepped, _, answered⟩ := served 1 _ rfl rfl rfl
  obtain ⟨⟨r, found, done⟩, uncalled⟩ := answered [] after .start
  exact ⟨_, after, r, restless, spared, cached, held, stepped, found, done, uncalled⟩

end FreshTree
