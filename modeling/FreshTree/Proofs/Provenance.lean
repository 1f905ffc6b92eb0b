import FreshTree.Proofs.Integrity

/-!
Where trees come from. A tree that no reconciler delivered is made from the
result of one engine call of one request, and its identity is the moment of that
call. A request that still looks at the provider has called nothing.
-/

namespace FreshTree

variable {U A : Type}

def Origin.isReconciled : Origin → Bool
  | .reconciled _ => true
  | .foreground | .detached => false

theorem callMoment?_eq_none {history : List (Happening U A)} {caller : Caller}
    (uncalled : ∀ unit, .called caller unit ∉ history) : callMoment? history caller = none := by
  cases found : callMoment? history caller with
  | none => rfl
  | some call =>
    obtain ⟨unit, entry⟩ := callMoment?_some found
    exact absurd (List.mem_of_getElem? entry) (uncalled unit)

structure Request.Traced (history : List (Happening U A)) (i : Nat) (r : Request U A) : Prop where
  called : ∀ unit, .called (.request i) unit ∈ history → unit = r.unit
  uncalled : r.stage.isLooking = true → callMoment? history (.request i) = none
  offer : ∀ tree since, r.stage = .installing tree since →
    callMoment? history (.request i) = some tree.id ∧ tree.Comes history
  answer : ∀ tree, r.stage = .answered (some tree) →
    tree.unit = r.unit ∧ (tree.origin.isReconciled = false → tree.Comes history)

structure System.Traced (s : System U A) : Prop where
  requests : ∀ (i : Nat) (r : Request U A), s.requests[i]? = some r → r.Traced s.history i
  cached : ∀ tree, s.provider.cached = some tree → tree.origin.isReconciled = false →
    tree.Comes s.history
  unasked : ∀ i, s.requests.length ≤ i → ∀ happening ∈ s.history, happening.IsApart i

namespace Request.Traced

variable {history : List (Happening U A)} {i : Nat} {r after : Request U A}
  {happening : Happening U A}

theorem keep (traced : r.Traced history i) (apart : happening.IsApart i) :
    r.Traced (history ++ [happening]) i := by
  constructor
  · intro unit member
    rcases mem_grown.mp member with before | rfl
    · exact traced.called unit before
    · exact absurd rfl apart
  · rw [callMoment?_grow apart.isCallOf]
    exact traced.uncalled
  · intro tree since stage
    rw [callMoment?_grow apart.isCallOf]
    obtain ⟨call, comes⟩ := traced.offer tree since stage
    exact ⟨call, comes.grow happening⟩
  · intro tree stage
    obtain ⟨mine, comes⟩ := traced.answer tree stage
    exact ⟨mine, fun own => (comes own).grow happening⟩

theorem start (limits : Limits) (now : Instant) (unit : U) (policy : Policy)
    (unknown : ∀ happening ∈ history, happening.IsApart i) :
    (Request.start limits now unit policy : Request U A).Traced
      (history ++ [.asked i unit policy]) i := by
  have uncalled : ∀ other, .called (.request i) other ∉ history ++ [.asked i unit policy] := by
    intro other member
    rcases mem_grown.mp member with before | now
    · exact absurd rfl (unknown _ before)
    · cases now
  constructor
  · intro other member
    exact absurd member (uncalled other)
  · exact fun _ => callMoment?_eq_none uncalled
  · intro tree since stage
    cases stage
  · intro tree stage
    cases stage

theorem call (traced : r.Traced history i) {purpose : Purpose}
    (parsing : r.stage = .parsing purpose) :
    r.Traced (history ++ [.called (.request i) r.unit]) i := by
  constructor
  · intro unit member
    rcases mem_grown.mp member with before | now
    · exact traced.called unit before
    · cases now
      rfl
  · intro looking
    rw [parsing] at looking
    cases looking
  · intro tree since stage
    rw [parsing] at stage
    cases stage
  · intro tree stage
    rw [parsing] at stage
    cases stage

theorem finish (traced : r.Traced history i) {purpose : Purpose} {id : Nat}
    {result : Except ParseFailure A} (found : callMoment? history (.request i) = some id)
    (unit : after.unit = r.unit) (outlook : Outlook id r.unit purpose result after.stage) :
    after.Traced (history ++ [.returned (.request i) result]) i := by
  obtain ⟨other, entry⟩ := callMoment?_some found
  obtain rfl := traced.called other (List.mem_of_getElem? entry)
  have grown : callMoment? (history ++ [.returned (.request i) result]) (.request i) = some id := by
    rw [callMoment?_grow rfl]
    exact found
  -- Whatever tree is made of this result came from the call that is on record.
  have comes : ∀ tree : Tree U A, tree.id = id → tree.unit = r.unit → result = .ok tree.ast →
      tree.Comes (history ++ [.returned (.request i) result]) := by
    rintro tree rfl mine rfl
    refine ⟨.request i, ?_, by simp⟩
    rw [mine]
    exact entry_grow entry
  generalize stage : after.stage = reached at outlook
  constructor
  · intro other member
    rw [unit]
    exact traced.called other (by simpa using member)
  · intro looking
    rw [stage] at looking
    cases outlook <;> cases looking
  · intro tree since ready
    rw [stage] at ready
    cases outlook with
    | refused | detached => cases ready
    | foreground =>
      cases ready
      exact ⟨grown, comes _ rfl rfl rfl⟩
  · intro tree answered
    rw [stage] at answered
    cases outlook with
    | refused | foreground => cases answered
    | detached =>
      cases answered
      exact ⟨unit.symm, fun _ => comes _ rfl rfl rfl⟩

variable [DecidableEq U] {p q : Provider U A}

theorem look (traced : r.Traced history i)
    (cached : ∀ tree, p.cached = some tree → tree.origin.isReconciled = false → tree.Comes history)
    (looking : r.stage = .validating) (unit : after.unit = r.unit)
    (sight : Sight p r.unit after.stage) : after.Traced (history ++ [.looked i]) i := by
  have past : r.Traced (history ++ [.looked i]) i := traced.keep trivial
  generalize stage : after.stage = reached at sight
  constructor
  · rw [unit]
    exact past.called
  · intro _
    apply past.uncalled
    rw [looking]
    rfl
  · intro tree since ready
    rw [stage] at ready
    cases sight <;> cases ready
  · intro tree answered
    rw [stage] at answered
    cases sight with
    | again | asleep | refused | detached | foreground => cases answered
    | served held mine =>
      cases answered
      exact ⟨mine.trans unit.symm, fun own => (cached _ held own).grow _⟩

theorem move (traced : r.Traced history i) (inStep : r.InStep p)
    (cached : ∀ tree, p.cached = some tree → tree.origin.isReconciled = false → tree.Comes history)
    (effect : r.Effect (callMoment? history (.request i)) i p after q happening) :
    after.Traced (history ++ [happening]) i := by
  cases effect with
  | looked looking unit sight => exact traced.look cached looking unit sight
  | woken asleep =>
    have past : r.Traced (history ++ [.woken i]) i := traced.keep trivial
    constructor
    · exact past.called
    · intro _
      apply past.uncalled
      rw [asleep]
      rfl
    · intro tree since ready
      cases ready
    · intro tree answered
      cases answered
  | called parsing => exact traced.call parsing
  | returned parsing called unit outlook => exact traced.finish called unit outlook
  | offered ready unit answered =>
    have past : r.Traced (history ++ [.offered i]) i := traced.keep trivial
    constructor
    · rw [unit]
      exact past.called
    · intro looking
      rcases answered with stage | stage <;> rw [stage] at looking <;> cases looking
    · intro tree since again
      rcases answered with stage | stage <;> rw [stage] at again <;> cases again
    · intro tree last
      rcases answered with stage | stage
      · rw [stage] at last
        cases last
      · rw [stage] at last
        cases last
        rw [unit]
        exact ⟨(inStep.offer _ _ ready).1, fun _ => (past.offer _ _ ready).2⟩

end Request.Traced

namespace System.Traced

variable [DecidableEq U] {s after : System U A} {happening : Happening U A}

omit [DecidableEq U] in
theorem start : ({} : System U A).Traced := by
  constructor <;> simp

theorem turn (traced : s.Traced) (regular : s.Regular) (turn : s.Turn happening after) :
    after.Traced := by
  cases turn with
  | touched touch apart =>
    constructor
    · intro i r found
      exact (traced.requests i r found).keep (apart i)
    · intro tree cached own
      rcases touch.cached cached with before | ⟨_, reconciled⟩
      · exact (traced.cached tree before own).grow _
      · rw [reconciled] at own
        cases own
    · intro i new entry member
      rcases mem_grown.mp member with before | rfl
      · exact traced.unasked i new entry before
      · exact apart i
  | asked =>
    constructor
    · intro i r found
      rcases entry_append.mp found with before | ⟨rfl, rfl⟩
      · have short := (List.getElem?_eq_some_iff.mp before).1
        exact (traced.requests i r before).keep (Nat.ne_of_gt short)
      · exact .start _ _ _ _ (traced.unasked _ (Nat.le_refl _))
    · intro tree cached own
      exact (traced.cached tree cached own).grow _
    · intro i new entry member
      have less : s.requests.length < i := by
        simpa [System.record, Nat.succ_le_iff] using new
      rcases mem_grown.mp member with before | rfl
      · exact traced.unasked i (Nat.le_of_lt less) entry before
      · exact Nat.ne_of_lt less
  | @moved i r next _ _ _ found effect =>
    have mine := traced.requests i r found
    have inStep := regular.requests i r found
    have inside := (List.getElem?_eq_some_iff.mp found).1
    constructor
    · intro j r' found'
      rcases getElem?_set_cases found found' with ⟨rfl, rfl⟩ | ⟨apart, before⟩
      · exact mine.move inStep traced.cached effect
      · exact (traced.requests j r' before).keep (effect.isApart apart)
    · intro tree cached own
      cases effect with
      | looked | woken | called | returned => exact (traced.cached tree cached own).grow _
      | offered ready _ _ installed =>
        rcases installed with rfl | installed
        · exact (traced.cached tree cached own).grow _
        · obtain ⟨_, _, _, _, rfl⟩ := Provider.installForeground?_some installed
          cases cached
          exact (mine.offer _ _ ready).2.grow _
    · intro j new entry member
      have other : j ≠ i := by
        simp only [System.record, List.length_set] at new
        omega
      rcases mem_grown.mp member with before | rfl
      · exact traced.unasked j (by simpa [System.record] using new) entry before
      · exact effect.isApart other

end System.Traced

theorem Chronicle.traced [DecidableEq U] {limits : Limits} {allowed : Act U A → Prop}
    {s : System U A} {past : List (Moment U A)} (chronicle : Chronicle limits allowed {} past s)
    (few : openings past < UInt64.size) : s.Traced := by
  refine chronicle.invariant (motive := fun _ s => s.Traced) few .start ?_
  intro past before happening after told traced turn few
  have fewer := Nat.lt_of_le_of_lt (openings_le_append past _) few
  exact traced.turn (told.regular fewer) turn

/-- What every later turn preserves, if few cycles are opened from the start on,
holds at the end of the later part of a run. -/
theorem Chronicle.invariant_from [DecidableEq U] {limits : Limits} {allowed : Act U A → Prop}
    {s last : System U A} {past later : List (Moment U A)} {motive : System U A → Prop}
    (early : Chronicle limits allowed {} past s) (late : Chronicle limits allowed s later last)
    (few : openings (past ++ later) < UInt64.size) (begins : motive s)
    (preserved : ∀ before happening after, before.Regular → before.Traced →
      before.Turn happening after → before.Counts happening after →
      (⟨before.provider, happening, after.provider⟩ : Moment U A) ∈ later →
      motive before → motive after) : motive last := by
  induction late with
  | start => exact begins
  | @next later before after act happening told fine stepped grown ih =>
    have whole := early.trans told
    have turn := System.Turn.of_step? stepped grown
    rw [← List.append_assoc] at few
    have counts := whole.counts turn few
    have fewer := Nat.lt_of_le_of_lt (openings_le_append _ _) few
    refine preserved before happening after (whole.regular fewer) (whole.traced fewer) turn counts
      (by simp) (ih fewer ?_)
    intro before happening after regular traced turn counts member
    exact preserved before happening after regular traced turn counts
      (List.mem_append_left _ member)

end FreshTree
