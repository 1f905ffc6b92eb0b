import FreshTree.Proofs.Provenance

/-!
Requests in their loop. Nobody but its owner moves a request, and a request that
looks at the provider or sleeps can only look again or be woken. So what becomes
of it depends on the looks it takes, and until the first one that ends its loop
it has not called the engine.
-/

namespace FreshTree

variable {U A : Type}

def Happening.request? : Happening U A → Option Nat
  | .looked i | .woken i | .offered i | .called (.request i) _ | .returned (.request i) _ => some i
  | _ => none

theorem Happening.request?_of_isReconcilers {happening : Happening U A}
    (theirs : happening.isReconcilers = true) : happening.request? = none := by
  cases happening with
  | called caller | returned caller =>
    cases caller with
    | request => cases theirs
    | job => rfl
  | looked | woken | offered => cases theirs
  | _ => rfl

theorem Happening.isCallOf_of_request? {happening : Happening U A} {i : Nat}
    (apart : happening.request? ≠ some i) : happening.isCallOf (.request i) = false := by
  cases happening with
  | called caller unit =>
    cases caller with
    | request other => simpa [isCallOf, request?] using apart
    | job => rfl
  | _ => rfl

/-- A request that is in its loop, or was not made yet, has not called the engine. -/
def System.Uncalled (s : System U A) : Prop :=
  ∀ i, (∀ r, s.requests[i]? = some r → r.stage.isLooking = true) →
    callMoment? s.history (.request i) = none

variable [DecidableEq U]

namespace System

variable {limits : Limits} {s after : System U A} {act : Act U A} {happening : Happening U A}

theorem step?_owner {i : Nat}
    (stepped : s.step? limits act = some after)
    (grown : after.history = s.history ++ [happening]) (other : ∀ move, act ≠ .request i move) :
    happening.request? ≠ some i := by
  have entered := entry_eq grown
  cases act with
  | pass | tick | setActive | dispose | begin | deliver | ask =>
    cases stepped
    obtain rfl := entered _ rfl
    rintro ⟨⟩
  | request j move =>
    obtain ⟨r, next, p, notes, _, _, rfl⟩ := moveRequest?_moved stepped
    obtain rfl := entered _ rfl
    have apart : j ≠ i := by
      rintro rfl
      exact other move rfl
    cases move <;> simpa [Request.Move.happening, Happening.request?] using apart
  | spawn settings =>
    simp only [step?] at stepped
    split at stepped
    · cases stepped
      obtain rfl := entered _ rfl
      rintro ⟨⟩
    · cases stepped
  | reconciler k move =>
    obtain ⟨r, step, entry, _, _, moved, rfl⟩ := moveReconciler?_some stepped
    obtain rfl := entered _ rfl
    rw [Happening.request?_of_isReconcilers (Reconciler.move?_isReconcilers moved)]
    rintro ⟨⟩

theorem step?_others {i : Nat} (stepped : s.step? limits act = some after)
    (other : ∀ move, act ≠ .request i move) :
    after.requests[i]? = s.requests[i]? ∨
      i = s.requests.length ∧ ∃ unit policy, act = .ask unit policy ∧
        after.requests[i]? = some (Request.start limits s.now unit policy) := by
  cases act with
  | pass | tick | setActive | dispose | begin | deliver =>
    cases stepped
    exact Or.inl rfl
  | ask unit policy =>
    cases stepped
    by_cases new : i = s.requests.length
    · subst new
      exact Or.inr ⟨rfl, unit, policy, rfl, by simp [record]⟩
    · left
      change (s.requests ++ [_])[i]? = s.requests[i]?
      rcases Nat.lt_or_gt_of_ne new with before | after
      · rw [List.getElem?_append_left before]
      · rw [List.getElem?_eq_none (Nat.le_of_lt after), List.getElem?_eq_none]
        simpa [Nat.succ_le_iff] using after
  | request j move =>
    obtain ⟨r, next, p, notes, _, _, rfl⟩ := moveRequest?_moved stepped
    have apart : j ≠ i := by
      rintro rfl
      exact other move rfl
    left
    change (s.requests.set j next)[i]? = s.requests[i]?
    rw [List.getElem?_set_ne apart]
  | spawn settings =>
    simp only [step?] at stepped
    split at stepped
    · cases stepped
      exact Or.inl rfl
    · cases stepped
  | reconciler k move =>
    obtain ⟨r, step, entry, _, _, _, rfl⟩ := moveReconciler?_some stepped
    exact Or.inl rfl

theorem step?_requests (stepped : s.step? limits act = some after)
    (other : ∀ i move, act ≠ .request i move) (unasked : ∀ unit policy, act ≠ .ask unit policy) :
    after.requests = s.requests := by
  apply List.ext_getElem?
  intro i
  rcases step?_others stepped (other i) with same | ⟨_, unit, policy, asked, _⟩
  · exact same
  · exact absurd asked (unasked unit policy)

/-- An act as request `i` sees it: its own move, somebody else's doing, or the one that
makes the request. -/
inductive Sees (limits : Limits) (i : Nat) (s : System U A) :
    Act U A → Happening U A → System U A → Prop where
  | own {r next : Request U A} {move : Request.Move A} {notes : List (Note U)}
      {after : System U A} :
      s.requests[i]? = some r →
      r.move? limits s.now (callMoment? s.history (.request i)) s.provider move =
        some (after.provider, next, notes) →
      after.requests[i]? = some next → after.told = s.told ++ notes →
      Sees limits i s (.request i move) (move.happening i r.unit) after
  | others {act : Act U A} {happening : Happening U A} {after : System U A} :
      (∀ move, act ≠ .request i move) → happening.request? ≠ some i →
      after.requests[i]? = s.requests[i]? → Sees limits i s act happening after
  | made {unit : U} {policy : Policy} {happening : Happening U A} {after : System U A} :
      i = s.requests.length → happening.request? ≠ some i →
      after.requests[i]? = some (Request.start limits s.now unit policy) →
      Sees limits i s (.ask unit policy) happening after

theorem sees {limits : Limits} {s after : System U A} {act : Act U A}
    {happening : Happening U A} (stepped : s.step? limits act = some after)
    (grown : after.history = s.history ++ [happening]) (i : Nat) :
    s.Sees limits i act happening after := by
  by_cases own : ∃ move, act = .request i move
  · obtain ⟨move, rfl⟩ := own
    obtain ⟨r, next, p, notes, found, moved, rfl⟩ := moveRequest?_moved stepped
    obtain rfl : move.happening i r.unit = happening := by simpa [record] using grown
    exact .own found moved (List.getElem?_set_self (List.getElem?_eq_some_iff.mp found).1) rfl
  · have other := not_exists.mp own
    have theirs := step?_owner stepped grown other
    rcases step?_others stepped other with same | ⟨new, unit, policy, rfl, made⟩
    · exact .others other theirs same
    · exact .made new theirs made

theorem step?_request {limits : Limits} {s : System U A} {i : Nat} {r next : Request U A}
    {move : Request.Move A} {q : Provider U A} {notes : List (Note U)}
    (found : s.requests[i]? = some r)
    (moved : r.move? limits s.now (callMoment? s.history (.request i)) s.provider move =
      some (q, next, notes)) :
    ∃ after, s.step? limits (.request i move) = some after ∧ after.provider = q ∧
      after.history = s.history ++ [move.happening i r.unit] ∧ after.requests[i]? = some next := by
  refine ⟨{ s with provider := q, requests := s.requests.set i next }.record
    (move.happening i r.unit) notes, ?_, rfl, rfl,
    List.getElem?_set_self (List.getElem?_eq_some_iff.mp found).1⟩
  simp [step?, moveRequest?, found, moved]

theorem Uncalled.turn (uncalled : s.Uncalled) (turn : s.Turn happening after) :
    after.Uncalled := by
  intro i looking
  cases turn with
  | touched _ apart =>
    rw [record, callMoment?_grow (apart i).isCallOf]
    exact uncalled i looking
  | asked =>
    rw [record, callMoment?_grow rfl]
    -- A request that was not made yet passes for one in its loop.
    apply uncalled i
    intro r found
    exact looking r (entry_append.mpr (Or.inl found))
  | @moved j r next q happening notes found effect =>
    by_cases here : i = j
    · subst here
      have reached := looking next (List.getElem?_set_self (List.getElem?_eq_some_iff.mp found).1)
      -- A request is in its loop only if it was there before its move.
      have kept : r.stage.isLooking = true ∧ happening.isCallOf (.request i) = false := by
        cases effect with
        | looked stage | woken stage => exact ⟨by rw [stage]; rfl, rfl⟩
        | called stage =>
          rw [stage] at reached
          cases reached
        | returned _ _ _ outlook =>
          generalize next.stage = stage at outlook reached
          cases outlook <;> cases reached
        | offered _ _ answered =>
          rcases answered with stage | stage <;> rw [stage] at reached <;> cases reached
      rw [record, callMoment?_grow kept.2]
      apply uncalled i
      intro r' found'
      cases found.symm.trans found'
      exact kept.1
    · rw [record, callMoment?_grow (effect.isApart here).isCallOf]
      apply uncalled i
      intro r' found'
      apply looking r'
      change (s.requests.set j next)[i]? = some r'
      rw [List.getElem?_set_ne (Ne.symm here)]
      exact found'

end System

theorem Chronicle.uncalled {limits : Limits} {allowed : Act U A → Prop} {s : System U A}
    {past : List (Moment U A)} (chronicle : Chronicle limits allowed {} past s) : s.Uncalled := by
  induction chronicle with
  | start => exact fun _ _ => rfl
  | next _ _ stepped grown ih => exact ih.turn (.of_step? stepped grown)

namespace Request

variable {limits : Limits} {now : Instant} {called : Option Nat} {p q : Provider U A}
  {r next : Request U A} {move : Move A} {notes : List (Note U)}

theorem move?_looking (looking : r.stage.isLooking = true)
    (moved : r.move? limits now called p move = some (q, next, notes)) :
    (∃ cancelled, move = .look cancelled ∧ r.stage = .validating ∧ q = p ∧
        next = (r.validate limits now cancelled p).1) ∨
      move = .wake ∧ q = p ∧ next = r.wake := by
  cases move with
  | look cancelled =>
    simp only [move?] at moved
    split at moved
    · rename_i stage
      obtain ⟨rfl, rfl, rfl⟩ : p = q ∧ _ ∧ _ := by simpa [Prod.ext_iff] using moved
      exact Or.inl ⟨cancelled, rfl, stage, rfl, rfl⟩
    · cases moved
  | wake =>
    simp only [move?] at moved
    split at moved
    · cases moved
      exact Or.inr ⟨rfl, rfl, rfl⟩
    · cases moved
  | call | finish cancelled ending | install cancelled =>
    simp only [move?] at moved
    split at moved
    · rename_i stage
      rw [stage] at looking
      cases looking
    · cases moved

theorem move?_answered {tree : Option (Tree U A)} (done : r.stage = .answered tree) :
    r.move? limits now called p move = none := by
  cases move <;> simp [move?, done]

omit [DecidableEq U] in
theorem wake_stage (looking : r.stage.isLooking = true) : r.wake.stage = .validating := by
  cases stage : r.stage with
  | validating | blocked slice => simp [wake, stage]
  | parsing | installing | answered =>
    rw [stage] at looking
    cases looking

omit [DecidableEq U] in
theorem wake_answer (r : Request U A) (tree : Option (Tree U A)) :
    r.wake.answer tree = r.answer tree := by
  cases stage : r.stage <;> simp [wake, answer, stage]

omit [DecidableEq U] in
theorem wake_unit (r : Request U A) : r.wake.unit = r.unit := by
  cases stage : r.stage <;> simp [wake, stage]

/-- What takes request `i` from its loop to its next look: its wake-up, if it
sleeps, and the look. -/
def revalidate (i : Nat) (cancelled : Bool) (r : Request U A) : List (Act U A) :=
  match r.stage with
  | .blocked _ => [.request i .wake, .request i (.look cancelled)]
  | _ => [.request i (.look cancelled)]

end Request

namespace System

variable {limits : Limits} {s after : System U A}

theorem step?_look {i : Nat} {r : Request U A} (limits : Limits) (cancelled : Bool)
    (found : s.requests[i]? = some r) (looking : r.stage = .validating) :
    ∃ after, s.step? limits (.request i (.look cancelled)) = some after ∧
      after.provider = s.provider ∧ after.history = s.history ++ [.looked i] ∧
      after.requests[i]? = some (r.validate limits s.now cancelled s.provider).1 := by
  have inside := (List.getElem?_eq_some_iff.mp found).1
  refine ⟨{ s with requests := s.requests.set i (r.validate limits s.now cancelled s.provider).1 }.record
    (.looked i) (r.validate limits s.now cancelled s.provider).2, ?_, rfl, rfl,
    List.getElem?_set_self inside⟩
  simp [step?, moveRequest?, found, Request.move?, looking, Request.Move.happening]

theorem run?_revalidate {i : Nat} {r : Request U A} (limits : Limits) (cancelled : Bool)
    (found : s.requests[i]? = some r) (looking : r.stage.isLooking = true) :
    ∃ after, s.run? limits (r.revalidate i cancelled) = some after ∧
      after.provider = s.provider ∧
      callMoment? after.history (.request i) = callMoment? s.history (.request i) ∧
      after.requests[i]? = some (r.wake.validate limits s.now cancelled s.provider).1 := by
  cases stage : r.stage with
  | validating =>
    obtain ⟨after, stepped, same, grown, moved⟩ := step?_look limits cancelled found stage
    refine ⟨after, ?_, same, ?_, ?_⟩
    · simp [Request.revalidate, stage, run?, stepped]
    · rw [grown, callMoment?_grow rfl]
    · simpa [Request.wake, stage] using moved
  | blocked slice =>
    have inside := (List.getElem?_eq_some_iff.mp found).1
    have woken : s.step? limits (.request i .wake) =
        some ({ s with requests := s.requests.set i r.wake }.record (.woken i) []) := by
      simp [step?, moveRequest?, found, Request.move?, stage, Request.Move.happening]
    obtain ⟨after, stepped, same, grown, moved⟩ :=
      step?_look (s := { s with requests := s.requests.set i r.wake }.record (.woken i) []) limits
        cancelled (List.getElem?_set_self inside) (Request.wake_stage looking)
    refine ⟨after, ?_, same, ?_, moved⟩
    · simp [Request.revalidate, stage, run?, woken, stepped]
    · rw [grown, callMoment?_grow rfl, record, callMoment?_grow rfl]
  | parsing | installing | answered =>
    rw [stage] at looking
    cases looking

/-- Request `i` has ended with this answer, or it has not looked at the provider in
these moments and is in its loop, if it was made at all. -/
def EndsWith (answer : Option (Tree U A)) (later : List (Moment U A)) (i : Nat) (s : System U A) :
    Prop :=
  (∃ r, s.requests[i]? = some r ∧ r.stage = .answered answer) ∨
    (∀ r, s.requests[i]? = some r → r.stage.isLooking = true) ∧
      ∀ m ∈ later, m.happening ≠ .looked i

namespace EndsWith

variable {act : Act U A} {happening : Happening U A} {answer : Option (Tree U A)}
  {later : List (Moment U A)} {i : Nat}

theorem own {move : Request.Move A} (ends : s.EndsWith answer later i)
    (stepped : s.step? limits (.request i move) = some after)
    (grown : after.history = s.history ++ [happening])
    (looks : ∀ r cancelled, move = .look cancelled → s.requests[i]? = some r →
      (r.validate limits s.now cancelled s.provider).1.stage = .answered answer) :
    happening.isCallOf (.request i) = false ∧
      after.EndsWith answer (later ++ [⟨s.provider, happening, after.provider⟩]) i := by
  obtain ⟨r, next, p, notes, found, moved, rfl⟩ := moveRequest?_moved stepped
  obtain rfl : move.happening i r.unit = happening := by simpa [record] using grown
  have moving : (s.requests.set i next)[i]? = some next :=
    List.getElem?_set_self (List.getElem?_eq_some_iff.mp found).1
  rcases ends with ⟨r', found', done⟩ | ⟨looking, unlooked⟩
  · cases found.symm.trans found'
    rw [Request.move?_answered done] at moved
    cases moved
  -- A look settles the answer, and a wake-up is no look.
  · rcases Request.move?_looking (looking r found) moved with
      ⟨cancelled, rfl, _, rfl, rfl⟩ | ⟨rfl, rfl, rfl⟩
    · exact ⟨rfl, Or.inl ⟨_, moving, looks r cancelled rfl found⟩⟩
    · refine ⟨rfl, Or.inr ⟨?_, ?_⟩⟩
      · intro r' found'
        cases moving.symm.trans found'
        rw [Request.wake_stage (looking r found)]
        rfl
      · exact List.forall_mem_append.mpr ⟨unlooked, by simp [Request.Move.happening]⟩

theorem aside (ends : s.EndsWith answer later i) (other : ∀ move, act ≠ .request i move)
    (stepped : s.step? limits act = some after)
    (grown : after.history = s.history ++ [happening]) :
    happening.isCallOf (.request i) = false ∧
      after.EndsWith answer (later ++ [⟨s.provider, happening, after.provider⟩]) i := by
  have theirs := step?_owner stepped grown other
  have unseen : happening ≠ .looked i := fun looked => theirs (congrArg Happening.request? looked)
  refine ⟨Happening.isCallOf_of_request? theirs, ?_⟩
  rcases step?_others stepped other with same | ⟨rfl, unit, policy, _, made⟩
  · unfold EndsWith
    rw [same]
    rcases ends with ended | ⟨looking, unlooked⟩
    · exact Or.inl ended
    · exact Or.inr ⟨looking, List.forall_mem_append.mpr ⟨unlooked, by simpa using unseen⟩⟩
  · -- The request is made by this act, so it cannot have ended before.
    rcases ends with ⟨r, found, _⟩ | ⟨_, unlooked⟩
    · exact absurd (List.getElem?_eq_some_iff.mp found).1 (Nat.lt_irrefl _)
    · refine Or.inr ⟨?_, List.forall_mem_append.mpr ⟨unlooked, by simpa using unseen⟩⟩
      intro r found
      cases made.symm.trans found
      rfl

theorem step (ends : s.EndsWith answer later i) (stepped : s.step? limits act = some after)
    (grown : after.history = s.history ++ [happening])
    (looks : ∀ r cancelled, act = .request i (.look cancelled) → s.requests[i]? = some r →
      (r.validate limits s.now cancelled s.provider).1.stage = .answered answer) :
    happening.isCallOf (.request i) = false ∧
      after.EndsWith answer (later ++ [⟨s.provider, happening, after.provider⟩]) i := by
  by_cases own : ∃ move, act = .request i move
  · obtain ⟨move, rfl⟩ := own
    apply ends.own stepped grown
    rintro r cancelled rfl
    exact looks r cancelled rfl
  · exact ends.aside (not_exists.mp own) stepped grown

end EndsWith

end System

end FreshTree
