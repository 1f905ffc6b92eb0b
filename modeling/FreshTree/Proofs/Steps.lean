import FreshTree.Proofs.Ledger
import FreshTree.Proofs.Moves

/-!
What one act does to the whole. Every act adds one entry to the history, so the
past of a run never changes, and whatever each change preserves holds at the end
of every run.
-/

namespace FreshTree

variable {U A : Type}

theorem Request.Effect.isAside [DecidableEq U] {called : Option Nat} {i : Nat}
    {p q : Provider U A} {r after : Request U A} {happening : Happening U A}
    (effect : r.Effect called i p after q happening) (k : Nat) : happening.IsAside k := by
  cases effect <;> trivial

theorem getElem?_set_cases {α : Type} {entries : List α} {k i : Nat} {old new entry : α}
    (inside : entries[k]? = some old) (found : (entries.set k new)[i]? = some entry) :
    i = k ∧ new = entry ∨ i ≠ k ∧ entries[i]? = some entry := by
  by_cases here : i = k
  · subst here
    have short := (List.getElem?_eq_some_iff.mp inside).1
    rw [List.getElem?_set_self short] at found
    exact Or.inl ⟨rfl, Option.some.inj found⟩
  · rw [List.getElem?_set_ne (Ne.symm here)] at found
    exact Or.inr ⟨here, found⟩

variable [DecidableEq U] {limits : Limits}

namespace System

/-- What an act does that leaves the cycles to the reconcilers: it concerns the
provider alone, one request, or one reconciler. -/
inductive Change (limits : Limits) (s : System U A) : System U A → Prop where
  | outside {now timer : Instant} {p : Provider U A} {happening : Happening U A} {notes : List (Note U)} :
      s.provider.OpensNone p → s.provider.AddsNone p → happening.IsPlain →
      Change limits s ({ s with now := now, timer := timer, provider := p }.record happening notes)
  | asked {unit : U} {policy : Policy} :
      Change limits s
        ({ s with requests := s.requests ++ [Request.start limits s.now unit policy] }.record
          (.asked s.requests.length unit policy) [])
  | request {i : Nat} {r after : Request U A} {p : Provider U A} {happening : Happening U A}
      {notes : List (Note U)} :
      s.requests[i]? = some r →
      r.Effect (callMoment? s.history (.request i)) i s.provider after p happening →
      Change limits s
        ({ s with provider := p, requests := s.requests.set i after }.record happening notes)
  | spawned {settings : ReconcilerSettings} {horizon : Instant} {notes : List (Note U)} :
      s.allDropped = true →
      Change limits s
        ({ s with reconcilers := s.reconcilers ++ [Reconciler.spawn settings horizon] }.record
          (.spawned s.reconcilers.length) notes)
  | moved {k : Nat} {r : Reconciler U A} {move : Reconciler.Move U A}
      {step : Reconciler.Step U A} {happening : Happening U A} :
      s.reconcilers[k]? = some r → (move.isOnHandle = true → k + 1 = s.reconcilers.length) →
      r.move? s.timer s.history k s.provider move = some (step, happening) →
      Change limits s ({ s with
          provider := step.provider
          reconcilers := s.reconcilers.set k step.reconciler }.record happening step.notes)

theorem moveRequest?_moved {s after : System U A} {i : Nat} {move : Request.Move A}
    (stepped : s.moveRequest? limits i move = some after) :
    ∃ r next p notes, s.requests[i]? = some r ∧
      r.move? limits s.now (callMoment? s.history (.request i)) s.provider move =
        some (p, next, notes) ∧
      after = { s with provider := p, requests := s.requests.set i next }.record
        (move.happening i r.unit) notes := by
  unfold moveRequest? at stepped
  split at stepped
  · cases stepped
  rename_i r found
  split at stepped
  · cases stepped
  rename_i p next notes moved
  cases stepped
  exact ⟨r, next, p, notes, found, moved, rfl⟩

theorem moveRequest?_some {s after : System U A} {i : Nat} {move : Request.Move A}
    (stepped : s.moveRequest? limits i move = some after) :
    ∃ r next p happening notes, s.requests[i]? = some r ∧
      r.Effect (callMoment? s.history (.request i)) i s.provider next p happening ∧
      after = { s with provider := p, requests := s.requests.set i next }.record happening notes := by
  obtain ⟨r, next, p, notes, found, moved, same⟩ := moveRequest?_moved stepped
  exact ⟨r, next, p, _, notes, found, (Request.move?_course moved).effect i, same⟩

theorem moveReconciler?_some {s after : System U A} {k : Nat} {move : Reconciler.Move U A}
    (stepped : s.moveReconciler? k move = some after) :
    ∃ r step happening, s.reconcilers[k]? = some r ∧
      (move.isOnHandle = true → k + 1 = s.reconcilers.length) ∧
      r.move? s.timer s.history k s.provider move = some (step, happening) ∧
      after = { s with
          provider := step.provider
          reconcilers := s.reconcilers.set k step.reconciler }.record happening step.notes := by
  unfold moveReconciler? at stepped
  split at stepped
  · cases stepped
  rename_i r found
  split at stepped
  · cases stepped
  rename_i mine
  split at stepped
  · cases stepped
  rename_i step happening moved
  cases stepped
  exact ⟨r, step, happening, found, fun onHandle => by simpa [onHandle] using mine, moved, rfl⟩

theorem step?_change {s after : System U A} {act : Act U A} (internal : act.IsInternal)
    (stepped : s.step? limits act = some after) : s.Change limits after := by
  cases act with
  | pass length | tick length =>
    cases stepped
    exact .outside (.refl _) (fun _ cached => cached) trivial
  | setActive unit =>
    cases stepped
    exact .outside (s.provider.setActive_opensNone unit) (s.provider.setActive_addsNone unit) trivial
  | dispose =>
    cases stepped
    exact .outside s.provider.dispose_opensNone s.provider.dispose_addsNone trivial
  | begin | deliver => cases internal
  | ask unit policy =>
    cases stepped
    exact .asked
  | request i move =>
    obtain ⟨r, next, p, happening, notes, found, effect, rfl⟩ := moveRequest?_some stepped
    exact .request found effect
  | spawn settings =>
    simp only [step?] at stepped
    split at stepped
    · rename_i dropped
      cases stepped
      exact .spawned dropped
    · cases stepped
  | reconciler k move =>
    obtain ⟨r, step, happening, found, mine, moved, rfl⟩ := moveReconciler?_some stepped
    exact .moved found mine moved

theorem Change.history {s after : System U A} (change : s.Change limits after) :
    ∃ happening, after.history = s.history ++ [happening] := by
  cases change <;> exact ⟨_, rfl⟩

omit [DecidableEq U] in
theorem entry_eq {s after : System U A} {happening : Happening U A}
    (grown : after.history = s.history ++ [happening]) (entry : Happening U A)
    (told : after.history = s.history ++ [entry]) : entry = happening := by
  have both := told.symm.trans grown
  simpa using both

omit [DecidableEq U] in
theorem edits_append {s after : System U A} {happening : Happening U A}
    (grown : after.history = s.history ++ [happening]) :
    after.edits = s.edits + if happening.isEdit then 1 else 0 := by
  simp [edits, grown, List.countP_append, List.countP_singleton]

theorem Change.edits_le {s after : System U A} (change : s.Change limits after) :
    s.edits ≤ after.edits := by
  obtain ⟨happening, grown⟩ := change.history
  have counted := edits_append grown
  omega

end System

theorem Reaches.of_run? {allowed : Act U A → Prop} {first s last : System U A}
    (reaches : Reaches limits allowed first s) {acts : List (Act U A)}
    (all : ∀ act ∈ acts, allowed act) (ran : s.run? limits acts = some last) :
    Reaches limits allowed first last := by
  induction acts generalizing s with
  | nil =>
    cases ran
    exact reaches
  | cons act rest ih =>
    simp only [System.run?] at ran
    split at ran
    · cases ran
    · rename_i next stepped
      exact ih (.next reaches (all act List.mem_cons_self) stepped)
        (fun other member => all other (List.mem_cons_of_mem _ member)) ran

/-- What every change preserves while few edits are noted holds after every run. -/
theorem Reaches.invariant {first last : System U A} {motive : System U A → Prop}
    (reaches : Reaches limits Act.IsInternal first last) (few : last.edits < UInt64.size)
    (start : motive first)
    (preserved : ∀ before after, motive before → before.Change limits after →
      after.edits < UInt64.size → motive after) : motive last := by
  induction reaches with
  | refl => exact start
  | next before internal stepped held =>
    have change := System.step?_change internal stepped
    exact preserved _ _ (held (Nat.lt_of_le_of_lt change.edits_le few)) change few

end FreshTree
