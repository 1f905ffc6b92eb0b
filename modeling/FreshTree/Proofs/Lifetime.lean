import FreshTree.Proofs.Steps

/-!
A run as one reconciler sees it: it is spawned, it moves, or somebody else does something
that leaves it alone. What it keeps at each of these holds of it and of the history ever
after, and the times can be read off the history.
-/

namespace FreshTree

variable {U A : Type}

def Happening.reconciler? : Happening U A → Option Nat
  | .noted k _ | .refused k _ | .accepted k _ | .rejected k _ | .flushed k | .stopped k
  | .killed k | .launched k _ _ | .worked k _ | .called (.job k _) _
  | .returned (.job k _) _ => some k
  | _ => none

theorem notMem_spawned {history : List (Happening U A)} {k : Nat} {entry : Happening U A}
    (unknown : ∀ happening ∈ history, happening.reconciler? ≠ some k)
    (own : entry.reconciler? = some k) : entry ∉ history ++ [.spawned k] := by
  intro member
  rcases mem_grown.mp member with before | rfl
  · exact unknown entry before own
  · cases own

def Happening.length : Happening U A → Nat
  | .passed length => length
  | _ => 0

def Happening.ticks : Happening U A → Nat
  | .ticked length => length
  | _ => 0

def elapsed : List (Happening U A) → Instant
  | [] => 0
  | happening :: later => happening.length + elapsed later

def ticked : List (Happening U A) → Instant
  | [] => 0
  | happening :: later => happening.ticks + ticked later

theorem elapsed_append (past later : List (Happening U A)) :
    elapsed (past ++ later) = elapsed past + elapsed later := by
  induction past with
  | nil => simp [elapsed]
  | cons happening past ih => rw [List.cons_append, elapsed, elapsed, ih, Nat.add_assoc]

theorem elapsed_concat (history : List (Happening U A)) (happening : Happening U A) :
    elapsed (history ++ [happening]) = elapsed history + happening.length := by
  rw [elapsed_append]
  rfl

theorem ticked_concat (history : List (Happening U A)) (happening : Happening U A) :
    ticked (history ++ [happening]) = ticked history + happening.ticks := by
  induction history with
  | nil => simp [ticked]
  | cons first history ih => rw [List.cons_append, ticked, ticked, ih, Nat.add_assoc]

namespace Reconciler

variable [DecidableEq U] {now : Instant} {history : List (Happening U A)} {k : Nat}
  {p q : Provider U A} {r after : Reconciler U A} {move : Move U A} {happening : Happening U A}

theorem Conduct.reconciler (conduct : r.Conduct now history k p move after q happening) :
    happening.reconciler? = some k := by
  cases conduct <;> rfl

theorem Conduct.timeless (conduct : r.Conduct now history k p move after q happening) :
    happening.length = 0 ∧ happening.ticks = 0 := by
  cases conduct <;> exact ⟨rfl, rfl⟩

end Reconciler

variable [DecidableEq U] {limits : Limits}

namespace System

variable {s after : System U A} {act : Act U A} {k : Nat}

/-- What an act is to reconciler `k`: its own move, its beginning, or nothing. -/
inductive Meets (limits : Limits) (k : Nat) (s : System U A) :
    Happening U A → System U A → Prop where
  | own {r : Reconciler U A} {move : Reconciler.Move U A} {step : Reconciler.Step U A}
      {happening : Happening U A} :
      s.reconcilers[k]? = some r →
      r.Conduct s.timer s.history k s.provider move step.reconciler step.provider happening →
      Meets limits k s happening
        ({ s with
            provider := step.provider
            reconcilers := s.reconcilers.set k step.reconciler }.record happening step.notes)
  | spawned {after : System U A} {settings : ReconcilerSettings} :
      s.reconcilers[k]? = none →
      after.reconcilers[k]? = some (Reconciler.spawn settings limits.horizon) →
      Meets limits k s (.spawned k) after
  | aside {after : System U A} {happening : Happening U A} :
      after.reconcilers[k]? = s.reconcilers[k]? → happening.reconciler? ≠ some k →
      Meets limits k s happening after

/-- Every act makes one entry, and the clocks move with it and not otherwise. -/
theorem step?_entry (stepped : s.step? limits act = some after) :
    ∃ happening, after.history = s.history ++ [happening] ∧
      after.now = s.now + happening.length ∧ after.timer = s.timer + happening.ticks := by
  cases act with
  | pass | tick | setActive | dispose | begin | deliver | ask =>
    cases stepped
    exact ⟨_, rfl, rfl, rfl⟩
  | request i move =>
    obtain ⟨r, next, p, notes, _, _, rfl⟩ := moveRequest?_moved stepped
    refine ⟨_, rfl, ?_⟩
    cases move <;> exact ⟨rfl, rfl⟩
  | spawn settings =>
    simp only [step?] at stepped
    split at stepped
    · cases stepped
      exact ⟨_, rfl, rfl, rfl⟩
    · cases stepped
  | reconciler k move =>
    obtain ⟨r, step, happening, _, _, moved, rfl⟩ := moveReconciler?_some stepped
    obtain ⟨still, still'⟩ := (Reconciler.move?_conduct moved).timeless
    refine ⟨_, rfl, ?_⟩
    rw [still, still']
    exact ⟨rfl, rfl⟩

theorem step?_meets (stepped : s.step? limits act = some after) (k : Nat) :
    ∃ happening, after.history = s.history ++ [happening] ∧ s.Meets limits k happening after := by
  cases act with
  | pass | tick | setActive | dispose | begin | deliver | ask =>
    cases stepped
    exact ⟨_, rfl, .aside rfl (by simp [Happening.reconciler?])⟩
  | request i move =>
    obtain ⟨r, next, p, notes, _, _, rfl⟩ := moveRequest?_moved stepped
    refine ⟨_, rfl, .aside rfl ?_⟩
    cases move <;> simp [Request.Move.happening, Happening.reconciler?]
  | spawn settings =>
    simp only [step?] at stepped
    split at stepped
    · cases stepped
      refine ⟨_, rfl, ?_⟩
      by_cases mine : k = s.reconcilers.length
      · subst mine
        exact .spawned (List.getElem?_eq_none (Nat.le_refl _))
          List.getElem?_concat_length
      · refine .aside ?_ (by simp [Happening.reconciler?])
        change (s.reconcilers ++ [Reconciler.spawn settings limits.horizon])[k]? = _
        rcases Nat.lt_or_gt_of_ne mine with older | newer
        · exact List.getElem?_append_left older
        · rw [List.getElem?_eq_none (by simp; omega), List.getElem?_eq_none (by omega)]
    · cases stepped
  | reconciler i move =>
    obtain ⟨r, step, happening, found, _, moved, rfl⟩ := moveReconciler?_some stepped
    have conduct := Reconciler.move?_conduct moved
    refine ⟨_, rfl, ?_⟩
    by_cases mine : i = k
    · subst mine
      exact .own found conduct
    · refine .aside (List.getElem?_set_ne mine) ?_
      rw [conduct.reconciler]
      exact fun same => mine (Option.some.inj same)

/-! A run can be cut at each of its acts, and the history has one entry for each. -/

theorem run?_append (limits : Limits) (s : System U A) (first rest : List (Act U A)) :
    s.run? limits (first ++ rest) = (s.run? limits first).bind (System.run? limits · rest) := by
  induction first generalizing s with
  | nil => rfl
  | cons act first ih =>
    simp only [List.cons_append, run?]
    cases s.step? limits act with
    | none => rfl
    | some next => exact ih next

theorem run?_cut {acts : List (Act U A)} {last : System U A} {i : Nat}
    (ran : s.run? limits acts = some last) (here : acts[i]? = some act) :
    ∃ before after, s.run? limits (acts.take i) = some before ∧
      before.step? limits act = some after ∧ after.run? limits (acts.drop (i + 1)) = some last := by
  obtain ⟨inside, rfl⟩ := List.getElem?_eq_some_iff.mp here
  rw [← List.take_append_drop i acts, run?_append, List.drop_eq_getElem_cons inside] at ran
  obtain ⟨before, reached, ran⟩ := Option.bind_eq_some_iff.mp ran
  simp only [run?] at ran
  split at ran
  · cases ran
  · rename_i after stepped
    exact ⟨before, after, reached, stepped, ran⟩

theorem run?_history {acts : List (Act U A)} {last : System U A}
    (ran : s.run? limits acts = some last) :
    ∃ entries, entries.length = acts.length ∧ last.history = s.history ++ entries := by
  induction acts generalizing s with
  | nil =>
    cases ran
    exact ⟨[], rfl, (List.append_nil _).symm⟩
  | cons act rest ih =>
    simp only [run?] at ran
    split at ran
    · cases ran
    · rename_i next stepped
      obtain ⟨entries, length, grown⟩ := ih ran
      obtain ⟨happening, first, _⟩ := step?_entry stepped
      refine ⟨happening :: entries, by simp [length], ?_⟩
      rw [grown, first, List.append_assoc]
      rfl

/-- The act at moment `i` of a run from the start takes the system to `after`. -/
def Passes (limits : Limits) (acts : List (Act U A)) (i : Nat) (before after : System U A) : Prop :=
  System.run? limits {} (acts.take i) = some before ∧
    ∃ act, acts[i]? = some act ∧ before.step? limits act = some after

theorem Passes.step {acts : List (Act U A)} {i : Nat} (passes : Passes limits acts i s after) :
    ∃ act, s.step? limits act = some after := by
  obtain ⟨_, act, _, stepped⟩ := passes
  exact ⟨act, stepped⟩

theorem Passes.entry {acts : List (Act U A)} {last : System U A} {i : Nat}
    {happening : Happening U A} (ran : System.run? limits {} acts = some last)
    (passes : Passes limits acts i s after) (grown : after.history = s.history ++ [happening]) :
    last.history[i]? = some happening := by
  obtain ⟨reached, act, here, stepped⟩ := passes
  obtain ⟨before, after', reached', stepped', rest⟩ := run?_cut ran here
  cases reached.symm.trans reached'
  cases stepped.symm.trans stepped'
  obtain ⟨entries, length, first⟩ := run?_history reached
  obtain ⟨later, _, whole⟩ := run?_history rest
  have moment : s.history.length = i := by
    rw [first, List.length_append, length, List.length_take]
    exact (Nat.zero_add _).trans (Nat.min_eq_left (Nat.le_of_lt (List.getElem?_eq_some_iff.mp here).1))
  rw [whole, grown, ← moment]
  simp

theorem passes_of_entry {acts : List (Act U A)} {last : System U A} {i : Nat}
    {happening : Happening U A} (ran : System.run? limits {} acts = some last)
    (entry : last.history[i]? = some happening) :
    ∃ before after, Passes limits acts i before after ∧
      after.history = before.history ++ [happening] := by
  obtain ⟨entries, length, whole⟩ := run?_history ran
  have inside : i < acts.length := by
    rw [← length]
    have short := (List.getElem?_eq_some_iff.mp entry).1
    simpa [whole] using short
  obtain ⟨before, after, reached, stepped, rest⟩ :=
    run?_cut ran (List.getElem?_eq_some_iff.mpr ⟨inside, rfl⟩)
  have passes : Passes limits acts i before after :=
    ⟨reached, _, List.getElem?_eq_some_iff.mpr ⟨inside, rfl⟩, stepped⟩
  obtain ⟨made, grown, _⟩ := step?_entry stepped
  cases entry.symm.trans (passes.entry ran grown)
  exact ⟨before, after, passes, grown⟩

def Changes (limits : Limits) (acts : List (Act U A)) (k i : Nat) (r next : Reconciler U A) : Prop :=
  ∃ before after, Passes limits acts i before after ∧
    before.reconcilers[k]? = some r ∧ after.reconcilers[k]? = some next

section Entries

variable {acts : List (Act U A)} {last : System U A} {i : Nat} {happening : Happening U A}
  {r next : Reconciler U A}

theorem changes_of_entry (ran : System.run? limits {} acts = some last)
    (entry : last.history[i]? = some happening) (own : happening.reconciler? = some k) :
    ∃ r next now history p q move, Changes limits acts k i r next ∧
      r.Conduct now history k p move next q happening := by
  obtain ⟨before, after, passes, grown⟩ := passes_of_entry ran entry
  obtain ⟨_, stepped⟩ := passes.step
  obtain ⟨made, grown', meets⟩ := step?_meets stepped k
  cases System.entry_eq grown made grown'
  cases meets with
  | @own r move step _ found conduct =>
    have inside := (List.getElem?_eq_some_iff.mp found).1
    exact ⟨r, step.reconciler, _, _, _, _, move,
      ⟨before, _, passes, found, List.getElem?_set_self inside⟩, conduct⟩
  | spawned => cases own
  | aside _ other => exact absurd own other

theorem Changes.entry (ran : System.run? limits {} acts = some last)
    (changes : Changes limits acts k i r next) :
    next = r ∨ ∃ happening now history p q move, last.history[i]? = some happening ∧
      r.Conduct now history k p move next q happening := by
  obtain ⟨before, after, passes, found, found'⟩ := changes
  obtain ⟨_, stepped⟩ := passes.step
  obtain ⟨happening, grown, meets⟩ := step?_meets stepped k
  cases meets with
  | own here conduct =>
    cases found.symm.trans here
    have inside := (List.getElem?_eq_some_iff.mp here).1
    cases (List.getElem?_set_self inside).symm.trans found'
    exact Or.inr ⟨happening, _, _, _, _, _, passes.entry ran grown, conduct⟩
  | spawned unspawned => cases found.symm.trans unspawned
  | aside same =>
    rw [same] at found'
    exact Or.inl (Option.some.inj (found'.symm.trans found))

end Entries

end System

/-- What a run knows of reconciler `k`: the time, and that nothing was told of it before it
was spawned. -/
structure System.Knows (s : System U A) (k : Nat) (motive : List (Happening U A) →
    Reconciler U A → Prop) : Prop where
  timer : s.timer = ticked s.history
  unknown : s.reconcilers[k]? = none → ∀ happening ∈ s.history, happening.reconciler? ≠ some k
  known : ∀ r, s.reconcilers[k]? = some r → motive s.history r

section Run

variable {k : Nat} {motive : List (Happening U A) → Reconciler U A → Prop}
  (spawned : ∀ history settings, (∀ happening ∈ history, happening.reconciler? ≠ some k) →
    motive (history ++ [.spawned k]) (Reconciler.spawn settings limits.horizon))
  (moved : ∀ history p q r move after happening, motive history r →
    r.Conduct (ticked history) history k p move after q happening →
    motive (history ++ [happening]) after)
  (aside : ∀ history r happening, motive history r → happening.reconciler? ≠ some k →
    motive (history ++ [happening]) r)

include spawned moved aside

theorem System.Knows.step {s after : System U A} {act : Act U A} (knows : s.Knows k motive)
    (stepped : s.step? limits act = some after) : after.Knows k motive := by
  obtain ⟨happening, grown, meets⟩ := System.step?_meets stepped k
  obtain ⟨entry, told, _, later⟩ := System.step?_entry stepped
  cases System.entry_eq grown entry told
  have timer : after.timer = ticked after.history := by
    rw [later, grown, ticked_concat, knows.timer]
  cases meets with
  | @own r move step _ found conduct =>
    refine ⟨timer, fun none => ?_, fun r' found' => ?_⟩
    · have inside := (List.getElem?_eq_some_iff.mp found).1
      simp [System.record, inside] at none
    · rcases getElem?_set_cases found found' with ⟨_, rfl⟩ | ⟨apart, _⟩
      · exact moved _ _ _ _ _ _ _ (knows.known r found) (knows.timer ▸ conduct)
      · exact absurd rfl apart
  | spawned unspawned made =>
    refine ⟨timer, fun none => ?_, fun r' found' => ?_⟩
    · rw [made] at none
      cases none
    · rw [made] at found'
      cases found'
      rw [grown]
      exact spawned _ _ (knows.unknown unspawned)
  | aside same other =>
    refine ⟨timer, fun none => ?_, fun r' found' => ?_⟩
    · rw [grown]
      rw [same] at none
      intro entry member
      rcases mem_grown.mp member with before | rfl
      · exact knows.unknown none entry before
      · exact other
    · rw [grown]
      exact aside _ _ _ (knows.known r' (same ▸ found')) other

/-- What holds of a reconciler when it is spawned, and is kept by its own moves and by
whatever others do, holds of it at the end of every run. -/
theorem System.known_of_run {s : System U A} {acts : List (Act U A)}
    (ran : System.run? limits {} acts = some s) : s.Knows k motive := by
  have reaches : Reaches limits (fun _ => True) {} s :=
    Reaches.refl.of_run? (fun _ _ => trivial) ran
  clear ran
  induction reaches with
  | refl =>
    refine ⟨rfl, fun _ _ member => absurd member List.not_mem_nil, fun r found => ?_⟩
    cases List.getElem?_nil.symm.trans found
  | next _ _ stepped knows => exact knows.step spawned moved aside stepped

end Run

end FreshTree
