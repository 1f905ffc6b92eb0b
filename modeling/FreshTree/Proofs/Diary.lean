import FreshTree.Proofs.Loop

/-!
The diary of one request. It is kept beside the run, from what happens there and
not from what the request remembers: what it told, the provider at its latest
look, how often the active unit changed, and the instant from which it may count
its deadline. `Diary.ofRun_holds` is the induction for whatever ties the request
to its diary.
-/

namespace FreshTree

variable {U A : Type}

structure Diary (U A : Type) where
  notes : List (Note U) := []
  sight : Option (Provider U A) := none
  shifts : Nat := 0
  /-- How often the active unit changed since the latest look. -/
  unseen : Nat := 0
  /-- When the request was made or, if later, when it last told that it starts over. -/
  since : Instant := 0

def Provider.Shifts (p q : Provider U A) : Prop :=
  q.active = p.active ∧ q.focus.changes = p.focus.changes ∨
    q.active ≠ p.active ∧ q.focus.changes = p.focus.changes + 1

variable [DecidableEq U]

def System.isAnswered (s : System U A) (i : Nat) : Bool :=
  s.requests[i]?.any fun r => r.stage.isAnswered

namespace Diary

def move (d : Diary U A) (now : Instant) (p : Provider U A) (told : List (Note U)) :
    Request.Move A → Diary U A
  | .look _ =>
    { d with
      notes := d.notes ++ told
      sight := some p
      unseen := 0
      since := if told.any Note.isRetry then now else d.since }
  | _ => { d with notes := d.notes ++ told }

omit [DecidableEq U] in
@[simp] theorem move_notes (d : Diary U A) (now : Instant) (p : Provider U A)
    (told : List (Note U)) (move : Request.Move A) :
    (d.move now p told move).notes = d.notes ++ told := by
  cases move <;> rfl

omit [DecidableEq U] in
@[simp] theorem move_shifts (d : Diary U A) (now : Instant) (p : Provider U A)
    (told : List (Note U)) (move : Request.Move A) :
    (d.move now p told move).shifts = d.shifts := by
  cases move <;> rfl

def pass (d : Diary U A) (p q : Provider U A) : Diary U A :=
  if q.active = p.active then d else { d with shifts := d.shifts + 1, unseen := d.unseen + 1 }

@[simp] theorem pass_notes (d : Diary U A) (p q : Provider U A) : (d.pass p q).notes = d.notes := by
  unfold pass
  split <;> rfl

@[simp] theorem pass_sight (d : Diary U A) (p q : Provider U A) : (d.pass p q).sight = d.sight := by
  unfold pass
  split <;> rfl

/-- The diary of request `i` after an act. It begins when the request is made, and
nothing is entered after the request was answered. -/
def follow (i : Nat) (d : Diary U A) (s : System U A) (act : Act U A) (after : System U A) :
    Diary U A :=
  let passed := if s.isAnswered i then d else d.pass s.provider after.provider
  match act with
  | .ask _ _ => if i = s.requests.length then { since := s.now } else passed
  | .request j move =>
    if j = i then d.move s.now s.provider (after.told.drop s.told.length) move else passed
  | _ => passed

def along (limits : Limits) (i : Nat) (s : System U A) (d : Diary U A) :
    List (Act U A) → Diary U A
  | [] => d
  | act :: rest =>
    match s.step? limits act with
    | none => d
    | some next => along limits i next (d.follow i s act next) rest

def ofRun (limits : Limits) (i : Nat) (acts : List (Act U A)) : Diary U A :=
  along limits i {} {} acts

end Diary

/-! What one act does to the focus. -/

omit [DecidableEq U] in
theorem Provider.Shifts.of_focus {p q : Provider U A} (same : q.focus = p.focus) : p.Shifts q :=
  Or.inl ⟨congrArg Focus.active same, congrArg Focus.changes same⟩

theorem Provider.Shifts.of_set {p q : Provider U A} {unit : Option U}
    (set : q.focus = p.focus.set unit) : p.Shifts q := by
  unfold Shifts active
  rw [set, Focus.set_active, Focus.set_changes]
  by_cases same : p.focus.active = unit
  · simp [same]
  · simp [same, Ne.symm same]

theorem Provider.invalidate_focus (p : Provider U A) (unit : U) :
    (p.invalidate unit).focus = p.focus := by
  unfold invalidate
  split <;> rfl

theorem Provider.complete_focus (p : Provider U A) (id : TreeId) (ast : Option A) (unit : U)
    (generation : Generation) : (p.complete id ast unit generation).provider.focus = p.focus := by
  change (p.receive id ast unit generation).1.focus = p.focus
  rcases p.receive_cases id ast unit generation with ⟨same, _⟩ | ⟨_, slot, closed, _⟩
  · rw [same]
  · rw [closed]

theorem Provider.Touch.shifts {p q : Provider U A} {happening : Happening U A}
    (touch : p.Touch happening q) : p.Shifts q := by
  cases touch with
  | kept => exact .of_focus rfl
  | focused unit =>
    rcases p.setActive_cases unit with ⟨same, _⟩ | ⟨_, _, changed⟩
    · rw [same]
      exact .of_focus rfl
    · rw [changed]
      exact .of_set rfl
  | disposed =>
    unfold Provider.dispose
    split
    · exact .of_focus rfl
    · exact .of_set rfl
  | begun unit => exact .of_focus (Provider.invalidate_focus _ unit)
  | completed id ast unit generation => exact .of_focus (p.complete_focus id ast unit generation)

theorem System.Turn.shifts {s after : System U A} {happening : Happening U A}
    (turn : s.Turn happening after) : s.provider.Shifts after.provider := by
  cases turn with
  | touched touch => exact touch.shifts
  | asked => exact .of_focus rfl
  | moved _ effect =>
    cases effect with
    | looked | woken | called | returned => exact .of_focus rfl
    | offered _ _ _ installed =>
      rcases installed with rfl | installed
      · exact .of_focus rfl
      · obtain ⟨_, _, _, _, rfl⟩ := Provider.installForeground?_some installed
        exact .of_focus rfl

namespace Diary

variable {limits : Limits} {i : Nat} {d : Diary U A} {s after last : System U A}

theorem follow_other {act : Act U A} (other : ∀ move, act ≠ .request i move)
    (made : i ≠ s.requests.length) :
    d.follow i s act after = if s.isAnswered i then d else d.pass s.provider after.provider := by
  cases act with
  | ask => simp [follow, made]
  | request j move =>
    have apart : j ≠ i := by
      rintro rfl
      exact other move rfl
    simp [follow, apart]
  | _ => rfl

theorem along_invariant {motive : Diary U A → System U A → Prop}
    (preserved : ∀ d s act after, motive d s → s.step? limits act = some after →
      motive (d.follow i s act after) after)
    {acts : List (Act U A)} (holds : motive d s) (ran : s.run? limits acts = some last) :
    motive (d.along limits i s acts) last := by
  -- The diary and the system go on together, from wherever they are.
  induction acts generalizing d s with
  | nil =>
    cases ran
    exact holds
  | cons act rest ih =>
    simp only [System.run?] at ran
    split at ran
    · cases ran
    · rename_i next stepped
      simp only [along, stepped]
      exact ih (preserved d s act next holds stepped) ran

theorem along_concat {acts : List (Act U A)} {act : Act U A} (ran : s.run? limits acts = some last)
    (stepped : last.step? limits act = some after) :
    d.along limits i s (acts ++ [act]) = (d.along limits i s acts).follow i last act after ∧
      s.run? limits (acts ++ [act]) = some after := by
  induction acts generalizing d s with
  | nil =>
    cases ran
    simp [along, System.run?, stepped]
  | cons first rest ih =>
    simp only [System.run?] at ran
    split at ran
    · cases ran
    · rename_i next began
      simp only [List.cons_append, along, System.run?, began]
      exact ih ran

section Induction

variable {motive : Diary U A → Provider U A → Request U A → Prop}

theorem follow_holds
    (made : ∀ now p unit policy,
      motive { since := now } p (Request.start limits now unit policy))
    (moved : ∀ d now called p r move q next notes, motive d p r →
      r.move? limits now called p move = some (q, next, notes) →
      motive (d.move now p notes move) q next)
    (passed : ∀ d p q r, r.stage.isAnswered = false → p.Shifts q → motive d p r →
      motive (d.pass p q) q r)
    (rested : ∀ d p q r, r.stage.isAnswered = true → motive d p r → motive d q r)
    {act : Act U A} (holds : ∀ r, s.requests[i]? = some r → motive d s.provider r)
    (stepped : s.step? limits act = some after) (r : Request U A)
    (found : after.requests[i]? = some r) : motive (d.follow i s act after) after.provider r := by
  obtain ⟨happening, turn⟩ := System.step?_turned stepped
  cases System.sees stepped turn.history i with
  | own before went now told =>
    cases found.symm.trans now
    simp only [follow, if_true, told, List.drop_left]
    exact moved _ _ _ _ _ _ _ _ _ (holds _ before) went
  | others other _ same =>
    rw [same] at found
    rw [follow_other other (Nat.ne_of_lt (List.getElem?_eq_some_iff.mp found).1)]
    -- The diary goes on until the request is answered.
    cases ended : r.stage.isAnswered with
    | true =>
      simp only [System.isAnswered, found, Option.any_some, ended, if_true]
      exact rested _ _ _ _ ended (holds r found)
    | false =>
      simp only [System.isAnswered, found, Option.any_some, ended, Bool.false_eq_true, if_false]
      exact passed _ _ _ _ ended turn.shifts (holds r found)
  | made new _ now =>
    cases found.symm.trans now
    simp only [follow, new, if_true]
    exact made _ _ _ _

/-- Whatever holds of a request when it is made, is kept by its own moves and not
disturbed by others, ties it to its diary after every run. -/
theorem ofRun_holds
    (made : ∀ now p unit policy,
      motive { since := now } p (Request.start limits now unit policy))
    (moved : ∀ d now called p r move q next notes, motive d p r →
      r.move? limits now called p move = some (q, next, notes) →
      motive (d.move now p notes move) q next)
    (passed : ∀ d p q r, r.stage.isAnswered = false → p.Shifts q → motive d p r →
      motive (d.pass p q) q r)
    (rested : ∀ d p q r, r.stage.isAnswered = true → motive d p r → motive d q r)
    {acts : List (Act U A)} (ran : System.run? limits {} acts = some last) {r : Request U A}
    (found : last.requests[i]? = some r) : motive (ofRun limits i acts) last.provider r := by
  refine along_invariant
    (motive := fun d s => ∀ r, s.requests[i]? = some r → motive d s.provider r) ?_ ?_ ran r found
  · intro d s act after holds stepped
    exact follow_holds made moved passed rested holds stepped
  · intro r none
    simp at none

end Induction

end Diary

end FreshTree
