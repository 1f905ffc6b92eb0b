import FreshTree.Proofs.Lifetime

/-!
One call that notes an edit, from its begin to its return. The begin takes effect before
the command is sent, and until then others may end the cycle that it opened or joined,
stop the worker, or take the runtime away from it. Nobody else begins a cycle meanwhile,
because the call holds the lock on the count of edits; so if nobody takes the command,
the call has only its own cycle to end, and leaves none open.
-/

namespace FreshTree

variable {U A : Type}

def Happening.queued? (k : Nat) : Happening U A → Option (Edit U)
  | .accepted other edit => if other = k then some edit else none
  | _ => none

def queuedEdits (history : List (Happening U A)) (k : Nat) : List (Edit U) :=
  history.filterMap (Happening.queued? k)

theorem queuedEdits_concat (history : List (Happening U A)) (happening : Happening U A) (k : Nat) :
    queuedEdits (history ++ [happening]) k =
      queuedEdits history k ++ (happening.queued? k).toList := by
  unfold queuedEdits
  rw [List.filterMap_append]
  cases queued : happening.queued? k <;> simp [queued]

theorem Happening.queued?_eq_none {k : Nat} {happening : Happening U A}
    (other : happening.reconciler? ≠ some k) : happening.queued? k = none := by
  cases happening with
  | accepted i edit =>
    refine if_neg fun same => other ?_
    rw [same]
    rfl
  | _ => rfl

/-- The act leaves cycles to the reconcilers, and is not the second half of a call that
notes an edit on reconciler `k`. -/
def Act.Spares (k : Nat) (act : Act U A) : Prop :=
  act.IsInternal ∧ ∀ i, act = .reconciler i .send → i ≠ k

namespace Provider

variable {p middle after : Provider U A}

theorem OpensNone.trans (early : p.OpensNone middle) (late : middle.OpensNone after) :
    p.OpensNone after where
  generation := late.generation.trans early.generation
  running := fun unit busy => early.running unit (late.running unit busy)
  disposed := by
    intro gone
    rcases late.disposed gone with before | idle
    · refine (early.disposed before).imp_right fun idle => ?_
      cases busy : after.cycles.running with
      | none => rfl
      | some unit =>
        have held := late.running unit busy
        rw [idle] at held
        cases held
    · exact Or.inr idle

variable [DecidableEq U]

theorem begin_generation (service : p.disposed = false) (unit : U) :
    (p.begin unit).provider.disposed = false ∧
      (p.begin unit).provider.cycles.running = some unit ∧
      (p.begin unit).provider.generation = (p.cycles.begin unit).generation ∧
      ((p.begin unit).provider.generation = p.generation ∨
        (p.begin unit).provider.generation = p.generation.next) := by
  rcases p.begin_cases unit with ⟨gone, _⟩ | ⟨_, _, begun⟩
  · rw [service] at gone
    cases gone
  · rw [begun, generation, invalidate_disposed, invalidate_cycles]
    refine ⟨service, p.cycles.begin_running unit, rfl, ?_⟩
    rw [p.cycles.begin_generation]
    split
    · exact Or.inl rfl
    · exact Or.inr rfl

theorem OpensNone.complete {unit : U} (opens : p.OpensNone after)
    (busy : p.cycles.running = some unit) (service : p.disposed = false) (id : TreeId) :
    (after.complete id none unit p.generation).provider.cycles.running = none := by
  cases running : after.cycles.running with
  | none =>
    rw [complete_idle running]
    exact running
  | some other =>
    have same := opens.running other running
    rw [busy] at same
    cases same
    have alive : after.disposed = false := by
      cases gone : after.disposed with
      | false => rfl
      | true =>
        rcases opens.disposed gone with before | idle
        · rw [service] at before
          cases before
        · rw [running] at idle
          cases idle
    rw [← opens.generation]
    exact complete_ends alive running id none

end Provider

variable [DecidableEq U] {limits : Limits}

/-! The two halves. -/

namespace Reconciler

variable {p : Provider U A} {r : Reconciler U A}

theorem beginNote_cases (unit : U) (p : Provider U A) (r : Reconciler U A) :
    p.disposed = true ∧ (beginNote unit p r).2 = .error .disposed ∧
        (beginNote unit p r).1.provider = p ∧
        (beginNote unit p r).1.reconciler = { r with noted := r.noted + 1 } ∨
      p.disposed = false ∧
        (beginNote unit p r).2 = .ok ⟨unit, (p.begin unit).provider.generation, r.noted + 1⟩ ∧
        (beginNote unit p r).1.provider = (p.begin unit).provider ∧
        (beginNote unit p r).1.reconciler =
          { r with
            noted := r.noted + 1
            noting := some ⟨unit, (p.begin unit).provider.generation, r.noted + 1⟩ } := by
  rcases p.begin_cases unit with ⟨gone, reply, same⟩ | ⟨service, reply, _⟩
  · simp only [beginNote, reply, same]
    exact Or.inl ⟨gone, trivial, trivial, trivial⟩
  · simp only [beginNote, reply, (Provider.begin_generation service unit).2.2.1]
    exact Or.inr ⟨service, trivial, trivial, trivial⟩

theorem sendNote_cases (id : TreeId) (p : Provider U A) (r : Reconciler U A) (edit : Edit U) :
    r.accepts = true ∧ (sendNote id p r edit).2 = .ok edit.generation ∧
        (sendNote id p r edit).1.provider = p ∧
        (sendNote id p r edit).1.reconciler =
          { r with noting := none, commands := r.commands ++ [.edit edit] } ∨
      r.accepts = false ∧ (sendNote id p r edit).2 = .error .closed ∧
        (sendNote id p r edit).1.provider =
          (p.complete id none edit.unit edit.generation).provider ∧
        (sendNote id p r edit).1.reconciler = { r with noting := none } := by
  cases accepting : r.accepts with
  | true =>
    left
    simp [sendNote, accepting]
  | false =>
    right
    simp [sendNote, accepting, forsake]

end Reconciler

namespace Reconciler

variable {history : List (Happening U A)} {k : Nat} {now : Instant} {p : Provider U A}
  {r : Reconciler U A} {edit : Edit U}

theorem move?_returned {move : Move U A} {step : Step U A} {happening : Happening U A}
    (moved : r.move? now history k p move = some (step, happening))
    (ends : happening = .accepted k edit ∨ happening = .rejected k edit) : move = .send := by
  cases move with
  | send => rfl
  | note unit =>
    simp only [move?] at moved
    split at moved
    · cases moved
    · have entered := congrArg Prod.snd (Option.some.inj moved)
      dsimp only at entered
      split at entered <;> (subst entered; rcases ends with same | same <;> cases same)
  | flush | stop | kill =>
    cases moved
    rcases ends with same | same <;> cases same
  | call seq | finish seq ending =>
    simp only [move?] at moved
    split at moved
    · cases moved
      rcases ends with same | same <;> cases same
    · cases moved
  | turn =>
    simp only [move?] at moved
    split at moved
    · cases moved
    · rename_i action _
      cases moved
      cases action <;> rcases ends with same | same <;> cases same

theorem move?_midway {move : Move U A} {step : Step U A} {happening : Happening U A}
    (noting : r.noting = some edit) (other : move ≠ .send)
    (moved : r.move? now history k p move = some (step, happening)) :
    step.reconciler.noting = some edit ∧ happening.queued? k = none := by
  have open_ : ∀ edit, happening ≠ .accepted k edit ∧ happening ≠ .rejected k edit :=
    fun edit => ⟨fun same => other (move?_returned moved (Or.inl same)),
      fun same => other (move?_returned moved (Or.inr same))⟩
  have conduct := move?_conduct moved
  generalize step.reconciler = after at conduct ⊢
  generalize step.provider = q at conduct
  cases conduct with
  | noted free | refused free | judged _ _ free | outdated _ _ free =>
    rw [noting] at free
    cases free
  | accepted => exact absurd rfl (open_ _).1
  | rejected => exact absurd rfl (open_ _).2
  | _ => exact ⟨noting, rfl⟩

end Reconciler

namespace System

variable {s begun last after : System U A} {k : Nat} {unit : U} {edit : Edit U}
  {r : Reconciler U A}

/-- A call that notes an edit on reconciler `k` began at `s`, and others have acted since. -/
structure Midway (limits : Limits) (k : Nat) (unit : U) (edit : Edit U)
    (s begun last : System U A) : Prop where
  begins : s.step? limits (.reconciler k (.note unit)) = some begun
  replied : ∃ r, s.reconcilers[k]? = some r ∧
    (Reconciler.beginNote unit s.provider r).2 = .ok edit
  meanwhile : Reaches limits (Act.Spares k) begun last

/-- A call that notes an edit of `unit` on reconciler `k`, from `s` to `after`. It left
`begun` behind when it had begun, and found `last` before its last step. -/
inductive Notes (limits : Limits) (k : Nat) (unit : U) (s : System U A) :
    System U A → System U A → System U A → Except ReconcilerFailure Generation → Prop where
  | refused {begun : System U A} {r : Reconciler U A} {why : ReconcilerFailure} :
      s.step? limits (.reconciler k (.note unit)) = some begun → s.reconcilers[k]? = some r →
      (Reconciler.beginNote unit s.provider r).2 = .error why →
      Notes limits k unit s begun s begun (.error why)
  | sent {begun last after : System U A} {edit : Edit U} {r : Reconciler U A} :
      s.Midway limits k unit edit begun last → last.reconcilers[k]? = some r →
      last.step? limits (.reconciler k .send) = some after →
      Notes limits k unit s begun last after
        (Reconciler.sendNote last.history.length last.provider r edit).2

theorem step?_note (found : s.reconcilers[k]? = some r) (free : r.noting = none)
    (newest : k + 1 = s.reconcilers.length) (limits : Limits) (unit : U) :
    s.step? limits (.reconciler k (.note unit)) =
      some ({ s with
          provider := (Reconciler.beginNote unit s.provider r).1.provider
          reconcilers := s.reconcilers.set k (Reconciler.beginNote unit s.provider r).1.reconciler
        }.record
        (match (Reconciler.beginNote unit s.provider r).2 with
          | .ok edit => .noted k edit
          | .error _ => .refused k unit)
        (Reconciler.beginNote unit s.provider r).1.notes) := by
  have moved : r.move? s.timer s.history k s.provider (.note unit) =
      some ((Reconciler.beginNote unit s.provider r).1,
        match (Reconciler.beginNote unit s.provider r).2 with
          | .ok edit => .noted k edit
          | .error _ => .refused k unit) := if_neg (by simp [free])
  simp [step?, moveReconciler?, found, newest, moved]

theorem free_of_note (found : s.reconcilers[k]? = some r)
    (begins : s.step? limits (.reconciler k (.note unit)) = some begun) :
    r.noting = none ∧ k + 1 = s.reconcilers.length := by
  obtain ⟨r', step, happening, found', mine, moved, _⟩ := moveReconciler?_some begins
  cases found.symm.trans found'
  refine ⟨?_, mine rfl⟩
  simp only [Reconciler.move?] at moved
  split at moved
  · cases moved
  · rename_i free
    simpa using free

theorem step?_send (found : s.reconcilers[k]? = some r) (noting : r.noting = some edit)
    (limits : Limits) :
    s.step? limits (.reconciler k .send) =
      some ({ s with
          provider := (Reconciler.sendNote s.history.length s.provider r edit).1.provider
          reconcilers := s.reconcilers.set k
            (Reconciler.sendNote s.history.length s.provider r edit).1.reconciler }.record
        (match (Reconciler.sendNote s.history.length s.provider r edit).2 with
          | .ok _ => .accepted k edit
          | .error _ => .rejected k edit)
        (Reconciler.sendNote s.history.length s.provider r edit).1.notes) := by
  have moved : r.move? s.timer s.history k s.provider .send =
      some ((Reconciler.sendNote s.history.length s.provider r edit).1,
        match (Reconciler.sendNote s.history.length s.provider r edit).2 with
          | .ok _ => .accepted k edit
          | .error _ => .rejected k edit) := by
    simp only [Reconciler.move?]
    split
    · rename_i free
      cases noting.symm.trans free
    · rename_i other midway
      cases noting.symm.trans midway
      rfl
  simp [step?, moveReconciler?, found, Reconciler.Move.isOnHandle, moved]

/-! What others do between the two. -/

structure Holds (k : Nat) (edit : Edit U) (begun last : System U A) : Prop where
  mine : ∃ r, last.reconcilers[k]? = some r ∧ r.noting = some edit
  newest : k + 1 = last.reconcilers.length
  opens : begun.provider.OpensNone last.provider
  queued : queuedEdits last.history k = queuedEdits begun.history k

theorem Holds.unnoted {i : Nat} {move : Reconciler.Move U A} {step : Reconciler.Step U A}
    {happening : Happening U A} {other : Reconciler U A} (holds : Holds k edit begun s)
    (found : s.reconcilers[i]? = some other)
    (newest : move.isOnHandle = true → i + 1 = s.reconcilers.length)
    (moved : other.move? s.timer s.history i s.provider move = some (step, happening))
    (noted : Edit U) : happening ≠ .noted i noted := by
  rintro rfl
  have last := newest (Reconciler.move?_noted moved)
  obtain ⟨r, mine, noting⟩ := holds.mine
  have same : i = k := by have := holds.newest; omega
  subst same
  cases mine.symm.trans found
  have conduct := Reconciler.move?_conduct moved
  generalize step.reconciler = next at conduct
  generalize step.provider = q at conduct
  cases conduct with
  | noted free =>
    rw [noting] at free
    cases free

theorem Holds.opensNone (holds : Holds k edit begun s) (change : s.Change limits after) :
    s.provider.OpensNone after.provider := by
  cases change with
  | outside opens => exact opens
  | asked | spawned => exact .refl _
  | request _ effect => exact effect.opensNone
  | moved found newest moved =>
    exact (Reconciler.move?_effect moved).opensNone (holds.unnoted found newest moved)

theorem Holds.keeps {act : Act U A} (holds : Holds k edit begun s) (spares : act.Spares k)
    (stepped : s.step? limits act = some after) :
    (∃ r, after.reconcilers[k]? = some r ∧ r.noting = some edit) ∧
      after.reconcilers.length = s.reconcilers.length ∧
      queuedEdits after.history k = queuedEdits s.history k := by
  obtain ⟨r, found, noting⟩ := holds.mine
  have quiet : ∀ happening : Happening U A, happening.queued? k = none →
      queuedEdits (s.history ++ [happening]) k = queuedEdits s.history k := by
    intro happening none
    simp [queuedEdits_concat, none]
  cases act with
  | begin | deliver => cases spares.1
  | pass | tick | setActive | dispose | ask =>
    cases stepped
    exact ⟨⟨r, found, noting⟩, rfl, quiet _ rfl⟩
  | request i move =>
    obtain ⟨_, _, _, _, _, _, rfl⟩ := moveRequest?_moved stepped
    exact ⟨⟨r, found, noting⟩, rfl, quiet _ (by cases move <;> rfl)⟩
  | spawn settings =>
    simp only [step?] at stepped
    split at stepped
    · rename_i dropped
      -- A call in the middle keeps its handle, so nobody can spawn.
      have free := List.all_eq_true.mp dropped r (List.mem_of_getElem? found)
      simp [noting] at free
    · cases stepped
  | reconciler i move =>
    obtain ⟨r', step, happening, found', _, moved, rfl⟩ := moveReconciler?_some stepped
    by_cases mine : i = k
    · subst mine
      cases found.symm.trans found'
      have inside := (List.getElem?_eq_some_iff.mp found).1
      obtain ⟨keeps, none⟩ := Reconciler.move?_midway noting (fun send => spares.2 i (by rw [send]) rfl) moved
      exact ⟨⟨step.reconciler, List.getElem?_set_self inside, keeps⟩, List.length_set, quiet _ none⟩
    · refine ⟨⟨r, ?_, noting⟩, List.length_set, quiet _ (Happening.queued?_eq_none ?_)⟩
      · exact (List.getElem?_set_ne mine).trans found
      · rw [(Reconciler.move?_conduct moved).reconciler]
        exact fun same => mine (Option.some.inj same)

theorem Holds.step {act : Act U A} (holds : Holds k edit begun s) (spares : act.Spares k)
    (stepped : s.step? limits act = some after) : Holds k edit begun after := by
  obtain ⟨mine, count, queued⟩ := holds.keeps spares stepped
  exact ⟨mine, holds.newest.trans count.symm,
    holds.opens.trans (holds.opensNone (step?_change spares.1 stepped)), queued.trans holds.queued⟩

theorem Holds.reaches (start : Holds k edit begun begun)
    (meanwhile : Reaches limits (Act.Spares k) begun last) : Holds k edit begun last := by
  induction meanwhile with
  | refl => exact start
  | next _ spares stepped holds => exact holds.step spares stepped

theorem Midway.holds (midway : s.Midway limits k unit edit begun last)
    (found : s.reconcilers[k]? = some r) :
    s.provider.disposed = false ∧
      edit = ⟨unit, (s.provider.begin unit).provider.generation, r.noted + 1⟩ ∧
      begun.provider = (s.provider.begin unit).provider ∧
      queuedEdits begun.history k = queuedEdits s.history k ∧ Holds k edit begun last := by
  obtain ⟨r', found', replied⟩ := midway.replied
  cases found.symm.trans found'
  obtain ⟨free, newest⟩ := free_of_note found midway.begins
  have inside := (List.getElem?_eq_some_iff.mp found).1
  have begins := step?_note found free newest limits unit
  rcases Reconciler.beginNote_cases unit s.provider r with ⟨_, reply, _⟩ | ⟨service, reply, p, after⟩
  · rw [reply] at replied
    cases replied
  rw [reply] at replied
  cases replied
  rw [reply, p, after, midway.begins] at begins
  have same := Option.some.inj begins
  have start : Holds k ⟨unit, (s.provider.begin unit).provider.generation, r.noted + 1⟩ begun
      begun := by
    refine ⟨⟨{ r with noted := r.noted + 1, noting := some _ }, ?_, rfl⟩, ?_, .refl _, rfl⟩
    · rw [same]
      exact List.getElem?_set_self inside
    · rw [same]
      exact newest.trans List.length_set.symm
  refine ⟨service, rfl, by rw [same]; rfl, ?_, ?_⟩
  · rw [same]
    simp [record, queuedEdits_concat, Happening.queued?]
  · exact start.reaches midway.meanwhile

/-! How the call returns. -/

/-- The three ways a call can end that notes an edit of `unit` on `r`, at whose begin the
provider is `s.provider`. -/
inductive Ends (k : Nat) (unit : U) (r : Reconciler U A) (s begun last after : System U A) :
    Except ReconcilerFailure Generation → Prop where
  | disposed :
      s.provider.disposed = true → last = s → after.provider = s.provider →
      after.reconcilers[k]? = some { r with noted := r.noted + 1 } →
      queuedEdits after.history k = queuedEdits s.history k →
      Ends k unit r s begun last after (.error .disposed)
  | queued {worker : Reconciler U A} :
      s.provider.disposed = false → begun.provider = (s.provider.begin unit).provider →
      begun.provider.OpensNone after.provider →
      last.reconcilers[k]? = some worker → worker.accepts = true →
      after.reconcilers[k]? =
        some { worker with
          noting := none
          commands := worker.commands ++
            [.edit ⟨unit, begun.provider.generation, r.noted + 1⟩] } →
      queuedEdits after.history k =
        queuedEdits s.history k ++ [⟨unit, begun.provider.generation, r.noted + 1⟩] →
      Ends k unit r s begun last after (.ok begun.provider.generation)
  | closed {worker : Reconciler U A} :
      s.provider.disposed = false → begun.provider = (s.provider.begin unit).provider →
      begun.provider.OpensNone after.provider → after.provider.cycles.running = none →
      last.reconcilers[k]? = some worker → worker.accepts = false →
      after.reconcilers[k]? = some { worker with noting := none } →
      queuedEdits after.history k = queuedEdits s.history k →
      Ends k unit r s begun last after (.error .closed)

theorem refused_ends {why : ReconcilerFailure} (found : s.reconcilers[k]? = some r)
    (begins : s.step? limits (.reconciler k (.note unit)) = some begun)
    (replied : (Reconciler.beginNote unit s.provider r).2 = .error why) :
    Ends k unit r s begun s begun (.error why) := by
  have inside := (List.getElem?_eq_some_iff.mp found).1
  obtain ⟨free, newest⟩ := free_of_note found begins
  rw [step?_note found free newest limits unit] at begins
  rcases Reconciler.beginNote_cases unit s.provider r with ⟨gone, reply, p, left⟩ | ⟨_, reply, _⟩
  · rw [reply] at replied
    cases replied
    rw [reply, p, left] at begins
    have same := (Option.some.inj begins).symm
    refine .disposed gone rfl (by rw [same]; rfl) ?_ ?_
    · rw [same]
      exact List.getElem?_set_self inside
    · rw [same]
      simp [record, queuedEdits_concat, Happening.queued?]
  · rw [reply] at replied
    cases replied

theorem Midway.ends {worker : Reconciler U A} (midway : s.Midway limits k unit edit begun last)
    (found : s.reconcilers[k]? = some r) (mine : last.reconcilers[k]? = some worker)
    (sends : last.step? limits (.reconciler k .send) = some after) :
    Ends k unit r s begun last after
      (Reconciler.sendNote last.history.length last.provider worker edit).2 := by
  have inside := (List.getElem?_eq_some_iff.mp mine).1
  obtain ⟨service, same, begins, queued, holds⟩ := midway.holds found
  obtain ⟨worker', mine', noting⟩ := holds.mine
  cases mine.symm.trans mine'
  obtain ⟨alive, busy, _⟩ := Provider.begin_generation service unit
  rw [← begins] at alive busy same
  subst same
  have before := holds.queued.trans queued
  have opens := holds.opens
  rw [step?_send mine noting limits] at sends
  -- Whether the worker takes commands is asked when the call sends, not when it began.
  rcases Reconciler.sendNote_cases last.history.length last.provider worker
    ⟨unit, begun.provider.generation, r.noted + 1⟩ with
    ⟨accepting, reply, p, left⟩ | ⟨gone, reply, p, left⟩
  · rw [reply, p, left] at sends
    have same := (Option.some.inj sends).symm
    rw [reply]
    refine .queued service begins (by rw [same]; exact opens) mine accepting ?_ ?_
    · rw [same]
      exact List.getElem?_set_self inside
    · rw [same]
      simp [record, queuedEdits_concat, Happening.queued?, before]
  · rw [reply, p, left] at sends
    have same := (Option.some.inj sends).symm
    rw [reply]
    refine .closed service begins ?_ ?_ mine gone ?_ ?_
    · rw [same]
      exact opens.trans (Provider.complete_opensNone _ _ _ _ _)
    · rw [same]
      exact opens.complete busy alive _
    · rw [same]
      exact List.getElem?_set_self inside
    · rw [same]
      simp [record, queuedEdits_concat, Happening.queued?, before]

theorem Notes.ends {reply : Except ReconcilerFailure Generation}
    (call : s.Notes limits k unit begun last after reply) (found : s.reconcilers[k]? = some r) :
    Ends k unit r s begun last after reply := by
  cases call with
  | refused begins found' replied =>
    cases found.symm.trans found'
    exact refused_ends found begins replied
  | sent midway mine sends => exact midway.ends found mine sends

end System

/-- A call that notes an edit of `unit` hands its cycle over or closes it, whatever the
provider and the reconciler are up to and whatever others do meanwhile. It can begin
whenever the handle is free, and end whenever it has begun. It is refused exactly if the
provider was disposed when it began, and then changes nothing there. It finds the worker
gone exactly if it could begin and nobody takes commands when it sends, and then no cycle
is open when it returns. It succeeds with a generation exactly if that is the one of the
cycle that was open for the unit once it had begun, and the one command queued by then is
that of an edit of this cycle with the next stamp. The generation grows by one at most. -/
theorem noting_hands_over_or_closes {k : Nat} {unit : U} {s : System U A} {r : Reconciler U A}
    (found : s.reconcilers[k]? = some r) :
    (k + 1 = s.reconcilers.length → r.noting = none →
      ∃ begun, s.step? limits (.reconciler k (.note unit)) = some begun) ∧
    (∀ edit begun last, s.Midway limits k unit edit begun last →
      ∃ after, last.step? limits (.reconciler k .send) = some after) ∧
    ∀ begun last after reply, s.Notes limits k unit begun last after reply →
      (reply = .error .disposed ↔ s.provider.disposed = true) ∧
      (reply = .error .disposed → after.provider = s.provider) ∧
      (reply = .error .closed ↔ s.provider.disposed = false ∧
        ∃ worker, last.reconcilers[k]? = some worker ∧ worker.accepts = false) ∧
      (reply = .error .closed → after.provider.cycles.running = none) ∧
      (∀ generation, reply = .ok generation ↔
        begun.provider.cycles.running = some unit ∧ begun.provider.generation = generation ∧
        queuedEdits after.history k =
          queuedEdits s.history k ++ [⟨unit, generation, r.noted + 1⟩]) ∧
      (∀ why, reply = .error why → queuedEdits after.history k = queuedEdits s.history k) ∧
      (∀ worker, last.reconcilers[k]? = some worker → ∃ left, after.reconcilers[k]? = some left ∧
        left.commands = worker.commands ++
          match reply with
          | .ok generation => [.edit ⟨unit, generation, r.noted + 1⟩]
          | .error _ => []) ∧
      (after.provider.generation = s.provider.generation ∨
        after.provider.generation = s.provider.generation.next) := by
  refine ⟨fun newest free => ⟨_, System.step?_note found free newest limits unit⟩,
    fun edit begun last midway => ?_, fun begun last after reply call => ?_⟩
  · obtain ⟨_, _, _, _, holds⟩ := midway.holds found
    obtain ⟨worker, mine, noting⟩ := holds.mine
    exact ⟨_, System.step?_send mine noting limits⟩
  -- Every clause about the reply goes by the way the call ended.
  cases call.ends found with
  | disposed gone same p left queued =>
    subst same
    refine ⟨by simp [gone], fun _ => p, by simp [gone], nofun, fun generation => ⟨nofun, ?_⟩,
      fun _ _ => queued, fun worker mine => ⟨_, left, ?_⟩, Or.inl (by rw [p])⟩
    · rintro ⟨_, _, more⟩
      simp [queued] at more
    · cases found.symm.trans mine
      simp
  | queued service begins opens mine accepting left queued =>
    obtain ⟨_, busy, _, near⟩ := Provider.begin_generation service unit
    rw [← begins] at busy near
    refine ⟨by simp [service], nofun, by simp [mine, accepting], nofun, fun generation => ⟨?_, ?_⟩,
      nofun, fun worker mine' => ⟨_, left, ?_⟩, ?_⟩
    · intro same
      cases same
      exact ⟨busy, rfl, queued⟩
    · rintro ⟨_, same, _⟩
      rw [same]
    · cases mine.symm.trans mine'
      rfl
    · rw [opens.generation]
      exact near
  | closed service begins opens idle mine gone left queued =>
    obtain ⟨_, _, _, near⟩ := Provider.begin_generation service unit
    rw [← begins] at near
    refine ⟨by simp [service], nofun, by simp [service, mine, gone], fun _ => idle,
      fun generation => ⟨nofun, ?_⟩, fun _ _ => queued, fun worker mine' => ⟨_, left, ?_⟩, ?_⟩
    · rintro ⟨_, _, more⟩
      simp [queued] at more
    · cases mine.symm.trans mine'
      simp
    · rw [opens.generation]
      exact near

/-- An edit of unit 7, after which the runtime is gone and its cycle stays open. -/
def orphaningRun : List (Act Nat Nat) :=
  [.spawn {}, .reconciler 0 (.note 7), .reconciler 0 .send, .reconciler 0 .kill]

def orphaned : System Nat Nat := (System.run? ⟨{}, 1000⟩ {} orphaningRun).get rfl

def joined : System Nat Nat := (orphaned.step? ⟨{}, 1000⟩ (.reconciler 0 (.note 7))).get rfl

def askingRun : List (Act Nat Nat) :=
  [.setActive (some 7), .ask 7 .waitForCurrent, .request 0 (.look false)]

def asked : System Nat Nat := (joined.run? ⟨{}, 1000⟩ askingRun).get rfl

theorem noting_hands_over_or_closes_orphaned :
    ∃ after : System Nat Nat, System.run? ⟨{}, 1000⟩ {} orphaningRun = some orphaned ∧
      orphaned.provider.cycles.running = some 7 ∧
      orphaned.Notes ⟨{}, 1000⟩ 0 7 joined asked after (.error .closed) ∧
      asked.provider.cycles.running = some 7 ∧ after.provider.cycles.running = none ∧
      queuedEdits after.history 0 = [⟨7, ⟨1⟩, 1⟩] := by
  have spares : ∀ act ∈ askingRun, act.Spares 0 := by simp [askingRun, Act.Spares, Act.IsInternal]
  have meanwhile : Reaches ⟨{}, 1000⟩ (Act.Spares 0) joined asked := Reaches.refl.of_run? spares rfl
  have midway : orphaned.Midway ⟨{}, 1000⟩ 0 7 ⟨7, ⟨1⟩, 2⟩ joined asked :=
    ⟨rfl, ⟨_, rfl, rfl⟩, meanwhile⟩
  have call : orphaned.Notes ⟨{}, 1000⟩ 0 7 joined asked
      ((asked.step? ⟨{}, 1000⟩ (.reconciler 0 .send)).get rfl) (.error .closed) :=
    .sent midway rfl rfl
  have found : orphaned.reconcilers[0]? = some (orphaned.reconcilers.get ⟨0, by decide⟩) := rfl
  obtain ⟨_, _, _, idle, _, queued, _⟩ := (noting_hands_over_or_closes found).2.2 _ _ _ _ call
  exact ⟨_, rfl, rfl, call, rfl, idle rfl, queued _ rfl⟩

end FreshTree
