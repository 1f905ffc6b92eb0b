import FreshTree.Proofs.Steps

/-!
Who tells that a result was discarded as stale. No request does, and a reconciler
in its loop does so only when its worker hands over a result of a cycle that is
not open.
-/

namespace FreshTree

variable {U A : Type}

/-- How many results these notes tell as discarded. -/
def Note.stale (notes : List (Note U)) : Nat := (Note.events notes).count .staleDiscarded

theorem Note.stale_append (notes more : List (Note U)) :
    Note.stale (notes ++ more) = Note.stale notes + Note.stale more := by
  simp [Note.stale, Note.events, List.filterMap_append]

def Provider.IsOpen (p : Provider U A) (unit : U) (generation : Generation) : Prop :=
  p.cycles.running = some unit ∧ p.generation = generation

variable [DecidableEq U]

/-! What is told of discarded results. -/

namespace Provider

theorem complete_stale_le (p : Provider U A) (id : TreeId) (ast : Option A) (unit : U)
    (generation : Generation) : Note.stale (p.complete id ast unit generation).notes ≤ 1 := by
  simp only [complete]
  split
  · exact Nat.zero_le 1
  · exact Nat.le_refl 1
  · exact Nat.zero_le 1

theorem complete_stale_open {p : Provider U A} {unit : U} {generation : Generation}
    (isOpen : p.IsOpen unit generation) (id : TreeId) (ast : Option A) :
    Note.stale (p.complete id ast unit generation).notes = 0 := by
  have received : (p.receive id ast unit generation).2 ≠ .stale := by
    unfold receive
    split
    · rintro ⟨⟩
    · have busy := isOpen.1
      have current : p.cycles.generation = generation := isOpen.2
      simp only [Cycles.finish?_eq, busy, current, and_self, if_true]
      split
      · rintro ⟨⟩
      · cases ast <;> rintro ⟨⟩
  simp only [complete]
  split
  · rfl
  · exact absurd (by assumption) received
  · rfl

theorem setActive_stale (p : Provider U A) (unit : Option U) :
    Note.stale (p.setActive unit).notes = 0 := by
  unfold setActive
  split
  · rfl
  split <;> rfl

theorem begin_stale (p : Provider U A) (unit : U) : Note.stale (p.begin unit).notes = 0 := by
  unfold begin
  split <;> rfl

end Provider

namespace Request

variable {limits : Limits} {now : Instant} {p q : Provider U A} {r next : Request U A}

omit [DecidableEq U] in
theorem regrets_stale (why : Unavailable) : Note.stale (r.regrets limits why) = 0 := by
  cases why <;> rfl

omit [DecidableEq U] in
theorem await_stale (generation : Generation) : Note.stale (r.await limits now generation).2 = 0 := by
  unfold await
  split
  · rfl
  split <;> rfl

theorem miss_stale : Note.stale (r.miss limits now p).2 = 0 := by
  unfold miss
  split
  · rfl
  · dsimp only
    split <;> rfl
  · split
    · exact await_stale _
    · rfl

theorem decide_stale : Note.stale (r.decide limits now p).2 = 0 := by
  unfold decide
  split
  · split <;> rfl
  · split
    · rfl
    · exact miss_stale

theorem validate_stale (cancelled : Bool) : Note.stale (r.validate limits now cancelled p).2 = 0 := by
  unfold validate
  split
  · rfl
  split
  · rfl
  · rw [Note.stale_append, decide_stale]
    unfold notice
    split <;> rfl

omit [DecidableEq U] in
theorem parsed_stale (id : TreeId) (cancelled : Bool) (result : Except ParseFailure A) :
    Note.stale (r.parsed limits id cancelled result).2 = 0 := by
  unfold parsed
  split
  · split
    · exact regrets_stale _
    · split
      · rfl
      · split <;> rfl
  · rfl

theorem install_stale (cancelled : Bool) : Note.stale (r.install limits cancelled p).2.2 = 0 := by
  unfold install
  split
  · split
    · rfl
    · split <;> rfl
  · rfl

theorem move?_stale {called : Option Nat} {move : Move A} {notes : List (Note U)}
    (moved : r.move? limits now called p move = some (q, next, notes)) : Note.stale notes = 0 := by
  cases move with
  | look cancelled =>
    simp only [move?] at moved
    split at moved
    · have told : (r.validate limits now cancelled p).2 = notes :=
        congrArg (fun turn => turn.2.2) (Option.some.inj moved)
      rw [← told]
      exact validate_stale cancelled
    · cases moved
  | wake | call =>
    simp only [move?] at moved
    split at moved
    · cases moved
      rfl
    · cases moved
  | finish cancelled ending =>
    simp only [move?] at moved
    split at moved
    · have told : (r.parsed limits _ cancelled ending.result).2 = notes :=
        congrArg (fun turn => turn.2.2) (Option.some.inj moved)
      rw [← told]
      exact parsed_stale _ cancelled _
    · cases moved
  | install cancelled =>
    simp only [move?] at moved
    split at moved
    · have told : (r.install limits cancelled p).2.2 = notes :=
        congrArg (fun turn => turn.2.2) (Option.some.inj moved)
      rw [← told]
      exact install_stale cancelled
    · cases moved

end Request

namespace Reconciler

variable {history : List (Happening U A)} {k : Nat} {p : Provider U A} {r : Reconciler U A}

omit [DecidableEq U] in
theorem queue_stale (now : Instant) (edit : Edit U) : Note.stale (r.queue now edit).2 = 0 := by
  cases flying : r.inflight <;> simp [queue, supersede, flying] <;> rfl

theorem perform_stale {now : Instant} {action : Action U A} (due : r.Due now action)
    (running : r.phase = .running) (kept : ∀ taken, action = .judge taken → r.noted ≠ taken.stamp)
    (id : TreeId) : Note.stale (r.perform now id p action).notes = 0 := by
  cases due with
  | judge =>
    simp only [perform, judge, kept _ rfl, ne_eq, not_false_eq_true, if_true]
    rfl
  | leave | launch => rfl
  | receive =>
    simp only [perform, receive]
    split
    · rfl
    · split <;> rfl
  | @obey command =>
    cases command with
    | edit edit => exact queue_stale now edit
    | flush => rfl
  | drain closing | forsakeInflight closing | forsakePending closing | close closing =>
    rw [running] at closing
    cases closing

/-- A worker in its loop discards a result only by handing it over. -/
theorem move?_stale {now : Instant} {move : Move U A} {step : Step U A} {happening : Happening U A}
    (moved : r.move? now history k p move = some (step, happening)) (running : r.phase = .running)
    (kept : ∀ taken, happening = .worked k (.judge taken) → r.noted ≠ taken.stamp) :
    Note.stale step.notes = 0 := by
  cases move with
  | note unit =>
    simp only [move?] at moved
    split at moved
    · cases moved
    · cases moved
      simp only [beginNote]
      split <;> exact p.begin_stale unit
  | send =>
    simp only [move?] at moved
    split at moved
    · cases moved
    · cases moved
      simp only [sendNote, accepts, running, decide_true, if_true]
      rfl
  | flush | stop | kill =>
    cases moved
    rfl
  | call seq | finish seq =>
    simp only [move?] at moved
    split at moved
    · cases moved
      rfl
    · cases moved
  | turn =>
    simp only [move?] at moved
    split at moved
    · cases moved
    · rename_i action next
      cases moved
      apply perform_stale (nextAction?_due next) running
      rintro taken rfl
      exact kept taken rfl

end Reconciler

end FreshTree
