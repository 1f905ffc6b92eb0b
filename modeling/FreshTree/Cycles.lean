import FreshTree.Generation

/-!
Reconciliation cycles. At most one cycle is open, for one unit. Opening a cycle
for another unit ends it, and so does abandoning it; in both cases its own
completion no longer matches when it arrives, and is told apart from the one
that counts by unit and generation.
-/

namespace FreshTree

/-- The cycle bookkeeping of one provider: an open cycle is one of some unit. -/
structure Cycles (U : Type) where
  /-- The unit of the latest cycle opened, unless that was abandoned. -/
  unit : Option U
  busy : Bool
  generation : Generation
  named : busy = true → unit.isSome = true
deriving DecidableEq

namespace Cycles

variable {U : Type} {cycles : Cycles U} {unit : U} {generation : Generation}

def initial : Cycles U :=
  { unit := none, busy := false, generation := .initial, named := fun busy => by cases busy }

def running (cycles : Cycles U) : Option U := if cycles.busy then cycles.unit else none

def close (cycles : Cycles U) : Cycles U :=
  { cycles with busy := false, named := fun busy => by cases busy }

def isQuietSince (cycles : Cycles U) (generation : Generation) : Bool :=
  !cycles.busy && cycles.generation = generation

/-- Closes the open cycle without a result. The generation stays, so the
completion of that cycle matches nothing until a new cycle is opened, and then
carries an older number. -/
def abandon (cycles : Cycles U) : Cycles U :=
  { cycles with unit := none, busy := false, named := fun busy => by cases busy }

def openGeneration? (cycles : Cycles U) : Option Generation :=
  if cycles.busy then some cycles.generation else none

theorem running_eq_some_iff :
    cycles.running = some unit ↔ cycles.busy = true ∧ cycles.unit = some unit := by
  simp [running]

theorem running_of_busy (busy : cycles.busy = true) : ∃ unit, cycles.running = some unit := by
  obtain ⟨unit, named⟩ := Option.isSome_iff_exists.mp (cycles.named busy)
  exact ⟨unit, running_eq_some_iff.mpr ⟨busy, named⟩⟩

theorem running_eq_none_iff : cycles.running = none ↔ cycles.busy = false := by
  constructor
  · intro idle
    refine Bool.eq_false_iff.mpr fun busy => ?_
    obtain ⟨unit, runs⟩ := running_of_busy busy
    rw [idle] at runs
    cases runs
  · intro idle
    simp [running, idle]

theorem isQuietSince_iff :
    cycles.isQuietSince generation = true ↔
      cycles.running = none ∧ cycles.generation = generation := by
  simp [isQuietSince, running_eq_none_iff]

@[simp] theorem initial_running : (initial : Cycles U).running = none := rfl

@[simp] theorem initial_generation : (initial : Cycles U).generation = .initial := rfl

@[simp] theorem close_running (cycles : Cycles U) : cycles.close.running = none :=
  running_eq_none_iff.mpr rfl

@[simp] theorem abandon_running (cycles : Cycles U) : cycles.abandon.running = none :=
  running_eq_none_iff.mpr rfl

variable [DecidableEq U]

def isBusy (cycles : Cycles U) (unit : U) : Bool := cycles.busy && cycles.unit = some unit

def isBusyElsewhere (cycles : Cycles U) (active : Option U) : Bool :=
  cycles.busy && cycles.unit ≠ active

/-- Joins the cycle that is open for `unit`, or opens a new one. -/
def begin (cycles : Cycles U) (unit : U) : Cycles U :=
  if cycles.isBusy unit then cycles
  else
    { unit := some unit, busy := true, generation := cycles.generation.next, named := fun _ => rfl }

def finish? (cycles : Cycles U) (unit : U) (generation : Generation) : Option (Cycles U) :=
  if cycles.busy && cycles.generation = generation && cycles.unit = some unit then
    some cycles.close
  else none

theorem isBusy_iff : cycles.isBusy unit = true ↔ cycles.running = some unit := by
  simp [isBusy, running_eq_some_iff]

theorem isBusyElsewhere_iff {active : Option U} :
    cycles.isBusyElsewhere active = true ↔
      ∃ unit, cycles.running = some unit ∧ active ≠ some unit := by
  constructor
  · intro elsewhere
    simp only [isBusyElsewhere, Bool.and_eq_true, decide_eq_true_eq] at elsewhere
    obtain ⟨unit, runs⟩ := running_of_busy elsewhere.1
    refine ⟨unit, runs, ?_⟩
    rw [← (running_eq_some_iff.mp runs).2]
    exact elsewhere.2.symm
  · rintro ⟨unit, runs, other⟩
    obtain ⟨busy, named⟩ := running_eq_some_iff.mp runs
    simp [isBusyElsewhere, busy, named, other.symm]

theorem begin_of_running (joined : cycles.running = some unit) : cycles.begin unit = cycles :=
  if_pos (isBusy_iff.mpr joined)

theorem begin_running (cycles : Cycles U) (unit : U) :
    (cycles.begin unit).running = some unit := by
  by_cases joined : cycles.running = some unit
  · rw [begin_of_running joined, joined]
  · rw [begin, if_neg (by rwa [isBusy_iff])]
    rfl

theorem begin_generation (cycles : Cycles U) (unit : U) :
    (cycles.begin unit).generation =
      if cycles.running = some unit then cycles.generation else cycles.generation.next := by
  by_cases joined : cycles.running = some unit
  · rw [begin_of_running joined, if_pos joined]
  · rw [begin, if_neg (by rwa [isBusy_iff]), if_neg joined]

theorem finish?_eq (cycles : Cycles U) (unit : U) (generation : Generation) :
    cycles.finish? unit generation =
      if cycles.running = some unit ∧ cycles.generation = generation then some cycles.close
      else none := by
  simp [finish?, running_eq_some_iff, and_right_comm]

end Cycles

inductive Completion where
  | installed
  | empty
  | inactive
  | stale
  | disposed
deriving DecidableEq

def Completion.text : Completion → String
  | .installed => "Installed"
  | .empty => "Empty"
  | .inactive => "Inactive"
  | .stale => "Stale"
  | .disposed => "Disposed"

end FreshTree
