import FreshTree.Proofs.Lifetime
import FreshTree.Proofs.Patience
import Mathlib.Data.UInt

/-!
The slices of a wait. A provider runs on settings that validate, so every slice goes on past
the moment at which it begins, ends with the deadline at the latest, and is no longer than
the settings say. No sum that goes into it leaves the clock, and no clamp is upside down,
as long as the clock goes on for a day.
-/

namespace FreshTree

/-! The same computations with each step tried out: a sum may leave the clock, and a clamp
may have no values between its bounds. -/

def Clock.add? (horizon now : Instant) (length : Nat) : Option Instant :=
  if now + length ≤ horizon then some (now + length) else none

/-- A day ahead is computed every time, even if nobody asks for it. -/
def Clock.after? (horizon now : Instant) (length : Nat) : Option Instant :=
  (Clock.add? horizon now Clock.day).map fun far => (Clock.add? horizon now length).getD far

def clamp? (value low high : UInt64) : Option UInt64 :=
  if high < low then none
  else some (if value < low then low else if high < value then high else value)

def Settings.pollMs? (settings : Settings) : Option UInt64 :=
  clamp? settings.cancelPollMs 1 (max settings.waitTimeoutMs 1)

def Limits.deadline? (limits : Limits) (now : Instant) : Option Instant :=
  Clock.after? limits.horizon now limits.settings.waitTimeout

def Limits.sliceEnd? (limits : Limits) (now deadline : Instant) : Option Instant := do
  let pollMs ← limits.settings.pollMs?
  let next ← Clock.after? limits.horizon now (Clock.millis pollMs.toNat)
  return min deadline next

theorem Clock.lt_after {length : Nat} (horizon now : Instant) (positive : 0 < length) :
    now < after horizon now length := by
  unfold after
  split
  · exact Nat.lt_add_of_pos_right positive
  · exact Nat.lt_add_of_pos_right (by decide)

theorem Clock.after_le {horizon now : Instant} (dayFits : now + day ≤ horizon) (length : Nat) :
    after horizon now length ≤ now + length := by
  unfold after
  split
  · exact Nat.le_refl _
  · rename_i leaves
    exact Nat.le_of_lt (Nat.lt_of_le_of_lt dayFits (Nat.not_le.mp leaves))

/-- The steps go well exactly as long as the clock goes on for a day, whatever the length. -/
theorem Clock.after?_eq (horizon now : Instant) (length : Nat) :
    after? horizon now length =
      if now + day ≤ horizon then some (after horizon now length) else none := by
  unfold after? add? after
  by_cases dayFits : now + day ≤ horizon
  · by_cases fits : now + length ≤ horizon
    · simp [dayFits, fits]
    · simp [dayFits, fits]
  · simp [dayFits]

namespace Settings

theorem toNat_pollMs (settings : Settings) :
    settings.pollMs.toNat =
      max 1 (min settings.cancelPollMs.toNat (max 1 settings.waitTimeoutMs.toNat)) := by
  rw [pollMs, UInt64.toNat_max, UInt64.toNat_min, UInt64.toNat_max]
  rfl

theorem pollMs?_eq (settings : Settings) : settings.pollMs? = some settings.pollMs := by
  have top : (max settings.waitTimeoutMs 1).toNat = max settings.waitTimeoutMs.toNat 1 :=
    UInt64.toNat_max _ _
  have one : (1 : UInt64).toNat = 1 := rfl
  have upright : ¬ max settings.waitTimeoutMs 1 < 1 := by
    rw [UInt64.lt_iff_toNat_lt, top, one]
    omega
  have poll := settings.toNat_pollMs
  rw [pollMs?, clamp?, if_neg upright]
  refine congrArg some (UInt64.toNat_inj.mp ?_)
  split
  · rename_i low
    rw [UInt64.lt_iff_toNat_lt, one] at low
    omega
  · split
    · rename_i high
      rw [UInt64.lt_iff_toNat_lt, top] at high
      omega
    · rename_i low high
      rw [UInt64.lt_iff_toNat_lt, one] at low
      rw [UInt64.lt_iff_toNat_lt, top] at high
      omega

theorem one_le_poll (settings : Settings) : Clock.millis 1 ≤ settings.poll := by
  have poll := settings.toNat_pollMs
  exact Nat.mul_le_mul_right _ (by omega)

theorem poll_le_waitTimeout {settings : Settings} (timeout : settings.waitTimeoutMs ≠ 0) :
    settings.poll ≤ settings.waitTimeout := by
  have poll := settings.toNat_pollMs
  have positive : settings.waitTimeoutMs.toNat ≠ 0 := fun zero => timeout (UInt64.toNat_inj.mp zero)
  exact Nat.mul_le_mul_right _ (by omega)

theorem sanitized_validate (settings : Settings) : settings.sanitized.validate = .ok () := by
  apply validate_eq_ok_iff.mpr
  constructor
  · by_cases zero : settings.waitTimeoutMs = 0
    · simp [sanitized, zero]
    · simp [sanitized, zero]
  · by_cases zero : settings.cancelPollMs = 0
    · simp [sanitized, zero]
    · simp [sanitized, zero]

/-- Settings are replaced only if they do not validate. -/
theorem sanitized_eq_iff (settings : Settings) :
    settings.sanitized = settings ↔ settings.validate = .ok () := by
  constructor
  · intro same
    exact same ▸ settings.sanitized_validate
  · intro fine
    obtain ⟨timeout, poll⟩ := validate_eq_ok_iff.mp fine
    simp [sanitized, timeout, poll]

end Settings

/-! Slices. -/

structure Limits.IsSlice (limits : Limits) (now deadline slice : Instant) : Prop where
  goesOn : now < slice
  inTime : slice ≤ deadline
  short : slice - now ≤ limits.settings.poll
  /-- It has its full length wherever the clock and the deadline let it. -/
  full : now + limits.settings.poll ≤ limits.horizon →
    slice = min deadline (now + limits.settings.poll)
  onClock : slice ≤ limits.horizon

namespace Limits

variable {limits : Limits} {now deadline : Instant}

theorem sliceEnd_isSlice (early : now < deadline) (dayFits : now + Clock.day ≤ limits.horizon) :
    limits.IsSlice now deadline (limits.sliceEnd now deadline) where
  goesOn := by
    have length : 0 < limits.settings.poll :=
      Nat.lt_of_lt_of_le (by decide) limits.settings.one_le_poll
    exact Nat.lt_min.mpr ⟨early, Clock.lt_after limits.horizon now length⟩
  inTime := Nat.min_le_left _ _
  short := by
    have near := Clock.after_le dayFits limits.settings.poll
    exact Nat.sub_le_iff_le_add'.mpr (Nat.le_trans (Nat.min_le_right _ _) near)
  full fits := by
    rw [sliceEnd, Clock.after_of_le fits]
  onClock := Nat.le_trans (Nat.min_le_right _ _) (Clock.after_le_horizon dayFits)

theorem sliceEnd?_eq (dayFits : now + Clock.day ≤ limits.horizon) :
    limits.sliceEnd? now deadline = some (limits.sliceEnd now deadline) := by
  simp [sliceEnd?, limits.settings.pollMs?_eq, Clock.after?_eq, dayFits, sliceEnd, Settings.poll]

theorem deadline?_eq (dayFits : now + Clock.day ≤ limits.horizon) :
    limits.deadline? now = some (limits.deadline now) := by
  rw [deadline?, Clock.after?_eq, if_pos dayFits]
  rfl

end Limits

variable {U A : Type}

/-! Requests that sleep. -/

namespace Request

variable [DecidableEq U] {limits : Limits} {now : Instant} {p q : Provider U A}
  {r next : Request U A}

def DozesAt (limits : Limits) (now : Instant) (r : Request U A) : Prop :=
  ∀ slice, r.stage = .blocked slice → now < r.deadline ∧ slice = limits.sliceEnd now r.deadline

omit [DecidableEq U] in
theorem await_dozesAt (limits : Limits) (now : Instant) (generation : Generation)
    (r : Request U A) : (r.await limits now generation).1.DozesAt limits now := by
  intro slice asleep
  unfold await at asleep ⊢
  split at asleep
  · cases asleep
  · rename_i early
    split at asleep
    · rename_i told
      cases asleep
      rw [if_neg early, if_pos told]
      exact ⟨Nat.not_le.mp early, rfl⟩
    · cases asleep

omit [DecidableEq U] in
theorem answer_dozesAt (limits : Limits) (now : Instant) (r : Request U A)
    (tree : Option (Tree U A)) : (r.answer tree).DozesAt limits now := by
  intro slice asleep
  cases asleep

omit [DecidableEq U] in
theorem parsing_dozesAt (limits : Limits) (now : Instant) (r : Request U A)
    (purpose : Purpose) :
    DozesAt limits now ({ r with stage := .parsing purpose } : Request U A) := by
  intro slice asleep
  cases asleep

theorem miss_dozesAt (limits : Limits) (now : Instant) (p : Provider U A) (r : Request U A) :
    (r.miss limits now p).1.DozesAt limits now := by
  unfold miss
  split
  · exact r.answer_dozesAt limits now none
  · exact r.answer_dozesAt limits now none
  · split
    · exact await_dozesAt limits now p.generation r
    · exact r.parsing_dozesAt limits now _

theorem decide_dozesAt (limits : Limits) (now : Instant) (p : Provider U A) (r : Request U A) :
    (r.decide limits now p).1.DozesAt limits now := by
  unfold decide
  split
  · split
    · exact r.answer_dozesAt limits now none
    · exact r.parsing_dozesAt limits now _
  · split
    · exact r.answer_dozesAt limits now _
    · exact r.miss_dozesAt limits now p

theorem validate_dozesAt (limits : Limits) (now : Instant) (cancelled : Bool) (p : Provider U A)
    (r : Request U A) : (r.validate limits now cancelled p).1.DozesAt limits now := by
  unfold validate
  split
  · exact r.answer_dozesAt limits now none
  · split
    · exact r.answer_dozesAt limits now none
    · exact decide_dozesAt limits now p _

theorem move?_dozes {called : Option Nat} {move : Move A} {told : List (Note U)}
    {slice : Instant} (moved : r.move? limits now called p move = some (q, next, told))
    (asleep : next.stage = .blocked slice) :
    (∃ cancelled, move = .look cancelled) ∧ next.DozesAt limits now := by
  have course := move?_course moved
  generalize Note.events told = events at course
  cases course with
  | @looked cancelled _ _ _ _ =>
    have dozes := r.validate_dozesAt limits now cancelled p
    rw [(move?_look moved).2] at dozes
    exact ⟨⟨cancelled, rfl⟩, dozes⟩
  | called parsing =>
    rw [parsing] at asleep
    cases asleep
  | _ => cases asleep

end Request

/-- Request `i` sleeps for a slice that began with its latest entry, its look at moment `m`. -/
structure SleepsSince (limits : Limits) (history : List (Happening U A)) (i m : Nat)
    (r : Request U A) (slice : Instant) : Prop where
  looked : history[m]? = some (.looked i)
  latest : ∀ j entry, m < j → history[j]? = some entry → entry.request? ≠ some i
  early : elapsed (history.take m) < r.deadline
  begun : slice = limits.sliceEnd (elapsed (history.take m)) r.deadline

namespace SleepsSince

variable {limits : Limits} {history : List (Happening U A)} {i m : Nat} {r : Request U A}
  {slice : Instant} {happening : Happening U A}

theorem start (early : elapsed history < r.deadline)
    (begun : slice = limits.sliceEnd (elapsed history) r.deadline) :
    SleepsSince limits (history ++ [.looked i]) i history.length r slice where
  looked := entry_append.mpr (Or.inr ⟨rfl, rfl⟩)
  latest j entry later found := by
    have short := (List.getElem?_eq_some_iff.mp found).1
    simp at short
    omega
  early := by
    rw [List.take_left]
    exact early
  begun := by
    rw [List.take_left]
    exact begun

theorem keep (sleeps : SleepsSince limits history i m r slice)
    (other : happening.request? ≠ some i) :
    SleepsSince limits (history ++ [happening]) i m r slice := by
  have short : m < history.length := (List.getElem?_eq_some_iff.mp sleeps.looked).1
  have past : (history ++ [happening]).take m = history.take m :=
    List.take_append_of_le_length (Nat.le_of_lt short)
  refine ⟨entry_append.mpr (Or.inl sleeps.looked), fun j entry later found => ?_, ?_, ?_⟩
  · rcases entry_append.mp found with before | ⟨_, rfl⟩
    · exact sleeps.latest j entry later before
    · exact other
  · rw [past]
    exact sleeps.early
  · rw [past]
    exact sleeps.begun

theorem isSlice (sleeps : SleepsSince limits history i m r slice)
    (dayFits : elapsed (history.take m) + Clock.day ≤ limits.horizon) :
    limits.IsSlice (elapsed (history.take m)) r.deadline slice := by
  rw [sleeps.begun]
  exact Limits.sliceEnd_isSlice sleeps.early dayFits

variable [DecidableEq U]

theorem step {s after : System U A} {act : Act U A} (now : s.now = elapsed s.history)
    (sleeps : ∀ r slice, s.requests[i]? = some r → r.stage = .blocked slice →
      ∃ m, SleepsSince limits s.history i m r slice)
    (stepped : s.step? limits act = some after) (found : after.requests[i]? = some r)
    (asleep : r.stage = .blocked slice) :
    ∃ m, SleepsSince limits after.history i m r slice := by
  obtain ⟨happening, grown, _⟩ := System.step?_entry stepped
  rw [grown]
  cases System.sees stepped grown i with
  | own before went found' _ =>
    cases found.symm.trans found'
    obtain ⟨⟨cancelled, rfl⟩, dozes⟩ := Request.move?_dozes went asleep
    obtain ⟨early, begun⟩ := dozes slice asleep
    rw [now] at early begun
    exact ⟨_, start early begun⟩
  | others _ other same =>
    obtain ⟨m, since⟩ := sleeps r slice (same ▸ found) asleep
    exact ⟨m, since.keep other⟩
  | made _ _ found' =>
    cases found.symm.trans found'
    cases asleep

theorem of_run {acts : List (Act U A)} {s : System U A}
    (ran : System.run? limits {} acts = some s) (found : s.requests[i]? = some r)
    (asleep : r.stage = .blocked slice) : ∃ m, SleepsSince limits s.history i m r slice := by
  have reaches : Reaches limits (fun _ => True) {} s :=
    Reaches.refl.of_run? (fun _ _ => trivial) ran
  clear ran
  -- The time of day is part of the induction, for it says when a slice begins.
  suffices both : s.now = elapsed s.history ∧ ∀ r slice, s.requests[i]? = some r →
      r.stage = .blocked slice → ∃ m, SleepsSince limits s.history i m r slice from
    both.2 r slice found asleep
  clear found asleep
  induction reaches with
  | refl => exact ⟨rfl, fun r slice found => by cases List.getElem?_nil.symm.trans found⟩
  | next _ _ stepped ih =>
    obtain ⟨happening, grown, later, _⟩ := System.step?_entry stepped
    refine ⟨?_, fun r slice => step ih.1 ih.2 stepped⟩
    rw [later, grown, elapsed_concat, ih.1]

end SleepsSince

variable [DecidableEq U]

/-- A provider runs on settings that validate, which are those given if these do. A slice is
at least a millisecond and at most the timeout. Wherever the clock goes on for a day, each
step on the way to a deadline or to the end of a slice has a result, and the slice goes on,
in time and for no longer than it should. So does the slice of every request that sleeps. -/
theorem wait_slices_progress (given : Settings) (limits : Limits) (p : Provider U A)
    (notes : List (Note U)) (created : Provider.create given = (limits.settings, p, notes)) :
    limits.settings.validate = .ok () ∧
      (limits.settings = given ↔ given.validate = .ok ()) ∧
      Clock.millis 1 ≤ limits.settings.poll ∧
      limits.settings.poll ≤ limits.settings.waitTimeout ∧
      (∀ now, now + Clock.day ≤ limits.horizon →
        limits.deadline? now = some (limits.deadline now) ∧
        ∀ deadline, now < deadline → deadline ≤ limits.horizon →
          limits.sliceEnd? now deadline = some (limits.sliceEnd now deadline) ∧
            limits.IsSlice now deadline (limits.sliceEnd now deadline)) ∧
      ∀ (acts : List (Act U A)) (s : System U A) (i : Nat) (r : Request U A) (slice : Instant),
        System.run? limits {} acts = some s → s.requests[i]? = some r →
        r.stage = .blocked slice →
        ∃ m, SleepsSince limits s.history i m r slice ∧
          (elapsed (s.history.take m) + Clock.day ≤ limits.horizon →
            limits.IsSlice (elapsed (s.history.take m)) r.deadline slice) := by
  have settings : given.sanitized = limits.settings := congrArg Prod.fst created
  have valid : limits.settings.validate = .ok () := settings ▸ given.sanitized_validate
  refine ⟨valid, ?_, limits.settings.one_le_poll,
    Settings.poll_le_waitTimeout (Settings.validate_eq_ok_iff.mp valid).1,
    fun now dayFits => ⟨Limits.deadline?_eq dayFits, fun deadline early _ =>
      ⟨Limits.sliceEnd?_eq dayFits, Limits.sliceEnd_isSlice early dayFits⟩⟩,
    fun acts s i r slice ran found asleep => ?_⟩
  · rw [← settings]
    exact given.sanitized_eq_iff
  · obtain ⟨m, sleeps⟩ := SleepsSince.of_run ran found asleep
    exact ⟨m, sleeps, sleeps.isSlice⟩

def dozeRun : List (Act Nat Nat) :=
  [.setActive (some 7), .begin 7, .ask 7 .waitForCurrent, .request 0 (.look false),
    .request 0 (.look false)]

def doze : System Nat Nat := (System.run? ⟨{}, Clock.day⟩ {} dozeRun).get rfl

def longest : Settings := ⟨18446744073709551615, 18446744073709551615⟩

theorem wait_slices_progress_short :
    ∃ r m, Provider.create ⟨0, 0⟩ =
        (({} : Settings), ({} : Provider Nat Nat), [.trace (.settingsRefused ⟨.waitTimeout⟩)]) ∧
      ¬ Settings.validate ⟨0, 0⟩ = .ok () ∧
      System.run? ⟨{}, Clock.day⟩ {} dozeRun = some doze ∧ doze.requests[0]? = some r ∧
      r.stage = .blocked 50000000 ∧ elapsed (doze.history.take m) + Clock.day ≤ Clock.day ∧
      Limits.IsSlice ⟨{}, Clock.day⟩ (elapsed (doze.history.take m)) r.deadline 50000000 ∧
      Provider.create longest = (longest, ({} : Provider Nat Nat), []) ∧
      longest.validate = .ok () ∧ ¬ 0 + longest.poll ≤ Clock.day ∧
      Limits.IsSlice ⟨longest, Clock.day⟩ 0 5 5 := by
  have created : Provider.create ⟨0, 0⟩ =
    (({} : Settings), ({} : Provider Nat Nat), [.trace (.settingsRefused ⟨.waitTimeout⟩)]) := rfl
  obtain ⟨_, same, _, _, _, sleepers⟩ := wait_slices_progress ⟨0, 0⟩ ⟨{}, Clock.day⟩ {} _ created
  have ran : System.run? ⟨{}, Clock.day⟩ {} dozeRun = some doze := rfl
  have found : doze.requests[0]? = some (doze.requests.get ⟨0, by decide⟩) := rfl
  have asleep : (doze.requests.get ⟨0, by decide⟩).stage = .blocked 50000000 := by decide +kernel
  obtain ⟨m, _, slice⟩ := sleepers dozeRun doze 0 _ 50000000 ran found asleep
  -- No time passes in this run.
  have idle : elapsed (doze.history.take m) + elapsed (doze.history.drop m) = 0 := by
    rw [← elapsed_append, List.take_append_drop]
    rfl
  have fits : elapsed (doze.history.take m) + Clock.day ≤ Clock.day := by
    rw [Nat.eq_zero_of_add_eq_zero_right idle, Nat.zero_add]
  have kept : Provider.create longest = (longest, ({} : Provider Nat Nat), []) := rfl
  obtain ⟨valid, _, _, _, sums, _⟩ := wait_slices_progress longest ⟨longest, Clock.day⟩ {} [] kept
  obtain ⟨_, cut⟩ := (sums 0 (Nat.le_of_eq (Nat.zero_add _))).2 5 (by decide) (by decide)
  have whole : Limits.sliceEnd ⟨longest, Clock.day⟩ 0 5 = 5 := Nat.min_eq_left (by decide)
  rw [whole] at cut
  exact ⟨_, m, created, fun fine => absurd (same.mpr fine) (by decide), ran, found, asleep,
    fits, slice fits, kept, valid, by decide, cut⟩

end FreshTree
