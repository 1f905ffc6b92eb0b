import FreshTree.Clock

/-!
The tunables of a provider and of a background reconciler. Zero is out of range
for both times of a provider: a request that may wait no time at all, or that
wakes without pause, is a mistake and not a wish. A provider therefore never
runs on settings that do not validate; out-of-range values give way to their
defaults, each field by itself.
-/

namespace FreshTree

structure Settings where
  waitTimeoutMs : UInt64 := 30000
  /-- How often a blocked request looks at its cancellation token. -/
  cancelPollMs : UInt64 := 50
deriving DecidableEq, Inhabited

namespace Settings

inductive Field where
  | waitTimeout
  | cancelPoll
deriving DecidableEq

def Field.key : Field → String
  | .waitTimeout => "wait_timeout_ms"
  | .cancelPoll => "cancel_poll_ms"

structure Fault where
  field : Field
deriving DecidableEq

def Fault.reason (_ : Fault) : String := "must be greater than zero"

def Fault.message (fault : Fault) : String :=
  "invalid value for '" ++ fault.field.key ++ "': " ++ fault.reason

def firstZero (settings : Settings) : Option Field :=
  if settings.waitTimeoutMs = 0 then some .waitTimeout
  else if settings.cancelPollMs = 0 then some .cancelPoll
  else none

def validate (settings : Settings) : Except Fault Unit :=
  match settings.firstZero with
  | some field => .error ⟨field⟩
  | none => .ok ()

theorem validate_eq_ok_iff {settings : Settings} :
    settings.validate = .ok () ↔ settings.waitTimeoutMs ≠ 0 ∧ settings.cancelPollMs ≠ 0 := by
  unfold validate firstZero
  by_cases timeout : settings.waitTimeoutMs = 0
  · simp [timeout]
  · by_cases poll : settings.cancelPollMs = 0
    · simp [timeout, poll]
    · simp [timeout, poll]

def sanitized (settings : Settings) : Settings :=
  let fallback : Settings := {}
  { waitTimeoutMs :=
      if settings.waitTimeoutMs = 0 then fallback.waitTimeoutMs else settings.waitTimeoutMs
    cancelPollMs :=
      if settings.cancelPollMs = 0 then fallback.cancelPollMs else settings.cancelPollMs }

/-- The length of one slice of an interruptible wait, in milliseconds: at least
one, and at most the deadline of the whole wait. -/
def pollMs (settings : Settings) : UInt64 :=
  max 1 (min settings.cancelPollMs (max 1 settings.waitTimeoutMs))

def waitTimeout (settings : Settings) : Nat := Clock.millis settings.waitTimeoutMs.toNat

def poll (settings : Settings) : Nat := Clock.millis settings.pollMs.toNat

end Settings

structure Limits where
  settings : Settings
  horizon : Instant

namespace Limits

def deadline (limits : Limits) (now : Instant) : Instant :=
  Clock.after limits.horizon now limits.settings.waitTimeout

/-- When a request that blocks now looks at the provider again, at the latest. -/
def sliceEnd (limits : Limits) (now deadline : Instant) : Instant :=
  min deadline (Clock.after limits.horizon now limits.settings.poll)

end Limits

structure ReconcilerSettings where
  /-- The quiet period after the last edit before a parse starts. -/
  debounceMs : UInt64 := 100
deriving DecidableEq, Inhabited

namespace ReconcilerSettings

def debounceKey : String := "debounce_ms"

def debounce (settings : ReconcilerSettings) : Nat := Clock.millis settings.debounceMs.toNat

end ReconcilerSettings

end FreshTree
