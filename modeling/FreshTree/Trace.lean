import FreshTree.Cycles
import FreshTree.Event
import FreshTree.Failure
import FreshTree.Settings
import FreshTree.Tree

/-!
What the provider and the reconciler tell about themselves. An event is counted
and shown to an observer; a trace line is for people. Both are values here, so
that a step is a function and its notes are part of its result, in the order in
which they are given out.
-/

namespace FreshTree

inductive Trace (U : Type) where
  | settingsRefused (fault : Settings.Fault)
  | activeChanged (previous active : Option U) (evicted : Bool) (abandoned : Option Generation)
  | activeAfterDispose (unit : Option U)
  | cycleBegun (unit : U) (generation : Generation)
  | cycleAfterDispose (unit : U)
  | completionInstalled (unit : U) (generation : Generation)
  | completionStale (unit : U) (generation : Generation)
  | completionDropped (unit : U) (generation : Generation) (completion : Completion)
  | disposed
  | requestRetried (unit : U) (policy : Policy)
  | requestHit (unit : U) (policy : Policy) (origin : Origin)
  | requestIdle (unit : U)
  | requestWaits (unit : U) (generation : Generation)
  | parsingDetached (unit : U)
  | parsingForeground (unit : U)
  | foregroundInstalled (unit : U)
  /-- A cycle came between a foreground parse and its cache slot. -/
  | foregroundSuperseded (unit : U)
  | requestTimedOut (unit : U) (timeoutMs : UInt64)
  | requestParseFailed (unit : U) (policy : Policy) (reason : String)
  | requestCancelled (unit : U) (policy : Policy)
  | requestUnavailable (unit : U) (policy : Policy) (why : Unavailable)
  | reconcilerSpawned
  | editQueued (unit : U) (generation : Generation) (debounceMs : UInt64)
  | parseStarted (unit : U) (generation : Generation) (seq : UInt64)
  | parseSuperseded (unit : U) (seq : UInt64)
  | parseDropped (unit : U) (seq : UInt64)
  | parseOutdated (unit : U) (generation : Generation) (seq : UInt64)
  | parseFailed (unit : U) (generation : Generation) (why : ParseFailure)
  | reconcilerClosed
  | joinFailed

inductive Note (U : Type) where
  | event (event : Event)
  | trace (trace : Trace U)

def Note.events {U : Type} (notes : List (Note U)) : List Event :=
  notes.filterMap fun note =>
    match note with
    | .event told => some told
    | .trace _ => none

end FreshTree
