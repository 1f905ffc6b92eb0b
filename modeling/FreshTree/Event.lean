/-!
The notable steps of the protocol, and counters for them. Every event is
counted, whether or not anybody observes it.
-/

namespace FreshTree

inductive Event where
  | cacheHit
  | cacheMiss
  | waitEntered
  | waitTimedOut
  /-- A completion arrived for a cycle that is over. -/
  | staleDiscarded
  | treeInstalled
  | foregroundParse
  | detachedParse
  | parseFailed
  | cancelled
deriving DecidableEq, Inhabited

namespace Event

def all : List Event :=
  [.cacheHit, .cacheMiss, .waitEntered, .waitTimedOut, .staleDiscarded, .treeInstalled,
    .foregroundParse, .detachedParse, .parseFailed, .cancelled]

def name : Event → String
  | .cacheHit => "cache_hit"
  | .cacheMiss => "cache_miss"
  | .waitEntered => "wait_entered"
  | .waitTimedOut => "wait_timed_out"
  | .staleDiscarded => "stale_reconcile_discarded"
  | .treeInstalled => "tree_installed"
  | .foregroundParse => "foreground_parse"
  | .detachedParse => "detached_parse"
  | .parseFailed => "parse_failed"
  | .cancelled => "cancelled"

def ofName? (text : String) : Option Event := all.find? fun event => event.name == text

theorem ofName?_name (event : Event) : ofName? event.name = some event := by
  cases event <;> decide

end Event

/-- One counter per kind of event. Counters wrap at 2^64. -/
structure Tally where
  cacheHits : UInt64 := 0
  cacheMisses : UInt64 := 0
  waitsEntered : UInt64 := 0
  waitTimeouts : UInt64 := 0
  staleDiscards : UInt64 := 0
  treesInstalled : UInt64 := 0
  foregroundParses : UInt64 := 0
  detachedParses : UInt64 := 0
  parseFailures : UInt64 := 0
  cancellations : UInt64 := 0
deriving DecidableEq, Inhabited

namespace Tally

def count (tally : Tally) : Event → UInt64
  | .cacheHit => tally.cacheHits
  | .cacheMiss => tally.cacheMisses
  | .waitEntered => tally.waitsEntered
  | .waitTimedOut => tally.waitTimeouts
  | .staleDiscarded => tally.staleDiscards
  | .treeInstalled => tally.treesInstalled
  | .foregroundParse => tally.foregroundParses
  | .detachedParse => tally.detachedParses
  | .parseFailed => tally.parseFailures
  | .cancelled => tally.cancellations

def record (tally : Tally) : Event → Tally
  | .cacheHit => { tally with cacheHits := tally.cacheHits + 1 }
  | .cacheMiss => { tally with cacheMisses := tally.cacheMisses + 1 }
  | .waitEntered => { tally with waitsEntered := tally.waitsEntered + 1 }
  | .waitTimedOut => { tally with waitTimeouts := tally.waitTimeouts + 1 }
  | .staleDiscarded => { tally with staleDiscards := tally.staleDiscards + 1 }
  | .treeInstalled => { tally with treesInstalled := tally.treesInstalled + 1 }
  | .foregroundParse => { tally with foregroundParses := tally.foregroundParses + 1 }
  | .detachedParse => { tally with detachedParses := tally.detachedParses + 1 }
  | .parseFailed => { tally with parseFailures := tally.parseFailures + 1 }
  | .cancelled => { tally with cancellations := tally.cancellations + 1 }

def ofEvents (events : List Event) : Tally := events.foldl record {}

end Tally

end FreshTree
