import FreshTree.Text.Quoted
import FreshTree.Trace

/-!
Trace lines as text: a fixed message, a level, and named fields. Units are
shown quoted, generations in the short form except where they are optional.
-/

namespace FreshTree

inductive Level where
  | trace
  | debug
  | warn
deriving DecidableEq

def Level.name : Level → String
  | .trace => "TRACE"
  | .debug => "DEBUG"
  | .warn => "WARN"

namespace Trace

variable {U : Type}

def message : Trace U → String
  | .settingsRefused _ => "ast.cfg.invalid: using defaults for out-of-range values"
  | .activeChanged .. => "ast.active.changed"
  | .activeAfterDispose _ => "ast.active.after_dispose"
  | .cycleBegun .. => "ast.reconcile.begin"
  | .cycleAfterDispose _ => "ast.reconcile.after_dispose"
  | .completionInstalled .. => "ast.reconciled.installed"
  | .completionStale .. => "ast.reconciled.stale"
  | .completionDropped .. => "ast.reconciled.dropped"
  | .disposed => "ast.disposed"
  | .requestRetried .. => "ast.get_tree.retry"
  | .requestHit .. => "ast.get_tree.hit"
  | .requestIdle _ => "ast.get_tree.active_only.idle"
  | .requestWaits .. => "ast.get_tree.wait"
  | .parsingDetached _ => "ast.parse.detached"
  | .parsingForeground _ => "ast.parse.foreground"
  | .foregroundInstalled _ => "ast.get_tree.foreground.installed"
  | .foregroundSuperseded _ => "ast.get_tree.foreground.superseded"
  | .requestTimedOut .. => "ast.get_tree.wait_timed_out: no reconciled signal arrived"
  | .requestParseFailed .. => "ast.get_tree.parse_failed"
  | .requestCancelled .. => "ast.get_tree.cancelled"
  | .requestUnavailable .. => "ast.get_tree.unavailable"
  | .reconcilerSpawned => "reconciler.spawned"
  | .editQueued .. => "reconciler.edit.queued"
  | .parseStarted .. => "reconciler.parse.start"
  | .parseSuperseded .. => "reconciler.parse.superseded"
  | .parseDropped .. => "reconciler.parse.dropped"
  | .parseOutdated .. => "reconciler.parse.outdated"
  | .parseFailed .. => "reconciler.parse.failed"
  | .reconcilerClosed => "reconciler.closed"
  | .joinFailed => "reconciler.join_failed"

def level : Trace U → Level
  | .settingsRefused _ | .requestTimedOut .. | .joinFailed => .warn
  | .activeChanged .. | .completionStale .. | .disposed | .requestParseFailed ..
  | .reconcilerSpawned | .parseFailed .. | .reconcilerClosed => .debug
  | _ => .trace

private def fieldWord (n : UInt64) : String := toString n.toNat

private def fieldFlag (b : Bool) : String := if b then "true" else "false"

def fields (shown : U → String) : Trace U → List (String × String)
  | .settingsRefused fault => [("error", fault.message)]
  | .activeChanged previous active evicted abandoned =>
    [("previous", Text.optional shown previous), ("active", Text.optional shown active),
      ("evicted", fieldFlag evicted), ("abandoned", Text.optional Generation.long abandoned)]
  | .activeAfterDispose unit => [("unit", Text.optional shown unit)]
  | .cycleBegun unit generation | .completionInstalled unit generation
  | .completionStale unit generation | .requestWaits unit generation =>
    [("unit", shown unit), ("generation", generation.short)]
  | .completionDropped unit generation completion =>
    [("unit", shown unit), ("generation", generation.short), ("completion", completion.text)]
  | .requestRetried unit policy | .requestCancelled unit policy =>
    [("unit", shown unit), ("policy", policy.name)]
  | .requestHit unit policy origin =>
    [("unit", shown unit), ("policy", policy.name), ("origin", origin.text)]
  | .cycleAfterDispose unit | .requestIdle unit | .parsingDetached unit | .parsingForeground unit
  | .foregroundInstalled unit | .foregroundSuperseded unit => [("unit", shown unit)]
  | .requestTimedOut unit timeoutMs => [("unit", shown unit), ("timeout_ms", fieldWord timeoutMs)]
  | .requestParseFailed unit policy reason =>
    [("unit", shown unit), ("policy", policy.name), ("error", reason)]
  | .requestUnavailable unit policy why =>
    [("unit", shown unit), ("policy", policy.name), ("err", why.message)]
  | .editQueued unit generation debounceMs =>
    [("unit", shown unit), ("generation", generation.short), ("debounce_ms", fieldWord debounceMs)]
  | .parseStarted unit generation seq | .parseOutdated unit generation seq =>
    [("unit", shown unit), ("generation", generation.short), ("seq", fieldWord seq)]
  | .parseSuperseded unit seq | .parseDropped unit seq =>
    [("unit", shown unit), ("seq", fieldWord seq)]
  | .parseFailed unit generation why =>
    [("unit", shown unit), ("generation", generation.short), ("error", why.message)]
  | .disposed | .reconcilerSpawned | .reconcilerClosed | .joinFailed => []

end Trace

def Tree.text (tree : Tree String String) : String :=
  "Tree \x7b unit: " ++ Text.quoted tree.unit ++ ", origin: " ++ tree.origin.text ++
    ", ast: " ++ Text.quoted tree.ast ++ " \x7d"

end FreshTree
