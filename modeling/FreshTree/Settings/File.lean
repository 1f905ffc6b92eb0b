import FreshTree.Settings
import FreshTree.Settings.Table

/-!
Settings as text. Reading takes the default of every field that the text leaves
out. A text that is no table of the known keys is malformed, whatever its
values; only a table can have values out of range.
-/

namespace FreshTree

namespace Settings

inductive ReadError where
  | malformed
  | invalid (fault : Fault)
deriving DecidableEq

def ofTable (table : Table) : Settings :=
  let fallback : Settings := {}
  { waitTimeoutMs := (table.lookup Field.waitTimeout.key).getD fallback.waitTimeoutMs
    cancelPollMs := (table.lookup Field.cancelPoll.key).getD fallback.cancelPollMs }

def read (text : String) : Except ReadError Settings :=
  match Table.read? [Field.waitTimeout.key, Field.cancelPoll.key] text with
  | none => .error .malformed
  | some table =>
    let settings := ofTable table
    match settings.validate with
    | .ok () => .ok settings
    | .error fault => .error (.invalid fault)

def toTable (settings : Settings) : Table :=
  [(Field.waitTimeout.key, settings.waitTimeoutMs), (Field.cancelPoll.key, settings.cancelPollMs)]

def write (settings : Settings) : String := settings.toTable.write

end Settings

namespace ReconcilerSettings

/-- Reads the settings of a reconciler, or `none` if the text is malformed. Every
quiet period is in range. -/
def read? (text : String) : Option ReconcilerSettings :=
  (Settings.Table.read? [debounceKey] text).map fun table =>
    let fallback : ReconcilerSettings := {}
    { debounceMs := (table.lookup debounceKey).getD fallback.debounceMs }

def write (settings : ReconcilerSettings) : String :=
  Settings.Table.write [(debounceKey, settings.debounceMs)]

end ReconcilerSettings

end FreshTree
