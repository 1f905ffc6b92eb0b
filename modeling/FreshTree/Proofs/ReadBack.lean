import FreshTree.Proofs.Tables
import FreshTree.Settings.File
import Mathlib.Data.List.Nodup

/-!
Settings as text. The text written for settings gives them back, up to the greatest word and
in any order of its lines, unless a value is out of range; then the first such field is named,
in the order in which the fields are checked and not in that of the text. A field that is left
out has its default, and a key that no settings have spoils the text whatever the values are.
-/

namespace FreshTree

namespace Settings

def value (settings : Settings) : Field → UInt64
  | .waitTimeout => settings.waitTimeoutMs
  | .cancelPoll => settings.cancelPollMs

def keys : List String := [Field.waitTimeout.key, Field.cancelPoll.key]

def table (settings : Settings) (fields : List Field) : Table :=
  fields.map fun field => (field.key, settings.value field)

def text (settings : Settings) (fields : List Field) : String := (settings.table fields).write

def keeping (settings : Settings) (fields : List Field) : Settings :=
  let fallback : Settings := {}
  { waitTimeoutMs :=
      if .waitTimeout ∈ fields then settings.waitTimeoutMs else fallback.waitTimeoutMs
    cancelPollMs :=
      if .cancelPoll ∈ fields then settings.cancelPollMs else fallback.cancelPollMs }

def judged (settings : Settings) : Except ReadError Settings :=
  match settings.validate with
  | .ok () => .ok settings
  | .error fault => .error (.invalid fault)

/-- The answer to settings that a text gives: themselves if no value is zero, and else the
first field that is, the timeout before the slice. -/
structure Received (settings : Settings) (answer : Except ReadError Settings) : Prop where
  inRange : settings.waitTimeoutMs ≠ 0 → settings.cancelPollMs ≠ 0 → answer = .ok settings
  noTimeout : settings.waitTimeoutMs = 0 → answer = .error (.invalid ⟨.waitTimeout⟩)
  noPoll : settings.waitTimeoutMs ≠ 0 → settings.cancelPollMs = 0 →
    answer = .error (.invalid ⟨.cancelPoll⟩)

theorem judged_received (settings : Settings) : Received settings settings.judged := by
  constructor
  · intro timeout poll
    have fine := validate_eq_ok_iff.mpr ⟨timeout, poll⟩
    rw [judged, fine]
  · intro timeout
    simp [judged, validate, firstZero, timeout]
  · intro timeout poll
    simp [judged, validate, firstZero, timeout, poll]

theorem key_injective : Function.Injective Field.key := by
  intro field other same
  cases field <;> cases other <;> first | rfl | exact absurd same (by decide)

theorem isName_key (field : Field) : Table.isName field.key = true := by
  cases field <;> rfl

theorem table_isName (settings : Settings) (fields : List Field) :
    ∀ e ∈ settings.table fields, Table.isName e.1 = true := by
  intro e member
  obtain ⟨field, _, rfl⟩ := List.mem_map.mp member
  exact isName_key field

theorem table_fits (settings : Settings) (fields : List Field) :
    Table.fits keys (settings.table fields) = true ↔ fields.Nodup := by
  have known : ∀ e ∈ settings.table fields, e.1 ∈ keys := by
    intro e member
    obtain ⟨field, _, rfl⟩ := List.mem_map.mp member
    cases field <;> simp [keys]
  have names : (settings.table fields).map Prod.fst = fields.map Field.key := by
    simp [table, Function.comp_def]
  simp only [Table.fits, Bool.and_eq_true, List.all_eq_true, List.contains_iff_mem,
    decide_eq_true_eq, names, List.nodup_map_iff key_injective]
  exact ⟨And.right, fun apart => ⟨known, apart⟩⟩

theorem lookup_table (settings : Settings) (fields : List Field) (field : Field) :
    (settings.table fields).lookup field.key =
      if field ∈ fields then some (settings.value field) else none := by
  induction fields with
  | nil => rfl
  | cons first rest ih =>
    by_cases same : field = first
    · subst same
      simp [table]
    · have other : (field.key == first.key) = false :=
        beq_eq_false_iff_ne.mpr fun equal => same (key_injective equal)
      simp only [table, List.map_cons, List.lookup_cons, other] at ih ⊢
      rw [ih]
      simp [same]

theorem ofTable_table (settings : Settings) (fields : List Field) :
    ofTable (settings.table fields) = settings.keeping fields := by
  simp only [ofTable, keeping, lookup_table, value]
  split <;> split <;> rfl

theorem read_of_table {text : String} {table : Table} (found : Table.read? keys text = some table) :
    read text = (ofTable table).judged := by
  unfold keys at found
  rw [read, found]
  rfl

theorem read_malformed {text : String} (nothing : Table.read? keys text = none) :
    read text = .error .malformed := by
  unfold keys at nothing
  rw [read, nothing]

theorem text_all (settings : Settings) :
    settings.text [.waitTimeout, .cancelPoll] = settings.write := rfl

theorem read_text (settings : Settings) {fields : List Field} (apart : fields.Nodup) :
    read (settings.text fields) = (settings.keeping fields).judged := by
  have back : Table.read? keys (settings.text fields) = _ :=
    Table.read?_write (settings.table_isName fields)
  rw [if_pos ((settings.table_fits fields).mpr apart)] at back
  rw [read_of_table back, ofTable_table]

theorem read_text_repeated (settings : Settings) {fields : List Field} (twice : ¬ fields.Nodup) :
    read (settings.text fields) = .error .malformed := by
  have back : Table.read? keys (settings.text fields) = _ :=
    Table.read?_write (settings.table_isName fields)
  rw [if_neg fun fit => twice ((settings.table_fits fields).mp fit)] at back
  exact read_malformed back

theorem read_append (settings : Settings) (fields : List Field) {line rest : String}
    (isLine : Table.IsLine line.toList) (foreign : Table.IsForeign keys line.toList)
    (ends : Table.EndsLine rest.toList) :
    read (settings.text fields ++ line ++ rest) = .error .malformed :=
  read_malformed (Table.read?_write_append (settings.table_isName fields) isLine foreign ends)

theorem keeping_all (settings : Settings) {fields : List Field}
    (all : ∀ field, field ∈ fields) : settings.keeping fields = settings := by
  simp [keeping, all]

end Settings

namespace ReconcilerSettings

theorem isName_debounceKey : Settings.Table.isName debounceKey = true := rfl

theorem table_isName (settings : ReconcilerSettings) :
    ∀ e ∈ [(debounceKey, settings.debounceMs)], Settings.Table.isName e.1 = true := by
  intro e member
  cases List.mem_singleton.mp member
  exact isName_debounceKey

theorem read?_write_self (settings : ReconcilerSettings) :
    read? settings.write = some settings := by
  have back : Settings.Table.read? [debounceKey] settings.write = _ :=
    Settings.Table.read?_write settings.table_isName
  have fit : Settings.Table.fits [debounceKey] [(debounceKey, settings.debounceMs)] = true := by
    simp [Settings.Table.fits]
  rw [fit, if_pos rfl] at back
  simp [read?, back]

end ReconcilerSettings

/-- Settings are read back from their text in either order of its lines, unless a value is
zero, which the answer then names. A line that is left out stands for its default, and one
that is repeated makes the text malformed. So does a line of any other key, zeros or not,
wherever it stands: after some lines (`fields`) and before whatever comes then (`rest`). The
settings of a reconciler are read back all the same, and have no value out of range. -/
theorem settings_read_back (given : Settings) :
    given.text [.waitTimeout, .cancelPoll] = given.write ∧
    (∀ fields : List Settings.Field, fields.Perm [.waitTimeout, .cancelPoll] →
      Settings.Received given (Settings.read (given.text fields))) ∧
    (∀ fields : List Settings.Field,
      (fields.Nodup →
        Settings.read (given.text fields) = Settings.read (given.keeping fields).write) ∧
      (¬ fields.Nodup → Settings.read (given.text fields) = .error .malformed)) ∧
    (∀ (known : List String) (line name value : List Char),
      Settings.Table.key (line.dropWhile Settings.Table.isBlank) = some (name, value) →
      String.ofList name ∉ known → Settings.Table.IsForeign known line) ∧
    (∀ (fields : List Settings.Field) (line rest : String),
      Settings.Table.IsLine line.toList → Settings.Table.IsForeign Settings.keys line.toList →
      Settings.Table.EndsLine rest.toList →
      Settings.read (given.text fields ++ line ++ rest) = .error .malformed) ∧
    ReconcilerSettings.read? "" = some {} ∧
    ∀ background : ReconcilerSettings,
      ReconcilerSettings.read? background.write = some background ∧
      ∀ line rest : String, Settings.Table.IsLine line.toList →
        Settings.Table.IsForeign [ReconcilerSettings.debounceKey] line.toList →
        Settings.Table.EndsLine rest.toList →
        ReconcilerSettings.read? (background.write ++ line ++ rest) = none := by
  have whole : [Settings.Field.waitTimeout, .cancelPoll].Nodup := by decide
  have every : ∀ field, field ∈ [Settings.Field.waitTimeout, .cancelPoll] := by
    intro field
    cases field <;> simp
  refine ⟨given.text_all, fun fields order => ?_, fun fields => ⟨fun apart => ?_, ?_⟩,
    fun known line name value => Settings.Table.isForeign_of_key, fun fields line rest => ?_, rfl,
    fun background => ⟨background.read?_write_self, fun line rest isLine foreign ends => ?_⟩⟩
  · have kept := given.keeping_all fun field => order.mem_iff.mpr (every field)
    rw [given.read_text (order.nodup_iff.mpr whole), kept]
    exact given.judged_received
  · have kept := (given.keeping fields).keeping_all every
    rw [given.read_text apart, ← (given.keeping fields).text_all,
      (given.keeping fields).read_text whole, kept]
  · exact given.read_text_repeated
  · exact given.read_append fields
  · have nothing : Settings.Table.read? [ReconcilerSettings.debounceKey]
        (background.write ++ line ++ rest) = none :=
      Settings.Table.read?_write_append background.table_isName isLine foreign ends
    rw [ReconcilerSettings.read?, nothing]
    rfl

/-- The greatest word is read back and a zero is named, in any order. A further key hides
the zeros around it, also if its value goes over several lines. -/
theorem settings_read_back_extremes :
    Settings.read "cancel_poll_ms = 18446744073709551615\nwait_timeout_ms = 0\n" =
        .error (.invalid ⟨.waitTimeout⟩) ∧
      Settings.read "wait_timeout_ms = 18446744073709551615\n" = .ok ⟨18446744073709551615, 50⟩ ∧
      Settings.read "wait_timeout_ms = 0\nretries = [0,\n 1]\ncancel_poll_ms = 0\n" =
        .error .malformed ∧
      ReconcilerSettings.read? "debounce_ms = 0\nretries = 3" = none := by
  obtain ⟨_, zero, _⟩ := settings_read_back ⟨0, 18446744073709551615⟩
  obtain ⟨_, _, short, _⟩ := settings_read_back ⟨18446744073709551615, 0⟩
  obtain ⟨_, full, _⟩ := settings_read_back ⟨18446744073709551615, 50⟩
  obtain ⟨_, _, _, others, further, _, background⟩ := settings_read_back ⟨0, 0⟩
  have first : Settings.Table.IsLine "retries = [0,".toList := by
    constructor <;> decide
  have second : Settings.Table.IsLine "retries = 3".toList := by
    constructor <;> decide
  refine ⟨(zero [.cancelPoll, .waitTimeout] (by decide)).noTimeout rfl, ?_, ?_, ?_⟩
  · refine ((short [.waitTimeout]).1 (by decide)).trans ?_
    exact (full [.waitTimeout, .cancelPoll] (by decide)).inRange (by decide) (by decide)
  · refine further [.waitTimeout] "retries = [0," "\n 1]\ncancel_poll_ms = 0\n" first ?_ ?_
    · exact others _ _ ['r', 'e', 't', 'r', 'i', 'e', 's'] _ rfl (by decide)
    · exact Or.inr (Or.inl (by decide))
  · refine (background ⟨0⟩).2 "retries = 3" "" second ?_ (Or.inl rfl)
    exact others _ _ ['r', 'e', 't', 'r', 'i', 'e', 's'] _ rfl (by decide)

end FreshTree
