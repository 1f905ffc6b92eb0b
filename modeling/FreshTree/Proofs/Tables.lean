import FreshTree.Settings.Table
import Mathlib.Data.List.Basic
import Mathlib.Data.List.TakeWhile

/-!
Tables as text. A table whose keys need no quotes is read back from its text as it was
written, if all its keys are known and no key comes twice; otherwise nothing is read. And
one line is enough to spoil a text: whatever stands around it, a line that is neither blank
nor a comment has to be the entry of a known key.
-/

namespace FreshTree.Settings.Table

def isName (name : String) : Bool := name.toList ≠ [] && name.toList.all isBare

def lineOf (entry : String × UInt64) : List Char :=
  entry.1.toList ++ ' ' :: '=' :: ' ' :: Nat.toDigits 10 entry.2.toNat

/-- A line of its own: it does not go over an end of line, and nothing of it is taken for
one, or for a byte order mark. -/
structure IsLine (line : List Char) : Prop where
  unbroken : '\n' ∉ line
  uncut : line.getLast? ≠ some '\r'
  unmarked : line.head? ≠ some '\ufeff'

def EndsLine (rest : List Char) : Prop :=
  rest = [] ∨ ['\n'] <+: rest ∨ ['\r', '\n'] <+: rest

/-- A line that has no place in a table of the known keys: it says something, and that is
not the entry of one of them. -/
structure IsForeign (known : List String) (line : List Char) : Prop where
  telling : isRemark line = false
  unknown : ∀ e, entry line = some e → e.1 ∉ known

/-! Characters. -/

theorem isBare_of_isDigit {c : Char} (digit : c.isDigit = true) : isBare c = true := by
  simp [isBare, Char.isAlphanum, digit]

theorem ne_of_isBare {c other : Char} (bare : isBare c = true) (not : isBare other = false) :
    c ≠ other := by
  rintro rfl
  rw [bare] at not
  cases not

theorem isBlank_of_isBare {c : Char} (bare : isBare c = true) : isBlank c = false := by
  have space : c ≠ ' ' := ne_of_isBare bare rfl
  have tab : c ≠ '\t' := ne_of_isBare bare rfl
  simp [isBlank, space, tab]

/-! Numbers. -/

theorem digit?_ten {c : Char} (digit : c.isDigit = true) :
    digit? 10 c = some (c.toNat - '0'.toNat) := by
  have bound : c.toNat - '0'.toNat < 10 := by
    simp only [Char.isDigit, Bool.and_eq_true, decide_eq_true_eq, UInt32.le_iff_toNat_le] at digit
    have below : c.toNat ≤ 57 := digit.2
    change c.toNat - 48 < 10
    omega
  simp only [digit?, digit, if_true, if_pos bound]

theorem moreDigits_cons {base d : Nat} {c : Char} (digit : digit? base c = some d)
    (plain : c ≠ '_') (value : Nat) (rest : List Char) :
    moreDigits base value (c :: rest) = moreDigits base (value * base + d) rest := by
  simp [moreDigits, plain, digit]

theorem moreDigits_ten {text : List Char} (digits : ∀ c ∈ text, c.isDigit = true) (value : Nat) :
    moreDigits 10 value text = some (Nat.ofDigitChars 10 text value) := by
  induction text generalizing value with
  | nil => simp [moreDigits]
  | cons c rest ih =>
    have first := digits c List.mem_cons_self
    have plain : c ≠ '_' := by
      rintro rfl
      cases first
    rw [moreDigits_cons (digit?_ten first) plain, Nat.mul_comm value 10, Nat.ofDigitChars_cons]
    exact ih (fun d member => digits d (List.mem_cons_of_mem c member)) _

theorem digits_ten {text : List Char} (filled : text ≠ [])
    (all : ∀ c ∈ text, c.isDigit = true) :
    digits 10 text = some (Nat.ofDigitChars 10 text 0) := by
  cases text with
  | nil => exact absurd rfl filled
  | cons c rest =>
    have more := moreDigits_ten fun d member => all d (List.mem_cons_of_mem c member)
    simp [digits, digit?_ten (all c List.mem_cons_self), more, Nat.ofDigitChars_cons]

theorem isDigit_toDigits {n : Nat} {c : Char} (member : c ∈ Nat.toDigits 10 n) :
    c.isDigit = true :=
  Nat.isDigit_of_mem_toDigits (by decide) (by decide) member

theorem head?_toDigits {n : Nat} (positive : 0 < n) : (Nat.toDigits 10 n).head? ≠ some '0' := by
  induction n using Nat.strongRecOn with
  | ind n ih =>
    by_cases small : n < 10
    · rw [Nat.toDigits_of_lt_base small]
      simp only [List.head?_cons, ne_eq, Option.some.injEq, Nat.digitChar_eq_zero]
      omega
    · have front := ih (n / 10) (by omega) (by omega)
      rw [Nat.toDigits_of_base_le (by decide) (Nat.le_of_not_lt small)]
      cases upper : Nat.toDigits 10 (n / 10) with
      | nil => exact absurd upper Nat.toDigits_ne_nil
      | cons c rest =>
        rw [upper] at front
        exact front

theorem decimal_of_head? {text : List Char} (front : text.head? ≠ some '0') :
    decimal text = digits 10 text := by
  unfold decimal
  split
  · exact absurd rfl front
  · exact absurd rfl front
  · rfl

theorem decimal_toDigits (n : Nat) : decimal (Nat.toDigits 10 n) = some n := by
  rcases Nat.eq_zero_or_pos n with rfl | positive
  · rfl
  · rw [decimal_of_head? (head?_toDigits positive),
      digits_ten Nat.toDigits_ne_nil fun c => isDigit_toDigits, Nat.ofDigitChars_ten_toDigits]

theorem integer_of_digits {text : List Char} (all : ∀ c ∈ text, c.isDigit = true) :
    integer text = decimal text := by
  have apart : ∀ {c : Char}, c.isDigit = false → c ∉ text := by
    intro c not member
    rw [all c member] at not
    cases not
  unfold integer
  split
  · exact absurd (by simp) (apart (c := 'x') rfl)
  · exact absurd (by simp) (apart (c := 'o') rfl)
  · exact absurd (by simp) (apart (c := 'b') rfl)
  · exact absurd (by simp) (apart (c := '+') rfl)
  · exact absurd (by simp) (apart (c := '-') rfl)
  · rfl

theorem word_toDigits (value : UInt64) : word (Nat.toDigits 10 value.toNat) = some value := by
  have number : integer (Nat.toDigits 10 value.toNat) = some value.toNat := by
    rw [integer_of_digits fun c => isDigit_toDigits, decimal_toDigits]
  simp [word, number, UInt64.toNat_lt_size]

/-! Lines. -/

theorem lines_cons {c : Char} {rest first : List Char} {others : List (List Char)}
    (inside : c ≠ '\n') (whole : c = '\r' → rest.head? ≠ some '\n')
    (tail : lines rest = first :: others) : lines (c :: rest) = (c :: first) :: others := by
  have uncut : ∀ after, c = '\r' → rest = '\n' :: after → False := by
    rintro after cut rfl
    exact whole cut rfl
  rw [lines.eq_4 c rest inside uncut, tail]

theorem lines_of_endsLine {rest : List Char} (ends : EndsLine rest) :
    ∃ others, lines rest = [] :: others := by
  rcases ends with rfl | ⟨after, rfl⟩ | ⟨after, rfl⟩
  · exact ⟨[], rfl⟩
  · exact ⟨lines after, rfl⟩
  · exact ⟨lines after, rfl⟩

theorem lines_append {line rest : List Char} {others : List (List Char)} (unbroken : '\n' ∉ line)
    (uncut : line.getLast? ≠ some '\r') (ends : lines rest = [] :: others) :
    lines (line ++ rest) = line :: others := by
  induction line with
  | nil => exact ends
  | cons c line ih =>
    have inside : c ≠ '\n' := by
      rintro rfl
      exact unbroken List.mem_cons_self
    have later : '\n' ∉ line := fun member => unbroken (List.mem_cons_of_mem c member)
    cases line with
    | nil =>
      refine lines_cons inside (fun cut => ?_) ends
      exact absurd (congrArg some cut) uncut
    | cons d line =>
      rw [List.getLast?_cons_cons] at uncut
      refine lines_cons inside (fun _ broken => ?_) (ih later uncut)
      cases broken
      exact later List.mem_cons_self

theorem withoutMark_of_head? {text : List Char} (unmarked : text.head? ≠ some '\ufeff') :
    withoutMark text = text := by
  unfold withoutMark
  split
  · exact absurd rfl unmarked
  · rfl

/-! Entries. -/

theorem isName_cons {name : String} (named : isName name = true) :
    ∃ c rest, name.toList = c :: rest ∧ isBare c = true ∧ ∀ d ∈ rest, isBare d = true := by
  simp only [isName, Bool.and_eq_true, decide_eq_true_eq, List.all_eq_true] at named
  obtain ⟨filled, bare⟩ := named
  cases chars : name.toList with
  | nil => exact absurd chars filled
  | cons c rest =>
    rw [chars] at bare
    exact ⟨c, rest, rfl, bare c List.mem_cons_self, fun d member =>
      bare d (List.mem_cons_of_mem c member)⟩

theorem key_name {name : String} (named : isName name = true) (after : List Char) :
    key (name.toList ++ ' ' :: after) = some (name.toList, ' ' :: after) := by
  obtain ⟨c, rest, chars, first, others⟩ := isName_cons named
  have all : ∀ d ∈ c :: rest, isBare d = true := by simpa [first] using others
  have stop : isBare ' ' = false := rfl
  rw [chars]
  unfold key
  split
  · rename_i same
    exact absurd (List.cons.inj same).1 (ne_of_isBare first rfl)
  · rename_i same
    exact absurd (List.cons.inj same).1 (ne_of_isBare first rfl)
  · rw [List.takeWhile_append_of_pos all, List.dropWhile_append_of_pos all]
    simp [stop]

theorem dropWhile_isBlank_of_isBare {c : Char} (bare : isBare c = true) (rest : List Char) :
    (c :: rest).dropWhile isBlank = c :: rest := by
  simp [isBlank_of_isBare bare]

theorem span_toDigits (n : Nat) :
    (Nat.toDigits 10 n).takeWhile (fun c => !isBlank c && c ≠ '#') = Nat.toDigits 10 n ∧
      (Nat.toDigits 10 n).dropWhile (fun c => !isBlank c && c ≠ '#') = [] := by
  have all : ∀ c ∈ Nat.toDigits 10 n, (!isBlank c && decide (c ≠ '#')) = true := by
    intro c member
    have bare := isBare_of_isDigit (isDigit_toDigits member)
    have hash : c ≠ '#' := ne_of_isBare bare rfl
    simp [isBlank_of_isBare bare, hash]
  exact ⟨List.takeWhile_eq_self_iff.mpr all, List.dropWhile_eq_nil_iff.mpr all⟩

theorem dropWhile_isBlank_toDigits (n : Nat) :
    (Nat.toDigits 10 n).dropWhile isBlank = Nat.toDigits 10 n := by
  have digits := fun c => isDigit_toDigits (n := n) (c := c)
  cases chars : Nat.toDigits 10 n with
  | nil => rfl
  | cons c rest =>
    rw [chars] at digits
    exact dropWhile_isBlank_of_isBare (isBare_of_isDigit (digits c List.mem_cons_self)) rest

theorem dropWhile_isBlank_lineOf {e : String × UInt64} (named : isName e.1 = true) :
    (lineOf e).dropWhile isBlank = lineOf e := by
  obtain ⟨c, rest, chars, first, _⟩ := isName_cons named
  simp only [lineOf, chars, List.cons_append]
  exact dropWhile_isBlank_of_isBare first _

theorem entry_lineOf {e : String × UInt64} (named : isName e.1 = true) :
    entry (lineOf e) = some e := by
  obtain ⟨taken, dropped⟩ := span_toDigits e.2.toNat
  have blank : isBlank ' ' = true := rfl
  have sign : isBlank '=' = false := rfl
  have nothing : isRemark [] = true := rfl
  unfold entry
  rw [dropWhile_isBlank_lineOf named]
  simp only [lineOf, key_name named, Option.bind_eq_bind, Option.bind_some,
    List.dropWhile_cons, blank, sign, if_true, Bool.false_eq_true, if_false,
    dropWhile_isBlank_toDigits, taken, dropped, word_toDigits, nothing, String.ofList_toList]

theorem isRemark_lineOf {e : String × UInt64} (named : isName e.1 = true) :
    isRemark (lineOf e) = false := by
  obtain ⟨c, rest, chars, first, _⟩ := isName_cons named
  unfold isRemark
  rw [dropWhile_isBlank_lineOf named]
  simp only [lineOf, chars, List.cons_append]
  split
  · rename_i none
    cases none
  · rename_i same
    exact absurd (List.cons.inj same).1 (ne_of_isBare first rfl)
  · rfl

theorem isLine_lineOf {e : String × UInt64} (named : isName e.1 = true) : IsLine (lineOf e) := by
  obtain ⟨c, rest, chars, first, others⟩ := isName_cons named
  have digits := fun d => isDigit_toDigits (n := e.2.toNat) (c := d)
  constructor
  · intro broken
    simp only [lineOf, chars, List.mem_append, List.mem_cons] at broken
    rcases broken with (rfl | early) | (same | same | same | late)
    · cases first
    · cases others _ early
    · cases same
    · cases same
    · cases same
    · cases digits _ late
  · intro cut
    cases tail : Nat.toDigits 10 e.2.toNat with
    | nil => exact Nat.toDigits_ne_nil tail
    | cons d text =>
      rw [lineOf, tail, List.getLast?_append] at cut
      simp only [List.getLast?_cons_cons] at cut
      cases last : (d :: text).getLast? with
      | none => simp at last
      | some back =>
        rw [last] at cut
        have ends := digits back (tail ▸ List.mem_of_getLast? last)
        cases cut
        cases ends
  · rw [lineOf, chars]
    rintro marked
    cases marked
    cases first

/-! Tables. -/

theorem toList_write_cons (e : String × UInt64) (table : Table) :
    (write (e :: table)).toList = lineOf e ++ '\n' :: (write table).toList := by
  simp [write, lineOf, List.append_assoc]

theorem lines_write {table : Table} (named : ∀ e ∈ table, isName e.1 = true) (text : List Char) :
    lines ((write table).toList ++ text) = table.map lineOf ++ lines text := by
  induction table with
  | nil => rfl
  | cons e table ih =>
    have line := isLine_lineOf (named e List.mem_cons_self)
    have ends : lines ('\n' :: ((write table).toList ++ text)) = [] :: lines _ := rfl
    rw [toList_write_cons, List.append_assoc, List.cons_append,
      lines_append line.unbroken line.uncut ends,
      ih fun other member => named other (List.mem_cons_of_mem e member)]
    rfl

theorem withoutMark_write {table : Table} (named : ∀ e ∈ table, isName e.1 = true)
    {text : List Char} (unmarked : text.head? ≠ some '\ufeff') :
    withoutMark ((write table).toList ++ text) = (write table).toList ++ text := by
  apply withoutMark_of_head?
  cases table with
  | nil => exact unmarked
  | cons e table =>
    obtain ⟨c, rest, chars, _⟩ := isName_cons (named e List.mem_cons_self)
    have front := (isLine_lineOf (named e List.mem_cons_self)).unmarked
    rw [toList_write_cons]
    simpa [lineOf, chars] using front

theorem ofLines_write {table : Table} (named : ∀ e ∈ table, isName e.1 = true) :
    ofLines (table.map lineOf ++ [[]]) = some table := by
  induction table with
  | nil => rfl
  | cons e table ih =>
    have first := named e List.mem_cons_self
    have others := ih fun other member => named other (List.mem_cons_of_mem e member)
    simp [ofLines, isRemark_lineOf first, entry_lineOf first, others]

/-- A written table is read back as it was, unless its keys are not those known, each at
most once. -/
theorem read?_write {known : List String} {table : Table}
    (named : ∀ e ∈ table, isName e.1 = true) :
    read? known (write table) = if fits known table then some table else none := by
  have written : ofLines (lines (withoutMark (write table).toList)) = some table := by
    have whole : withoutMark ((write table).toList ++ []) = _ := withoutMark_write named nofun
    have parts := lines_write named []
    rw [List.append_nil] at whole parts
    rw [whole, parts]
    exact ofLines_write named
  rw [read?, written]
  rfl

theorem entry_of_ofLines {all : List (List Char)} {table : Table} {line : List Char}
    (read : ofLines all = some table) (member : line ∈ all) (telling : isRemark line = false) :
    ∃ e ∈ table, entry line = some e := by
  induction all generalizing table with
  | nil => cases member
  | cons first rest ih =>
    rw [ofLines] at read
    split at read
    · rename_i remark
      rcases List.mem_cons.mp member with rfl | later
      · rw [remark] at telling
        cases telling
      · exact ih read later
    · split at read
      · rename_i e table' found others
        cases read
        rcases List.mem_cons.mp member with rfl | later
        · exact ⟨e, List.mem_cons_self, found⟩
        · obtain ⟨e', inside, same⟩ := ih others later
          exact ⟨e', List.mem_cons_of_mem e inside, same⟩
      · cases read

theorem read?_eq_none_of_isForeign {known : List String} {text : String} {line : List Char}
    (member : line ∈ lines (withoutMark text.toList)) (foreign : IsForeign known line) :
    read? known text = none := by
  rw [read?]
  cases read : ofLines (lines (withoutMark text.toList)) with
  | none => rfl
  | some table =>
    obtain ⟨e, inside, told⟩ := entry_of_ofLines read member foreign.telling
    have unknown := foreign.unknown e told
    apply Option.filter_eq_none_iff.mpr
    intro other same fit
    cases same
    simp only [fits, Bool.and_eq_true, List.all_eq_true, List.contains_iff_mem] at fit
    exact unknown (fit.1 e inside)

/-- A foreign line that is put into the text of a table spoils it, whatever follows. -/
theorem read?_write_append {known : List String} {table : Table} {line rest : String}
    (named : ∀ e ∈ table, isName e.1 = true) (isLine : IsLine line.toList)
    (foreign : IsForeign known line.toList) (ends : EndsLine rest.toList) :
    read? known (write table ++ line ++ rest) = none := by
  obtain ⟨others, after⟩ := lines_of_endsLine ends
  have filled : line.toList ≠ [] := by
    intro empty
    have telling := foreign.telling
    rw [empty] at telling
    cases telling
  have unmarked : (line.toList ++ rest.toList).head? ≠ some '\ufeff' := by
    rw [List.head?_append_of_ne_nil _ filled]
    exact isLine.unmarked
  refine read?_eq_none_of_isForeign ?_ foreign
  rw [String.toList_append, String.toList_append, List.append_assoc,
    withoutMark_write named unmarked, lines_write named,
    lines_append isLine.unbroken isLine.uncut after]
  exact List.mem_append_right _ List.mem_cons_self

theorem key_of_entry {line : List Char} {e : String × UInt64} (told : entry line = some e) :
    ∃ name rest, key (line.dropWhile isBlank) = some (name, rest) ∧ e.1 = String.ofList name := by
  unfold entry at told
  cases reads : key (line.dropWhile isBlank) with
  | none =>
    rw [reads] at told
    cases told
  | some found =>
    obtain ⟨name, rest⟩ := found
    refine ⟨name, rest, rfl, ?_⟩
    simp only [reads, Option.bind_eq_bind, Option.bind_some] at told
    split at told
    · obtain ⟨value, _, told⟩ := Option.bind_eq_some_iff.mp told
      split at told
      · cases told
        rfl
      · cases told
    · cases told

theorem isRemark_of_key {line name rest : List Char}
    (reads : key (line.dropWhile isBlank) = some (name, rest)) : isRemark line = false := by
  unfold isRemark
  split
  · rename_i empty
    rw [empty] at reads
    cases reads
  · rename_i comment hash
    have stop : isBare '#' = false := rfl
    rw [hash] at reads
    simp [key, stop] at reads
  · rfl

theorem isForeign_of_key {known : List String} {line name rest : List Char}
    (reads : key (line.dropWhile isBlank) = some (name, rest))
    (unknown : String.ofList name ∉ known) : IsForeign known line := by
  refine ⟨isRemark_of_key reads, fun e told => ?_⟩
  obtain ⟨name', rest', again, same⟩ := key_of_entry told
  cases reads.symm.trans again
  rw [same]
  exact unknown

end FreshTree.Settings.Table
