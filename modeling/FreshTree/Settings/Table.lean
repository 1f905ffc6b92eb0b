/-!
Flat tables of unsigned integers, the only part of TOML that settings are made
of: one `key = integer` per line, blank lines, and comments. Every other TOML
document has a value or a key that no settings accept, so it is refused here
already and need not be understood.

Keys are bare or quoted. Integers are decimal, with an optional sign, or
hexadecimal, octal or binary without one; single underscores may stand between
digits. A line ends with a line feed that may follow a carriage return.
-/

namespace FreshTree.Settings

abbrev Table := List (String × UInt64)

namespace Table

def isBlank (c : Char) : Bool := c = ' ' || c = '\t'

def isPlain (c : Char) : Bool := c = '\t' || (' ' ≤ c && c ≠ '\x7f')

def isBare (c : Char) : Bool := c.isAlphanum || c = '_' || c = '-'

def lines : List Char → List (List Char)
  | [] => [[]]
  | '\n' :: rest => [] :: lines rest
  | '\r' :: '\n' :: rest => [] :: lines rest
  | c :: rest =>
    match lines rest with
    | [] => [[c]]
    | line :: others => (c :: line) :: others

def digit? (base : Nat) (c : Char) : Option Nat :=
  let value :=
    if c.isDigit then c.toNat - '0'.toNat
    else if 'a' ≤ c ∧ c ≤ 'f' then c.toNat - 'a'.toNat + 10
    else if 'A' ≤ c ∧ c ≤ 'F' then c.toNat - 'A'.toNat + 10
    else base
  if value < base then some value else none

/-- Reads on after a digit. An underscore needs a digit on both sides. -/
def moreDigits (base value : Nat) : List Char → Option Nat
  | [] => some value
  | '_' :: c :: rest =>
    match digit? base c with
    | some d => moreDigits base (value * base + d) rest
    | none => none
  | c :: rest =>
    match digit? base c with
    | some d => moreDigits base (value * base + d) rest
    | none => none

def digits (base : Nat) : List Char → Option Nat
  | [] => none
  | c :: rest => (digit? base c).bind fun d => moreDigits base d rest

/-- A decimal number without a sign. Only zero itself starts with a zero. -/
def decimal : List Char → Option Nat
  | ['0'] => some 0
  | '0' :: _ => none
  | text => digits 10 text

def integer : List Char → Option Nat
  | '0' :: 'x' :: text => digits 16 text
  | '0' :: 'o' :: text => digits 8 text
  | '0' :: 'b' :: text => digits 2 text
  | '+' :: text => decimal text
  | '-' :: text => (decimal text).filter (· = 0)
  | text => decimal text

def word (text : List Char) : Option UInt64 :=
  (integer text).bind fun value => if value < UInt64.size then some value.toUInt64 else none

def hexadecimal (text : List Char) : Option Nat :=
  text.foldlM (fun value c => (digit? 16 c).map fun d => value * 16 + d) 0

def codePoint (text : List Char) : Option Char :=
  (hexadecimal text).bind fun value =>
    if value.isValidChar then some (Char.ofNat value) else none

def shortEscape (c : Char) : Option Char :=
  match c with
  | 'b' => some '\x08'
  | 't' => some '\t'
  | 'n' => some '\n'
  | 'f' => some '\x0c'
  | 'r' => some '\r'
  | 'e' => some '\x1b'
  | '"' => some '"'
  | '\\' => some '\\'
  | _ => none

def escapeWidth (c : Char) : Option Nat :=
  match c with
  | 'x' => some 2
  | 'u' => some 4
  | 'U' => some 8
  | _ => none

/-- The key in double quotes whose opening quote was read, and the rest of the
line. `fuel` bounds the number of characters and escapes. -/
def quotedKey : Nat → List Char → Option (List Char × List Char)
  | 0, _ => none
  | fuel + 1, text =>
    match text with
    | '"' :: rest => some ([], rest)
    | '\\' :: c :: rest =>
      match escapeWidth c with
      | some width => do
        let decoded ← if rest.length < width then none else codePoint (rest.take width)
        let (key, after) ← quotedKey fuel (rest.drop width)
        some (decoded :: key, after)
      | none => do
        let decoded ← shortEscape c
        let (key, after) ← quotedKey fuel rest
        some (decoded :: key, after)
    | c :: rest =>
      if isPlain c then do
        let (key, after) ← quotedKey fuel rest
        some (c :: key, after)
      else none
    | [] => none

def key (text : List Char) : Option (List Char × List Char) :=
  match text with
  | '"' :: rest => quotedKey text.length rest
  | '\x27' :: rest =>
    let inner := rest.takeWhile (· ≠ '\x27')
    match rest.dropWhile (· ≠ '\x27') with
    | _ :: after => if inner.all isPlain then some (inner, after) else none
    | [] => none
  | _ =>
    let bare := text.takeWhile isBare
    if bare = [] then none else some (bare, text.dropWhile isBare)

def isRemark (text : List Char) : Bool :=
  match text.dropWhile isBlank with
  | [] => true
  | '#' :: comment => comment.all isPlain
  | _ => false

def entry (text : List Char) : Option (String × UInt64) := do
  let (name, rest) ← key (text.dropWhile isBlank)
  match rest.dropWhile isBlank with
  | '=' :: rest =>
    let rest := rest.dropWhile isBlank
    let value ← word (rest.takeWhile fun c => !isBlank c && c ≠ '#')
    if isRemark (rest.dropWhile fun c => !isBlank c && c ≠ '#') then
      some (String.ofList name, value)
    else none
  | _ => none

def ofLines : List (List Char) → Option Table
  | [] => some []
  | line :: rest =>
    if isRemark line then ofLines rest
    else
      match entry line, ofLines rest with
      | some first, some others => some (first :: others)
      | _, _ => none

/-- A byte order mark at the start of a text says nothing. -/
def withoutMark : List Char → List Char
  | '\ufeff' :: rest => rest
  | text => text

def fits (known : List String) (table : Table) : Bool :=
  table.all (fun entry => known.contains entry.1) && (table.map Prod.fst).Nodup

def read? (known : List String) (text : String) : Option Table :=
  (ofLines (lines (withoutMark text.toList))).filter (fits known)

def write (table : Table) : String :=
  String.join (table.map fun entry => entry.1 ++ " = " ++ toString entry.2.toNat ++ "\n")

end Table

end FreshTree.Settings
