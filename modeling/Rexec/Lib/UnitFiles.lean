import Mathlib.Tactic

/-!
# Values of a systemd unit

A unit is a sequence of lines `key=value`; a line that ends in a backslash goes on
in the next.  A command line in it is cut into words first: quotes make blanks
part of a word, and a backslash begins an escape, also inside quotes.  In each
word the specifiers are expanded then: `%%` is a percent sign, and `%` with
another letter stands for something the manager knows.

* `Reading` is what this leaves open: the other escapes and the specifiers.
* `values` are the values of a key.
* `Lexer` cuts a value into words; `read_escaped` is its law for a word in
  double quotes.
* `pieces` and `expand` are the second stage; `pieces_doubled` says that doubled
  percent signs are no specifiers, and `expand_doubled` that they come back.
-/

namespace Rexec
namespace UnitFiles

/-! ## Lines -/

def lines (unit : List Char) : List (List Char) :=
  unit.splitOn '\n'

/-- The line goes on in the next one. -/
def continued (line : List Char) : Prop :=
  line.getLast? = some '\\'

/-- The value of a line that sets the key. -/
def valueIn (key line : List Char) : Option (List Char) :=
  if (key ++ ['=']).isPrefixOf line then some (line.drop (key.length + 1)) else none

/-- The values of the lines with a key. -/
def values (key unit : List Char) : List (List Char) :=
  (lines unit).filterMap (valueIn key)

theorem valueIn_assignment (key value : List Char) :
    valueIn key (key ++ '=' :: value) = some value := by
  have hsets : (key ++ ['=']).isPrefixOf (key ++ '=' :: value) = true := by
    rw [List.isPrefixOf_iff_prefix]
    exact ⟨value, by simp⟩
  rw [valueIn, if_pos hsets, ← List.drop_drop, List.drop_left]
  rfl

/-- A unit in which one line sets the key. -/
theorem values_eq_singleton {key value unit : List Char} {before after : List (List Char)}
    (hlines : lines unit = before ++ (key ++ '=' :: value) :: after)
    (hother : ∀ line ∈ before ++ after, valueIn key line = none) :
    values key unit = [value] := by
  have hbefore : before.filterMap (valueIn key) = [] :=
    List.filterMap_eq_nil_iff.mpr fun line hline => hother line (List.mem_append_left _ hline)
  have hafter : after.filterMap (valueIn key) = [] :=
    List.filterMap_eq_nil_iff.mpr fun line hline => hother line (List.mem_append_right _ hline)
  rw [values, hlines, List.filterMap_append, List.filterMap_cons, valueIn_assignment, hbefore,
    hafter]
  rfl

/-! ## Words -/

/-- What the escapes and the specifiers other than the ones named here mean. -/
structure Reading where
  escape : Char → Option Char
  specifier : Char → Option (List Char)

def isBlank (c : Char) : Bool :=
  c ∈ [' ', '\t', '\n', '\r']

def isQuote (c : Char) : Bool :=
  c ∈ ['"', Char.ofNat 0x27]

/-- What follows a backslash. -/
def unescape (R : Reading) (c : Char) : Option Char :=
  if c = '\\' ∨ c = '"' then some c else R.escape c

inductive Mode where
  /-- no word is open -/
  | between
  | word
  | quoted (quote : Char)
  /-- behind a backslash, with the quote that is open -/
  | escaped (quote : Option Char)
  /-- an escape that means nothing -/
  | broken
deriving DecidableEq

structure Lexer where
  mode : Mode := .between
  /-- the words that are complete -/
  words : List (List Char) := []
  /-- the word that is open -/
  part : List Char := []

namespace Lexer

/-- A blank, or the end of the value, outside quotes. -/
def endWord (s : Lexer) : Lexer :=
  match s.mode with
  | .word => { mode := .between, words := s.words ++ [s.part], part := [] }
  | _ => s

def step (R : Reading) (s : Lexer) (c : Char) : Lexer :=
  match s.mode with
  | .between | .word =>
      if isBlank c then s.endWord
      else if isQuote c then { s with mode := .quoted c }
      else if c = '\\' then { s with mode := .escaped none }
      else { s with mode := .word, part := s.part ++ [c] }
  | .quoted q =>
      if c = q then { s with mode := .word }
      else if c = '\\' then { s with mode := .escaped (some q) }
      else { s with part := s.part ++ [c] }
  | .escaped q =>
      match unescape R c with
      | some d => { s with mode := q.elim .word .quoted, part := s.part ++ [d] }
      | none => { s with mode := .broken }
  | .broken => s

def read (R : Reading) (s : Lexer) (cs : List Char) : Lexer :=
  cs.foldl (step R) s

theorem read_append (R : Reading) (s : Lexer) (cs ds : List Char) :
    s.read R (cs ++ ds) = (s.read R cs).read R ds :=
  List.foldl_append

end Lexer

/-- The words of a value; `none` when a quote is not closed or an escape is wrong. -/
def split (R : Reading) (value : List Char) : Option (List (List Char)) :=
  let s := (({} : Lexer).read R value).endWord
  if s.mode = .between then some s.words else none

/-- A character as it stands inside double quotes. -/
def escapeChar (c : Char) : List Char :=
  if c = '\\' ∨ c = '"' then ['\\', c] else [c]

/-- Inside double quotes the escaped text is read as the text. -/
theorem read_escaped (R : Reading) (text : List Char) (words : List (List Char))
    (part : List Char) :
    Lexer.read R { mode := .quoted '"', words, part } (text.flatMap escapeChar) =
      { mode := .quoted '"', words, part := part ++ text } := by
  induction text generalizing part with
  | nil => simp [Lexer.read]
  | cons c text ih =>
      have hone : Lexer.read R { mode := .quoted '"', words, part } (escapeChar c) =
          { mode := .quoted '"', words, part := part ++ [c] } := by
        by_cases hc : c = '\\' ∨ c = '"'
        · rw [escapeChar, if_pos hc]
          simp [Lexer.read, Lexer.step, unescape, hc]
        · rw [escapeChar, if_neg hc]
          obtain ⟨hbackslash, hquote⟩ := not_or.mp hc
          simp [Lexer.read, Lexer.step, hbackslash, hquote]
      rw [List.flatMap_cons, Lexer.read_append, hone, ih, List.append_assoc,
        List.singleton_append]

/-- A word of characters that mean nothing to the lexer. -/
theorem read_plain (R : Reading) {text : List Char} (words : List (List Char))
    (hne : text ≠ [])
    (htext : ∀ c ∈ text, isBlank c = false ∧ isQuote c = false ∧ c ≠ '\\') :
    Lexer.read R { mode := .between, words, part := [] } text =
      { mode := .word, words, part := text } := by
  have hmore : ∀ (more part : List Char),
      (∀ c ∈ more, isBlank c = false ∧ isQuote c = false ∧ c ≠ '\\') →
      Lexer.read R { mode := .word, words, part } more =
        { mode := .word, words, part := part ++ more } := by
    intro more
    induction more with
    | nil => simp [Lexer.read]
    | cons c more ih =>
        intro part hall
        obtain ⟨hblank, hquote, hbackslash⟩ := hall c (by simp)
        have hrest := ih (part ++ [c]) fun d hd => hall d (List.mem_cons_of_mem _ hd)
        rw [List.append_assoc, List.singleton_append] at hrest
        rw [← hrest]
        simp [Lexer.read, Lexer.step, hblank, hquote, hbackslash]
  cases text with
  | nil => exact absurd rfl hne
  | cons c text =>
      obtain ⟨hblank, hquote, hbackslash⟩ := htext c (by simp)
      have hrest := hmore text [c] fun d hd => htext d (List.mem_cons_of_mem _ hd)
      rw [List.singleton_append] at hrest
      rw [← hrest]
      simp [Lexer.read, Lexer.step, hblank, hquote, hbackslash]

/-! ## Specifiers -/

inductive Piece where
  | char (c : Char)
  | percent
  | specifier (c : Char)
deriving DecidableEq

def pieces : List Char → List Piece
  | [] => []
  | [c] => [.char c]
  | c :: d :: cs =>
      if c = '%' then (if d = '%' then .percent else .specifier d) :: pieces cs
      else .char c :: pieces (d :: cs)

/-- A specifier nobody knows stays as it is. -/
def Piece.expand (R : Reading) : Piece → List Char
  | .char c => [c]
  | .percent => ['%']
  | .specifier c => (R.specifier c).getD ['%', c]

def expand (R : Reading) (word : List Char) : List Char :=
  (pieces word).flatMap (Piece.expand R)

/-- The words of a command line, with their specifiers expanded. -/
def argv (R : Reading) (value : List Char) : Option (List (List Char)) :=
  (split R value).map fun words => words.map (expand R)

/-- A percent sign is written twice. -/
def doubleChar (c : Char) : List Char :=
  if c = '%' then ['%', '%'] else [c]

/-- What a character is after its percent signs are doubled. -/
def Piece.ofChar (c : Char) : Piece :=
  if c = '%' then .percent else .char c

theorem pieces_cons {c : Char} (hc : c ≠ '%') (cs : List Char) :
    pieces (c :: cs) = .char c :: pieces cs := by
  cases cs with
  | nil => rfl
  | cons d cs => rw [pieces, if_neg hc]

theorem pieces_doubled (text : List Char) :
    pieces (text.flatMap doubleChar) = text.map Piece.ofChar := by
  induction text with
  | nil => rfl
  | cons c text ih =>
      rw [List.flatMap_cons, List.map_cons, ← ih]
      by_cases hc : c = '%'
      · subst hc
        rfl
      · rw [doubleChar, if_neg hc, List.singleton_append, pieces_cons hc, Piece.ofChar,
          if_neg hc]

/-- There is no specifier in it. -/
theorem specifier_notin_doubled (text : List Char) (c : Char) :
    .specifier c ∉ pieces (text.flatMap doubleChar) := by
  rw [pieces_doubled, List.mem_map]
  rintro ⟨d, -, hd⟩
  unfold Piece.ofChar at hd
  split at hd <;> cases hd

/-- A text without a percent sign is as it was. -/
theorem doubled_of_notin {text : List Char} (h : '%' ∉ text) :
    text.flatMap doubleChar = text := by
  induction text with
  | nil => rfl
  | cons c text ih =>
      obtain ⟨hc, htext⟩ := List.ne_and_not_mem_of_not_mem_cons h
      rw [List.flatMap_cons, ih htext, doubleChar, if_neg (Ne.symm hc), List.singleton_append]

theorem expand_doubled (R : Reading) (text : List Char) :
    expand R (text.flatMap doubleChar) = text := by
  have hone : ∀ c, (Piece.ofChar c).expand R = [c] := by
    intro c
    by_cases hc : c = '%'
    · simp [Piece.ofChar, Piece.expand, hc]
    · simp [Piece.ofChar, Piece.expand, hc]
  rw [expand, pieces_doubled, List.flatMap_map]
  simp [hone]

end UnitFiles
end Rexec
