import Mathlib.Tactic

/-!
# Words of a shell command line

How a shell cuts a line into words: unquoted blanks separate words, single
quotes make what stands between them literal, an unquoted backslash makes the
next character literal, and pieces that touch are one word.

The lexer is a machine that reads one character at a time.  Besides the words it
keeps the characters that were read unquoted and stand for themselves: it is
among these that a shell looks for operators, comments, patterns and expansions.

* `Spells text w bare`: wherever a word can begin or go on, the lexer reads
  `text` as `w`, with the characters `bare` unquoted.
* `spells_bare` and `spells_quoted` are the two ways to spell a word.
* `split_spaced`: a line of spellings, with blanks between them, is cut back
  into the words.
-/

namespace Rexec
namespace ShellWords

def singleQuote : Char := Char.ofNat 0x27

/-- The blanks that separate words. -/
def isBlank (c : Char) : Bool :=
  c ∈ [' ', '\t']

/-- The unquoted characters that do not stand for themselves, or not everywhere:
operators, comments, patterns, tildes, expansions, substitutions and quotes. -/
def isSpecial (c : Char) : Bool :=
  c ∈ ['|', '&', ';', '<', '>', '(', ')', '\n', '#', '*', '?', '[', ']', '~', '$',
    Char.ofNat 0x60, '"', '!', '{', '}']

inductive Mode where
  /-- no word is open -/
  | between
  /-- in a word, unquoted -/
  | word
  /-- in single quotes -/
  | quoted
  /-- behind an unquoted backslash -/
  | escaped
deriving DecidableEq, Repr

@[ext] structure Lexer where
  mode : Mode := .between
  /-- the words that are complete -/
  words : List (List Char) := []
  /-- the word that is open -/
  part : List Char := []
  /-- the characters read unquoted that stand for themselves -/
  bare : List Char := []
deriving DecidableEq, Repr

namespace Lexer

/-- A blank, or the end of the line, outside quotes. -/
def endWord (s : Lexer) : Lexer :=
  match s.mode with
  | .word => { s with mode := .between, words := s.words ++ [s.part], part := [] }
  | _ => s

/-- One character outside quotes. -/
def unquoted (s : Lexer) (c : Char) : Lexer :=
  if isBlank c then s.endWord
  else if c = singleQuote then { s with mode := .quoted }
  else if c = '\\' then { s with mode := .escaped }
  else { s with mode := .word, part := s.part ++ [c], bare := s.bare ++ [c] }

def step (s : Lexer) (c : Char) : Lexer :=
  match s.mode with
  | .between | .word => s.unquoted c
  | .quoted =>
      if c = singleQuote then { s with mode := .word }
      else { s with part := s.part ++ [c] }
  | .escaped => { s with mode := .word, part := s.part ++ [c] }

def read (s : Lexer) (cs : List Char) : Lexer :=
  cs.foldl step s

@[simp] theorem read_nil (s : Lexer) : s.read [] = s := rfl

@[simp] theorem read_cons (s : Lexer) (c : Char) (cs : List Char) :
    s.read (c :: cs) = (s.step c).read cs := rfl

theorem read_append (s : Lexer) (cs ds : List Char) :
    s.read (cs ++ ds) = (s.read cs).read ds :=
  List.foldl_append

/-- A word can begin or go on here. -/
def Outside (s : Lexer) : Prop :=
  s.mode = .word ∨ s.mode = .between ∧ s.part = []

/-- A piece of a word was read. -/
def extend (s : Lexer) (cs bare : List Char) : Lexer :=
  { s with mode := .word, part := s.part ++ cs, bare := s.bare ++ bare }

theorem extend_outside (s : Lexer) (cs bare : List Char) : (s.extend cs bare).Outside :=
  .inl rfl

theorem endWord_extend (s : Lexer) (cs bare : List Char) :
    (s.extend cs bare).endWord =
      { mode := .between, words := s.words ++ [s.part ++ cs], part := []
        bare := s.bare ++ bare } := rfl

theorem step_outside {s : Lexer} (h : s.Outside) (c : Char) : s.step c = s.unquoted c := by
  rcases h with h | ⟨h, -⟩ <;> simp [step, h]

theorem Outside.endWord {s : Lexer} (h : s.Outside) :
    s.endWord.Outside ∧ s.endWord.mode = .between ∧ s.endWord.part = [] ∧
      s.endWord.bare = s.bare := by
  rcases h with h | ⟨h, hpart⟩
  · simp [Lexer.endWord, Outside, h]
  · simp [Lexer.endWord, Outside, h, hpart]

end Lexer

open Lexer

/-- The words of a line; `none` when a quote is not closed or nothing follows a
backslash. -/
def split (line : List Char) : Option (List (List Char)) :=
  let s := (({} : Lexer).read line).endWord
  if s.mode = .between then some s.words else none

/-- The characters of a line that are unquoted and stand for themselves. -/
def bareChars (line : List Char) : List Char :=
  (({} : Lexer).read line).bare

/-- The lexer reads `text` as a piece `w` of a word, with `bare` unquoted. -/
def Spells (text w bare : List Char) : Prop :=
  ∀ s : Lexer, s.Outside → s.read text = s.extend w bare

/-- A character that stands for itself outside quotes. -/
def isPlain (c : Char) : Prop :=
  isBlank c = false ∧ c ≠ singleQuote ∧ c ≠ '\\'

theorem unquoted_plain {s : Lexer} {c : Char} (hc : isPlain c) :
    s.unquoted c = s.extend [c] [c] := by
  simp [unquoted, hc.1, hc.2.1, hc.2.2, extend]

/-- A word of plain characters spells itself. -/
theorem spells_bare {w : List Char} (hne : w ≠ []) (hw : ∀ c ∈ w, isPlain c) :
    Spells w w w := by
  intro s hs
  induction w generalizing s with
  | nil => exact absurd rfl hne
  | cons c w ih =>
      have hfirst : s.step c = s.extend [c] [c] := by
        rw [step_outside hs, unquoted_plain (hw c (by simp))]
      rw [read_cons, hfirst]
      cases w with
      | nil => rfl
      | cons d w =>
          rw [ih (by simp) (fun e he => hw e (by simp [he])) _ (extend_outside _ _ _)]
          simp [extend]

/-- What stands between single quotes for a character: the quote itself is put outside. -/
def inQuotes (c : Char) : List Char :=
  if c = singleQuote then [singleQuote, '\\', singleQuote, singleQuote] else [c]

theorem isBlank_singleQuote : isBlank singleQuote = false := by decide

theorem singleQuote_ne_backslash : singleQuote ≠ '\\' := by decide

/-- One character in quotes: the lexer is in quotes again, and has read it. -/
theorem read_inQuotes {s : Lexer} (hs : s.mode = .quoted) (c : Char) :
    s.read (inQuotes c) = { s with part := s.part ++ [c] } := by
  by_cases hc : c = singleQuote
  · subst hc
    have hbackslash : isBlank '\\' = false := by decide
    simp [inQuotes, step, hs, unquoted, isBlank_singleQuote, hbackslash,
      singleQuote_ne_backslash.symm]
  · simp [inQuotes, step, hs, hc]

theorem read_flatMap_inQuotes {s : Lexer} (hs : s.mode = .quoted) (w : List Char) :
    s.read (w.flatMap inQuotes) = { s with part := s.part ++ w } := by
  induction w generalizing s with
  | nil => simp
  | cons c w ih =>
      rw [List.flatMap_cons, read_append, read_inQuotes hs,
        ih (s := { s with part := s.part ++ [c] }) hs]
      simp

/-- Any word in quotes is spelled, and none of it is unquoted. -/
theorem spells_quoted (w : List Char) :
    Spells (singleQuote :: w.flatMap inQuotes ++ [singleQuote]) w [] := by
  intro s hs
  have hopen : s.step singleQuote = { s with mode := .quoted } := by
    rw [step_outside hs]
    simp [unquoted, isBlank_singleQuote]
  rw [List.cons_append, read_cons, hopen, read_append, read_flatMap_inQuotes rfl]
  simp [step, extend]

/-- A line of spellings, a blank before each. -/
def spaced (spell : List Char → List Char) (ws : List (List Char)) : List Char :=
  ws.flatMap fun w => ' ' :: spell w

section Lines

variable {spell bareOf : List Char → List Char}

theorem read_spaced {ws : List (List Char)}
    (hspell : ∀ w ∈ ws, Spells (spell w) w (bareOf w)) {s : Lexer} (hs : s.Outside) :
    (s.read (spaced spell ws)).endWord =
      { mode := .between, words := s.endWord.words ++ ws, part := []
        bare := s.bare ++ ws.flatMap bareOf } := by
  induction ws generalizing s with
  | nil =>
      obtain ⟨-, hmode, hpart, hbare⟩ := hs.endWord
      ext1 <;> simp [spaced, hmode, hpart, hbare]
  | cons w ws ih =>
      obtain ⟨houtside, -, hpart, hbare⟩ := hs.endWord
      have hblank : s.step ' ' = s.endWord := by
        rw [step_outside hs, unquoted, if_pos (by decide)]
      have hline : spaced spell (w :: ws) = ' ' :: (spell w ++ spaced spell ws) := by
        simp [spaced]
      rw [hline, read_cons, hblank, read_append, hspell w (by simp) _ houtside,
        ih (fun v hv => hspell v (by simp [hv])) (extend_outside _ _ _),
        endWord_extend, hpart]
      simp [extend, hbare]

theorem bare_endWord (s : Lexer) : s.endWord.bare = s.bare := by
  unfold endWord
  split <;> rfl

/-- A line of spellings is cut into the words. -/
theorem split_spaced {ws : List (List Char)}
    (hspell : ∀ w ∈ ws, Spells (spell w) w (bareOf w)) :
    split (spaced spell ws) = some ws ∧ bareChars (spaced spell ws) = ws.flatMap bareOf := by
  have hread := read_spaced hspell (s := {}) (.inr ⟨rfl, rfl⟩)
  constructor
  · rw [split, hread]
    rfl
  · rw [bareChars, ← bare_endWord, hread]
    rfl

/-- The blank before the first word makes no difference. -/
theorem split_blank (line : List Char) :
    split (' ' :: line) = split line ∧ bareChars (' ' :: line) = bareChars line := by
  have hblank : ({} : Lexer).step ' ' = {} := rfl
  simp [split, bareChars, hblank]

end Lines

end ShellWords
end Rexec
