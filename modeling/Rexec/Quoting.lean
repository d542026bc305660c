import Rexec.Console
import Rexec.Lib.ShellWords
import Mathlib.Tactic

/-!
# Quoted command lines

The banner of the host and the renderer of the client write a command line for a
human to read: each argument goes through `shell_quote`, of which there is one
copy in either file.

An argument of safe characters stands as it is; any other is put in single
quotes.  Both are spellings of the argument in the sense of the shell's lexer, so
the line is cut back into the arguments, and nothing in it has a meaning to the
shell.
-/

namespace Rexec

open ShellWords

namespace Client

/-- `is_safe` of the client's `shell_quote`. -/
def isSafe (c : Char) : Bool :=
  c.isAlphanum || c ∈ ['-', '_', '/', '.', '+', ':', '@', '=', ',', '%']

/-- The client's `shell_quote`. -/
def shellQuote (arg : String) : String :=
  if arg.isEmpty = false ∧ arg.toList.all isSafe = true then arg
  else
    String.ofList
      (quote ::
        (arg.toList.flatMap fun c =>
          if c = quote then [quote, '\\', quote, quote] else [c]) ++ [quote])

theorem shellQuote_eq : shellQuote = Rexec.shellQuote := rfl

end Client

/-- The arguments of a command, quoted, with a space between two. -/
def commandLine (quoteArg : String → String) (argv : List String) : String :=
  " ".intercalate (argv.map quoteArg)

/-- What the banner and the renderer put behind `TO=`, one argument at a time. -/
theorem join_commandLine (quoteArg : String → String) {argv : List String}
    (hne : argv ≠ []) :
    String.join (argv.map fun arg => " " ++ quoteArg arg) =
      " " ++ commandLine quoteArg argv := by
  induction argv with
  | nil => exact absurd rfl hne
  | cons arg argv ih =>
      cases argv with
      | nil => simp [commandLine, String.join]
      | cons next argv =>
          have hrest := ih (by simp)
          apply String.toList_inj.mp
          have hrest := congrArg String.toList hrest
          simp only [commandLine, List.map_cons, String.intercalate_cons_cons,
            String.toList_join, List.flatMap_cons, String.toList_append] at hrest ⊢
          rw [hrest]
          simp

/-- A line of arguments says what the arguments are: a shell reads them back from it, and
finds nothing else in it. -/
structure Faithful (quoteArg : String → String) : Prop where
  splits : ∀ argv : List String,
    (split (commandLine quoteArg argv).toList).map (·.map String.ofList) = some argv
  harmless : ∀ argv : List String,
    ∀ c ∈ bareChars (commandLine quoteArg argv).toList, isSpecial c = false
  injective : Function.Injective (commandLine quoteArg)

/-! ## What is safe -/

theorem isSafe_of_isSpecial {c : Char} (h : isSpecial c = true) : isSafe c = false := by
  simp only [isSpecial, decide_eq_true_eq, List.mem_cons, List.not_mem_nil, or_false] at h
  rcases h with rfl | rfl | rfl | rfl | rfl | rfl | rfl | rfl | rfl | rfl | rfl | rfl | rfl |
    rfl | rfl | rfl | rfl | rfl | rfl | rfl <;> decide

theorem isSafe_special {c : Char} (h : isSafe c = true) : isSpecial c = false := by
  by_contra hspecial
  rw [isSafe_of_isSpecial (Bool.not_eq_false _ ▸ hspecial)] at h
  cases h

theorem isSafe_plain {c : Char} (h : isSafe c = true) : isPlain c := by
  refine ⟨?_, ?_, ?_⟩
  · by_contra hblank
    rw [Bool.not_eq_false, isBlank, decide_eq_true_eq, List.mem_cons,
      List.mem_singleton] at hblank
    rcases hblank with rfl | rfl <;> exact absurd h (by decide)
  · rintro rfl
    exact absurd h (by decide)
  · rintro rfl
    exact absurd h (by decide)

/-! ## The spelling of an argument -/

/-- The characters of an argument that stay unquoted. -/
def unquotedOf (w : List Char) : List Char :=
  if w ≠ [] ∧ w.all isSafe = true then w else []

theorem unquotedOf_safe {w : List Char} {c : Char} (h : c ∈ unquotedOf w) :
    isSafe c = true := by
  unfold unquotedOf at h
  split at h
  · rename_i hsafe
    exact List.all_eq_true.mp hsafe.2 c h
  · cases h

theorem shellQuote_spells (w : List Char) :
    Spells (shellQuote (String.ofList w)).toList w (unquotedOf w) := by
  by_cases hsafe : w ≠ [] ∧ w.all isSafe = true
  · have hquote : shellQuote (String.ofList w) = String.ofList w := by
      rw [shellQuote, if_pos]
      exact ⟨by simpa using hsafe.1, by simpa using hsafe.2⟩
    rw [hquote, unquotedOf, if_pos hsafe, String.toList_ofList]
    exact spells_bare hsafe.1 fun c hc => isSafe_plain (List.all_eq_true.mp hsafe.2 c hc)
  · have hquote : (shellQuote (String.ofList w)).toList =
        singleQuote :: w.flatMap inQuotes ++ [singleQuote] := by
      rw [shellQuote, if_neg, String.toList_ofList, String.toList_ofList]
      · rfl
      · simpa using hsafe
    rw [hquote, unquotedOf, if_neg hsafe]
    exact spells_quoted w

theorem commandLine_spaced {argv : List String} (hne : argv ≠ []) :
    ' ' :: (commandLine shellQuote argv).toList =
      spaced (fun w => (shellQuote (String.ofList w)).toList) (argv.map String.toList) := by
  have hline := congrArg String.toList (join_commandLine shellQuote hne)
  rw [String.toList_append, String.toList_join, List.flatMap_map] at hline
  calc ' ' :: (commandLine shellQuote argv).toList
      = argv.flatMap fun arg => (" " ++ shellQuote arg).toList := hline.symm
    _ = spaced (fun w => (shellQuote (String.ofList w)).toList)
          (argv.map String.toList) := by
        rw [spaced, List.flatMap_map]
        congr 1
        funext arg
        simp

/-- What the lexer makes of a line of quoted arguments. -/
theorem split_commandLine (argv : List String) :
    split (commandLine shellQuote argv).toList = some (argv.map String.toList) ∧
      bareChars (commandLine shellQuote argv).toList =
        (argv.map String.toList).flatMap unquotedOf := by
  by_cases hne : argv = []
  · subst hne
    exact ⟨rfl, rfl⟩
  · have hspells : ∀ w ∈ argv.map String.toList,
        Spells (shellQuote (String.ofList w)).toList w (unquotedOf w) :=
      fun w _ => shellQuote_spells w
    have hspaced := split_spaced hspells
    rw [← commandLine_spaced hne, (split_blank _).1, (split_blank _).2] at hspaced
    exact hspaced

theorem faithful_shellQuote : Faithful shellQuote := by
  have hsplits : ∀ argv : List String,
      (split (commandLine shellQuote argv).toList).map (·.map String.ofList) =
        some argv := by
    intro argv
    rw [(split_commandLine argv).1, Option.map_some, List.map_map]
    simp [Function.comp_def]
  refine ⟨hsplits, ?_, ?_⟩
  · intro argv c hc
    rw [(split_commandLine argv).2] at hc
    obtain ⟨w, -, hw⟩ := List.mem_flatMap.mp hc
    exact isSafe_special (unquotedOf_safe hw)
  · intro argv argv' heq
    have hboth := hsplits argv
    rw [heq, hsplits argv'] at hboth
    exact (Option.some_inj.mp hboth).symm

/-- Both copies of `shell_quote` are faithful. -/
theorem command_lines_faithful : Faithful shellQuote ∧ Faithful Client.shellQuote := by
  rw [Client.shellQuote_eq]
  exact ⟨faithful_shellQuote, faithful_shellQuote⟩

/-- An argument of every kind: safe, empty, with a quote, with blanks. -/
example : commandLine shellQuote ["a=b", "", "it" ++ String.singleton quote ++ "s", "x y"] =
    String.ofList ("a=b QQ QitQ\\QQsQ Qx yQ".toList.map fun c =>
      if c = 'Q' then quote else c) := by decide

end Rexec
