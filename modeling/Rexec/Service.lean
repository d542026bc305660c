import Rexec.Text
import Rexec.Lib.UnitFiles

/-!
# The systemd unit

`rexec --install-service` writes a user unit whose `ExecStart` names the path of
the executable, in double quotes.  Backslashes and quotes of the path are
escaped and its percent signs doubled, in three replacements one after the other.

* `quoteSystemdArg` and `unitContents` are the functions of `service.rs`.
* `toList_quoted`: the three replacements are one, character by character, first
  of the percent signs and then of the rest.
* `unit_round_trip`: what is read from the unit is the path, and the two options.
-/

namespace Rexec

open UnitFiles

/-- `char::is_control`. -/
def isControl (c : Char) : Bool :=
  c.toNat ≤ 0x1f || (0x7f ≤ c.toNat && c.toNat ≤ 0x9f)

/-- `str::replace` of a character. -/
def replaceChar (c : Char) (replacement s : String) : String :=
  String.ofList (s.toList.flatMap fun d => if d = c then replacement.toList else [d])

def quoteSystemdArg (value : List UInt8) : Except String String :=
  match fromUtf8 value with
  | none => .error "rexec executable path is not valid UTF-8"
  | some value =>
      if value.toList.any isControl then
        .error "rexec executable path contains a control character"
      else
        let escaped :=
          replaceChar '%' "%%" (replaceChar '"' "\\\"" (replaceChar '\\' "\\\\" value))
        .ok ("\"" ++ escaped ++ "\"")

/-- The lines of the unit before and after the one of `ExecStart`. -/
def unitStart : String :=
  "[Unit]\nDescription=rexec per-user command execution host\n\n[Service]\nType=simple"

def unitEnd : String :=
  "Restart=on-failure\n\n[Install]\nWantedBy=default.target\n"

def unitContents (executable : List UInt8) : Except String String :=
  match quoteSystemdArg executable with
  | .error e => .error e
  | .ok executable =>
      .ok (unitStart ++ "\nExecStart=" ++ executable ++ " --start-host --silent\n" ++ unitEnd)

/-! ## The quoted path -/

theorem toList_replaceChar (c : Char) (replacement s : String) :
    (replaceChar c replacement s).toList =
      s.toList.flatMap fun d => if d = c then replacement.toList else [d] :=
  String.toList_ofList

/-- The three replacements, of one character. -/
theorem replacements_char (c : Char) :
    (((if c = '\\' then "\\\\".toList else [c]).flatMap fun d =>
        if d = '"' then "\\\"".toList else [d]).flatMap fun d =>
          if d = '%' then "%%".toList else [d]) =
      (doubleChar c).flatMap escapeChar := by
  by_cases hbackslash : c = '\\'
  · subst hbackslash
    rfl
  · by_cases hquote : c = '"'
    · subst hquote
      rfl
    · by_cases hpercent : c = '%'
      · subst hpercent
        rfl
      · simp [doubleChar, escapeChar, hbackslash, hquote, hpercent]

/-- What stands between the quotes: the percent signs are doubled, and then the
backslashes and quotes escaped. -/
theorem toList_replacements (text : String) :
    (replaceChar '%' "%%" (replaceChar '"' "\\\"" (replaceChar '\\' "\\\\" text))).toList =
      (text.toList.flatMap doubleChar).flatMap escapeChar := by
  simp only [toList_replaceChar, List.flatMap_assoc]
  refine List.flatMap_congr fun c _ => ?_
  rw [← replacements_char, List.flatMap_assoc]

/-- A path can be quoted if it is UTF-8 without control characters. -/
theorem quoteSystemdArg_cases (value : List UInt8) :
    (∃ e, quoteSystemdArg value = .error e) ∧
        ((¬ ∃ text, value = bytes text) ∨
          ∃ text, value = bytes text ∧ ∃ c ∈ text.toList, isControl c = true) ∨
      ∃ text quoted, value = bytes text ∧ (∀ c ∈ text.toList, isControl c = false) ∧
        quoteSystemdArg value = .ok quoted ∧
        quoted.toList =
          '"' :: (text.toList.flatMap doubleChar).flatMap escapeChar ++ ['"'] := by
  rcases hutf8 : fromUtf8 value with _ | text
  · refine .inl ⟨⟨_, by simp only [quoteSystemdArg, hutf8]; rfl⟩, .inl ?_⟩
    rintro ⟨text, hbytes⟩
    rw [fromUtf8_eq_some_iff.mpr hbytes] at hutf8
    cases hutf8
  · have hbytes := fromUtf8_eq_some_iff.mp hutf8
    by_cases hcontrol : text.toList.any isControl = true
    · refine .inl ⟨⟨_, by simp only [quoteSystemdArg, hutf8, hcontrol, if_true]; rfl⟩, .inr ?_⟩
      exact ⟨text, hbytes, List.any_eq_true.mp hcontrol⟩
    · refine .inr ⟨text, _, hbytes, by simpa using hcontrol,
        by simp only [quoteSystemdArg, hutf8, hcontrol]; rfl, ?_⟩
      simp [toList_replacements]

theorem quoteSystemdArg_error_iff {value : List UInt8} :
    (∃ e, quoteSystemdArg value = .error e) ↔
      (¬ ∃ text, value = bytes text) ∨
        ∃ text, value = bytes text ∧ ∃ c ∈ text.toList, isControl c = true := by
  rcases quoteSystemdArg_cases value with ⟨herror, hwhy⟩ | ⟨text, quoted, hbytes, hplain, hok, -⟩
  · exact iff_of_true herror hwhy
  · refine iff_of_false ?_ ?_
    · rintro ⟨e, herror⟩
      rw [hok] at herror
      cases herror
    · rintro (hnone | ⟨text', hbytes', c, hc, hcontrol⟩)
      · exact hnone ⟨text, hbytes⟩
      · rw [bytes_inj.mp (hbytes.symm.trans hbytes')] at hplain
        rw [hplain c hc] at hcontrol
        cases hcontrol

/-- No line ends inside the quoted path. -/
theorem newline_notin_quoted {text : List Char} (h : ∀ c ∈ text, isControl c = false) :
    '\n' ∉ (text.flatMap doubleChar).flatMap escapeChar := by
  simp only [List.mem_flatMap, not_exists, not_and]
  rintro d ⟨c, hc, hd⟩ hnewline
  have hd' : '\n' = d := by
    unfold escapeChar at hnewline
    split at hnewline
    · rename_i hspecial
      rcases hspecial with rfl | rfl <;> simp at hnewline
    · simpa using hnewline
  have hc' : '\n' = c := by
    rw [← hd'] at hd
    unfold doubleChar at hd
    split at hd
    · simp at hd
    · simpa using hd
  have hcontrol := h c hc
  rw [← hc'] at hcontrol
  cases hcontrol

/-! ## The unit -/

/-- The words of a quoted path with the two options behind it. -/
theorem split_execStart (R : Reading) (body : List Char) :
    split R ('"' :: body.flatMap escapeChar ++ '"' :: " --start-host --silent".toList) =
      some [body, "--start-host".toList, "--silent".toList] := by
  have hall : ("--start-host".toList ++ "--silent".toList).all
      (fun c => !isBlank c && !isQuote c && c != '\\') = true := by
    decide
  have hplain : ∀ c ∈ "--start-host".toList ++ "--silent".toList,
      isBlank c = false ∧ isQuote c = false ∧ c ≠ '\\' := by
    intro c hc
    have hc' := List.all_eq_true.mp hall c hc
    simpa [and_assoc] using hc'
  have hword : Lexer.read R {} ('"' :: body.flatMap escapeChar ++ ['"', ' ']) =
      { mode := .between, words := [body], part := [] } := by
    have hbody := read_escaped R body [] []
    rw [List.cons_append, ← List.singleton_append, Lexer.read_append,
      show Lexer.read R {} ['"'] = { mode := .quoted '"', words := [], part := [] } from rfl,
      Lexer.read_append, hbody]
    rfl
  have hline : ('"' :: body.flatMap escapeChar ++ '"' :: " --start-host --silent".toList) =
      ('"' :: body.flatMap escapeChar ++ ['"', ' ']) ++ ("--start-host".toList ++
        ([' '] ++ "--silent".toList)) := by
    simp
  rw [split, hline, Lexer.read_append, hword, Lexer.read_append,
    read_plain R [body] (by decide) fun c hc => hplain c (List.mem_append_left _ hc),
    Lexer.read_append,
    show Lexer.read R { mode := .word, words := [body], part := "--start-host".toList } [' '] =
      { mode := .between, words := [body, "--start-host".toList], part := [] } from rfl,
    read_plain R _ (by decide) fun c hc => hplain c (List.mem_append_right _ hc)]
  rfl

/-- The unit is cut where its `ExecStart` line begins and ends. -/
theorem lines_unit {value : List Char} (hvalue : '\n' ∉ value) :
    lines (unitStart.toList ++ '\n' :: ("ExecStart=".toList ++ value ++ '\n' ::
        unitEnd.toList)) =
      lines unitStart.toList ++ ("ExecStart=".toList ++ value) :: lines unitEnd.toList := by
  have hline : '\n' ∉ "ExecStart=".toList ++ value := by
    simp [hvalue]
  rw [lines, List.splitOn_append_cons_self, List.splitOn_append_cons_self_of_not_mem hline]
  rfl

/-- The other lines set something else and end where they end. -/
theorem other_lines :
    ∀ line ∈ lines unitStart.toList ++ lines unitEnd.toList,
      valueIn "ExecStart".toList line = none ∧ ¬ continued line := by
  unfold continued
  decide

theorem values_unit (unit : List Char) {value : List Char} (hvalue : '\n' ∉ value)
    (hlast : value.getLast? = some 't')
    (hunit : unit = unitStart.toList ++ '\n' :: ("ExecStart=".toList ++ value ++ '\n' ::
      unitEnd.toList)) :
    values "ExecStart".toList unit = [value] ∧ ∀ line ∈ lines unit, ¬ continued line := by
  have hlines := lines_unit hvalue
  rw [← hunit] at hlines
  constructor
  · exact values_eq_singleton hlines fun line hline => (other_lines line hline).1
  · rw [hlines]
    intro line hline
    rcases List.mem_append.mp hline with hline | hline
    · exact (other_lines line (List.mem_append_left _ hline)).2
    · rcases List.mem_cons.mp hline with rfl | hline
      · rw [continued, List.getLast?_append, hlast]
        decide
      · exact (other_lines line (List.mem_append_right _ hline)).2

/-- The value of `ExecStart` is read as the path and the two options. -/
theorem argv_execStart (R : Reading) (text : List Char) :
    argv R ('"' :: (text.flatMap doubleChar).flatMap escapeChar ++
        '"' :: " --start-host --silent".toList) =
      some [text, "--start-host".toList, "--silent".toList] := by
  rw [argv, split_execStart]
  simp only [Option.map_some, List.map_cons, List.map_nil, expand_doubled]
  rfl

/--
`quote_systemd_arg` fails exactly if the path is not UTF-8 or has a control
character.  Else one line of the unit sets `ExecStart`, and its value is read,
whatever the other escapes and specifiers mean, as the path and the two options;
no specifier is left in it.
-/
theorem unit_round_trip (executable : List UInt8) :
    ((∃ e, quoteSystemdArg executable = .error e) ↔
      (¬ ∃ text, executable = bytes text) ∨
        ∃ text, executable = bytes text ∧ ∃ c ∈ text.toList, isControl c = true) ∧
    ∀ quoted, quoteSystemdArg executable = .ok quoted →
      ∃ unit value, unitContents executable = .ok unit ∧
        values "ExecStart".toList unit.toList = [value] ∧
        (∀ line ∈ lines unit.toList, ¬ continued line) ∧
        ∀ R,
          (argv R value).map (List.map fun w => bytes (String.ofList w)) =
            some [executable, bytes "--start-host", bytes "--silent"] ∧
          ∀ words, split R value = some words → ∀ w ∈ words, ∀ c, .specifier c ∉ pieces w := by
  refine ⟨quoteSystemdArg_error_iff, fun quoted hok => ?_⟩
  obtain ⟨⟨e, herror⟩, -⟩ | ⟨text, quoted', rfl, hplain, hok', hquoted⟩ :=
    quoteSystemdArg_cases executable
  · rw [hok] at herror
    cases herror
  cases hok.symm.trans hok'
  have hvalue : (quoted ++ " --start-host --silent").toList =
      '"' :: (text.toList.flatMap doubleChar).flatMap escapeChar ++
        '"' :: " --start-host --silent".toList := by
    simp [hquoted]
  have hnewline : '\n' ∉ (quoted ++ " --start-host --silent").toList := by
    rw [hvalue]
    have hbody := newline_notin_quoted hplain
    simpa using hbody
  have hlast : (quoted ++ " --start-host --silent").toList.getLast? = some 't' := by
    rw [String.toList_append, List.getLast?_append]
    rfl
  obtain ⟨hvalues, hlines⟩ := values_unit
    (unitStart ++ "\nExecStart=" ++ quoted ++ " --start-host --silent\n" ++ unitEnd).toList
    hnewline hlast (by simp)
  refine ⟨_, _, by simp only [unitContents, hok], hvalues, hlines, fun R => ?_⟩
  rw [hvalue]
  constructor
  · rw [argv_execStart]
    simp
  · intro words hsplit w hw c
    rw [split_execStart] at hsplit
    cases hsplit
    have hoptions : ∀ option ∈ ["--start-host".toList, "--silent".toList], '%' ∉ option := by
      decide
    rcases List.mem_cons.mp hw with rfl | hw
    · exact specifier_notin_doubled _ _
    · rw [← doubled_of_notin (hoptions w hw)]
      exact specifier_notin_doubled _ _

/-- A path with everything that is quoted in it. -/
theorem unit_round_trip_sample :
    ∃ unit value, unitContents (bytes "/opt/100%/re\\xec\"bin") = .ok unit ∧
      values "ExecStart".toList unit.toList = [value] ∧
      (∀ line ∈ lines unit.toList, ¬ continued line) ∧
      ∀ R,
        (argv R value).map (List.map fun w => bytes (String.ofList w)) =
          some [bytes "/opt/100%/re\\xec\"bin", bytes "--start-host", bytes "--silent"] ∧
        ∀ words, split R value = some words → ∀ w ∈ words, ∀ c, .specifier c ∉ pieces w :=
  (unit_round_trip (bytes "/opt/100%/re\\xec\"bin")).2
    "\"/opt/100%%/re\\\\xec\\\"bin\"" rfl

end Rexec
