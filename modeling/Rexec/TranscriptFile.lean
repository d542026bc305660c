import Rexec.Wire
import Rexec.Lib.BufWriter
import Rexec.Lib.Lines
import Mathlib.Tactic

/-!
# The transcript file

One writer appends entries as lines of JSON through a buffered writer; three
readers read the file back: `read_entries`, which lists it, `count_lines`, and
`render_until_eof`, which renders what was added behind an offset.

The device of the buffered writer is the file.  `Faults` gives the outcomes of
the transfers to it that one append may make.

* `readLines_eq`, `countLines_eq` and `renderUntilEof_flatten` say what the
  readers make of the lines of a file.
* `journal_round_trip`: when every append succeeds, all three find what was
  appended.
-/

namespace Rexec

open BufWriter

/-! ## The writer -/

/-- The outcomes of the transfers of one append, in their order. -/
structure Faults where
  beforeLine : Transfer
  line : Transfer
  beforeNewline : Transfer
  newline : Transfer
  flush : Transfer
deriving DecidableEq

/-- Nothing fails. -/
def Faults.clear : Faults :=
  ⟨none, none, none, none, none⟩

/-- The capacity of a `BufWriter` made by `BufWriter::new`. -/
def bufWriterCapacity : Nat := 8192

namespace TranscriptWriter

variable (J : JsonText) (capacity : Nat)

/-- `append`; the flag is whether it returns `Ok`. -/
def append (w : Writer UInt8) (entry : TranscriptEntry) (faults : Faults) :
    Writer UInt8 × Bool :=
  match w.writeAll capacity (bytes (J.toString entry.toJson))
      faults.beforeLine faults.line with
  | (w, false) => (w, false)
  | (w, true) =>
      match w.writeAll capacity [lineFeed] faults.beforeNewline faults.newline with
      | (w, false) => (w, false)
      | (w, true) => w.flushBuf faults.flush

/-- Calls of `append`, one after another: the writer, and the entries whose call
returned `Ok`. -/
def appendAll : Writer UInt8 → List (TranscriptEntry × Faults) →
    Writer UInt8 × List TranscriptEntry
  | w, [] => (w, [])
  | w, (entry, faults) :: calls =>
      let appended := append J capacity w entry faults
      let rest := appendAll appended.1 calls
      (rest.1, if appended.2 then entry :: rest.2 else rest.2)

/-- The line of an entry in the file. -/
def entryLine (entry : TranscriptEntry) : List UInt8 :=
  bytes (J.toString entry.toJson) ++ [lineFeed]

variable {J capacity}

theorem append_device {w : Writer UInt8} {entry : TranscriptEntry} {faults : Faults} :
    w.device <+: (append J capacity w entry faults).1.device := by
  have hline : w.device <+: (w.writeAll capacity (bytes (J.toString entry.toJson))
      faults.beforeLine faults.line).1.device := Writer.writeAll_device
  unfold append
  split
  · rename_i w' heq
    rw [heq] at hline
    exact hline
  · rename_i w' heq
    rw [heq] at hline
    have hnewline : w'.device <+: (w'.writeAll capacity [lineFeed]
        faults.beforeNewline faults.newline).1.device := Writer.writeAll_device
    split
    · rename_i w'' heq'
      rw [heq'] at hnewline
      exact hline.trans hnewline
    · rename_i w'' heq'
      rw [heq'] at hnewline
      exact (hline.trans hnewline).trans Writer.flushBuf_device

/-- An append that succeeds leaves in the file what was there or waited, and its
line. -/
theorem append_ok {w : Writer UInt8} {entry : TranscriptEntry} {faults : Faults}
    (h : (append J capacity w entry faults).2 = true) :
    (append J capacity w entry faults).1 = ⟨w.total ++ entryLine J entry, []⟩ := by
  unfold append at h ⊢
  rcases hline : w.writeAll capacity (bytes (J.toString entry.toJson))
    faults.beforeLine faults.line with ⟨w', ok⟩
  rw [hline] at h
  cases ok with
  | false => cases h
  | true =>
      simp only at h ⊢
      rcases hnewline : w'.writeAll capacity [lineFeed] faults.beforeNewline
        faults.newline with ⟨w'', ok⟩
      rw [hnewline] at h
      cases ok with
      | false => cases h
      | true =>
          have htotal : w''.total = w.total ++ entryLine J entry := by
            rw [Writer.writeAll_ok hnewline, Writer.writeAll_ok hline, entryLine,
              List.append_assoc]
          simp only at h ⊢
          rw [Writer.flushBuf_ok h, htotal]

end TranscriptWriter

open TranscriptWriter

/-! ## The readers -/

/-- `BufRead::lines` takes the line feed off, and a carriage return before it. -/
def stripLineEnd (s : String) : String :=
  match s.toList.reverse with
  | '\n' :: '\r' :: cs => String.ofList cs.reverse
  | '\n' :: cs => String.ofList cs.reverse
  | _ => s

/-- What `BufRead::lines` yields; `none` is the error for a line that is not UTF-8. -/
def fileLines (file : List UInt8) : List (Option String) :=
  (Lines.split lineFeed file).map fun l => (fromUtf8 l).map stripLineEnd

section Readers

variable (J : JsonText)

/-- The loop of `read_entries`. -/
def readLines : List (Option String) → Option (List TranscriptEntry)
  | [] => some []
  | none :: _ => none
  | some line :: rest =>
      if (trim line).isEmpty then readLines rest
      else
        match J.decode TranscriptEntry.ofJson line with
        | some entry => (readLines rest).map (entry :: ·)
        | none => readLines rest

/-- `read_entries`; `none` is an `Err`. -/
def readEntries (file : List UInt8) : Option (List TranscriptEntry) :=
  readLines J (fileLines file)

/-- The loop of `count_lines`. -/
def countFrom (count : Nat) : List (Option String) → Option Nat
  | [] => some count
  | none :: _ => none
  | some line :: rest =>
      countFrom (if (trim line).isEmpty then count else count + 1) rest

def countLines (file : List UInt8) : Option Nat :=
  countFrom 0 (fileLines file)

/-- One round of `render_until_eof`: the entry that is rendered for a line. -/
def renderLine (line : List UInt8) : Option TranscriptEntry :=
  if line.isEmpty then none
  else
    match fromUtf8 line with
    | some text => J.decode TranscriptEntry.ofJson (trimEnd text)
    | none => none

/-- The loop of `render_until_eof` over what is left of the tail: what is rendered and
how many bytes are consumed.  Each round takes a line; the number bounds them. -/
def renderLoop : Nat → List UInt8 → List TranscriptEntry × Nat
  | 0, _ => ([], 0)
  | n + 1, tail =>
      match Lines.takeLine lineFeed tail with
      | none => ([], 0)
      | some (line, rest) =>
          let more := renderLoop n rest
          ((renderLine J line.dropLast).toList ++ more.1, line.length + more.2)

/-- `render_until_eof`: what is rendered, and the new offset. -/
def renderUntilEof (file : List UInt8) (offset : Nat) : List TranscriptEntry × Nat :=
  if file.length ≤ offset then ([], offset)
  else
    let tail := file.drop offset
    let rendered := renderLoop J (tail.length + 1) tail
    (rendered.1, offset + rendered.2)

/-- The entry `read_entries` finds in a line. -/
def entryOf (line : String) : Option TranscriptEntry :=
  if (trim line).isEmpty then none else J.decode TranscriptEntry.ofJson line

variable {J}

/-- `read_entries` fails on a line that is not UTF-8, and skips what is no entry. -/
theorem readLines_eq (lines : List (Option String)) :
    readLines J lines =
      if none ∈ lines then none else some (lines.filterMap fun l => l.bind (entryOf J)) := by
  induction lines with
  | nil => rfl
  | cons line lines ih =>
      cases line with
      | none => simp [readLines]
      | some line =>
          by_cases hblank : (trim line).isEmpty = true
          · simp [readLines, hblank, ih, entryOf]
          · cases hentry : J.decode TranscriptEntry.ofJson line with
            | none => simp [readLines, hblank, hentry, ih, entryOf]
            | some entry =>
                by_cases hmem : none ∈ lines <;>
                  simp [readLines, hblank, hentry, ih, entryOf, hmem]

theorem countFrom_eq (count : Nat) {lines : List String}
    (h : ∀ line ∈ lines, (trim line).isEmpty = false) :
    countFrom count (lines.map some) = some (count + lines.length) := by
  induction lines generalizing count with
  | nil => rfl
  | cons line lines ih =>
      rw [List.map_cons, countFrom, h line (by simp), if_neg (by simp),
        ih _ fun l hl => h l (by simp [hl]), List.length_cons]
      congr 1
      omega

/-- The rounds of `render_until_eof`, over the lines of the tail. -/
theorem renderLoop_flatten {lines : List (List UInt8)} {part : List UInt8} {n : Nat}
    (hlines : ∀ l ∈ lines, Lines.IsLine lineFeed l) (hpart : lineFeed ∉ part)
    (hn : lines.length < n) :
    renderLoop J n (lines.flatten ++ part) =
      (lines.filterMap fun l => renderLine J l.dropLast, lines.flatten.length) := by
  induction lines generalizing n with
  | nil =>
      cases n with
      | zero => omega
      | succ n =>
          rw [List.flatten_nil, List.nil_append, renderLoop, Lines.takeLine_eq_none hpart]
          rfl
  | cons line lines ih =>
      cases n with
      | zero => omega
      | succ n =>
          rw [List.flatten_cons, List.append_assoc, renderLoop,
            Lines.takeLine_line_append (hlines line (by simp))]
          simp only
          rw [ih (fun l hl => hlines l (by simp [hl]))
            (by rw [List.length_cons] at hn; omega), List.length_append]
          cases h : renderLine J line.dropLast <;> simp [h]

theorem length_le_flatten {lines : List (List UInt8)}
    (hlines : ∀ l ∈ lines, Lines.IsLine lineFeed l) :
    lines.length ≤ lines.flatten.length := by
  induction lines with
  | nil => exact Nat.le_refl _
  | cons line lines ih =>
      have hpos : 0 < line.length := List.length_pos_of_ne_nil (hlines line (by simp)).ne_nil
      have hrest := ih fun l hl => hlines l (by simp [hl])
      rw [List.flatten_cons, List.length_append, List.length_cons]
      omega

/-- From offset `0` the complete lines of a file are rendered, and the offset is left
behind the last of them. -/
theorem renderUntilEof_flatten {lines : List (List UInt8)} {part : List UInt8}
    (hlines : ∀ l ∈ lines, Lines.IsLine lineFeed l) (hpart : lineFeed ∉ part) :
    renderUntilEof J (lines.flatten ++ part) 0 =
      (lines.filterMap fun l => renderLine J l.dropLast, lines.flatten.length) := by
  unfold renderUntilEof
  split
  · rename_i hempty
    have hnil : lines = [] := by
      have hle := length_le_flatten hlines
      rw [List.length_append] at hempty
      exact List.eq_nil_of_length_eq_zero (by omega)
    rw [hnil]
    rfl
  · have hrounds : lines.length < (lines.flatten ++ part).length + 1 := by
      have hle := length_le_flatten hlines
      rw [List.length_append]
      omega
    have hloop := renderLoop_flatten (J := J) hlines hpart hrounds
    simp only [List.drop_zero, hloop, Nat.zero_add]

end Readers

/-! ## The lines of entries -/

theorem bytes_concat_lineFeed (text : String) :
    bytes text ++ [lineFeed] = bytes (text ++ "\n") := by
  rw [bytes_append]
  rfl

/-- `BufRead::lines` gives a text back that was written with a line feed. -/
theorem lineOf_text {text : String} {body : List Char} {c : Char}
    (htext : text.toList = body ++ [c]) (hc : c ≠ '\r') :
    (fromUtf8 (bytes text ++ [lineFeed])).map stripLineEnd = some text := by
  have hlist : (text ++ "\n").toList.reverse = '\n' :: c :: body.reverse := by
    rw [String.toList_append, htext]
    simp
  have hstrip : stripLineEnd (text ++ "\n") = text := by
    rw [stripLineEnd, hlist]
    split
    · rename_i heq
      exact absurd (List.cons_eq_cons.mp (List.cons_eq_cons.mp heq).2).1 hc
    · rename_i heq
      rw [← (List.cons_eq_cons.mp heq).2, List.reverse_cons, List.reverse_reverse, ← htext,
        String.ofList_toList]
    · rename_i hother
      exact absurd rfl (hother _)
  rw [bytes_concat_lineFeed, fromUtf8_bytes, Option.map_some, hstrip]

section Entries

variable {J : JsonText} (hJ : J.Lawful)

include hJ

theorem TranscriptEntry.decode_toString (e : TranscriptEntry) :
    J.decode TranscriptEntry.ofJson (J.toString e.toJson) = some e := by
  rw [JsonText.decode, hJ.fromStr_toString _ (e.plain.mono (by omega)), Option.bind_some,
    e.ofJson_toJson]

/-- The text of an entry ends in a brace. -/
theorem TranscriptEntry.toString_ends (e : TranscriptEntry) :
    ∃ body, (J.toString e.toJson).toList = body ++ ['\x7d'] :=
  hJ.objectEnds _

theorem entryLine_isLine (e : TranscriptEntry) :
    Lines.IsLine lineFeed (entryLine J e) := by
  have hline : Lines.IsLine '\n' (J.toString e.toJson ++ "\n").toList := by
    refine ⟨_, hJ.noLineFeed _ (e.plain.mono (by omega)), ?_⟩
    rw [String.toList_append]
    rfl
  rw [entryLine, bytes_concat_lineFeed]
  exact isLine_bytes hline

/-- `BufRead::lines` gives the text of an entry back. -/
theorem lineOf_entryLine (e : TranscriptEntry) :
    (fromUtf8 (entryLine J e)).map stripLineEnd = some (J.toString e.toJson) := by
  obtain ⟨body, hbody⟩ := e.toString_ends hJ
  rw [entryLine, lineOf_text hbody (by decide)]

theorem entryOf_entryLine (e : TranscriptEntry) :
    entryOf J (J.toString e.toJson) = some e := by
  obtain ⟨body, hbody⟩ := e.toString_ends hJ
  rw [entryOf, trim_not_empty hbody (by decide), if_neg (by simp), e.decode_toString hJ]

theorem renderLine_entryLine (e : TranscriptEntry) :
    renderLine J (entryLine J e).dropLast = some e := by
  obtain ⟨body, hbody⟩ := e.toString_ends hJ
  have htrim : trimEnd (J.toString e.toJson) = J.toString e.toJson := by
    rw [trimEnd, hbody, List.rdropWhile_concat_neg _ _ _ (by decide), ← hbody,
      String.ofList_toList]
  have hnonempty : (bytes (J.toString e.toJson)).isEmpty = false := by
    rw [bytes, hbody, List.flatMap_append]
    simp [String.utf8EncodeChar]
  rw [entryLine, List.dropLast_concat, renderLine, hnonempty, if_neg (by simp), fromUtf8_bytes]
  simp only
  rw [htrim, e.decode_toString hJ]

theorem entryLines_isLine (es : List TranscriptEntry) :
    ∀ l ∈ es.map (entryLine J), Lines.IsLine lineFeed l := by
  intro l hl
  obtain ⟨e, -, rfl⟩ := List.mem_map.mp hl
  exact entryLine_isLine hJ e

theorem fileLines_entries (es : List TranscriptEntry) :
    fileLines (es.map (entryLine J)).flatten =
      (es.map fun e => J.toString e.toJson).map some := by
  rw [fileLines, Lines.split_flatten (entryLines_isLine hJ es), List.map_map, List.map_map]
  apply List.map_congr_left
  intro e _
  exact lineOf_entryLine hJ e

theorem readEntries_entries (es : List TranscriptEntry) :
    readEntries J (es.map (entryLine J)).flatten = some es := by
  rw [readEntries, fileLines_entries hJ, readLines_eq, if_neg (by simp)]
  congr 1
  induction es with
  | nil => rfl
  | cons e es ih =>
      rw [List.map_cons, List.map_cons, List.filterMap_cons, Option.bind_some,
        entryOf_entryLine hJ, ih]

theorem countLines_entries (es : List TranscriptEntry) :
    countLines (es.map (entryLine J)).flatten = some es.length := by
  rw [countLines, fileLines_entries hJ, countFrom_eq]
  · simp
  · intro text htext
    obtain ⟨e, -, rfl⟩ := List.mem_map.mp htext
    obtain ⟨body, hbody⟩ := e.toString_ends hJ
    exact trim_not_empty hbody (by decide)

theorem renderUntilEof_entries (es : List TranscriptEntry) :
    renderUntilEof J (es.map (entryLine J)).flatten 0 =
      (es, (es.map (entryLine J)).flatten.length) := by
  have hrender := renderUntilEof_flatten (J := J) (entryLines_isLine hJ es)
    (show lineFeed ∉ [] by simp)
  have hsame : ((fun l => renderLine J l.dropLast) ∘ entryLine J) = some :=
    funext (renderLine_entryLine hJ)
  rw [List.append_nil] at hrender
  rw [hrender, List.filterMap_map, hsame, List.filterMap_some]

end Entries

/-! ## When every append succeeds -/

theorem appendAll_length {J : JsonText} {capacity : Nat} (w : Writer UInt8)
    (calls : List (TranscriptEntry × Faults)) :
    (appendAll J capacity w calls).2.length ≤ calls.length := by
  induction calls generalizing w with
  | nil => exact Nat.le_refl _
  | cons call calls ih =>
      have hrest := ih (append J capacity w call.1 call.2).1
      simp only [appendAll, List.length_cons]
      split
      · rw [List.length_cons]
        omega
      · omega

/-- Appends that all succeed leave the lines of their entries in the file. -/
theorem appendAll_ok {J : JsonText} {capacity : Nat} {w : Writer UInt8}
    {calls : List (TranscriptEntry × Faults)} (hempty : w.buffer = [])
    (h : (appendAll J capacity w calls).2 = calls.map Prod.fst) :
    (appendAll J capacity w calls).1 =
      ⟨w.device ++ ((calls.map Prod.fst).map (entryLine J)).flatten, []⟩ := by
  induction calls generalizing w with
  | nil =>
      obtain ⟨device, buffer⟩ := w
      obtain rfl : buffer = [] := hempty
      simp [appendAll]
  | cons call calls ih =>
      have hlength : (appendAll J capacity (append J capacity w call.1 call.2).1
          calls).2.length ≤ calls.length := appendAll_length _ _
      rw [appendAll] at h ⊢
      cases hok : (append J capacity w call.1 call.2).2 with
      | false =>
          simp only [hok, Bool.false_eq_true, if_false] at h
          rw [h, List.length_map, List.length_cons] at hlength
          omega
      | true =>
          simp only [hok, if_true, List.map_cons, List.cons.injEq, true_and] at h
          have hone := append_ok hok
          have hrest := ih (by rw [hone]) h
          simp only
          rw [hrest, hone]
          simp [Writer.total, hempty]

/-- What was appended is read back, counted and rendered. -/
theorem journal_round_trip
    {J : JsonText} (hJ : J.Lawful) {capacity : Nat}
    {calls : List (TranscriptEntry × Faults)}
    (hok : (appendAll J capacity .empty calls).2 = calls.map Prod.fst) :
    readEntries J (appendAll J capacity .empty calls).1.device = some (calls.map Prod.fst) ∧
      countLines (appendAll J capacity .empty calls).1.device = some calls.length ∧
      renderUntilEof J (appendAll J capacity .empty calls).1.device 0 =
        (calls.map Prod.fst, (appendAll J capacity .empty calls).1.device.length) := by
  have hfile : (appendAll J capacity .empty calls).1.device =
      ((calls.map Prod.fst).map (entryLine J)).flatten := by
    rw [appendAll_ok rfl hok]
    rfl
  rw [hfile]
  refine ⟨readEntries_entries hJ _, ?_, renderUntilEof_entries hJ _⟩
  rw [countLines_entries hJ, List.length_map]

theorem append_clear {J : JsonText} {capacity : Nat} {w : Writer UInt8}
    {entry : TranscriptEntry} : (append J capacity w entry .clear).2 = true := by
  have hok : ∀ (w : Writer UInt8) (data : List UInt8),
      ∃ w', w.writeAll capacity data none none = (w', true) := fun w data =>
    ⟨_, Prod.ext rfl Writer.writeAll_none⟩
  obtain ⟨w', hline⟩ := hok w (bytes (J.toString entry.toJson))
  obtain ⟨w'', hnewline⟩ := hok w' [lineFeed]
  simp only [append, Faults.clear, hline, hnewline]
  rfl

theorem appendAll_clear {J : JsonText} {capacity : Nat} {w : Writer UInt8}
    (es : List TranscriptEntry) :
    (appendAll J capacity w (es.map fun e => (e, Faults.clear))).2 =
      (es.map fun e => (e, Faults.clear)).map Prod.fst := by
  induction es generalizing w with
  | nil => rfl
  | cons e es ih => simp only [List.map_cons, appendAll, append_clear, if_true, ih]

/-- Two commands, of which one printed a line feed, a tab and a quote. -/
def sampleJournal : List (TranscriptEntry × Faults) :=
  [{ sampleEntry with output := "a\n\t\"", timeout := 0xFFFFFFFFFFFFFFFF }, sampleEntry].map
    fun e => (e, Faults.clear)

theorem journal_round_trip_sampleJournal :
    readEntries Json.compact
        (appendAll Json.compact bufWriterCapacity .empty sampleJournal).1.device =
      some (sampleJournal.map Prod.fst) ∧
    countLines (appendAll Json.compact bufWriterCapacity .empty sampleJournal).1.device =
      some 2 ∧
    renderUntilEof Json.compact
        (appendAll Json.compact bufWriterCapacity .empty sampleJournal).1.device 0 =
      (sampleJournal.map Prod.fst,
        (appendAll Json.compact bufWriterCapacity .empty sampleJournal).1.device.length) :=
  journal_round_trip Json.compact_lawful (appendAll_clear _)

end Rexec
