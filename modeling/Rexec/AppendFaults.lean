import Rexec.TranscriptFile
import Mathlib.Tactic

/-!
# Appends that fail

An append that fails can leave a line without its end in the file or in the
buffer: a line as long as the buffer is written to the file directly, and a
first part of it stays; a line that fills the buffer up may stay there without
its line feed.  The next append goes on right behind, and both entries are in
one line that is no entry.  A first part that ends inside a character makes the
file invalid as UTF-8, and then `read_entries` returns nothing at all.

`Careful` excludes the first: whenever an append succeeds, what was written and
waits before it ends in a line feed, or is empty.  `entries_kept` says what the
readers find then.
-/

namespace Rexec

open BufWriter TranscriptWriter

/-- A stream that is empty or ends in a line feed. -/
def Terminated (s : List UInt8) : Prop :=
  s = [] ∨ s.getLast? = some lineFeed

instance (s : List UInt8) : Decidable (Terminated s) :=
  inferInstanceAs (Decidable (_ ∨ _))

/-- No append succeeds behind a line that has no end. -/
def Careful (J : JsonText) (capacity : Nat) :
    Writer UInt8 → List (TranscriptEntry × Faults) → Prop
  | _, [] => True
  | w, (entry, faults) :: calls =>
      ((append J capacity w entry faults).2 = true → Terminated w.total) ∧
        Careful J capacity (append J capacity w entry faults).1 calls

/-- The lines of the entries are complete lines of the file, in this order. -/
def Kept (J : JsonText) (file : List UInt8) (entries : List TranscriptEntry) : Prop :=
  ∃ lines part, (∀ l ∈ lines, Lines.IsLine lineFeed l) ∧ lineFeed ∉ part ∧
    file = lines.flatten ++ part ∧ (entries.map (entryLine J)).Sublist lines

section Run

variable {J : JsonText} {capacity : Nat}

/-- What is added behind a file leaves its lines. -/
theorem Kept.behind {file file' : List UInt8} {entries : List TranscriptEntry}
    (h : Kept J file entries) (hbehind : file <+: file') : Kept J file' entries := by
  obtain ⟨lines, part, hlines, -, rfl, hsub⟩ := h
  obtain ⟨more, rfl⟩ := hbehind
  obtain ⟨added, part', hadded, hpart', hmore⟩ :=
    Lines.exists_lines lineFeed (part ++ more)
  refine ⟨lines ++ added, part', ?_, hpart', ?_, hsub.trans (List.sublist_append_left _ _)⟩
  · intro l hl
    rcases List.mem_append.mp hl with hl | hl
    · exact hlines l hl
    · exact hadded l hl
  · rw [List.append_assoc, hmore, List.flatten_append, List.append_assoc]

/-- A file that ends in a line feed is made of lines. -/
theorem Terminated.lines {s : List UInt8} (h : Terminated s)
    {lines : List (List UInt8)} {part : List UInt8}
    (hpart : lineFeed ∉ part) (hs : s = lines.flatten ++ part) : part = [] := by
  cases part using List.reverseRecOn with
  | nil => rfl
  | append_singleton part b =>
      exfalso
      rcases h with h | h
      · rw [hs] at h
        simp at h
      · rw [hs, ← List.append_assoc, List.getLast?_concat, Option.some.injEq] at h
        exact hpart (by simp [h])

/-- A further entry behind complete lines. -/
theorem Kept.concat (hJ : J.Lawful) {file : List UInt8} {entries : List TranscriptEntry}
    (h : Kept J file entries) (hterminated : Terminated file) (entry : TranscriptEntry) :
    Kept J (file ++ entryLine J entry) (entries ++ [entry]) := by
  obtain ⟨lines, part, hlines, hpart, hfile, hsub⟩ := h
  obtain rfl := hterminated.lines hpart hfile
  refine ⟨lines ++ [entryLine J entry], [], ?_, by simp, ?_, ?_⟩
  · intro l hl
    rcases List.mem_append.mp hl with hl | hl
    · exact hlines l hl
    · obtain rfl := List.mem_singleton.mp hl
      exact entryLine_isLine hJ entry
  · rw [hfile]
    simp
  · rw [List.map_append]
    exact hsub.append (List.Sublist.refl _)

/-- One append: a failure leaves the lines of the file, a success adds its own. -/
theorem Kept.step (hJ : J.Lawful) {w : Writer UInt8} {entries : List TranscriptEntry}
    {entry : TranscriptEntry} {faults : Faults} (h : Kept J w.device entries)
    (hcareful : (append J capacity w entry faults).2 = true → Terminated w.total) :
    Kept J (append J capacity w entry faults).1.device
      (entries ++ if (append J capacity w entry faults).2 then [entry] else []) := by
  cases hok : (append J capacity w entry faults).2 with
  | false =>
      simp only [Bool.false_eq_true, if_false, List.append_nil]
      exact h.behind append_device
  | true =>
      rw [append_ok hok]
      have htotal : Kept J w.total entries := h.behind (List.prefix_append _ _)
      exact htotal.concat hJ (hcareful hok) entry

theorem kept_appendAll (hJ : J.Lawful) {w : Writer UInt8} {entries : List TranscriptEntry}
    {calls : List (TranscriptEntry × Faults)} (h : Kept J w.device entries)
    (hcareful : Careful J capacity w calls) :
    Kept J (appendAll J capacity w calls).1.device
      (entries ++ (appendAll J capacity w calls).2) := by
  induction calls generalizing w entries with
  | nil =>
      rw [appendAll, List.append_nil]
      exact h
  | cons call calls ih =>
      obtain ⟨hone, hrest⟩ := hcareful
      have hkept := ih (h.step hJ hone) hrest
      simp only [appendAll]
      cases hok : (append J capacity w call.1 call.2).2 <;> simpa [hok] using hkept

end Run

/-! ## What the readers find -/

theorem decode_lines {lines : List (List UInt8)} {part : List UInt8}
    (hlines : ∀ l ∈ lines, Lines.IsLine lineFeed l) :
    Utf8.decode (lines.flatten ++ part) = lines.flatMap Utf8.decode ++ Utf8.decode part := by
  induction lines with
  | nil => rfl
  | cons l lines ih =>
      have hrest := ih fun m hm => hlines m (by simp [hm])
      have hline := Utf8.decodeFrom_line (p := none) (by simp) (hlines l (by simp))
        (lines.flatten ++ part)
      rw [List.flatten_cons, List.append_assoc, List.flatMap_cons, List.append_assoc,
        ← hrest]
      exact hline

/-- A line that is not UTF-8 is what makes a file invalid. -/
theorem none_mem_fileLines {file : List UInt8} :
    none ∈ fileLines file ↔ fromUtf8 file = none := by
  obtain ⟨lines, part, hlines, hpart, rfl⟩ := Lines.exists_lines lineFeed file
  have hone : ∀ l : List UInt8,
      (fromUtf8 l).map stripLineEnd = none ↔ none ∈ Utf8.decode l := fun l => by
    rw [Option.map_eq_none_iff, fromUtf8_eq_none]
  have hpartial : (∃ l ∈ if part = [] then [] else [part], none ∈ Utf8.decode l) ↔
      none ∈ Utf8.decode part := by
    by_cases h : part = []
    · simp [h, Utf8.decode, Utf8.decodeFrom]
    · simp [h]
  rw [fromUtf8_eq_none, decode_lines hlines, fileLines,
    Lines.split_flatten_append hlines hpart, List.mem_map, List.mem_append,
    List.mem_flatMap, ← hpartial]
  simp only [hone, List.mem_append]
  constructor
  · rintro ⟨l, hl | hl, hnone⟩
    · exact Or.inl ⟨l, hl, hnone⟩
    · exact Or.inr ⟨l, hl, hnone⟩
  · rintro (⟨l, hl, hnone⟩ | ⟨l, hl, hnone⟩)
    · exact ⟨l, Or.inl hl, hnone⟩
    · exact ⟨l, Or.inr hl, hnone⟩

section Readers

variable {J : JsonText} (hJ : J.Lawful)

include hJ

theorem Kept.rendered {file : List UInt8} {entries : List TranscriptEntry}
    (h : Kept J file entries) : entries.Sublist (renderUntilEof J file 0).1 := by
  obtain ⟨lines, part, hlines, hpart, rfl, hsub⟩ := h
  have hsame : ((fun l => renderLine J l.dropLast) ∘ entryLine J) = some :=
    funext (renderLine_entryLine hJ)
  have hfilter := hsub.filterMap fun l => renderLine J l.dropLast
  rw [List.filterMap_map, hsame, List.filterMap_some] at hfilter
  rw [renderUntilEof_flatten hlines hpart]
  exact hfilter

theorem Kept.read {file : List UInt8} {entries : List TranscriptEntry}
    (h : Kept J file entries) (hvalid : none ∉ fileLines file) :
    ∃ found, readEntries J file = some found ∧ entries.Sublist found := by
  obtain ⟨lines, part, hlines, hpart, rfl, hsub⟩ := h
  refine ⟨_, by rw [readEntries, readLines_eq, if_neg hvalid], ?_⟩
  have hsame : (fun l : List UInt8 =>
      ((fromUtf8 l).map stripLineEnd).bind (entryOf J)) ∘ entryLine J = some := by
    funext e
    simp only [Function.comp_apply]
    rw [lineOf_entryLine hJ, Option.bind_some, entryOf_entryLine hJ]
  have hfilter := hsub.filterMap fun l =>
    ((fromUtf8 l).map stripLineEnd).bind (entryOf J)
  rw [List.filterMap_map, hsame, List.filterMap_some] at hfilter
  rw [fileLines, Lines.split_flatten_append hlines hpart, List.filterMap_map,
    List.filterMap_append]
  exact hfilter.trans (List.sublist_append_left _ _)

end Readers

/-- In a careful run every entry whose append returned `Ok` is rendered, in order; and
`read_entries` returns them, in order, if and only if the file is valid UTF-8. -/
theorem entries_kept
    {J : JsonText} (hJ : J.Lawful) {capacity : Nat}
    {calls : List (TranscriptEntry × Faults)}
    (hcareful : Careful J capacity .empty calls) :
    (appendAll J capacity .empty calls).2.Sublist
        (renderUntilEof J (appendAll J capacity .empty calls).1.device 0).1 ∧
      ((∃ found, readEntries J (appendAll J capacity .empty calls).1.device = some found ∧
          (appendAll J capacity .empty calls).2.Sublist found) ↔
        (fromUtf8 (appendAll J capacity .empty calls).1.device).isSome) := by
  have hstart : Kept J (Writer.empty (α := UInt8)).device [] :=
    ⟨[], [], by simp, by simp, rfl, List.Sublist.refl _⟩
  have hkept := kept_appendAll hJ hstart hcareful
  rw [List.nil_append] at hkept
  refine ⟨hkept.rendered hJ, ?_⟩
  rw [Option.isSome_iff_ne_none, ne_eq, ← none_mem_fileLines]
  constructor
  · rintro ⟨found, hfound, -⟩ hnone
    rw [readEntries, readLines_eq, if_pos hnone] at hfound
    cases hfound
  · exact hkept.read hJ

/-- An append whose flush stops after `n` bytes: the rest of its line waits in the buffer. -/
theorem append_flush_stops {J : JsonText} {capacity : Nat} {entry : TranscriptEntry} {n : Nat}
    (hfits : (entryLine J entry).length < capacity) :
    append J capacity .empty entry { Faults.clear with flush := some n } =
      (⟨(entryLine J entry).take n, (entryLine J entry).drop n⟩,
        decide ((entryLine J entry).length ≤ n)) := by
  have hlength : (entryLine J entry).length =
      (bytes (J.toString entry.toJson)).length + 1 := by
    rw [entryLine, List.length_append, List.length_singleton]
  have hline : (Writer.empty (α := UInt8)).writeAll capacity (bytes (J.toString entry.toJson))
      none none = (⟨[], bytes (J.toString entry.toJson)⟩, true) :=
    if_pos (by simp only [Writer.empty, List.length_nil]; omega)
  have hnewline : Writer.writeAll capacity ⟨[], bytes (J.toString entry.toJson)⟩ [lineFeed]
      none none = (⟨[], entryLine J entry⟩, true) :=
    if_pos (by simp only [List.length_singleton]; omega)
  simp only [append, Faults.clear, hline, hnewline, Writer.flushBuf, List.nil_append]

/-- The flush of the first append stops after five bytes, and the second append goes well. -/
def sampleFaulty : List (TranscriptEntry × Faults) :=
  [(sampleEntry, { Faults.clear with flush := some 5 }),
    ({ sampleEntry with output := "b" }, .clear)]

theorem append_sampleFaulty :
    append Json.compact bufWriterCapacity .empty sampleEntry
        { Faults.clear with flush := some 5 } =
      (⟨(entryLine Json.compact sampleEntry).take 5,
        (entryLine Json.compact sampleEntry).drop 5⟩, false) := by
  have hlength : (entryLine Json.compact sampleEntry).length = 73 := by
    decide
  have hstops := append_flush_stops (n := 5)
    (show (entryLine Json.compact sampleEntry).length < bufWriterCapacity by
      rw [hlength]; decide)
  rw [hstops, hlength]
  rfl

/-- What waits after the first append ends in a line feed. -/
theorem careful_sampleFaulty : Careful Json.compact bufWriterCapacity .empty sampleFaulty := by
  refine ⟨fun hok => ?_, fun _ => ?_, trivial⟩
  · rw [append_sampleFaulty] at hok
    cases hok
  · rw [append_sampleFaulty, Writer.total, List.take_append_drop]
    right
    simp [entryLine]

theorem appendAll_sampleFaulty :
    appendAll Json.compact bufWriterCapacity .empty sampleFaulty =
      (⟨entryLine Json.compact sampleEntry ++
          entryLine Json.compact { sampleEntry with output := "b" }, []⟩,
        [{ sampleEntry with output := "b" }]) := by
  have hsecond : (append Json.compact bufWriterCapacity
      ⟨(entryLine Json.compact sampleEntry).take 5, (entryLine Json.compact sampleEntry).drop 5⟩
      { sampleEntry with output := "b" } .clear).1 = _ := append_ok append_clear
  rw [Writer.total, List.take_append_drop] at hsecond
  simp only [sampleFaulty, appendAll, append_sampleFaulty, hsecond, append_clear]
  rfl

/-- The entry behind the failed append is rendered and returned. -/
theorem entries_kept_sampleFaulty :
    (appendAll Json.compact bufWriterCapacity .empty sampleFaulty).2 =
        [{ sampleEntry with output := "b" }] ∧
      [{ sampleEntry with output := "b" }].Sublist
        (renderUntilEof Json.compact
          (appendAll Json.compact bufWriterCapacity .empty sampleFaulty).1.device 0).1 ∧
      ∃ found, readEntries Json.compact
          (appendAll Json.compact bufWriterCapacity .empty sampleFaulty).1.device =
            some found ∧
        [{ sampleEntry with output := "b" }].Sublist found := by
  obtain ⟨hrendered, hread⟩ := entries_kept Json.compact_lawful careful_sampleFaulty
  rw [appendAll_sampleFaulty] at hrendered hread ⊢
  refine ⟨rfl, hrendered, hread.mpr ?_⟩
  rw [entryLine, entryLine, bytes_concat_lineFeed, bytes_concat_lineFeed, ← bytes_append,
    fromUtf8_bytes]
  rfl

/-! ## A first part of a line -/

/-- The text of an entry starts with a brace and holds its output. -/
theorem entryText_starts (e : TranscriptEntry) :
    ∃ body, Json.compact.toString e.toJson = String.ofList ('{' :: body) ∧
      e.output.toList.length ≤ body.length := by
  obtain ⟨body, hbody, hlength⟩ : ∃ body, Json.write e.toJson = '{' :: body ∧
      e.output.toList.length ≤ body.length :=
    Json.write_obj_starts (show ("output", _) ∈ _ by simp)
  refine ⟨body, ?_, hlength⟩
  rw [← hbody]
  rfl

theorem bytes_cons_brace (cs : List Char) :
    bytes (String.ofList ('{' :: cs)) = 0x7b :: bytes (String.ofList cs) := by
  rw [bytes, bytes, String.toList_ofList, String.toList_ofList, List.flatMap_cons]
  rfl

/-- An append of a long entry whose write stops behind the brace. -/
theorem append_long {e : TranscriptEntry} (h : bufWriterCapacity ≤ e.output.toList.length) :
    append Json.compact bufWriterCapacity .empty e { Faults.clear with line := some 1 } =
      (⟨[0x7b], []⟩, false) := by
  obtain ⟨body, htext, hbody⟩ := entryText_starts e
  have hlength := length_le_bytes (String.ofList body)
  have hpos : 0 < bufWriterCapacity := by decide
  rw [String.toList_ofList] at hlength
  have hwrite : (Writer.empty (α := UInt8)).writeAll bufWriterCapacity
      (0x7b :: bytes (String.ofList body)) none (some 1) = (⟨[0x7b], []⟩, false) := by
    have hcut : ¬ (0x7b :: bytes (String.ofList body)).length ≤ 1 := by
      rw [List.length_cons]
      omega
    rw [Writer.writeAll_long rfl (by rw [List.length_cons]; omega), Writer.writeDevice,
      decide_eq_false hcut]
    rfl
  simp only [append, htext, bytes_cons_brace, Faults.clear, hwrite]

/-- A line behind a brace is no entry. -/
theorem readEntries_brace (e : TranscriptEntry) :
    readEntries Json.compact (0x7b :: entryLine Json.compact e) = some [] := by
  obtain ⟨body, htext, -⟩ := entryText_starts e
  obtain ⟨front, hends⟩ := e.toString_ends Json.compact_lawful
  have hfile : 0x7b :: entryLine Json.compact e =
      bytes (String.ofList ('{' :: '{' :: body)) ++ [lineFeed] := by
    rw [entryLine, htext, bytes_cons_brace ('{' :: body), List.cons_append]
  have hfull : (String.ofList ('{' :: '{' :: body)).toList = ('{' :: front) ++ ['\x7d'] := by
    rw [String.toList_ofList, List.cons_append, ← hends, htext, String.toList_ofList]
  have hisLine : Lines.IsLine lineFeed (0x7b :: entryLine Json.compact e) := by
    obtain ⟨l, hl, heq⟩ := entryLine_isLine Json.compact_lawful e
    refine ⟨0x7b :: l, ?_, by rw [heq, List.cons_append]⟩
    rw [List.mem_cons, not_or]
    exact ⟨by decide, hl⟩
  have hlines : fileLines (0x7b :: entryLine Json.compact e) =
      [some (String.ofList ('{' :: '{' :: body))] := by
    have hsplit : Lines.split lineFeed [0x7b :: entryLine Json.compact e].flatten =
        [0x7b :: entryLine Json.compact e] :=
      Lines.split_flatten (by simpa using hisLine)
    rw [List.flatten_singleton] at hsplit
    rw [fileLines, hsplit, List.map_singleton, hfile, lineOf_text hfull (by decide)]
  have hnone : entryOf Json.compact (String.ofList ('{' :: '{' :: body)) = none := by
    rw [entryOf, JsonText.decode, Json.compact_braces, Option.bind_none, ite_self]
  rw [readEntries, hlines, readLines_eq, if_neg (by simp), List.filterMap_cons,
    Option.bind_some, hnone]
  rfl

/-- A command that printed as much as the buffer holds. -/
def longEntry : TranscriptEntry :=
  { sampleEntry with output := String.ofList (List.replicate bufWriterCapacity 'a') }

theorem longEntry_output : bufWriterCapacity ≤ longEntry.output.toList.length := by
  have h : longEntry.output.toList = List.replicate bufWriterCapacity 'a' :=
    String.toList_ofList
  rw [h, List.length_replicate]

/-- The entry whose append succeeds is not read back. -/
theorem fragment_hides_entry :
    ¬ ∀ calls : List (TranscriptEntry × Faults),
      ∃ found, readEntries Json.compact
            (appendAll Json.compact bufWriterCapacity .empty calls).1.device = some found ∧
          (appendAll Json.compact bufWriterCapacity .empty calls).2.Sublist found := by
  intro h
  obtain ⟨found, hfound, hsub⟩ :=
    h [(longEntry, { Faults.clear with line := some 1 }), (sampleEntry, .clear)]
  have happend : (append Json.compact bufWriterCapacity ⟨[0x7b], []⟩ sampleEntry .clear).1 =
      ⟨0x7b :: entryLine Json.compact sampleEntry, []⟩ :=
    append_ok append_clear
  simp only [appendAll, append_long longEntry_output, happend, append_clear] at hfound hsub
  rw [readEntries_brace, Option.some.injEq] at hfound
  subst hfound
  cases hsub

end Rexec
