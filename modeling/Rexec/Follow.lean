import Rexec.TranscriptFile

/-!
# Following a transcript

`print --follow` calls `render_until_eof` again and again on a file that others
append to, and keeps nothing but a byte offset between the calls.  The file may
also grow within one call, after its length was taken and before its bytes are
read.

* `Poll` is what one call finds: the file when its length is taken, and the
  file when it is read to its end.
* `renderRound` is one round of the inner loop, on the loop's own variables;
  `renderLoop_ends` says that the rounds end, and with what.
* `Follower.Sound` is the invariant: the offset is the length of some complete
  lines the file begins with, and what they render is what was rendered.
* `follow_equals_print`: following renders what is rendered by printing the
  final file once.
-/

namespace Rexec

section Rounds

variable (J : JsonText)

/-- One round of the loop of `render_until_eof`, on what was rendered and on
`consumed`; `none` when there is no line feed left. -/
def renderRound (tail : List UInt8) (s : List TranscriptEntry × Nat) :
    Option (List TranscriptEntry × Nat) :=
  match (tail.drop s.2).findIdx? (· == lineFeed) with
  | none => none
  | some newline =>
      let line := (tail.drop s.2).take newline
      some (s.1 ++ (renderLine J line).toList, s.2 + newline + 1)

variable {J}

theorem renderRound_line (done rest : List UInt8) (es : List TranscriptEntry)
    {line : List UInt8} (hline : Lines.IsLine lineFeed line) :
    renderRound J (done ++ (line ++ rest)) (es, done.length) =
      some (es ++ (renderLine J line.dropLast).toList, (done ++ line).length) := by
  obtain ⟨body, hbody, rfl⟩ := hline
  have hnone : body.findIdx? (· == lineFeed) = none := by
    rw [List.findIdx?_eq_none_iff]
    intro b hb
    simpa using fun h : b = lineFeed => hbody (h ▸ hb)
  have hfind : (body ++ [lineFeed] ++ rest).findIdx? (· == lineFeed) = some body.length := by
    rw [List.append_assoc, List.findIdx?_append, hnone]
    simp [List.findIdx?_cons]
  have htake : (body ++ [lineFeed] ++ rest).take body.length = body := by
    rw [List.append_assoc, List.take_left]
  simp only [renderRound, List.drop_left, hfind, htake, List.dropLast_concat]
  simp [Nat.add_assoc]

theorem renderRound_part {done part : List UInt8} {es : List TranscriptEntry}
    (hpart : lineFeed ∉ part) :
    renderRound J (done ++ part) (es, done.length) = none := by
  have hnone : part.findIdx? (· == lineFeed) = none := by
    rw [List.findIdx?_eq_none_iff]
    intro b hb
    simpa using fun h : b = lineFeed => hpart (h ▸ hb)
  simp only [renderRound, List.drop_left, hnone]

/-- The rounds over complete lines, one for each. -/
theorem rounds_lines (done part : List UInt8) (es : List TranscriptEntry)
    {lines : List (List UInt8)} (hlines : ∀ l ∈ lines, Lines.IsLine lineFeed l) :
    Relation.ReflTransGen
      (fun s t => renderRound J (done ++ (lines.flatten ++ part)) s = some t)
      (es, done.length)
      (es ++ lines.filterMap fun l => renderLine J l.dropLast,
        (done ++ lines.flatten).length) := by
  induction lines generalizing done es with
  | nil => simpa using Relation.ReflTransGen.refl
  | cons line lines ih =>
      have hround := renderRound_line (J := J) done (lines.flatten ++ part) es
        (hlines line (by simp))
      have hrest := ih (done ++ line) (es ++ (renderLine J line.dropLast).toList)
        (fun l hl => hlines l (by simp [hl]))
      have hsame : done ++ line ++ (lines.flatten ++ part) =
          done ++ ((line :: lines).flatten ++ part) := by simp
      have hrendered : es ++ (renderLine J line.dropLast).toList ++
            lines.filterMap (fun l => renderLine J l.dropLast) =
          es ++ (line :: lines).filterMap fun l => renderLine J l.dropLast := by
        cases h : renderLine J line.dropLast <;> simp [h]
      rw [hsame, hrendered] at hrest
      rw [List.flatten_cons, List.append_assoc] at hrest ⊢
      refine .head hround ?_
      simpa using hrest

/-- The loop over any tail: its complete lines are rendered and consumed. -/
theorem renderLoop_tail (J : JsonText) (tail : List UInt8) :
    ∃ (lines : List (List UInt8)) (part : List UInt8),
      (∀ l ∈ lines, Lines.IsLine lineFeed l) ∧ lineFeed ∉ part ∧ tail = lines.flatten ++ part ∧
      renderLoop J (tail.length + 1) tail =
        (lines.filterMap fun l => renderLine J l.dropLast, lines.flatten.length) := by
  obtain ⟨lines, part, hlines, hpart, rfl⟩ := Lines.exists_lines lineFeed tail
  have hrounds : lines.length < (lines.flatten ++ part).length + 1 := by
    have hle := length_le_flatten hlines
    rw [List.length_append]
    omega
  exact ⟨lines, part, hlines, hpart, rfl, renderLoop_flatten hlines hpart hrounds⟩

/-- The loop ends, after the rounds that `renderLoop` counts. -/
theorem renderLoop_ends (J : JsonText) (tail : List UInt8) :
    Relation.ReflTransGen (fun s t => renderRound J tail s = some t) ([], 0)
        (renderLoop J (tail.length + 1) tail) ∧
      renderRound J tail (renderLoop J (tail.length + 1) tail) = none := by
  obtain ⟨lines, part, hlines, hpart, htail, hloop⟩ := renderLoop_tail J tail
  rw [hloop, htail]
  constructor
  · simpa using rounds_lines (J := J) [] part [] hlines
  · exact renderRound_part hpart

end Rounds

/-! ## Polls -/

/-- What one call of `render_until_eof` finds in the file. -/
structure Poll where
  /-- The file when its length is taken. -/
  measured : List UInt8
  /-- The file when its end is read. -/
  read : List UInt8
deriving DecidableEq

/-- The file is only appended to, within each poll and from one to the next. -/
def AppendOnly (polls : List Poll) : Prop :=
  (∀ p ∈ polls, p.measured <+: p.read) ∧ polls.IsChain fun p q => p.read <+: q.measured

instance (polls : List Poll) : Decidable (AppendOnly polls) := by
  unfold AppendOnly
  infer_instance

/-- `render_until_eof` at one poll: what is rendered, and the new offset. -/
def renderUntilEofAt (J : JsonText) (p : Poll) (offset : Nat) : List TranscriptEntry × Nat :=
  if p.measured.length ≤ offset then ([], offset)
  else
    let tail := p.read.drop offset
    let rendered := renderLoop J (tail.length + 1) tail
    (rendered.1, offset + rendered.2)

/-- A file that stands still during the call. -/
theorem renderUntilEofAt_still (J : JsonText) (file : List UInt8) (offset : Nat) :
    renderUntilEofAt J ⟨file, file⟩ offset = renderUntilEof J file offset := rfl

/-- What `print` has done: the entries rendered, the offset it keeps, and how much of the
file its calls have read. -/
structure Follower where
  rendered : List TranscriptEntry := []
  offset : Nat := 0
  bytesRead : Nat := 0
deriving DecidableEq

namespace Follower

variable (J : JsonText)

/-- One call of `render_until_eof`. -/
def poll (s : Follower) (p : Poll) : Follower where
  rendered := s.rendered ++ (renderUntilEofAt J p s.offset).1
  offset := (renderUntilEofAt J p s.offset).2
  bytesRead := if p.measured.length ≤ s.offset then s.bytesRead else p.read.length

/-- `print`: one call, and with `--follow` a call at every later poll. -/
def print (follow : Bool) : List Poll → Follower
  | [] => {}
  | p :: ps =>
      let s := poll J {} p
      if follow then ps.foldl (poll J) s else s

variable {J}

theorem print_follow (polls : List Poll) :
    print J true polls = polls.foldl (poll J) {} := by
  cases polls <;> rfl

theorem print_concat (polls : List Poll) (p : Poll) :
    print J true (polls ++ [p]) = (print J true polls).poll J p := by
  rw [print_follow, print_follow, List.foldl_append]
  rfl

end Follower

/-! ## The entries of a file -/

/-- A complete line that is well formed: a text that is not empty and, white space at its
end aside, an entry in JSON. -/
def IsEntryLine (J : JsonText) (entry : TranscriptEntry) (line : List UInt8) : Prop :=
  ∃ text, line = bytes text ++ [lineFeed] ∧ text ≠ "" ∧
    J.decode TranscriptEntry.ofJson (trimEnd text) = some entry

/-- The entries of the well-formed lines, each once and in order. -/
inductive EntriesOf (J : JsonText) : List (List UInt8) → List TranscriptEntry → Prop where
  | nil : EntriesOf J [] []
  | entry {line : List UInt8} {lines : List (List UInt8)} {entry : TranscriptEntry}
      {entries : List TranscriptEntry} (hline : IsEntryLine J entry line)
      (hlines : EntriesOf J lines entries) : EntriesOf J (line :: lines) (entry :: entries)
  | other {line : List UInt8} {lines : List (List UInt8)} {entries : List TranscriptEntry}
      (hline : ∀ entry, ¬ IsEntryLine J entry line) (hlines : EntriesOf J lines entries) :
      EntriesOf J (line :: lines) entries

/-- The entries of the well-formed complete lines of a stream. -/
def CompleteEntries (J : JsonText) (file : List UInt8) (entries : List TranscriptEntry) : Prop :=
  EntriesOf J (Lines.completeLines lineFeed file) entries

section Entries

variable {J : JsonText}

theorem IsEntryLine.unique {entry entry' : TranscriptEntry} {line : List UInt8}
    (h : IsEntryLine J entry line) (h' : IsEntryLine J entry' line) : entry = entry' := by
  obtain ⟨text, hline, -, hentry⟩ := h
  obtain ⟨text', hline', -, hentry'⟩ := h'
  obtain rfl := bytes_inj.mp (List.append_cancel_right (hline.symm.trans hline'))
  exact Option.some.inj (hentry.symm.trans hentry')

theorem EntriesOf.unique {lines : List (List UInt8)} {entries entries' : List TranscriptEntry}
    (h : EntriesOf J lines entries) (h' : EntriesOf J lines entries') : entries = entries' := by
  induction h generalizing entries' with
  | nil =>
      cases h'
      rfl
  | entry hline _ ih =>
      cases h' with
      | entry hline' hlines' => rw [hline.unique hline', ih hlines']
      | other hnone => exact absurd hline (hnone _)
  | other hnone _ ih =>
      cases h' with
      | entry hline' => exact absurd hline' (hnone _)
      | other _ hlines' => exact ih hlines'

/-- A line is rendered if it is well formed. -/
theorem renderLine_eq_some {body : List UInt8} {entry : TranscriptEntry} :
    renderLine J body = some entry ↔ IsEntryLine J entry (body ++ [lineFeed]) := by
  unfold renderLine
  constructor
  · intro h
    split at h
    · cases h
    · rename_i hnonempty
      split at h
      · rename_i text htext
        obtain rfl := fromUtf8_eq_some_iff.mp htext
        refine ⟨text, rfl, ?_, h⟩
        rintro rfl
        exact hnonempty rfl
      · cases h
  · rintro ⟨text, hline, hnonempty, hentry⟩
    obtain rfl := List.append_cancel_right hline
    have hbytes : (bytes text).isEmpty = false := by
      rw [List.isEmpty_eq_false_iff]
      exact fun hnil => hnonempty (bytes_inj.mp hnil)
    simp only [hbytes, Bool.false_eq_true, if_false, fromUtf8_bytes, hentry]

/-- What is rendered of complete lines are their entries. -/
theorem entriesOf_lines {lines : List (List UInt8)}
    (hlines : ∀ l ∈ lines, Lines.IsLine lineFeed l) :
    EntriesOf J lines (lines.filterMap fun l => renderLine J l.dropLast) := by
  induction lines with
  | nil => exact .nil
  | cons line lines ih =>
      have hrest := ih fun l hl => hlines l (by simp [hl])
      obtain ⟨body, -, rfl⟩ := hlines line (by simp)
      rw [List.filterMap_cons, List.dropLast_concat]
      cases hbody : renderLine J body with
      | none =>
          refine .other (fun entry hline => ?_) hrest
          cases hbody.symm.trans (renderLine_eq_some.mpr hline)
      | some entry => exact .entry (renderLine_eq_some.mp hbody) hrest

end Entries

/-! ## The invariant -/

section Law

variable {J : JsonText}

/-- The offset is behind complete lines that the file begins with, and exactly their
entries were rendered. -/
structure Follower.Sound (J : JsonText) (file : List UInt8) (s : Follower) : Prop where
  upTo : ∃ lines : List (List UInt8), (∀ l ∈ lines, Lines.IsLine lineFeed l) ∧
    lines.flatten <+: file ∧ s.offset = lines.flatten.length ∧
      s.rendered = lines.filterMap fun l => renderLine J l.dropLast
  offset_le : s.offset ≤ s.bytesRead
  bytesRead_le : s.bytesRead ≤ file.length

namespace Follower

theorem Sound.start : Sound J [] {} where
  upTo := ⟨[], by simp, List.nil_prefix, rfl, rfl⟩
  offset_le := Nat.le_refl _
  bytesRead_le := Nat.le_refl _

theorem Sound.grow {file file' : List UInt8} {s : Follower} (h : Sound J file s)
    (hgrow : file <+: file') : Sound J file' s where
  upTo := by
    obtain ⟨lines, hlines, hprefix, hoffset, hrendered⟩ := h.upTo
    exact ⟨lines, hlines, hprefix.trans hgrow, hoffset, hrendered⟩
  offset_le := h.offset_le
  bytesRead_le := h.bytesRead_le.trans hgrow.length_le

/-- A call that returns early changes nothing. -/
theorem poll_early {s : Follower} {p : Poll} (h : p.measured.length ≤ s.offset) :
    s.poll J p = s := by
  simp [poll, renderUntilEofAt, h]

/-- A call that reads goes over the complete lines behind the offset. -/
theorem poll_read {s : Follower} {p : Poll} (h : ¬ p.measured.length ≤ s.offset) :
    ∃ (lines : List (List UInt8)) (part : List UInt8),
      (∀ l ∈ lines, Lines.IsLine lineFeed l) ∧ lineFeed ∉ part ∧
      p.read.drop s.offset = lines.flatten ++ part ∧
      s.poll J p =
        { rendered := s.rendered ++ lines.filterMap fun l => renderLine J l.dropLast
          offset := s.offset + lines.flatten.length
          bytesRead := p.read.length } := by
  obtain ⟨lines, part, hlines, hpart, htail, hloop⟩ := renderLoop_tail J (p.read.drop s.offset)
  refine ⟨lines, part, hlines, hpart, htail, ?_⟩
  simp only [poll, renderUntilEofAt, h, if_false, hloop]

/-- The invariant holds of the file a call has read, and the offset does not go back. -/
theorem Sound.poll {file : List UInt8} {s : Follower} {p : Poll} (h : Sound J file s)
    (hfile : file <+: p.measured) (hgrew : p.measured <+: p.read) :
    Sound J p.read (s.poll J p) ∧ s.offset ≤ (s.poll J p).offset := by
  by_cases hearly : p.measured.length ≤ s.offset
  · rw [poll_early hearly]
    exact ⟨h.grow (hfile.trans hgrew), Nat.le_refl _⟩
  · obtain ⟨lines, hlines, hprefix, hoffset, hrendered⟩ := (h.grow (hfile.trans hgrew)).upTo
    obtain ⟨more, part, hmore, -, htail, hpoll⟩ := poll_read (J := J) hearly
    have hread : p.read = (lines ++ more).flatten ++ part := by
      obtain ⟨rest, hrest⟩ := hprefix
      rw [← hrest, hoffset, List.drop_left] at htail
      rw [← hrest, htail, List.flatten_append, List.append_assoc]
    rw [hpoll]
    refine ⟨⟨⟨lines ++ more, ?_, ⟨part, hread.symm⟩, ?_, ?_⟩, ?_, Nat.le_refl _⟩,
      Nat.le_add_right _ _⟩
    · intro l hl
      exact (List.mem_append.mp hl).elim (hlines l) (hmore l)
    · rw [hoffset, List.flatten_append, List.length_append]
    · rw [hrendered, List.filterMap_append]
    · show s.offset + more.flatten.length ≤ p.read.length
      rw [hread, hoffset, List.flatten_append, List.length_append, List.length_append]
      omega

/-- After a call on a file that stands still, no line feed is left behind the offset. -/
theorem poll_still (s : Follower) (final : List UInt8) :
    lineFeed ∉ final.drop (s.poll J ⟨final, final⟩).offset := by
  by_cases hearly : final.length ≤ s.offset
  · rw [poll_early hearly, List.drop_eq_nil_of_le hearly]
    simp
  · obtain ⟨more, part, -, hpart, htail, hpoll⟩ := poll_read (J := J) (p := ⟨final, final⟩) hearly
    rw [hpoll, ← List.drop_drop, htail, List.drop_left]
    exact hpart

/-- The offset is `0` or just behind a line feed. -/
theorem Sound.offset_after {file : List UInt8} {s : Follower} (h : Sound J file s) :
    s.offset = 0 ∨ ∃ i, s.offset = i + 1 ∧ file[i]? = some lineFeed := by
  obtain ⟨lines, hlines, ⟨rest, rfl⟩, hoffset, -⟩ := h.upTo
  cases lines using List.reverseRecOn with
  | nil => exact .inl hoffset
  | append_singleton lines line =>
      obtain ⟨body, -, rfl⟩ := hlines line (by simp)
      refine .inr ⟨(lines.flatten ++ body).length, ?_, ?_⟩
      · rw [hoffset]
        simp [Nat.add_assoc]
      · rw [List.flatten_append, List.flatten_singleton, ← List.append_assoc, List.append_assoc,
          List.getElem?_append_right (Nat.le_refl _)]
        simp

/-- What was rendered are the entries of the complete lines before the offset. -/
theorem Sound.rendered_eq {file : List UInt8} {s : Follower} (h : Sound J file s) :
    CompleteEntries J (file.take s.offset) s.rendered := by
  obtain ⟨lines, hlines, ⟨rest, rfl⟩, hoffset, hrendered⟩ := h.upTo
  have hcomplete := Lines.completeLines_flatten_append hlines
    (show lineFeed ∉ ([] : List UInt8) by simp)
  rw [List.append_nil] at hcomplete
  rw [hrendered, hoffset, List.take_left, CompleteEntries, hcomplete]
  exact entriesOf_lines hlines

/-- When no line feed is left behind the offset, all of the file was rendered. -/
theorem Sound.rendered_all {file : List UInt8} {s : Follower} (h : Sound J file s)
    (hrest : lineFeed ∉ file.drop s.offset) :
    CompleteEntries J file s.rendered ∧ s.rendered = (renderUntilEof J file 0).1 := by
  obtain ⟨lines, hlines, ⟨part, rfl⟩, hoffset, hrendered⟩ := h.upTo
  rw [hoffset, List.drop_left] at hrest
  rw [CompleteEntries, Lines.completeLines_flatten_append hlines hrest,
    renderUntilEof_flatten hlines hrest, hrendered]
  exact ⟨entriesOf_lines hlines, rfl⟩

end Follower

/-- The file as the last poll left it. -/
def lastRead (polls : List Poll) : List UInt8 :=
  (polls.getLast?.map Poll.read).getD []

theorem AppendOnly.concat {polls : List Poll} {p : Poll} (h : AppendOnly (polls ++ [p])) :
    AppendOnly polls ∧ lastRead polls <+: p.measured ∧ p.measured <+: p.read := by
  obtain ⟨hgrew, hchain⟩ := h
  obtain ⟨hpolls, -, hlast⟩ := List.isChain_append.mp hchain
  refine ⟨⟨fun q hq => hgrew q (by simp [hq]), hpolls⟩, ?_, hgrew p (by simp)⟩
  cases hq : polls.getLast? with
  | none =>
      rw [lastRead, hq]
      exact List.nil_prefix
  | some q =>
      rw [lastRead, hq]
      exact hlast q (by simp [hq]) p (by simp)

/-- The invariant after any number of calls. -/
theorem Follower.sound_print {polls : List Poll} (h : AppendOnly polls) :
    Sound J (lastRead polls) (print J true polls) := by
  induction polls using List.reverseRecOn with
  | nil => exact Sound.start
  | append_singleton polls p ih =>
      obtain ⟨hpolls, hfile, hgrew⟩ := h.concat
      have hlast : lastRead (polls ++ [p]) = p.read := by simp [lastRead]
      rw [print_concat, hlast]
      exact ((ih hpolls).poll hfile hgrew).1

/--
Following equals reading once.  After every call, the offset is `0` or just behind a line
feed, did not decrease and is within what was read, and exactly the entries of the complete
lines before it were rendered.  Once the file stands still, what was rendered is what `print`
renders of it; and the loop of each call ends.
-/
theorem follow_equals_print (J : JsonText) {polls : List Poll} (hgrows : AppendOnly polls) :
    (∀ before p after, polls = before ++ p :: after →
      let s := Follower.print J true before
      let t := Follower.print J true (before ++ [p])
      (t.offset = 0 ∨ ∃ i, t.offset = i + 1 ∧ p.read[i]? = some lineFeed) ∧
        s.offset ≤ t.offset ∧ t.offset ≤ t.bytesRead ∧ t.bytesRead ≤ p.read.length ∧
        CompleteEntries J (p.read.take t.offset) t.rendered) ∧
      (∀ final, polls.getLast? = some ⟨final, final⟩ →
        (Follower.print J true polls).rendered =
            (Follower.print J false [⟨final, final⟩]).rendered ∧
          CompleteEntries J final (Follower.print J true polls).rendered) ∧
      ∀ tail, ∃ s, Relation.ReflTransGen
          (fun s t => renderRound J tail s = some t) ([], 0) s ∧
        renderRound J tail s = none ∧ s = renderLoop J (tail.length + 1) tail := by
  refine ⟨?_, ?_, fun tail =>
    ⟨_, (renderLoop_ends J tail).1, (renderLoop_ends J tail).2, rfl⟩⟩
  · rintro before p after rfl
    have hfirst : AppendOnly (before ++ [p]) := by
      refine ⟨fun q hq => hgrows.1 q ?_, ?_⟩
      · rw [List.mem_append, List.mem_singleton] at hq
        rcases hq with hq | rfl <;> simp [*]
      · have hchain := hgrows.2
        rw [← List.singleton_append, ← List.append_assoc] at hchain
        exact (List.isChain_append.mp hchain).1
    obtain ⟨hbefore, hfile, hgrew⟩ := hfirst.concat
    obtain ⟨hsound, hmono⟩ := (Follower.sound_print (J := J) hbefore).poll hfile hgrew
    rw [Follower.print_concat]
    exact ⟨hsound.offset_after, hmono, hsound.offset_le, hsound.bytesRead_le,
      hsound.rendered_eq⟩
  · intro final hlast
    obtain ⟨before, rfl⟩ := List.getLast?_eq_some_iff.mp hlast
    have hsound := Follower.sound_print (J := J) hgrows
    have hread : lastRead (before ++ [⟨final, final⟩]) = final := by simp [lastRead]
    rw [hread, Follower.print_concat] at hsound
    obtain ⟨hall, honce⟩ := hsound.rendered_all (Follower.poll_still _ final)
    have hprint : (Follower.print J false [⟨final, final⟩]).rendered =
        (renderUntilEof J final 0).1 := by
      rw [← renderUntilEofAt_still]
      rfl
    rw [Follower.print_concat, hprint]
    exact ⟨honce, hall⟩

/-- Two entries and a line that is not UTF-8; the file grows in the middle of a line, and
within two of the calls. -/
def samplePolls : List Poll :=
  let one := TranscriptWriter.entryLine Json.compact sampleEntry
  let two := one ++ [lineFeed, 0xff, lineFeed]
  [⟨[], one.take 5⟩, ⟨one.take 5, two⟩, ⟨two ++ one, two ++ one⟩]

/-- The file as the last call finds it. -/
def sampleFinal : List UInt8 :=
  let one := TranscriptWriter.entryLine Json.compact sampleEntry
  one ++ [lineFeed, 0xff, lineFeed] ++ one

theorem completeEntries_sampleFinal :
    CompleteEntries Json.compact sampleFinal [sampleEntry, sampleEntry] := by
  have hblank : ∀ entry, ¬ IsEntryLine Json.compact entry [lineFeed] := by
    rintro entry ⟨text, hline, hnonempty, -⟩
    have hnil : bytes "" = bytes text :=
      List.append_cancel_right (show [] ++ [lineFeed] = _ from hline)
    exact hnonempty (bytes_inj.mp hnil).symm
  have hbad : ∀ entry, ¬ IsEntryLine Json.compact entry [0xff, lineFeed] := by
    rintro entry ⟨text, hline, -⟩
    have htext : bytes text = [0xff] :=
      (List.append_cancel_right (show [0xff] ++ [lineFeed] = _ from hline)).symm
    cases (fromUtf8_eq_some_iff.mpr htext.symm).symm.trans (by decide : fromUtf8 [0xff] = none)
  have hone : IsEntryLine Json.compact sampleEntry
      (TranscriptWriter.entryLine Json.compact sampleEntry) := by
    have hline := renderLine_entryLine Json.compact_lawful sampleEntry
    rw [TranscriptWriter.entryLine, List.dropLast_concat] at hline
    exact renderLine_eq_some.mp hline
  have hlines : Lines.completeLines lineFeed sampleFinal =
      [TranscriptWriter.entryLine Json.compact sampleEntry, [lineFeed], [0xff, lineFeed],
        TranscriptWriter.entryLine Json.compact sampleEntry] := by
    have hisLine := entryLine_isLine Json.compact_lawful sampleEntry
    have hall : ∀ line ∈ [TranscriptWriter.entryLine Json.compact sampleEntry, [lineFeed],
        [0xff, lineFeed], TranscriptWriter.entryLine Json.compact sampleEntry],
        Lines.IsLine lineFeed line := by
      simp only [List.forall_mem_cons]
      exact ⟨hisLine, ⟨[], by decide, rfl⟩, ⟨[0xff], by decide, rfl⟩, hisLine,
        List.forall_mem_nil _⟩
    simpa [sampleFinal] using
      Lines.completeLines_flatten_append hall (List.not_mem_nil : lineFeed ∉ [])
  rw [CompleteEntries, hlines]
  exact .entry hone (.other hblank (.other hbad (.entry hone .nil)))

theorem follow_equals_print_samplePolls :
    AppendOnly samplePolls ∧
      (Follower.print Json.compact true samplePolls).rendered = [sampleEntry, sampleEntry] ∧
      (Follower.print Json.compact false [⟨sampleFinal, sampleFinal⟩]).rendered =
        [sampleEntry, sampleEntry] := by
  have hgrows : AppendOnly samplePolls := by
    have htake : (TranscriptWriter.entryLine Json.compact sampleEntry).take 5 <+:
        TranscriptWriter.entryLine Json.compact sampleEntry ++ [lineFeed, 0xff, lineFeed] :=
      (List.take_prefix 5 _).trans (List.prefix_append _ _)
    simp only [AppendOnly, samplePolls, List.isChain_cons_cons, List.isChain_singleton]
    simpa using htake
  obtain ⟨honce, hentries⟩ := (follow_equals_print Json.compact hgrows).2.1 sampleFinal rfl
  have hrendered := hentries.unique completeEntries_sampleFinal
  exact ⟨hgrows, hrendered, honce.symm.trans hrendered⟩

end Law

end Rexec
