import Rexec.Quoting
import Rexec.FilterText
import Rexec.TranscriptQueue
import Mathlib.Tactic

/-!
# Two renderings of a command

The host prints a command on its console as a banner, the raw output and a line
feed.  The client renders the entry of the command as a header, the output and
one or two line feeds, and with colours on request; an attached client with
colours is sent the raw output in place of the filtered one.

* `renderEntryTo_eq` splits the client's rendering into the header and what
  `closed` makes of the output: a line feed to end its last line, if there is
  none, and one more.
* `rendering_reproduces_iff` compares the console with the plain rendering.
* `colours_cancel` says that the colours of the header are all the filter takes
  out of it, and `colour_only_iff` compares the two renderings of the client.
-/

namespace Rexec

namespace Client

/-- What is in a header only with colours. -/
def colour (ansi : Bool) (code : String) : String :=
  if ansi then code else ""

/-- The header of `render_entry_to`. -/
def header (entry : TranscriptEntry) (ansi : Bool) : String :=
  (match entry.time with
    | some ts => colour ansi "\x1b[2m" ++ "[" ++ ts ++ "] " ++ colour ansi "\x1b[0m"
    | none => "") ++
  colour ansi "\x1b[1;36m" ++ entry.whoami ++ colour ansi "\x1b[0m" ++ ":" ++
  colour ansi "\x1b[34m" ++ entry.dir ++
  (if ansi then "\x1b[0m \x1b[1;33m$\x1b[0m" else " $") ++
  " TO=" ++ toString entry.timeout.toNat ++
  String.join (entry.exec.map fun arg => " " ++ shellQuote arg)

/-- `render_entry_to`. -/
def renderEntryTo (entry : TranscriptEntry) (ansi : Bool) : List UInt8 :=
  bytes (header entry ansi ++ "\n") ++ bytes entry.output ++
    (if entry.output.toList.getLast? = some '\n' then [] else [lineFeed]) ++ [lineFeed]

/-- The output of a command as it is rendered: its last line is ended, and an empty line
follows. -/
def closed (output : List UInt8) : List UInt8 :=
  output ++ (if output.getLast? = some lineFeed then [] else [lineFeed]) ++ [lineFeed]

end Client

open Client

/-! ## The end of the output -/

/-- Text ends in a line feed if its bytes do. -/
theorem endsInLineFeed_iff (s : String) :
    s.toList.getLast? = some '\n' ↔ (bytes s).getLast? = some lineFeed := by
  unfold bytes
  cases s.toList using List.reverseRecOn with
  | nil => simp
  | append_singleton cs c =>
      have hne : String.utf8EncodeChar c ≠ [] := by
        intro h
        have hlength := String.length_utf8EncodeChar c
        have hpos := c.utf8Size_pos
        rw [h, List.length_nil] at hlength
        omega
      have hlast : (cs.flatMap String.utf8EncodeChar ++ String.utf8EncodeChar c).getLast? =
          (String.utf8EncodeChar c).getLast? := by
        rw [List.getLast?_append_of_ne_nil _ hne]
      rw [List.getLast?_concat, List.flatMap_append, List.flatMap_singleton, hlast]
      constructor
      · intro h
        cases h
        rfl
      · intro h
        rw [lineFeed_mem_encode (List.mem_of_getLast? h)]

theorem renderEntryTo_eq (entry : TranscriptEntry) (ansi : Bool) :
    renderEntryTo entry ansi =
      bytes (header entry ansi ++ "\n") ++ closed (bytes entry.output) := by
  simp only [renderEntryTo, closed, endsInLineFeed_iff, List.append_assoc]

/-- One line feed behind the output is enough if the output ends its last line. -/
theorem concat_eq_closed_iff (output : List UInt8) :
    output ++ [lineFeed] = closed output ↔ output.getLast? = some lineFeed := by
  unfold closed
  split
  · rename_i h
    simp [h]
  · rename_i h
    simp [h]

/-! ## The console and the plain rendering -/

theorem banner_eq_header (request : Request) (requestTime : String) (exit : Int32)
    (output : String) (error : Option String) :
    banner request requestTime =
      header (request.entry requestTime exit output error) false ++ "\n" := by
  apply String.toList_inj.mp
  simp [banner, header, colour, Request.entry, shellQuote_eq]

/--
For a command that was spawned and whose raw output is text without ESC and CR, the host
prints on its console what the client renders of the entry, if and only if the output ends
in a line feed.
-/
theorem rendering_reproduces_iff
    (request : Request) (requestTime : String) (exit : Int32) (error : Option String)
    {raw : List UInt8} {text : String} (hvalid : fromUtf8 raw = some text)
    (hclean : ∀ b ∈ raw, b ≠ 0x1b ∧ b ≠ 0x0d) :
    (⟨request, requestTime, some raw⟩ : ConsoleJob).block =
        renderEntryTo (request.entry requestTime exit
          (fromUtf8Lossy (FilterState.push .normal raw).2) error) false ↔
      raw.getLast? = some lineFeed := by
  obtain rfl := fromUtf8_eq_some_iff.mp hvalid
  have hblock : (⟨request, requestTime, some (bytes text)⟩ : ConsoleJob).block =
      bytes (banner request requestTime) ++ (bytes text ++ [lineFeed]) := by
    rw [ConsoleJob.block, Option.getD_some, List.append_assoc]
    rfl
  rw [FilterGrammar.push_clean hclean, fromUtf8Lossy_bytes, renderEntryTo_eq,
    ← banner_eq_header, hblock, List.append_cancel_left_eq]
  exact concat_eq_closed_iff _

theorem rendering_reproduces_iff_line :
    (⟨sampleRequest, "09:42", some [0x6f, 0x6b, lineFeed]⟩ : ConsoleJob).block =
        renderEntryTo (sampleRequest.entry "09:42" 0
          (fromUtf8Lossy (FilterState.push .normal [0x6f, 0x6b, lineFeed]).2) none) false ↔
      [0x6f, 0x6b, lineFeed].getLast? = some lineFeed :=
  rendering_reproduces_iff sampleRequest "09:42" 0 none
    (show fromUtf8 [0x6f, 0x6b, lineFeed] = some "ok\n" from rfl) (by simp [lineFeed])

/-- A command that prints `red` and no line feed: the client puts an empty line behind it,
the host does not. -/
theorem unterminated_output_differs :
    ¬ ∀ (request : Request) (requestTime : String) (exit : Int32) (error : Option String)
      (raw : List UInt8) (text : String), fromUtf8 raw = some text →
        (∀ b ∈ raw, b ≠ 0x1b ∧ b ≠ 0x0d) →
        (⟨request, requestTime, some raw⟩ : ConsoleJob).block =
          renderEntryTo (request.entry requestTime exit
            (fromUtf8Lossy (FilterState.push .normal raw).2) error) false := by
  intro h
  have hred := h sampleRequest "09:42" 0 none [0x72, 0x65, 0x64] "red" rfl (by simp)
  have hlength := congrArg List.length hred
  exact absurd hlength (by decide)

/-! ## The colours of a header -/

/-- Filtering the first text gives the second, and the filter is outside a sequence before
and after it. -/
def Shows (text shown : String) : Prop :=
  FilterState.push .normal (bytes text) = (.normal, bytes shown)

theorem Shows.append {s t s' t' : String} (hs : Shows s s') (ht : Shows t t') :
    Shows (s ++ t) (s' ++ t') := by
  rw [Shows, bytes_append, FilterState.push_append, hs, ht, bytes_append]

/-- Text without ESC and CR. -/
def Plain (s : String) : Prop :=
  ∀ c ∈ s.toList, c ≠ Char.ofNat 0x1b ∧ c ≠ '\r'

instance (s : String) : Decidable (Plain s) :=
  List.decidableBAll (fun c => c ≠ Char.ofNat 0x1b ∧ c ≠ '\r') s.toList

theorem Plain.append {s t : String} (hs : Plain s) (ht : Plain t) : Plain (s ++ t) := by
  intro c hc
  rw [String.toList_append, List.mem_append] at hc
  exact hc.elim (hs c) (ht c)

theorem Plain.shows {s : String} (h : Plain s) : Shows s s := by
  have hesc : (0x1b : UInt8) ∉ bytes s := fun hmem =>
    (h _ ((mem_bytes_iff (c := Char.ofNat 0x1b) rfl (by decide)).mp hmem)).1 rfl
  have hcr : (0x0d : UInt8) ∉ bytes s := fun hmem =>
    (h _ ((mem_bytes_iff (c := '\r') rfl (by decide)).mp hmem)).2 rfl
  exact FilterGrammar.push_clean fun b hb =>
    ⟨ne_of_mem_of_not_mem hb hesc, ne_of_mem_of_not_mem hb hcr⟩

theorem plain_shellQuote {arg : String} (h : Plain arg) : Plain (Client.shellQuote arg) := by
  unfold Client.shellQuote
  split
  · exact h
  · intro c hc
    have hquote : quote ≠ Char.ofNat 0x1b ∧ quote ≠ '\r' := by decide
    simp only [String.toList_ofList, List.cons_append, List.mem_cons, List.mem_append,
      List.mem_flatMap, List.not_mem_nil, or_false] at hc
    rcases hc with rfl | ⟨d, hd, hmem⟩ | rfl
    · exact hquote
    · split at hmem
      · simp only [List.mem_cons, List.not_mem_nil, or_false] at hmem
        rcases hmem with rfl | rfl | rfl | rfl
        · exact hquote
        · decide
        · exact hquote
        · exact hquote
      · rw [List.mem_singleton.mp hmem]
        exact h d hd
    · exact hquote

theorem plain_arguments {exec : List String} (h : ∀ arg ∈ exec, Plain arg) :
    Plain (String.join (exec.map fun arg => " " ++ Client.shellQuote arg)) := by
  intro c hc
  rw [String.toList_join, List.flatMap_map] at hc
  obtain ⟨arg, harg, hmem⟩ := List.mem_flatMap.mp hc
  exact (Plain.append (by decide) (plain_shellQuote (h arg harg))) c hmem

theorem plain_toString (n : Nat) : Plain (toString n) := by
  intro c hc
  have hmem : c ∈ Nat.toDigits 10 n := by simpa using hc
  have hdigit : c.isDigit = true := Nat.isDigit_of_mem_toDigits (by omega) (by omega) hmem
  constructor <;> rintro rfl <;> exact absurd hdigit (by decide)

/-- The time, the names and the arguments of an entry are text without ESC and CR. -/
structure HeaderPlain (entry : TranscriptEntry) : Prop where
  time : ∀ ts ∈ entry.time, Plain ts
  whoami : Plain entry.whoami
  dir : Plain entry.dir
  exec : ∀ arg ∈ entry.exec, Plain arg

/-- The filter takes the colours out of a header, and nothing else. -/
theorem colours_cancel {entry : TranscriptEntry} (h : HeaderPlain entry) :
    Shows (header entry true) (header entry false) := by
  have htime : Shows
      (match entry.time with
        | some ts => colour true "\x1b[2m" ++ "[" ++ ts ++ "] " ++ colour true "\x1b[0m"
        | none => "")
      (match entry.time with
        | some ts => colour false "\x1b[2m" ++ "[" ++ ts ++ "] " ++ colour false "\x1b[0m"
        | none => "") := by
    cases hts : entry.time with
    | none => rfl
    | some ts =>
        have hdim : Shows (colour true "\x1b[2m") (colour false "\x1b[2m") := by rfl
        have hbracket : Shows "[" "[" := by rfl
        have hreset : Shows (colour true "\x1b[0m") (colour false "\x1b[0m") := by rfl
        have hspace : Shows "] " "] " := by rfl
        exact (((hdim.append hbracket).append (h.time ts hts).shows).append hspace).append hreset
  have hname : Shows (colour true "\x1b[1;36m") (colour false "\x1b[1;36m") := by rfl
  have hreset : Shows (colour true "\x1b[0m") (colour false "\x1b[0m") := by rfl
  have hcolon : Shows ":" ":" := by rfl
  have hdir : Shows (colour true "\x1b[34m") (colour false "\x1b[34m") := by rfl
  have hprompt : Shows "\x1b[0m \x1b[1;33m$\x1b[0m" " $" := by rfl
  have htimeout : Shows " TO=" " TO=" := by rfl
  exact (((((((((htime.append hname).append h.whoami.shows).append hreset).append
    hcolon).append hdir).append h.dir.shows).append hprompt).append htimeout).append
    (plain_toString _).shows).append (plain_arguments h.exec).shows

/-! ## The two renderings of the client -/

/-- `OutputFilter` over a whole output. -/
def filtered (output : List UInt8) : List UInt8 :=
  (FilterState.push .normal output).2

/-- The filter's output for a text is the text it is read as, if and only if the filter
splits no character. -/
theorem filtered_text_iff (r : String) :
    filtered (bytes r) = bytes (fromUtf8Lossy (filtered (bytes r))) ↔
      FilterText.EscapesAscii .normal (bytes r) := by
  rw [← fromUtf8_eq_some_iff, fromUtf8_eq_lossy_iff]
  exact FilterText.valid_push_iff (p := none) (by simp) rfl
    (valid_of_fromUtf8 (fromUtf8_bytes r))

/-- The last byte outside any sequence is LF or CR. -/
def ShownEndsLine (output : List UInt8) : Prop :=
  (FilterGrammar.read output).ordinary.getLast? = some 0x0a ∨
    (FilterGrammar.read output).ordinary.getLast? = some 0x0d

instance (output : List UInt8) : Decidable (ShownEndsLine output) :=
  inferInstanceAs (Decidable (_ ∨ _))

theorem filtered_ends_iff (output : List UInt8) :
    (filtered output).getLast? = some lineFeed ↔ ShownEndsLine output := by
  have hmap : filtered output =
      (FilterGrammar.read output).ordinary.map FilterGrammar.crToLf :=
    congrArg Prod.snd (FilterGrammar.push_reading (FilterGrammar.read output))
  rw [hmap, List.getLast?_map, ShownEndsLine]
  cases hlast : (FilterGrammar.read output).ordinary.getLast? with
  | none => simp
  | some b =>
      by_cases hcr : b = 0x0d
      · simp [FilterGrammar.crToLf, hcr, lineFeed]
      · simp [FilterGrammar.crToLf, hcr, lineFeed]

/-- Filtering the colours' rendering gives the plain header and the filtered output, with
the line feeds the raw output asks for. -/
theorem filtered_rendering {entry : TranscriptEntry} (h : HeaderPlain entry)
    (hend : (FilterState.push .normal (bytes entry.output)).1 = .normal) :
    filtered (renderEntryTo entry true) =
      bytes (header entry false ++ "\n") ++ (filtered (bytes entry.output) ++
        (if (bytes entry.output).getLast? = some lineFeed then [] else [lineFeed]) ++
          [lineFeed]) := by
  have hline : Shows "\n" "\n" := by rfl
  have hheader : FilterState.push .normal (bytes (header entry true ++ "\n")) =
      (.normal, bytes (header entry false ++ "\n")) :=
    (colours_cancel h).append hline
  have hpush : FilterState.push .normal (bytes entry.output) =
      (.normal, filtered (bytes entry.output)) := Prod.ext hend rfl
  have hends : ∀ ends : List UInt8, ends = [] ∨ ends = [lineFeed] →
      FilterState.push .normal (ends ++ [lineFeed]) = (.normal, ends ++ [lineFeed]) := by
    rintro ends (rfl | rfl) <;> rfl
  rw [renderEntryTo_eq, closed]
  generalize header entry true ++ "\n" = coloured at hheader
  generalize header entry false ++ "\n" = plain at hheader
  generalize hif : (if (bytes entry.output).getLast? = some lineFeed then []
    else [lineFeed]) = ends
  have hcases : ends = [] ∨ ends = [lineFeed] := by
    split at hif
    · exact .inl hif.symm
    · exact .inr hif.symm
  have hall : FilterState.push .normal
      (bytes coloured ++ (bytes entry.output ++ ends ++ [lineFeed])) =
        (.normal, bytes plain ++ (filtered (bytes entry.output) ++ ends ++ [lineFeed])) := by
    rw [List.append_assoc, FilterState.push_append, hheader, FilterState.push_append, hpush,
      hends ends hcases, List.append_assoc]
  exact congrArg Prod.snd hall

/-- The text that bytes are read as is not theirs with a line feed more or less. -/
theorem lossy_lineFeed (output : List UInt8) :
    output ≠ bytes (fromUtf8Lossy output) ++ [lineFeed] ∧
      output ++ [lineFeed] ≠ bytes (fromUtf8Lossy output) := by
  constructor
  · intro h
    have hbytes : output = bytes (fromUtf8Lossy output ++ "\n") := by
      rw [bytes_append]
      exact h
    have hlossy := congrArg String.length
      ((congrArg fromUtf8Lossy hbytes).trans (fromUtf8Lossy_bytes _))
    simp at hlossy
  · intro h
    have hlast : (fromUtf8Lossy output).toList.getLast? = some '\n' := by
      rw [endsInLineFeed_iff, ← h, List.getLast?_concat]
    obtain ⟨body, hbody⟩ := List.getLast?_eq_some_iff.mp hlast
    have htext : fromUtf8Lossy output = String.ofList body ++ "\n" := by
      apply String.toList_inj.mp
      rw [hbody, String.toList_append, String.toList_ofList]
      rfl
    have hbytes : output = bytes (String.ofList body) := by
      rw [htext, bytes_append] at h
      exact List.append_cancel_right h
    have hlossy := congrArg String.length
      (htext.symm.trans ((congrArg fromUtf8Lossy hbytes).trans (fromUtf8Lossy_bytes _)))
    simp at hlossy

/-- The line feeds agree only when the output is the text it is read as, and ends in a line
feed when the raw output does. -/
theorem endings_eq_iff (output : List UInt8) (ends : Prop) [Decidable ends] :
    output ++ (if ends then [] else [lineFeed]) ++ [lineFeed] =
        closed (bytes (fromUtf8Lossy output)) ↔
      output = bytes (fromUtf8Lossy output) ∧ (ends ↔ output.getLast? = some lineFeed) := by
  obtain ⟨hmore, hless⟩ := lossy_lineFeed output
  constructor
  · intro h
    rw [closed] at h
    have hcancel := List.append_cancel_right h
    by_cases hends : ends
    · by_cases hlast : (bytes (fromUtf8Lossy output)).getLast? = some lineFeed
      · rw [if_pos hends, if_pos hlast, List.append_nil, List.append_nil] at hcancel
        exact ⟨hcancel, iff_of_true hends (hcancel ▸ hlast)⟩
      · rw [if_pos hends, if_neg hlast, List.append_nil] at hcancel
        exact absurd hcancel hmore
    · by_cases hlast : (bytes (fromUtf8Lossy output)).getLast? = some lineFeed
      · rw [if_neg hends, if_pos hlast, List.append_nil] at hcancel
        exact absurd hcancel hless
      · rw [if_neg hends, if_neg hlast] at hcancel
        have heq := List.append_cancel_right hcancel
        exact ⟨heq, iff_of_false hends (heq ▸ hlast)⟩
  · rintro ⟨heq, hiff⟩
    rw [closed, ← heq]
    by_cases hends : ends
    · rw [if_pos hends, if_pos (hiff.mp hends)]
    · rw [if_neg hends, if_neg (mt hiff.mpr hends)]

/--
What an attached client with colours shows of a command, filtered, is what one without
shows, if and only if the filter splits no character of the raw output, and the raw output
ends in a line feed exactly when the last byte outside its sequences is LF or CR.
-/
theorem colour_only_iff
    {entry : TranscriptEntry} {raw : String} (hplain : HeaderPlain entry)
    (hend : (FilterState.push .normal (bytes raw)).1 = .normal) (sender sender' : Nat) :
    let record : TranscriptRecord :=
      { entry := { entry with output := fromUtf8Lossy (filtered (bytes raw)) }
        rawOutput := raw }
    filtered (renderEntryTo (TranscriptQueue.entryFor ⟨true, sender⟩ record) true) =
        renderEntryTo (TranscriptQueue.entryFor ⟨false, sender'⟩ record) false ↔
      FilterText.EscapesAscii .normal (bytes raw) ∧
        ((bytes raw).getLast? = some lineFeed ↔ ShownEndsLine (bytes raw)) := by
  intro record
  have hcoloured : TranscriptQueue.entryFor ⟨true, sender⟩ record =
      { entry with output := raw } := rfl
  have hplainEntry : TranscriptQueue.entryFor ⟨false, sender'⟩ record =
      { entry with output := fromUtf8Lossy (filtered (bytes raw)) } := rfl
  have hheader : HeaderPlain { entry with output := raw } :=
    ⟨hplain.time, hplain.whoami, hplain.dir, hplain.exec⟩
  have hsame : ∀ output output' : String,
      header { entry with output := output } false =
        header { entry with output := output' } false := fun _ _ => rfl
  rw [hcoloured, hplainEntry, filtered_rendering hheader hend, renderEntryTo_eq,
    hsame raw (fromUtf8Lossy (filtered (bytes raw))), List.append_cancel_left_eq,
    endings_eq_iff, filtered_text_iff, filtered_ends_iff]

theorem headerPlain_sampleEntry : HeaderPlain sampleEntry := by
  constructor <;> simp [sampleEntry, Plain]

theorem colour_only_iff_red :
    let raw := "\x1b[31mred\x1b[0m\n"
    let record : TranscriptRecord :=
      { entry := { sampleEntry with output := fromUtf8Lossy (filtered (bytes raw)) }
        rawOutput := raw }
    filtered (renderEntryTo (TranscriptQueue.entryFor ⟨true, 0⟩ record) true) =
        renderEntryTo (TranscriptQueue.entryFor ⟨false, 1⟩ record) false ↔
      FilterText.EscapesAscii .normal (bytes raw) ∧
        ((bytes raw).getLast? = some lineFeed ↔ ShownEndsLine (bytes raw)) :=
  colour_only_iff headerPlain_sampleEntry rfl 0 1

/-- A command that resets the colours behind its last line feed: the client with colours
puts two empty lines behind it. -/
theorem reset_adds_line :
    ¬ ∀ (entry : TranscriptEntry) (raw : String), HeaderPlain entry →
      (FilterState.push .normal (bytes raw)).1 = .normal →
        filtered (renderEntryTo { entry with output := raw } true) =
          renderEntryTo { entry with output := fromUtf8Lossy (filtered (bytes raw)) }
            false := by
  intro h
  have hreset := h sampleEntry "red\n\x1b[0m" headerPlain_sampleEntry rfl
  exact absurd (congrArg List.length hreset) (by decide)

end Rexec
