import Rexec.Framing
import Rexec.Stages
import Rexec.Lib.Lines
import Mathlib.Tactic

/-!
# The host does not see how lines are cut

Over the simulation of `Framing`: a run of the byte machine in which the watcher
never times out on part of a line is, event for event, a run in which every line
arrives in one piece (`follows_run`, `whole_run`), so its reads return the
lines in order (`reads_lines`).  An Abort that has arrived while its command is
active kills that command (`abort_kills`, `abort_can_kill`).

`framing_lossless` puts these together.  `abort_lost` is what happens when the
watcher does time out on part of an Abort: the part is cleared with `line`, and
the rest is read as a line of its own.
-/

namespace Rexec

open Machine

/-! ## From lines back to bytes -/

section Replay

variable {cfg : Config} {part : List UInt8} {a : Lined}

/-- The reader gets at a line feed that has arrived. -/
theorem exists_fetch (cfg : Config) {s : Framed} (hreading : s.worker.awaiting.isSome)
    (hscanned : lineFeed ∉ s.line) (harrived : lineFeed ∈ s.buffered ++ s.socket) :
    ∃ ls t, run (Framed.step cfg) s ls = some t ∧ Framed.acts ls = [] ∧
      Framed.arrivals ls = [] ∧ lineFeed ∈ t.buffered ∧ lineFeed ∉ t.line ∧
      t.unread = s.unread ∧ t.rest = s.rest ∧ t.worker = s.worker := by
  by_cases hmem : lineFeed ∈ s.buffered
  · exact ⟨[], s, rfl, rfl, rfl, hmem, hscanned, rfl, rfl, rfl⟩
  · have hsocket : lineFeed ∈ s.socket := by
      rcases List.mem_append.mp harrived with hb | hs
      · exact absurd hb hmem
      · exact hs
    -- one more step of `read_line`, and the rest by induction
    have hnext : ∃ l m, s.step cfg l = some m ∧ Framed.acts [l] = [] ∧
        Framed.arrivals [l] = [] ∧ lineFeed ∉ m.line ∧
        lineFeed ∈ m.buffered ++ m.socket ∧ m.unread = s.unread ∧
        m.rest = s.rest ∧ m.worker = s.worker ∧
        2 * m.socket.length + m.buffered.length <
          2 * s.socket.length + s.buffered.length := by
      by_cases hbuffered : s.buffered = []
      · have hne : s.socket ≠ [] := List.ne_nil_of_mem hsocket
        have hpos := List.length_pos_iff.mpr hne
        let n := min Framed.capacity s.socket.length
        have hn : 0 < n := Nat.lt_min.mpr ⟨by decide, hpos⟩
        have hcut := List.take_append_drop n s.socket
        have htake : (s.socket.take n).length = n :=
          List.length_take_of_le (Nat.min_le_right ..)
        have hdrop : (s.socket.drop n).length = s.socket.length - n :=
          List.length_drop
        refine ⟨.recv (s.socket.take n).length,
          { s with buffered := s.socket.take n, socket := s.socket.drop n },
          Framed.step_of_cases (.recv hreading hbuffered ?_ ?_ hcut.symm),
          rfl, rfl, hscanned, ?_, ?_, rfl, rfl, ?_⟩
        · exact List.length_pos_iff.mp (by omega)
        · rw [htake]
          exact Nat.min_le_left ..
        · simpa only [hcut] using hsocket
        · simp only [Framed.unread, hbuffered, List.append_assoc, hcut, List.nil_append]
        · have hle : n ≤ s.socket.length := Nat.min_le_right ..
          simp only [htake, hdrop, hbuffered, List.length_nil]
          omega
      · refine ⟨.scan, { s with line := s.line ++ s.buffered, buffered := [] },
          Framed.step_of_cases (.scan hreading hbuffered hmem), rfl, rfl, ?_, ?_, ?_,
          rfl, rfl, ?_⟩
        · simp [hscanned, hmem]
        · simpa using hsocket
        · simp [Framed.unread]
        · have hpos := List.length_pos_iff.mpr hbuffered
          simp only [List.length_nil]
          omega
    obtain ⟨l, m, hm, hacts, harr, hline, hmore, hunread, hrest, hworker, hlt⟩ := hnext
    obtain ⟨ls, t, hrun, hacts', harr', htail⟩ :=
      exists_fetch cfg (s := m) (hworker ▸ hreading) hline hmore
    rw [hunread, hrest, hworker] at htail
    refine ⟨l :: ls, t, ?_, ?_, ?_, htail⟩
    · rw [run_cons, hm]
      exact hrun
    · rw [← List.singleton_append, Framed.acts_append, hacts, hacts', List.append_nil]
    · rw [← List.singleton_append, Framed.arrivals_append, harr, harr', List.append_nil]
termination_by 2 * s.socket.length + s.buffered.length

/--
The byte machine can follow the line machine: from `s` it performs the events
`es` while the bytes `pieces` arrive, and agrees with `a` then.
-/
def Replays (cfg : Config) (part : List UInt8) (s : Framed) (a : Lined)
    (es : List Event) (pieces : List (List UInt8)) : Prop :=
  ∃ ls t, run (Framed.step cfg) s ls = some t ∧ Framed.acts ls = es ∧
    Framed.arrivals ls = pieces ∧ t.worker = a.worker ∧ Aligned part t a

theorem Replays.after {s t : Framed} {b : Lined} {ls : List Framed.Label}
    {es : List Event} {pieces : List (List UInt8)}
    (hrun : run (Framed.step cfg) s ls = some t)
    (h : Replays cfg part t b es pieces) :
    Replays cfg part s b (Framed.acts ls ++ es) (Framed.arrivals ls ++ pieces) := by
  obtain ⟨ms, u, hrun', rfl, rfl, hworker, hal⟩ := h
  refine ⟨ls ++ ms, u, ?_, ?_, ?_, hworker, hal⟩
  · rw [run_append, hrun]
    exact hrun'
  · rw [Framed.acts_append]
  · rw [Framed.arrivals_append]

/-- One replay after another. -/
theorem Replays.trans {s : Framed} {b : Lined} {es es' : List Event}
    {pieces pieces' : List (List UInt8)} (h : Replays cfg part s a es pieces)
    (hnext : ∀ t : Framed, t.worker = a.worker → Aligned part t a →
      Replays cfg part t b es' pieces') :
    Replays cfg part s b (es ++ es') (pieces ++ pieces') := by
  obtain ⟨ls, t, hrun, rfl, rfl, hworker, hal⟩ := h
  exact .after hrun (hnext t hworker hal)

/-- An event that reads nothing. -/
theorem Aligned.replay_other {s : Framed} {e : Event} {w : Worker}
    (h : Aligned part s a) (hworker : s.worker = a.worker)
    (he : e.readResult = none) (hw : a.worker.step cfg e = some w) :
    Replays cfg part s { a with worker := w } [e] [] := by
  have hstep : s.step cfg (.act e) = some { s with worker := w } :=
    Framed.step_of_cases (.other he (hworker ▸ hw))
  exact ⟨[.act e], { s with worker := w }, run_singleton _ hstep, rfl, rfl, rfl,
    h.lines, h.scanned, h.unended, h.unread, h.ahead⟩

/-- A line that has arrived is read. -/
theorem Aligned.replay_line {s : Framed} {e : Event} {w : Worker} {timed : Bool}
    {l : List UInt8} {ls : List (List UInt8)}
    (h : Aligned part s a) (hworker : s.worker = a.worker)
    (hreading : a.worker.awaiting = some timed) (harrived : a.arrived = l :: ls)
    (he : e.readResult = some (lineResult l)) (hw : a.worker.step cfg e = some w) :
    Replays cfg part s { a with arrived := ls, worker := w } [e] [] := by
  have hl := h.arrived_isLine l (by simp [harrived])
  have hmem : lineFeed ∈ s.buffered ++ s.socket := by
    have hunread : lineFeed ∈ s.unread := by
      rw [h.unread, harrived]
      simp [hl.terminated]
    rw [Framed.unread, List.append_assoc, List.mem_append] at hunread
    rcases hunread with hline | hrest
    · exact absurd hline h.scanned
    · exact hrest
  obtain ⟨fs, t, hrun, hacts, harr, hbuffered, hscanned, hunread, hrest, hsame⟩ :=
    exists_fetch cfg (s := s) (by rw [hworker, hreading]; rfl) h.scanned hmem
  have hal : Aligned part t a :=
    ⟨h.lines, hscanned, h.unended, hunread.trans h.unread, by
      rw [hrest]
      exact h.ahead⟩
  obtain ⟨l', after, hl', hcut⟩ := Lines.exists_line_append hbuffered
  obtain ⟨ls', harrived', hafter⟩ := hal.first_line hl' hcut
  rw [harrived, List.cons.injEq] at harrived'
  obtain ⟨rfl, rfl⟩ := harrived'
  have hworker' : t.worker = a.worker := hsame.trans hworker
  have hstep : t.step cfg (.act e) =
      some { t with buffered := after, line := [], worker := w } :=
    Framed.step_of_cases
      (.line (hworker' ▸ hreading) hl' hcut he (hworker' ▸ hw))
  have hlast : Replays cfg part t { a with arrived := ls, worker := w } [e] [] := by
    refine ⟨[.act e], { t with buffered := after, line := [], worker := w },
      run_singleton _ hstep, rfl, rfl, rfl, ?_, by simp, h.unended, ?_, hal.ahead⟩
    · intro m hm
      refine h.lines m ?_
      rw [harrived]
      exact List.mem_cons_of_mem _ hm
    · simpa [Framed.unread] using hafter
  have hall := Replays.after hrun hlast
  rwa [hacts, harr] at hall

/-- With nothing but complete lines unread, every step can be followed. -/
theorem Aligned.replay {s : Framed} {l : Lined.Label} {b : Lined}
    (h : Aligned [] s a) (hworker : s.worker = a.worker)
    (hstep : a.step cfg l = some b) :
    ∃ pieces, Replays cfg [] s b (Lined.acts [l]) pieces ∧
      pieces ++ b.rest = a.rest := by
  have hidle : a.arrived = [] → s.buffered = [] ∧ s.socket = [] ∧ s.line = [] := by
    intro harrived
    have hunread := h.unread
    rw [harrived] at hunread
    simp only [Framed.unread, List.flatten_nil, List.append_nil,
      List.append_eq_nil_iff] at hunread
    exact ⟨hunread.1.2, hunread.2, hunread.1.1⟩
  have hlines : ∀ m ∈ [] ++ a.rest, Lines.IsLine lineFeed m := by
    intro m hm
    exact h.rest_isLine m (by simpa using hm)
  have hahead := h.ahead
  rw [List.nil_append] at hahead
  cases Lined.step_cases hstep with
  | @arrive l ls hrest =>
      have hl := h.rest_isLine l (by simp [hrest])
      have hcut : s.rest = l ++ ls.flatten := by
        rw [hahead, hrest, List.flatten_cons]
      refine ⟨[l], ⟨[.arrive l], { s with
        rest := ls.flatten, socket := s.socket ++ l },
        run_singleton _ (Framed.step_of_cases (.arrive hl.ne_nil hcut)), rfl, rfl,
        hworker, ?_, h.scanned, by simp, ?_, rfl⟩, hrest.symm⟩
      · intro m hm
        refine h.lines m ?_
        rw [hrest]
        simpa using hm
      · have hunread := h.unread
        simp only [Framed.unread] at hunread ⊢
        rw [← List.append_assoc, hunread]
        simp
  | other he hw => exact ⟨[], h.replay_other hworker he hw, rfl⟩
  | line hreading harrived he hw =>
      exact ⟨[], h.replay_line hworker hreading harrived he hw, rfl⟩
  | @timeout e w hreading harrived he hw =>
      obtain ⟨hbuffered, hsocket, hline⟩ := hidle harrived
      have hnext : s.step cfg (.act e) =
          some { s with buffered := [], line := [], worker := w } :=
        Framed.step_of_cases
          (.idle (hworker ▸ hreading) hbuffered hsocket rfl he (hworker ▸ hw))
      exact ⟨[], ⟨[.act e], { s with buffered := [], line := [], worker := w },
        run_singleton _ hnext, rfl, rfl, rfl, hlines, by simp, by simp,
        by simp [Framed.unread, hsocket], h.ahead⟩, rfl⟩
  | @eof e w timed hreading harrived hrest he hw =>
      obtain ⟨hbuffered, hsocket, hline⟩ := hidle harrived
      have hend : s.rest = [] := by
        rw [hahead, hrest]
        rfl
      have hnext : s.step cfg (.act e) =
          some { s with buffered := [], line := [], worker := w } :=
        Framed.step_of_cases
          (.idle (hworker ▸ hreading) hbuffered hsocket
            (by simp [Framed.idle, hend, hline]) he (hworker ▸ hw))
      exact ⟨[], ⟨[.act e], { s with buffered := [], line := [], worker := w },
        run_singleton _ hnext, rfl, rfl, rfl, hlines, by simp, by simp,
        by simp [Framed.unread, hsocket], h.ahead⟩, rfl⟩

end Replay

/-! ## Whole runs -/

section Runs

variable {cfg : Config} {lines : List (List UInt8)}

theorem aligned_start (hlines : ∀ l ∈ lines, Lines.IsLine lineFeed l) :
    Aligned [] (Framed.start lines.flatten) (Lined.start lines) :=
  ⟨by simpa [Lined.start] using hlines, by simp [Framed.start], by simp, rfl, rfl⟩

/-- A run that loses nothing is a run over whole lines, event for event. -/
theorem follows_run {es : List Framed.Label} {s : Framed}
    (hlines : ∀ l ∈ lines, Lines.IsLine lineFeed l)
    (hlossless : Along (Framed.step cfg) Framed.Lossless (Framed.start lines.flatten) es)
    (hrun : run (Framed.step cfg) (Framed.start lines.flatten) es = some s) :
    ∃ ls a, run (Lined.step cfg) (Lined.start lines) ls = some a ∧ Follows s a ∧
      Lined.acts ls = Framed.acts es := by
  refine run_induction_along (P := fun es s => ∃ ls a,
    run (Lined.step cfg) (Lined.start lines) ls = some a ∧ Follows s a ∧
      Lined.acts ls = Framed.acts es) ?_ ?_ hlossless hrun
  · exact ⟨[], _, rfl, ⟨rfl, fun _ => ⟨[], aligned_start hlines⟩⟩, rfl⟩
  · rintro es s l t - ⟨ls, a, hlined, hfollows, hacts⟩ hloss hstep
    obtain ⟨b, hfollows', hmirrors⟩ := follows_step hfollows hloss hstep
    have harrive : (∃ n, run (Lined.step cfg) a (List.replicate n .arrive) = some b) →
        Framed.acts [l] = [] →
        ∃ ls a, run (Lined.step cfg) (Lined.start lines) ls = some a ∧ Follows t a ∧
          Lined.acts ls = Framed.acts (es ++ [l]) := by
      rintro ⟨n, hn⟩ hl
      refine ⟨ls ++ List.replicate n .arrive, b, ?_, hfollows', ?_⟩
      · rw [run_append, hlined]
        exact hn
      · rw [Lined.acts_append, Framed.acts_append, hl, Lined.acts_arrive, hacts]
    cases l with
    | arrive piece => exact harrive hmirrors rfl
    | recv n => exact harrive hmirrors rfl
    | scan => exact harrive hmirrors rfl
    | act e =>
        have hlast : a.step cfg (.act e) = some b := hmirrors
        refine ⟨ls ++ [.act e], b, (run_concat _).mpr ⟨a, hlined, hlast⟩, hfollows', ?_⟩
        rw [Lined.acts_append, Framed.acts_append, hacts]
        rfl

/-- A run over whole lines is one of the byte machine. -/
theorem whole_run {ls : List Lined.Label} {a : Lined}
    (hlines : ∀ l ∈ lines, Lines.IsLine lineFeed l)
    (hrun : run (Lined.step cfg) (Lined.start lines) ls = some a) :
    ∃ pieces, Replays cfg [] (Framed.start lines.flatten) a (Lined.acts ls) pieces ∧
      pieces ++ a.rest = lines := by
  refine run_induction (P := fun ls a => ∃ pieces,
    Replays cfg [] (Framed.start lines.flatten) a (Lined.acts ls) pieces ∧
      pieces ++ a.rest = lines) ?_ ?_ hrun
  · exact ⟨[], ⟨[], _, rfl, rfl, rfl, rfl, aligned_start hlines⟩, rfl⟩
  · rintro ls a l b - ⟨pieces, ⟨fs, t, hfs, hacts, hpieces, hworker, hal⟩, hrest⟩ hstep
    obtain ⟨more, hreplay, hmore⟩ := hal.replay hworker hstep
    refine ⟨pieces ++ more, ?_, ?_⟩
    · rw [Lined.acts_append, ← hacts, ← hpieces]
      exact .after hfs hreplay
    · rw [List.append_assoc, hmore, hrest]

/-- The read took a line, complete or not, off the stream. -/
def ReadLine.tookLine : ReadLine → Bool
  | .line _ => true
  | .error => true
  | .eof => false
  | .timeout => false

/-- The results of the reads that took a line, in order. -/
def lineReads (es : List Event) : List ReadLine :=
  (es.filterMap Event.readResult).filter ReadLine.tookLine

theorem tookLine_lineResult (l : List UInt8) : (lineResult l).tookLine = true := by
  unfold lineResult
  split <;> rfl

theorem lineReads_concat (es : List Event) (e : Event) :
    lineReads (es ++ [e]) =
      lineReads es ++ (e.readResult.toList.filter ReadLine.tookLine) := by
  rw [lineReads, List.filterMap_append, List.filter_append]
  cases h : e.readResult <;> simp [lineReads, h]

/-- The reads of a run over whole lines return the lines in order. -/
theorem reads_lines {ls : List Lined.Label} {a : Lined}
    (hrun : run (Lined.step cfg) (Lined.start lines) ls = some a) :
    ∃ consumed, lines = consumed ++ a.arrived ++ a.rest ∧
      lineReads (Lined.acts ls) = consumed.map lineResult := by
  refine run_induction (P := fun ls a => ∃ consumed,
    lines = consumed ++ a.arrived ++ a.rest ∧
      lineReads (Lined.acts ls) = consumed.map lineResult) ?_ ?_ hrun
  · exact ⟨[], rfl, rfl⟩
  · rintro ls a l b - ⟨consumed, hlines, hreads⟩ hstep
    rw [Lined.acts_append]
    cases Lined.step_cases hstep with
    | @arrive l ls hrest =>
        refine ⟨consumed, ?_, ?_⟩
        · rw [hlines, hrest]
          simp
        · simpa [Lined.acts] using hreads
    | other he hw =>
        refine ⟨consumed, hlines, ?_⟩
        rw [Lined.acts_act, lineReads_concat, he, hreads]
        simp
    | @line e w timed l ls hreading harrived he hw =>
        refine ⟨consumed ++ [l], ?_, ?_⟩
        · rw [hlines, harrived]
          simp
        · rw [Lined.acts_act, lineReads_concat, he, hreads]
          simp [tookLine_lineResult]
    | timeout hreading harrived he hw =>
        refine ⟨consumed, by rw [hlines, harrived], ?_⟩
        rw [Lined.acts_act, lineReads_concat, he, hreads]
        simp [ReadLine.tookLine]
    | eof hreading harrived hrest he hw =>
        refine ⟨consumed, by rw [hlines, harrived], ?_⟩
        rw [Lined.acts_act, lineReads_concat, he, hreads]
        simp [ReadLine.tookLine]

end Runs

/-! ## Aborts -/

/-- Both signals were sent to the process group of `child`. -/
def Killed (child : Nat) (es : List Event) : Prop :=
  .watcherTerm child ∈ es ∧ .watcherKill child ∈ es

/-- The watcher has not yet done with its command. -/
def Worker.Watched (cmd₀ : Command) (w : Worker) : Prop :=
  ∃ cmd stage, w = .running cmd stage ∧ cmd.seq = cmd₀.seq ∧ cmd.child = cmd₀.child ∧
    ∀ aborted, cmd.watcher ≠ .done aborted

/--
The watcher of the command has an Abort to honour: one waits, or one was read
and the signals are being sent; `es` is what was done since the Abort arrived.
-/
def Owed (cfg : Config) (cmd₀ : Command) (es : List Event) (a : Lined) : Prop :=
  ∃ cmd stage, a.worker = .running cmd stage ∧ cmd.seq = cmd₀.seq ∧
    cmd.child = cmd₀.child ∧
    (((cmd.watcher = .check ∨ cmd.watcher = .reading) ∧
        ∃ l ∈ a.arrived, cfg.IsAbortLine l) ∨
      cmd.watcher = .term ∨
      (cmd.watcher = .kill ∧ .watcherTerm cmd₀.child ∈ es))

section Aborts

variable {cfg : Config} {cmd₀ : Command} {a : Lined} {es : List Event}

theorem Owed.watched (h : Owed cfg cmd₀ es a) : a.worker.Watched cmd₀ := by
  obtain ⟨cmd, stage, hworker, hseq, hchild, hcases⟩ := h
  refine ⟨cmd, stage, hworker, hseq, hchild, ?_⟩
  intro aborted hdone
  rcases hcases with ⟨h | h, -⟩ | h | ⟨h, -⟩ <;> rw [hdone] at h <;> cases h

/-- More lines do no harm. -/
theorem Owed.arrive (h : Owed cfg cmd₀ es a) {n : Nat} {b : Lined}
    (hrun : run (Lined.step cfg) a (List.replicate n .arrive) = some b) :
    Owed cfg cmd₀ es b := by
  induction n generalizing a with
  | zero =>
      cases hrun
      exact h
  | succ n ih =>
      rw [List.replicate_succ, run_cons, Option.bind_eq_some_iff] at hrun
      obtain ⟨m, hstep, hrun⟩ := hrun
      refine ih ?_ hrun
      cases Lined.step_cases hstep with
      | arrive hrest =>
          obtain ⟨cmd, stage, hworker, hseq, hchild, hcases⟩ := h
          refine ⟨cmd, stage, hworker, hseq, hchild, ?_⟩
          rcases hcases with ⟨hwatcher, l, hl, habort⟩ | hcases
          · exact .inl ⟨hwatcher, l, List.mem_append_left _ hl, habort⟩
          · exact .inr hcases

theorem onWatched_abortLine {l : List UInt8} (h : cfg.IsAbortLine l) :
    cfg.onWatched (lineResult l) = .term := by
  obtain ⟨text, htext, habort⟩ := h
  rw [htext, Config.onWatched_isAbort habort]

/-- An event of the host keeps the debt or pays it. -/
theorem Owed.act (h : Owed cfg cmd₀ es a) {e : Event} {b : Lined}
    (htidy : a.worker.Tidy)
    (htimely : e = .watcherCheck → ∀ cmd stage, a.worker = .running cmd stage →
      (∃ l ∈ a.arrived, cfg.IsAbortLine l) → cmd.commandFinished = false)
    (hstep : a.step cfg (.act e) = some b) :
    Owed cfg cmd₀ (es ++ [e]) b ∨ Killed cmd₀.child (es ++ [e]) := by
  obtain ⟨cmd₁, stage₁, hworker₁, -, -, hopen⟩ := h.watched
  obtain ⟨cmd, stage, hworker, hseq, hchild, hcases⟩ := h
  rw [hworker] at hworker₁ htidy
  obtain ⟨rfl, rfl⟩ := Worker.running.inj hworker₁
  have hw : a.worker.step cfg e = some b.worker := by
    cases Lined.step_cases hstep <;> assumption
  rw [hworker] at hw
  obtain ⟨cmd', stage', hworker', hseq', hchild', hwatches⟩ :=
    (Worker.step_cases hw).watched htidy hopen
  have hkeep : (((cmd'.watcher = .check ∨ cmd'.watcher = .reading) ∧
        ∃ l ∈ b.arrived, cfg.IsAbortLine l) ∨
      cmd'.watcher = .term ∨
      (cmd'.watcher = .kill ∧ .watcherTerm cmd₀.child ∈ es ++ [e])) →
      Owed cfg cmd₀ (es ++ [e]) b :=
    fun h => ⟨cmd', stage', hworker', hseq'.trans hseq, hchild'.trans hchild, h⟩
  -- an event that is no read leaves the lines
  have hsame : e.readResult = none → b.arrived = a.arrived := by
    intro he
    cases Lined.step_cases hstep with
    | other _ _ => rfl
    | line _ _ he' _ => simp [he] at he'
    | timeout _ _ he' _ => simp [he] at he'
    | eof _ _ _ he' _ => simp [he] at he'
  generalize hnow : cmd.watcher = now at hwatches hcases
  generalize hnext : cmd'.watcher = next at hwatches hkeep
  cases hwatches with
  | check =>
      rcases hcases with ⟨-, hwaits⟩ | h | ⟨h, -⟩
      · have hactive := htimely rfl cmd stage hworker hwaits
        refine .inl (hkeep (.inl ⟨.inr (by rw [hactive]; rfl), ?_⟩))
        rwa [hsame rfl]
      · cases h
      · cases h
  | @read r =>
      rcases hcases with ⟨-, l, hl, habort⟩ | h | ⟨h, -⟩
      · cases Lined.step_cases hstep with
        | other he _ => cases he
        | @line _ _ _ l' ls hreading harrived he _ =>
            obtain rfl : r = lineResult l' := by simpa [Event.readResult] using he
            by_cases hterm : cfg.onWatched (lineResult l') = .term
            · exact .inl (hkeep (.inr (.inl hterm)))
            · refine .inl (hkeep (.inl ⟨.inl ?_, l, ?_, habort⟩))
              · exact (cfg.onWatched_cases _).resolve_left hterm
              · rw [harrived] at hl
                rcases List.mem_cons.mp hl with rfl | hl
                · exact absurd (onWatched_abortLine habort) hterm
                · exact hl
        | timeout _ harrived _ _ =>
            rw [harrived] at hl
            cases hl
        | eof _ harrived _ _ _ =>
            rw [harrived] at hl
            cases hl
      · cases h
      · cases h
  | term =>
      refine .inl (hkeep (.inr (.inr ⟨rfl, ?_⟩)))
      rw [hchild]
      simp
  | kill =>
      rcases hcases with ⟨h | h, -⟩ | h | ⟨-, hterm⟩
      · cases h
      · cases h
      · cases h
      · refine .inr ⟨List.mem_append_left _ hterm, ?_⟩
        rw [hchild]
        simp
  | other hcheck hread =>
      have he : e.readResult = none := by
        cases e with
        | readLine r => exact absurd rfl (hread r).2
        | watcherRead r => exact absurd rfl (hread r).1
        | _ => rfl
      refine .inl (hkeep ?_)
      rw [hsame he]
      rcases hcases with hwaits | hterm | ⟨hkill, hmem⟩
      · exact .inl hwaits
      · exact .inr (.inl hterm)
      · exact .inr (.inr ⟨hkill, List.mem_append_left _ hmem⟩)

/-- The worker of the byte machine moves by its own steps only. -/
theorem Framed.step_worker {s t : Framed} {l : Framed.Label}
    (h : s.step cfg l = some t) :
    t.worker = s.worker ∨ ∃ e, s.worker.step cfg e = some t.worker := by
  cases Framed.step_cases h with
  | other _ hw => exact .inr ⟨_, hw⟩
  | line _ _ _ _ hw => exact .inr ⟨_, hw⟩
  | idle _ _ _ _ _ hw => exact .inr ⟨_, hw⟩
  | _ => exact .inl rfl

theorem Framed.step_tidy {s t : Framed} {l : Framed.Label} (h : s.worker.Tidy)
    (hstep : s.step cfg l = some t) :
    t.worker.Tidy := by
  rcases Framed.step_worker hstep with hsame | ⟨e, he⟩
  · rwa [hsame]
  · exact (Worker.step_cases he).tidy h

/--
While an Abort is owed, the command goes on until both signals are sent to its
process group.
-/
theorem abort_kills {ls : List Framed.Label} {s t : Framed} (hfollows : Follows s a)
    (htidy : s.worker.Tidy) (howed : Owed cfg cmd₀ [] a)
    (hlossless : Along (Framed.step cfg) Framed.Lossless s ls)
    (htimely : Along (Framed.step cfg) (Framed.Timely cfg) s ls)
    (hrun : run (Framed.step cfg) s ls = some t) :
    t.worker.Watched cmd₀ ∨ Killed cmd₀.child (Framed.acts ls) := by
  have hall : ∃ b, Follows t b ∧ t.worker.Tidy ∧
      (Owed cfg cmd₀ (Framed.acts ls) b ∨ Killed cmd₀.child (Framed.acts ls)) := by
    refine run_induction_along (P := fun ls t => ∃ b, Follows t b ∧ t.worker.Tidy ∧
      (Owed cfg cmd₀ (Framed.acts ls) b ∨ Killed cmd₀.child (Framed.acts ls)))
      ⟨a, hfollows, htidy, .inl howed⟩ ?_ (along_and hlossless htimely) hrun
    rintro ls s l t - ⟨b, hfollows, htidy, hdebt⟩ ⟨hloss, htime⟩ hstep
    obtain ⟨c, hfollows', hmirrors⟩ := follows_step hfollows hloss hstep
    refine ⟨c, hfollows', Framed.step_tidy htidy hstep, ?_⟩
    rw [Framed.acts_append]
    rcases hdebt with howed | hkilled
    · cases l with
      | arrive piece =>
          obtain ⟨n, hn⟩ := hmirrors
          exact .inl (by simpa [Framed.acts] using howed.arrive hn)
      | recv n =>
          obtain ⟨n, hn⟩ := hmirrors
          exact .inl (by simpa [Framed.acts] using howed.arrive hn)
      | scan =>
          obtain ⟨n, hn⟩ := hmirrors
          exact .inl (by simpa [Framed.acts] using howed.arrive hn)
      | act e =>
          refine howed.act (hfollows.worker ▸ htidy) ?_ hmirrors
          rintro rfl cmd stage hworker hwaits
          have hrunning : s.worker = .running cmd stage := by
            rw [hfollows.worker, hworker]
          obtain ⟨part, hal⟩ := hfollows.aligned (by rw [hrunning]; exact nofun)
          exact htime cmd stage hrunning (hal.abortWaits_iff.mpr hwaits)
    · exact .inr ⟨List.mem_append_left _ hkilled.1, List.mem_append_left _ hkilled.2⟩
  obtain ⟨b, hfollows', -, howed | hkilled⟩ := hall
  · left
    rw [hfollows'.worker]
    exact howed.watched
  · exact .inr hkilled

section Reach

variable {part : List UInt8} {cmd : Command} {stage : Stage}

theorem Worker.step_background {cmd' : Command} {e : Event}
    (h : cmd.Background cfg e cmd') :
    (Worker.running cmd stage).step cfg e = some (.running cmd' stage) :=
  Worker.step_iff.mpr (.background h)

theorem Worker.step_check (hwatcher : cmd.watcher = .check)
    (hactive : cmd.commandFinished = false) :
    (Worker.running cmd stage).step cfg .watcherCheck =
      some (.running { cmd with watcher := .reading } stage) := by
  have hreading : (if cmd.commandFinished then Watcher.done false else .reading) =
      .reading := by
    rw [hactive]
    rfl
  rw [← hreading]
  exact Worker.step_background (.watcherCheck hwatcher)

/-- The two signals, once the watcher is inside `kill_child_group`. -/
theorem Aligned.replay_kill (cfg : Config) {s : Framed} (h : Aligned part s a)
    (hsame : s.worker = a.worker) (hworker : a.worker = .running cmd stage)
    (hwatcher : cmd.watcher = .term) :
    Replays cfg part s
      { a with worker := .running { cmd with watcher := .done true } stage }
      [.watcherTerm cmd.child, .watcherKill cmd.child] [] := by
  have hterm : a.worker.step cfg (.watcherTerm cmd.child) =
      some (.running { cmd with watcher := .kill } stage) := by
    rw [hworker]
    exact Worker.step_background (.watcherTerm hwatcher)
  have hkill : (Worker.running { cmd with watcher := .kill } stage).step cfg
      (.watcherKill cmd.child) =
      some (.running { cmd with watcher := .done true } stage) :=
    Worker.step_background (.watcherKill rfl)
  exact (h.replay_other hsame rfl hterm).trans
    fun t ht hal => hal.replay_other ht rfl hkill

/-- The watcher reads on until it meets the Abort. -/
theorem replay_abort (cfg : Config) (part : List UInt8) (hworker : a.worker = .running cmd stage)
    (hactive : cmd.commandFinished = false) (hwatcher : cmd.watcher = .reading)
    (hwaits : ∃ l ∈ a.arrived, cfg.IsAbortLine l) :
    ∃ es b, Killed cmd.child es ∧ ∀ s, s.worker = a.worker → Aligned part s a →
      Replays cfg part s b es [] := by
  obtain ⟨l, hl, habort⟩ := hwaits
  generalize harrived : a.arrived = arrived at hl
  induction arrived generalizing a cmd with
  | nil => cases hl
  | cons l' ls ih =>
      have hreading : a.worker.awaiting = some true := by
        rw [hworker, Worker.awaiting, if_pos hwatcher]
      have hread : a.worker.step cfg (.watcherRead (lineResult l')) =
          some (.running { cmd with watcher := cfg.onWatched (lineResult l') } stage) := by
        rw [hworker]
        exact Worker.step_background (.watcherRead hwatcher)
      by_cases hterm : cfg.onWatched (lineResult l') = .term
      · rw [hterm] at hread
        refine ⟨[.watcherRead (lineResult l')] ++
          [.watcherTerm cmd.child, .watcherKill cmd.child],
          { a with
            arrived := ls, worker := .running { cmd with watcher := .done true } stage },
          by simp [Killed], ?_⟩
        intro s hsame hal
        refine (hal.replay_line hsame hreading harrived rfl hread).trans
          fun t ht hal' => ?_
        have hnow : ({ a with
            arrived := ls
            worker := .running { cmd with watcher := .term } stage } : Lined).worker =
            .running { cmd with watcher := .term } stage := rfl
        have hlast := hal'.replay_kill cfg ht hnow rfl
        exact hlast
      · have hcheck := (cfg.onWatched_cases (lineResult l')).resolve_left hterm
        rw [hcheck] at hread
        have hagain : (Worker.running { cmd with watcher := .check } stage).step cfg
            .watcherCheck =
            some (.running { cmd with watcher := .reading } stage) :=
          Worker.step_check rfl hactive
        have hmem : l ∈ ls := by
          rcases List.mem_cons.mp hl with rfl | hmem
          · exact absurd (onWatched_abortLine habort) hterm
          · exact hmem
        obtain ⟨es, b, hkilled, hreplay⟩ := ih
          (a := { a with
            arrived := ls, worker := .running { cmd with watcher := .reading } stage })
          rfl hactive rfl rfl hmem
        refine ⟨[.watcherRead (lineResult l')] ++ ([.watcherCheck] ++ es), b, ?_, ?_⟩
        · exact ⟨by simp [hkilled.1], by simp [hkilled.2]⟩
        · intro s hsame hal
          exact (hal.replay_line hsame hreading harrived rfl hread).trans
            fun t ht hal' => (hal'.replay_other ht rfl hagain).trans
              fun u hu hal'' => hreplay u hu hal''

/-- By its own steps the host can honour an Abort that waits. -/
theorem Aligned.abort_can_kill {s : Framed} (h : Aligned part s a)
    (hsame : s.worker = a.worker) (hworker : s.worker = .running cmd stage)
    (hactive : cmd.commandFinished = false)
    (hwatcher : cmd.watcher = .check ∨ cmd.watcher = .reading)
    (hwaits : s.AbortWaits cfg) :
    ∃ ls t, run (Framed.step cfg) s ls = some t ∧ Framed.arrivals ls = [] ∧
      Killed cmd.child (Framed.acts ls) := by
  have hlines := h.abortWaits_iff.mp hwaits
  have hreach : ∃ es b, Killed cmd.child es ∧ Replays cfg part s b es [] := by
    rcases hwatcher with hcheck | hreading
    · have hlook : a.worker.step cfg .watcherCheck =
          some (.running { cmd with watcher := .reading } stage) := by
        rw [← hsame, hworker]
        exact Worker.step_check hcheck hactive
      obtain ⟨es, b, hkilled, hreplay⟩ := replay_abort cfg part
        (a := { a with worker := .running { cmd with watcher := .reading } stage })
        rfl hactive rfl hlines
      refine ⟨[.watcherCheck] ++ es, b, ⟨by simp [hkilled.1], by simp [hkilled.2]⟩, ?_⟩
      exact (h.replay_other hsame rfl hlook).trans fun t ht hal => hreplay t ht hal
    · obtain ⟨es, b, hkilled, hreplay⟩ := replay_abort cfg part
        (hsame ▸ hworker) hactive hreading hlines
      exact ⟨es, b, hkilled, hreplay s hsame h⟩
  obtain ⟨es, b, hkilled, ls, t, hrun, rfl, harr, -, -⟩ := hreach
  exact ⟨ls, t, hrun, harr, hkilled⟩

end Reach

end Aborts

/-! ## Lines as clients send them -/

theorem lineResult_bytes (text : String) : lineResult (bytes text) = .line text := by
  rw [lineResult, fromUtf8_bytes]

/-- What a client writes for a message arrives as a line of bytes. -/
theorem Message.bytes_isLine {J : JsonText} (hJ : J.Lawful) (m : Message) :
    Lines.IsLine lineFeed (bytes (J.line m.toJson)) :=
  isLine_bytes (m.line_isLine hJ)

/-- A client that pings twice, sends its request and then an Abort. -/
def sampleLines : List (List UInt8) :=
  [bytes samplePing, bytes samplePing, bytes sampleRequestLine, bytes sampleAbort]

/-- The Abort without its line feed. -/
def sampleAbortHead : List UInt8 :=
  (bytes sampleAbort).dropLast

section Samples

variable {silent : Bool}

theorem sampleLines_isLine : ∀ l ∈ sampleLines, Lines.IsLine lineFeed l := by
  have hJ := Json.compact_lawful
  intro l hl
  simp only [sampleLines, List.mem_cons, List.not_mem_nil, or_false] at hl
  rcases hl with rfl | rfl | rfl | rfl
  · exact Message.bytes_isLine hJ (.clientAction .ping)
  · exact Message.bytes_isLine hJ (.clientAction .ping)
  · exact Message.bytes_isLine hJ (.request sampleRequest)
  · exact Message.bytes_isLine hJ (.clientAction .abort)

theorem bytes_sampleAbort : bytes sampleAbort = sampleAbortHead ++ [lineFeed] := by
  decide

/-- Nothing that has arrived is unread. -/
def Framed.clean (rest : List UInt8) (worker : Worker) : Framed :=
  { rest, socket := [], buffered := [], line := [], worker }

/-- A line arrives and is read at once. -/
theorem run_line {cfg : Config} {worker w : Worker} {text : String}
    {rest : List UInt8} {e : Event} (hl : Lines.IsLine lineFeed (bytes text))
    (hlen : (bytes text).length ≤ Framed.capacity)
    (hreading : worker.awaiting.isSome) (he : e.readResult = some (.line text))
    (hw : worker.step cfg e = some w) :
    run (Framed.step cfg) (Framed.clean (bytes text ++ rest) worker)
      [.arrive (bytes text), .recv (bytes text).length, .act e] =
      some (Framed.clean rest w) := by
  obtain ⟨timed, htimed⟩ := Option.isSome_iff_exists.mp hreading
  have harrive : Framed.step cfg ⟨bytes text ++ rest, [], [], [], worker⟩
      (.arrive (bytes text)) = some ⟨rest, bytes text, [], [], worker⟩ :=
    Framed.step_of_cases (.arrive hl.ne_nil rfl)
  have hrecv : Framed.step cfg ⟨rest, bytes text, [], [], worker⟩
      (.recv (bytes text).length) = some ⟨rest, [], bytes text, [], worker⟩ :=
    Framed.step_of_cases
      (.recv hreading rfl hl.ne_nil hlen (List.append_nil _).symm)
  have hact : Framed.step cfg ⟨rest, [], bytes text, [], worker⟩ (.act e) =
      some ⟨rest, [], [], [], w⟩ :=
    Framed.step_of_cases (.line htimed hl (List.append_nil _).symm
      (by rw [List.nil_append, lineResult_bytes]; exact he) hw)
  rw [Framed.clean, run_cons, harrive, Option.bind_some, run_cons, hrecv,
    Option.bind_some]
  exact run_singleton _ hact

/-- Events that read nothing. -/
theorem run_others {cfg : Config} {s : Framed} {es : List Event} {w : Worker}
    (hes : ∀ e ∈ es, e.readResult = none)
    (hw : run (Worker.step cfg) s.worker es = some w) :
    run (Framed.step cfg) s (es.map .act) = some { s with worker := w } := by
  induction es generalizing s with
  | nil =>
      obtain rfl : s.worker = w := by simpa using hw
      rfl
  | cons e es ih =>
      rw [run_cons, Option.bind_eq_some_iff] at hw
      obtain ⟨v, hv, hrest⟩ := hw
      have hstep : s.step cfg (.act e) = some { s with worker := v } :=
        Framed.step_of_cases (.other (hes e (by simp)) hv)
      rw [List.map_cons, run_cons, hstep, Option.bind_some]
      exact ih (fun e' he' => hes e' (by simp [he'])) hrest

/-- The command of the sample request, its watcher reading. -/
def sampleWatched (silent : Bool) : Command :=
  { Command.spawned silent 0 sampleRequest "" 7 with watcher := .reading }

def samplePingRead : List Framed.Label :=
  [.arrive (bytes samplePing), .recv (bytes samplePing).length,
    .act (.readLine (.line samplePing))]

def sampleRequestRead : List Framed.Label :=
  [.arrive (bytes sampleRequestLine), .recv (bytes sampleRequestLine).length,
    .act (.readLine (.line sampleRequestLine))]

/-- The client's opening and its request, up to the watcher's first read. -/
def sampleServed : List Framed.Label :=
  [Event.tryClone true].map .act ++ (samplePingRead ++
    ([Event.writePong true].map .act ++ (samplePingRead ++
      ([Event.writePong true].map .act ++ (sampleRequestRead ++
        [Event.fetchAdd 0 "", .spawn sampleRequest (.ok 7), .watcherCheck].map .act)))))

theorem run_sampleServed :
    run (Framed.step (.compact silent)) (Framed.start sampleLines.flatten) sampleServed =
      some (Framed.clean (bytes sampleAbort)
        (.running (sampleWatched silent) .joinReader)) := by
  have hping : Lines.IsLine lineFeed (bytes samplePing) :=
    sampleLines_isLine _ (by simp [sampleLines])
  have hrequest : Lines.IsLine lineFeed (bytes sampleRequestLine) :=
    sampleLines_isLine _ (by simp [sampleLines])
  have hother : ∀ rest worker es w, (∀ e ∈ es, Event.readResult e = none) →
      run (Worker.step (.compact silent)) worker es = some w →
      run (Framed.step (.compact silent)) (Framed.clean rest worker) (es.map .act) =
        some (Framed.clean rest w) :=
    fun rest worker es w hes hw => run_others (s := Framed.clean rest worker) hes hw
  have hpinged : ∀ rest worker w, worker.awaiting.isSome →
      worker.step (.compact silent) (.readLine (.line samplePing)) = some w →
      run (Framed.step (.compact silent)) (Framed.clean (bytes samplePing ++ rest) worker)
        samplePingRead = some (Framed.clean rest w) :=
    fun rest worker w hreading hw => run_line hping (by decide) hreading rfl hw
  have hstart : Framed.start sampleLines.flatten =
      Framed.clean (bytes samplePing ++ (bytes samplePing ++
        (bytes sampleRequestLine ++ bytes sampleAbort))) .start := by
    simp [Framed.start, Framed.clean, sampleLines]
  rw [hstart, sampleServed, run_append, hother _ _ _ .handshake (by simp [Event.readResult]) rfl,
    Option.bind_some, run_append,
    hpinged _ _ .openingPong rfl (by simp [Worker.step]), Option.bind_some, run_append,
    hother _ _ _ (.lineLoop false) (by simp [Event.readResult]) rfl, Option.bind_some,
    run_append, hpinged _ _ .pong rfl (by simp [Worker.step]), Option.bind_some, run_append,
    hother _ _ _ (.lineLoop true) (by simp [Event.readResult]) rfl, Option.bind_some,
    run_append, sampleRequestRead,
    run_line (w := .accepted sampleRequest) hrequest (by decide) rfl rfl
      (by simp [Worker.step]), Option.bind_some]
  refine hother _ _ _ _ (by simp [Event.readResult]) ?_
  simp [run_cons, Worker.step, Command.foreground, Command.background, sampleWatched,
    Command.spawned]

/-- The Abort arrives in two pieces, and the first of them is read. -/
def sampleCut : List Framed.Label :=
  [.arrive sampleAbortHead, .recv sampleAbortHead.length, .scan, .arrive [lineFeed]]

/-- The watcher reads the rest of the Abort and kills the command. -/
def sampleKill : List Framed.Label :=
  [.recv [lineFeed].length, .act (.watcherRead (.line sampleAbort))] ++
    [Event.watcherTerm 7, .watcherKill 7].map .act

/-- The Abort arrives in two pieces, and the watcher times out in between. -/
def sampleLoss : List Framed.Label :=
  [.arrive sampleAbortHead, .recv sampleAbortHead.length, .scan,
    .act (.watcherRead .timeout), .arrive [lineFeed]]

/-- The watcher reads the rest of the Abort, and the command ends. -/
def sampleEnd : List Framed.Label :=
  [Event.watcherCheck].map .act ++
    ([.recv [lineFeed].length, .act (.watcherRead (.line "\n"))] ++
      [Event.ptyEof, .joinReader, .storeFinished, .cancelTimer, .watcherCheck,
        .joinWatcher].map .act)

/-- The command of the sample request as it ends by itself. -/
def sampleOver (silent : Bool) : Command :=
  { Command.spawned silent 0 sampleRequest "" 7 with
    buffer := (PtyBuffer.new silent).setEof
    readerDone := true
    commandFinished := true
    watcher := .done false }

section Cut

variable {worker : Worker} (hreading : worker.awaiting.isSome)

include hreading

/-- The first part of the Abort is in `line`. -/
theorem run_head (cfg : Config) :
    run (Framed.step cfg) (Framed.clean (bytes sampleAbort) worker)
      [.arrive sampleAbortHead, .recv sampleAbortHead.length, .scan] =
      some ⟨[lineFeed], [], [], sampleAbortHead, worker⟩ := by
  have hne : sampleAbortHead ≠ [] := by decide
  have harrive : Framed.step cfg ⟨bytes sampleAbort, [], [], [], worker⟩
      (.arrive sampleAbortHead) =
      some ⟨[lineFeed], sampleAbortHead, [], [], worker⟩ :=
    Framed.step_of_cases (.arrive hne bytes_sampleAbort)
  have hrecv : Framed.step cfg ⟨[lineFeed], sampleAbortHead, [], [], worker⟩
      (.recv sampleAbortHead.length) =
      some ⟨[lineFeed], [], sampleAbortHead, [], worker⟩ :=
    Framed.step_of_cases (.recv hreading rfl hne (by decide) (List.append_nil _).symm)
  have hscan : Framed.step cfg ⟨[lineFeed], [], sampleAbortHead, [], worker⟩ .scan =
      some ⟨[lineFeed], [], [], sampleAbortHead, worker⟩ :=
    Framed.step_of_cases
      (.scan hreading hne (show lineFeed ∉ sampleAbortHead by decide))
  rw [Framed.clean, run_cons, harrive, Option.bind_some, run_cons, hrecv,
    Option.bind_some]
  exact run_singleton _ hscan

/-- The line feed is read, after what `line` holds. -/
theorem run_feed {cfg : Config} {line : List UInt8} {text : String} {e : Event}
    {w : Worker} (hline : lineResult (line ++ [lineFeed]) = .line text)
    (he : e.readResult = some (.line text)) (hw : worker.step cfg e = some w) :
    run (Framed.step cfg) ⟨[], [lineFeed], [], line, worker⟩
      [.recv [lineFeed].length, .act e] = some (Framed.clean [] w) := by
  obtain ⟨timed, htimed⟩ := Option.isSome_iff_exists.mp hreading
  have hrecv : Framed.step cfg ⟨[], [lineFeed], [], line, worker⟩
      (.recv [lineFeed].length) = some ⟨[], [], [lineFeed], line, worker⟩ :=
    Framed.step_of_cases (.recv hreading rfl (by simp) (by decide) rfl)
  have hact : Framed.step cfg ⟨[], [], [lineFeed], line, worker⟩ (.act e) =
      some (Framed.clean [] w) :=
    Framed.step_of_cases (.line htimed ⟨[], by simp, rfl⟩ rfl
      (he.trans (congrArg some hline.symm)) hw)
  rw [run_cons, hrecv, Option.bind_some]
  exact run_singleton _ hact

end Cut

theorem run_sampleCut :
    run (Framed.step (.compact silent)) (Framed.start sampleLines.flatten)
      (sampleServed ++ sampleCut) =
      some ⟨[], [lineFeed], [], sampleAbortHead,
        .running (sampleWatched silent) .joinReader⟩ := by
  have harrive : Framed.step (.compact silent)
      ⟨[lineFeed], [], [], sampleAbortHead, .running (sampleWatched silent) .joinReader⟩
      (.arrive [lineFeed]) =
      some ⟨[], [lineFeed], [], sampleAbortHead, .running (sampleWatched silent) .joinReader⟩ :=
    Framed.step_of_cases (.arrive (by simp) rfl)
  have hsplit : sampleCut =
      [.arrive sampleAbortHead, .recv sampleAbortHead.length, .scan] ++
        [.arrive [lineFeed]] := rfl
  rw [run_append, run_sampleServed, Option.bind_some, hsplit, run_append,
    run_head (by rfl) _, Option.bind_some]
  exact run_singleton _ harrive

theorem run_sampleKill :
    run (Framed.step (.compact silent))
      ⟨[], [lineFeed], [], sampleAbortHead, .running (sampleWatched silent) .joinReader⟩
      sampleKill =
      some (Framed.clean []
        (.running { sampleWatched silent with watcher := .done true } .joinReader)) := by
  let worker := Worker.running (sampleWatched silent) .joinReader
  have hread : worker.step (.compact silent) (.watcherRead (.line sampleAbort)) =
      some (.running { sampleWatched silent with watcher := .term } .joinReader) := by
    rw [← onWatched_sampleAbort silent]
    exact Worker.step_background (.watcherRead rfl)
  have hline : lineResult (sampleAbortHead ++ [lineFeed]) = .line sampleAbort := by
    rw [← bytes_sampleAbort, lineResult_bytes]
  rw [sampleKill, run_append, run_feed rfl hline rfl hread, Option.bind_some]
  exact run_others (s := Framed.clean [] _) (by simp [Event.readResult]) rfl

end Samples

/-! ## The law -/

/--
The host does as if every line had arrived in one piece: the events of the run
are those of a run in which each piece is a line, and end in the same worker.
-/
def AsWhole (cfg : Config) (lines : List (List UInt8)) (ls : List Framed.Label)
    (s : Framed) : Prop :=
  ∃ ls' s', run (Framed.step cfg) (Framed.start lines.flatten) ls' = some s' ∧
    Framed.arrivals ls' <+: lines ∧ Framed.acts ls' = Framed.acts ls ∧
    s'.worker = s.worker

/--
Framing: take a stream of complete lines and any run over it, cut as it may be,
in which no read of the watcher times out on part of a line.

* The host does as if every line had arrived in one piece.
* The reads that take a line, the watcher's and the worker's, return the lines
  of the stream in order.
* An Abort changes nothing between commands.
* An Abort that has arrived while its command is active can be honoured by the
  host on its own, and the command does not end before it is, unless the watcher
  next looks after the command has finished.
-/
theorem framing_lossless {cfg : Config} {lines : List (List UInt8)}
    {ls : List Framed.Label} {s : Framed}
    (hlines : ∀ l ∈ lines, Lines.IsLine lineFeed l)
    (hlossless : Along (Framed.step cfg) Framed.Lossless (Framed.start lines.flatten) ls)
    (hrun : run (Framed.step cfg) (Framed.start lines.flatten) ls = some s) :
    AsWhole cfg lines ls s ∧
      (∃ k, lineReads (Framed.acts ls) = (lines.take k).map lineResult) ∧
      (∀ p text, cfg.IsAbort text → cfg.onLine p (.line text) = .lineLoop p) ∧
      ∀ ls₁ ls₂ m cmd stage, ls = ls₁ ++ ls₂ →
        run (Framed.step cfg) (Framed.start lines.flatten) ls₁ = some m →
        m.worker = .running cmd stage → cmd.commandFinished = false →
        cmd.watcher = .check ∨ cmd.watcher = .reading → m.AbortWaits cfg →
        (∃ fs t, run (Framed.step cfg) m fs = some t ∧ Framed.arrivals fs = [] ∧
          Killed cmd.child (Framed.acts fs)) ∧
        (Along (Framed.step cfg) (Framed.Timely cfg) m ls₂ →
          s.worker.Watched cmd ∨ Killed cmd.child (Framed.acts ls₂)) := by
  obtain ⟨lined, a, hlined, hfollows, hacts⟩ := follows_run hlines hlossless hrun
  refine ⟨?_, ?_, fun p text h => Config.onLine_abort p h, ?_⟩
  · obtain ⟨pieces, ⟨fs, t, hfs, hevents, hpieces, hworker, -⟩, hrest⟩ :=
      whole_run hlines hlined
    refine ⟨fs, t, hfs, ?_, hevents.trans hacts, ?_⟩
    · rw [hpieces, ← hrest]
      exact List.prefix_append ..
    · rw [hworker, hfollows.worker]
  · obtain ⟨consumed, hconsumed, hreads⟩ := reads_lines hlined
    refine ⟨consumed.length, ?_⟩
    rw [← hacts, hreads, hconsumed, List.append_assoc, List.take_left]
  · rintro ls₁ ls₂ m cmd stage rfl hm hrunning hactive hwatcher hwaits
    obtain ⟨hbefore, hafter⟩ := along_append.mp hlossless
    obtain ⟨-, b, -, hb, -⟩ := follows_run hlines hbefore hm
    obtain ⟨part, hal⟩ := hb.aligned (by rw [hrunning]; exact nofun)
    refine ⟨hal.abort_can_kill hb.worker hrunning hactive hwatcher hwaits, ?_⟩
    intro htimely
    have htidy : m.worker.Tidy :=
      run_invariant (I := fun s : Framed => s.worker.Tidy)
        (fun _ _ _ h hstep => Framed.step_tidy h hstep)
        (show (Framed.start lines.flatten).worker.Tidy from trivial) hm
    have howed : Owed cfg cmd [] b :=
      ⟨cmd, stage, hb.worker ▸ hrunning, rfl, rfl,
        .inl ⟨hwatcher, hal.abortWaits_iff.mp hwaits⟩⟩
    have hrest : run (Framed.step cfg) m ls₂ = some s := by
      rw [run_append, hm] at hrun
      exact hrun
    exact abort_kills hb htidy howed (hafter m hm) htimely hrest

theorem sampleAbort_isAbort : (Config.compact silent).IsAbort sampleAbort :=
  ⟨Message.line_not_blank Json.compact_lawful (.clientAction .abort),
    Config.ofJson_action Json.compact_lawful .abort⟩

/-- The law for an Abort that is cut in two, without a timeout in between: it waits, and the
command is killed. -/
theorem framing_lossless_cut :
    ∃ m s, run (Framed.step (.compact false)) (Framed.start sampleLines.flatten)
        (sampleServed ++ sampleCut) = some m ∧
      m.AbortWaits (.compact false) ∧
      run (Framed.step (.compact false)) m sampleKill = some s ∧
      AsWhole (.compact false) sampleLines (sampleServed ++ sampleCut ++ sampleKill) s ∧
      (∃ k, lineReads (Framed.acts (sampleServed ++ sampleCut ++ sampleKill)) =
        (sampleLines.take k).map lineResult) ∧
      (∃ fs t, run (Framed.step (.compact false)) m fs = some t ∧ Framed.arrivals fs = [] ∧
        Killed 7 (Framed.acts fs)) ∧
      Killed 7 (Framed.acts sampleKill) := by
  have hlossless : Along (Framed.step (.compact false)) Framed.Lossless
      (Framed.start sampleLines.flatten) (sampleServed ++ sampleCut ++ sampleKill) := by
    refine along_of_forall ?_
    simp [sampleServed, samplePingRead, sampleRequestRead, sampleCut, sampleKill,
      Framed.Lossless]
  have hrun : run (Framed.step (.compact false)) (Framed.start sampleLines.flatten)
      (sampleServed ++ sampleCut ++ sampleKill) =
      some (Framed.clean []
        (.running { sampleWatched false with watcher := .done true } .joinReader)) := by
    rw [run_append, run_sampleCut, Option.bind_some, run_sampleKill]
  have hwaits : Framed.AbortWaits (.compact false) ⟨[], [lineFeed], [], sampleAbortHead,
      .running (sampleWatched false) .joinReader⟩ := by
    have hline : Lines.IsLine lineFeed (bytes sampleAbort) :=
      sampleLines_isLine _ (by simp [sampleLines])
    have hcomplete : Lines.completeLines lineFeed (bytes sampleAbort) = [bytes sampleAbort] := by
      simpa using Lines.completeLines_flatten_append (List.forall_mem_singleton.mpr hline)
        (List.not_mem_nil : lineFeed ∉ [])
    refine ⟨bytes sampleAbort, ?_, sampleAbort, lineResult_bytes _, sampleAbort_isAbort⟩
    simp only [Framed.unread, List.append_nil, ← bytes_sampleAbort]
    rw [hcomplete]
    exact List.mem_singleton_self _
  have htimely : ∀ m, Along (Framed.step (.compact false)) (Framed.Timely (.compact false)) m
      sampleKill := by
    intro m
    refine along_of_forall ?_
    simp [sampleKill, Framed.Timely]
  obtain ⟨hwhole, hreads, -, hkill⟩ := framing_lossless sampleLines_isLine hlossless hrun
  obtain ⟨hcan, hkilled⟩ := hkill _ _ _ _ _ rfl run_sampleCut rfl rfl (.inr rfl) hwaits
  refine ⟨_, _, run_sampleCut, hwaits, run_sampleKill, hwhole, hreads, hcan, ?_⟩
  refine (hkilled (htimely _)).resolve_left ?_
  rintro ⟨cmd, stage, hrunning, -, -, hwatched⟩
  cases hrunning
  exact hwatched true rfl

theorem run_sampleLoss {silent : Bool} :
    run (Framed.step (.compact silent))
      (Framed.clean (bytes sampleAbort) (.running (sampleWatched silent) .joinReader))
      sampleLoss =
      some ⟨[], [lineFeed], [], [],
        .running { sampleWatched silent with watcher := .check } .joinReader⟩ := by
  let worker := Worker.running (sampleWatched silent) .joinReader
  let checking := Worker.running { sampleWatched silent with watcher := .check } .joinReader
  have hread : worker.step (.compact silent) (.watcherRead .timeout) = some checking :=
    Worker.step_background (.watcherRead rfl)
  have htimeout : Framed.step (.compact silent)
      ⟨[lineFeed], [], [], sampleAbortHead, worker⟩ (.act (.watcherRead .timeout)) =
      some ⟨[lineFeed], [], [], [], checking⟩ :=
    Framed.step_of_cases (.idle rfl rfl rfl rfl rfl hread)
  have harrive : Framed.step (.compact silent) ⟨[lineFeed], [], [], [], checking⟩
      (.arrive [lineFeed]) = some ⟨[], [lineFeed], [], [], checking⟩ :=
    Framed.step_of_cases (.arrive (by simp) rfl)
  have hsplit : sampleLoss =
      [.arrive sampleAbortHead, .recv sampleAbortHead.length, .scan] ++
        [.act (.watcherRead .timeout), .arrive [lineFeed]] := rfl
  rw [hsplit, run_append, run_head (by rfl) _, Option.bind_some, run_cons, htimeout,
    Option.bind_some]
  exact run_singleton _ harrive

theorem run_sampleEnd {silent : Bool} :
    run (Framed.step (.compact silent))
      ⟨[], [lineFeed], [], [],
        .running { sampleWatched silent with watcher := .check } .joinReader⟩ sampleEnd =
      some (Framed.clean [] (.running (sampleOver silent) (.waitChild false false))) := by
  let checking := Worker.running { sampleWatched silent with watcher := .check } .joinReader
  have hcheck : run (Framed.step (.compact silent)) ⟨[], [lineFeed], [], [], checking⟩
      ([Event.watcherCheck].map .act) =
      some ⟨[], [lineFeed], [], [], .running (sampleWatched silent) .joinReader⟩ :=
    run_others (by simp [Event.readResult]) rfl
  have hblank : (Config.compact silent).onWatched (.line "\n") = .check := by
    have hempty : (trimEnd "\n").isEmpty = true := by decide
    simp only [Config.onWatched, hempty, if_true]
  have hread : (Worker.running (sampleWatched silent) .joinReader).step (.compact silent)
      (.watcherRead (.line "\n")) = some checking := by
    have hnext : checking = .running { sampleWatched silent with
        watcher := (Config.compact silent).onWatched (.line "\n") } .joinReader := by
      rw [hblank]
    rw [hnext]
    exact Worker.step_background (.watcherRead rfl)
  have hover : run (Framed.step (.compact silent)) (Framed.clean [] checking)
      ([Event.ptyEof, .joinReader, .storeFinished, .cancelTimer, .watcherCheck,
        .joinWatcher].map .act) =
      some (Framed.clean [] (.running (sampleOver silent) (.waitChild false false))) :=
    run_others (s := Framed.clean [] checking) (by simp [Event.readResult]) rfl
  rw [sampleEnd, run_append, hcheck, Option.bind_some, run_append,
    run_feed rfl (show lineResult ([] ++ [lineFeed]) = .line "\n" by decide) rfl hread,
    Option.bind_some]
  exact hover

/--
What a timeout inside an Abort does.  The Abort has arrived completely while its
command is active and its watcher is about to look, the watcher never finds the
command finished with anything unread, and yet the command ends without a
signal.  The reads of the run are not the lines of the stream.
-/
theorem abort_lost :
    (∃ l ∈ sampleLines, (Config.compact false).IsAbortLine l) ∧
    ∃ ls₁ ls₂ m s cmd cmd',
      run (Framed.step (.compact false)) (Framed.start sampleLines.flatten) ls₁ =
        some m ∧
      m.rest = [] ∧ m.worker = .running cmd .joinReader ∧
      cmd.commandFinished = false ∧ cmd.watcher = .check ∧
      run (Framed.step (.compact false)) m ls₂ = some s ∧
      s.unread = [] ∧ s.worker = .running cmd' (.waitChild false false) ∧
      (∀ child, .watcherTerm child ∉ Framed.acts (ls₁ ++ ls₂)) ∧
      ¬ ∃ k, lineReads (Framed.acts (ls₁ ++ ls₂)) =
        (sampleLines.take k).map lineResult := by
  refine ⟨⟨bytes sampleAbort, by simp [sampleLines], sampleAbort, lineResult_bytes _,
    sampleAbort_isAbort⟩, sampleServed ++ sampleLoss, sampleEnd, _, _, _, _,
    by rw [run_append, run_sampleServed, Option.bind_some, run_sampleLoss], rfl, rfl, rfl,
    rfl, run_sampleEnd, rfl, rfl, ?_, ?_⟩
  · intro child
    simp [sampleServed, samplePingRead, sampleRequestRead, sampleLoss, sampleEnd,
      Framed.acts]
  · rintro ⟨k, hk⟩
    have hreads : lineReads (Framed.acts ((sampleServed ++ sampleLoss) ++ sampleEnd)) =
        [.line samplePing, .line samplePing, .line sampleRequestLine, .line "\n"] := rfl
    have hmem : ReadLine.line "\n" ∈ sampleLines.map lineResult := by
      rw [hreads, List.map_take] at hk
      apply List.mem_of_mem_take (i := k)
      rw [← hk]
      simp
    simp only [sampleLines, List.map_cons, List.map_nil, lineResult_bytes, List.mem_cons,
      List.not_mem_nil, or_false, ReadLine.line.injEq] at hmem
    -- no line of the client is blank
    have hblank : ∀ m : Message, "\n" ≠ Json.compact.line m.toJson := by
      intro m heq
      have hempty : (trimEnd "\n").isEmpty = true := by decide
      rw [heq, Message.line_not_blank Json.compact_lawful m] at hempty
      cases hempty
    rcases hmem with h | h | h | h
    · exact hblank (.clientAction .ping) h
    · exact hblank (.clientAction .ping) h
    · exact hblank (.request sampleRequest) h
    · exact hblank (.clientAction .abort) h

end Rexec
