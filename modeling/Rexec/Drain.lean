import Rexec.Console
import Rexec.Lib.Machine
import Mathlib.Tactic

/-!
# Draining the PTY

The two threads of one command that share a `PtyBuffer`: `pty_reader` reads a
chunk without the lock and appends it under the lock; `drain_to_stdout` takes
what is pending under the lock and writes it without.  The drain may start at any
time, before the first chunk or long after the end.

* `Drain.step` is the machine of both; each section under the lock is one step.
* `Drain.Exact` is the invariant of the buffer.
* `drain_exact` states for whole runs that no byte is lost or written twice, and
  that the drain returns.
* `follows_step`: the console of the host moves each of its buffers as this
  machine does.
-/

namespace Rexec

open Machine

/-- How a `read` of the PTY ends. -/
inductive PtyRead where
  | data (chunk : List UInt8)
  | interrupted
  /-- nothing more, `EIO`, or another error -/
  | ended
deriving DecidableEq

/-- Where `pty_reader` stands. -/
inductive PtyReader where
  | reading
  /-- a chunk was read, and is not in the buffer yet -/
  | appending (chunk : List UInt8)
  /-- behind the loop, about to set `eof` -/
  | leaving
  | done
deriving DecidableEq

/-- Where `drain_to_stdout` stands. -/
inductive Drainer where
  | absent
  /-- about to look at the buffer -/
  | looking
  /-- on the condition variable -/
  | asleep
  | writing (chunk : List UInt8) (eof : Bool)
  | returned
deriving DecidableEq

/-- What was read and is not in the buffer. -/
def PtyReader.holds : PtyReader → List UInt8
  | .appending chunk => chunk
  | _ => []

namespace Drainer

/-- What was taken out of the buffer and is not written. -/
def holds : Drainer → List UInt8
  | .writing chunk _ => chunk
  | _ => []

/-- It has seen `eof`, or it has returned. -/
def sawEof : Drainer → Bool
  | .writing _ eof => eof
  | .returned => true
  | _ => false

/-- `notify_all` on the condition variable of the buffer. -/
def notified : Drainer → Drainer
  | .asleep => .looking
  | d => d

@[simp] theorem notified_holds (d : Drainer) : d.notified.holds = d.holds := by
  cases d <;> rfl

@[simp] theorem notified_sawEof (d : Drainer) : d.notified.sawEof = d.sawEof := by
  cases d <;> rfl

theorem notified_ne_asleep (d : Drainer) : d.notified ≠ .asleep := by
  cases d <;> simp [notified]

end Drainer

structure Drain where
  reader : PtyReader
  filter : FilterState
  buffer : PtyBuffer
  drainer : Drainer
  /-- what `drain_to_stdout` has written -/
  written : List UInt8

namespace Drain

/-- A command is spawned by a host that is not silent. -/
def init : Drain :=
  { reader := .reading, filter := .normal, buffer := PtyBuffer.new false
    drainer := .absent, written := [] }

inductive Label where
  | read (r : PtyRead)
  | append
  | finish
  | start
  | look
  /-- a wake-up nobody asked for -/
  | wake
  | write
deriving DecidableEq

def step (d : Drain) : Label → Option Drain
  | .read (.data chunk) =>
      if d.reader = .reading ∧ chunk ≠ [] then
        some { d with reader := .appending chunk }
      else none
  | .read .interrupted => if d.reader = .reading then some d else none
  | .read .ended =>
      if d.reader = .reading then some { d with reader := .leaving } else none
  | .append =>
      match d.reader with
      | .appending chunk =>
          let pushed := d.buffer.append d.filter chunk
          some { d with
            reader := .reading, filter := pushed.1, buffer := pushed.2
            drainer := d.drainer.notified }
      | _ => none
  | .finish =>
      if d.reader = .leaving then
        some { d with
          reader := .done, buffer := d.buffer.setEof, drainer := d.drainer.notified }
      else none
  | .start => if d.drainer = .absent then some { d with drainer := .looking } else none
  | .look =>
      if d.drainer = .looking then
        if d.buffer.rawPending = [] ∧ d.buffer.eof = false then
          some { d with drainer := .asleep }
        else
          some { d with
            buffer := d.buffer.take.2
            drainer := .writing d.buffer.take.1 d.buffer.eof }
      else none
  | .wake => if d.drainer = .asleep then some { d with drainer := .looking } else none
  | .write =>
      match d.drainer with
      | .writing chunk eof =>
          some { d with
            written := d.written ++ chunk
            drainer := if eof then .returned else .looking }
      | _ => none

/-! ## What a step can do -/

inductive Step (d : Drain) : Label → Drain → Prop where
  | data {chunk : List UInt8} (hreader : d.reader = .reading) (hchunk : chunk ≠ []) :
      Step d (.read (.data chunk)) { d with reader := .appending chunk }
  | interrupted (hreader : d.reader = .reading) : Step d (.read .interrupted) d
  | ended (hreader : d.reader = .reading) :
      Step d (.read .ended) { d with reader := .leaving }
  | append {chunk : List UInt8} (hreader : d.reader = .appending chunk) :
      Step d .append
        { d with
          reader := .reading
          filter := (d.buffer.append d.filter chunk).1
          buffer := (d.buffer.append d.filter chunk).2
          drainer := d.drainer.notified }
  | finish (hreader : d.reader = .leaving) :
      Step d .finish
        { d with
          reader := .done, buffer := d.buffer.setEof, drainer := d.drainer.notified }
  | start (hdrainer : d.drainer = .absent) : Step d .start { d with drainer := .looking }
  | sleep (hdrainer : d.drainer = .looking) (hempty : d.buffer.rawPending = [])
      (heof : d.buffer.eof = false) :
      Step d .look { d with drainer := .asleep }
  | take (hdrainer : d.drainer = .looking) :
      Step d .look
        { d with
          buffer := d.buffer.take.2
          drainer := .writing d.buffer.take.1 d.buffer.eof }
  | wake (hdrainer : d.drainer = .asleep) : Step d .wake { d with drainer := .looking }
  | write {chunk : List UInt8} {eof : Bool} (hdrainer : d.drainer = .writing chunk eof) :
      Step d .write
        { d with
          written := d.written ++ chunk
          drainer := if eof then .returned else .looking }

theorem step_cases {d e : Drain} {l : Label} (h : d.step l = some e) : d.Step l e := by
  cases l
  case read r =>
    cases r <;> simp only [step] at h <;> split at h <;> cases h
    case data.isTrue hc => exact .data hc.1 hc.2
    case interrupted.isTrue hreader => exact .interrupted hreader
    case ended.isTrue hreader => exact .ended hreader
  all_goals simp only [step] at h
  case append =>
    split at h
    · rename_i chunk hreader
      cases h
      exact .append hreader
    · cases h
  case finish =>
    split at h
    · rename_i hreader
      cases h
      exact .finish hreader
    · cases h
  case start =>
    split at h
    · rename_i hdrainer
      cases h
      exact .start hdrainer
    · cases h
  case look =>
    split at h
    · rename_i hdrainer
      split at h
      · rename_i hempty
        cases h
        exact .sleep hdrainer hempty.1 hempty.2
      · cases h
        exact .take hdrainer
    · cases h
  case wake =>
    split at h
    · rename_i hdrainer
      cases h
      exact .wake hdrainer
    · cases h
  case write =>
    split at h
    · rename_i chunk eof hdrainer
      cases h
      exact .write hdrainer
    · cases h

/-- What `drain_to_stdout` has taken out of the buffer. -/
def taken (d : Drain) : List UInt8 :=
  d.written ++ d.drainer.holds

/-- What the PTY has delivered. -/
def delivered : List Label → List UInt8
  | [] => []
  | .read (.data chunk) :: es => chunk ++ delivered es
  | _ :: es => delivered es

theorem delivered_append (es fs : List Label) :
    delivered (es ++ fs) = delivered es ++ delivered fs := by
  induction es with
  | nil => rfl
  | cons e es ih =>
      cases e with
      | read r => cases r <;> simp [delivered, ih]
      | _ => simp [delivered, ih]

/-! ## The invariant -/

/-- What holds of the buffer and of the two threads in every state. -/
structure Exact (d : Drain) : Prop where
  console : d.buffer.consoleOutput = true
  pending : d.taken ++ d.buffer.rawPending = d.buffer.rawTotal
  filtered : FilterState.normal.push d.buffer.rawTotal = (d.filter, d.buffer.filteredTotal)
  eof : d.buffer.eof = true ↔ d.reader = .done
  /-- it sees `eof` and takes the rest under one lock -/
  last : d.drainer.sawEof = true → d.buffer.eof = true ∧ d.buffer.rawPending = []
  asleep : d.drainer = .asleep → d.buffer.eof = false ∧ d.buffer.rawPending = []

theorem exact_init : init.Exact where
  console := rfl
  pending := rfl
  filtered := rfl
  eof := by simp [init, PtyBuffer.new]
  last := by simp [init, Drainer.sawEof]
  asleep := by simp [init]

/-- The chunk goes to the end of what is pending and of what was read. -/
theorem Exact.append {d : Drain} (h : d.Exact) {chunk : List UInt8}
    (hreader : d.reader = .appending chunk) :
    Exact { d with
      reader := .reading
      filter := (d.buffer.append d.filter chunk).1
      buffer := (d.buffer.append d.filter chunk).2
      drainer := d.drainer.notified } := by
  have heof : d.buffer.eof = false := by
    rw [← Bool.not_eq_true, h.eof, hreader]
    simp
  refine ⟨h.console, ?_, ?_, ?_, ?_, ?_⟩
  · have hpending := h.pending
    simp only [taken, Drainer.notified_holds, PtyBuffer.append, h.console, if_pos] at hpending ⊢
    rw [← hpending, List.append_assoc _ d.buffer.rawPending]
  · have hfiltered := h.filtered
    simp only [PtyBuffer.append]
    rw [FilterState.push_append, hfiltered]
  · simp [PtyBuffer.append, heof]
  · intro hlast
    rw [Drainer.notified_sawEof] at hlast
    rw [(h.last hlast).1] at heof
    cases heof
  · intro hasleep
    exact absurd hasleep (Drainer.notified_ne_asleep _)

theorem Exact.finish {d : Drain} (h : d.Exact) (hreader : d.reader = .leaving) :
    Exact { d with
      reader := .done, buffer := d.buffer.setEof, drainer := d.drainer.notified } := by
  have heof : d.buffer.eof = false := by
    rw [← Bool.not_eq_true, h.eof, hreader]
    simp
  refine ⟨h.console, ?_, h.filtered, ?_, ?_, ?_⟩
  · have hpending := h.pending
    simpa only [taken, Drainer.notified_holds, PtyBuffer.setEof] using hpending
  · simp [PtyBuffer.setEof]
  · intro hlast
    rw [Drainer.notified_sawEof] at hlast
    rw [(h.last hlast).1] at heof
    cases heof
  · intro hasleep
    exact absurd hasleep (Drainer.notified_ne_asleep _)

/-- All that is pending is taken, together with `eof`. -/
theorem Exact.take {d : Drain} (h : d.Exact) (hdrainer : d.drainer = .looking) :
    Exact { d with
      buffer := d.buffer.take.2
      drainer := .writing d.buffer.take.1 d.buffer.eof } := by
  refine ⟨h.console, ?_, h.filtered, h.eof, ?_, ?_⟩
  · have hpending := h.pending
    simpa [taken, hdrainer, Drainer.holds, PtyBuffer.take] using hpending
  · intro hlast
    exact ⟨hlast, rfl⟩
  · intro hasleep
    cases hasleep

theorem Exact.write {d : Drain} (h : d.Exact) {chunk : List UInt8} {eof : Bool}
    (hdrainer : d.drainer = .writing chunk eof) :
    Exact { d with
      written := d.written ++ chunk
      drainer := if eof then .returned else .looking } := by
  have hlast := h.last
  rw [hdrainer] at hlast
  refine ⟨h.console, ?_, h.filtered, h.eof, ?_, ?_⟩
  · have hpending := h.pending
    cases eof <;> simpa [taken, hdrainer, Drainer.holds] using hpending
  · cases eof with
    | false => simp [Drainer.sawEof]
    | true => exact fun _ => hlast rfl
  · cases eof <;> simp

/-- The two threads go on without the buffer. -/
theorem Exact.go {d : Drain} (h : d.Exact) {reader : PtyReader} {drainer : Drainer}
    (hreader : reader = .done ↔ d.reader = .done) (hholds : drainer.holds = d.drainer.holds)
    (hlast : drainer.sawEof = d.drainer.sawEof)
    (hasleep : drainer = .asleep → d.buffer.eof = false ∧ d.buffer.rawPending = []) :
    Exact { d with reader := reader, drainer := drainer } := by
  refine ⟨h.console, ?_, h.filtered, h.eof.trans hreader.symm, ?_, hasleep⟩
  · have hpending := h.pending
    simpa only [taken, hholds] using hpending
  · rw [hlast]
    exact h.last

theorem Exact.step {d e : Drain} {l : Label} (h : d.Exact) (hstep : d.step l = some e) :
    e.Exact := by
  cases step_cases hstep with
  | data hreader => exact h.go (by simp [hreader]) rfl rfl h.asleep
  | interrupted => exact h
  | ended hreader => exact h.go (by simp [hreader]) rfl rfl h.asleep
  | append hreader => exact h.append hreader
  | finish hreader => exact h.finish hreader
  | start hdrainer => exact h.go Iff.rfl (by rw [hdrainer]; rfl) (by rw [hdrainer]; rfl) (by simp)
  | sleep hdrainer hempty heof =>
      exact h.go Iff.rfl (by rw [hdrainer]; rfl) (by rw [hdrainer]; rfl)
        fun _ => ⟨heof, hempty⟩
  | take hdrainer => exact h.take hdrainer
  | wake hdrainer => exact h.go Iff.rfl (by rw [hdrainer]; rfl) (by rw [hdrainer]; rfl) (by simp)
  | write hdrainer => exact h.write hdrainer

/-- What a step reads is in the buffer or on its way to it. -/
theorem step_delivered {d e : Drain} {l : Label} (hstep : d.step l = some e) :
    e.buffer.rawTotal ++ e.reader.holds =
      d.buffer.rawTotal ++ d.reader.holds ++ delivered [l] := by
  cases step_cases hstep with
  | data hreader => simp [hreader, PtyReader.holds, delivered]
  | ended hreader => simp [hreader, PtyReader.holds, delivered]
  | append hreader => simp [hreader, PtyReader.holds, delivered, PtyBuffer.append]
  | finish hreader => simp [hreader, PtyReader.holds, delivered, PtyBuffer.setEof]
  | take => simp [delivered, PtyBuffer.take]
  | _ => simp [delivered]

/-! ## Every run -/

theorem run_exact {es : List Label} {d : Drain} (h : run Drain.step init es = some d) :
    d.Exact :=
  run_invariant (I := Exact) (fun _ _ _ hI hstep => hI.step hstep) exact_init h

theorem run_delivered {es : List Label} {d : Drain} (h : run Drain.step init es = some d) :
    d.buffer.rawTotal ++ d.reader.holds = delivered es := by
  refine run_induction (P := fun es d => d.buffer.rawTotal ++ d.reader.holds = delivered es)
    rfl ?_ h
  intro es d l e _ hd hstep
  rw [step_delivered hstep, hd, delivered_append]

/-- After `drain_to_stdout` has returned nothing moves any more. -/
theorem Exact.step_returned {d : Drain} (h : d.Exact) (hreturned : d.drainer = .returned)
    (l : Label) : d.step l = none := by
  have hreader : d.reader = .done := h.eof.mp (h.last (by rw [hreturned]; rfl)).1
  rcases hstep : d.step l with _ | e
  · rfl
  · cases step_cases hstep <;> simp_all

theorem step_write {d : Drain} {chunk : List UInt8} {eof : Bool}
    (hdrainer : d.drainer = .writing chunk eof) :
    d.step .write =
      some { d with
        written := d.written ++ chunk
        drainer := if eof then .returned else .looking } := by
  simp [step, hdrainer]

theorem step_look {d : Drain} (hdrainer : d.drainer = .looking) (heof : d.buffer.eof = true) :
    d.step .look =
      some { d with buffer := d.buffer.take.2, drainer := .writing d.buffer.take.1 true } := by
  simp [step, hdrainer, heof]

theorem returns_of_looking {d : Drain} (hdrainer : d.drainer = .looking)
    (heof : d.buffer.eof = true) :
    ∃ e, run Drain.step d [.look, .write] = some e ∧ e.drainer = .returned := by
  rw [run_cons, step_look hdrainer heof, Option.bind_some]
  exact ⟨_, run_singleton _ (step_write rfl), rfl⟩

/-- No wake-up is lost: a drain that has started returns once `eof` is set. -/
theorem Exact.returns {d : Drain} (hexact : d.Exact) (heof : d.buffer.eof = true)
    (hstarted : d.drainer ≠ .absent) :
    ∃ fs e, fs.length ≤ 3 ∧ (∀ l ∈ fs, l = .look ∨ l = .write) ∧
      run Drain.step d fs = some e ∧ e.drainer = .returned := by
  rcases hdrainer : d.drainer with _ | _ | _ | ⟨chunk, eof⟩ | _
  case absent => exact absurd hdrainer hstarted
  case looking =>
    obtain ⟨e, hrun, he⟩ := returns_of_looking hdrainer heof
    exact ⟨[.look, .write], e, by simp, by simp, hrun, he⟩
  case asleep =>
    rw [(hexact.asleep hdrainer).1] at heof
    cases heof
  case writing =>
    have hwrite := step_write hdrainer
    cases eof with
    | true => exact ⟨[.write], _, by simp, by simp, run_singleton _ hwrite, rfl⟩
    | false =>
        obtain ⟨e, hrun, he⟩ := returns_of_looking
          (d := { d with written := d.written ++ chunk, drainer := .looking }) rfl heof
        refine ⟨[.write, .look, .write], e, by simp, by simp, ?_, he⟩
        rw [run_cons, hwrite]
        exact hrun
  case returned => exact ⟨[], d, by simp, by simp, rfl, hdrainer⟩

/--
In every run: what was taken and what is pending are the raw output, which is
what the PTY has delivered but for a chunk not appended yet; the filtered output
is that of the whole raw output; `drain_to_stdout` returns only after `eof`, has
written the raw output then, and nothing is added to it any more.  Once `eof` is
set a drain that has started can return by its own steps.
-/
theorem drain_exact {es : List Label} {d : Drain} (h : run Drain.step init es = some d) :
    d.taken ++ d.buffer.rawPending = d.buffer.rawTotal ∧
    d.buffer.rawTotal ++ d.reader.holds = delivered es ∧
    d.buffer.filteredTotal = (FilterState.normal.push d.buffer.rawTotal).2 ∧
    (d.drainer = .returned →
      d.buffer.eof = true ∧ d.written = d.buffer.rawTotal ∧
        d.buffer.rawTotal = delivered es ∧ ∀ l, d.step l = none) ∧
    (d.buffer.eof = true → d.drainer ≠ .absent →
      ∃ fs e, fs.length ≤ 3 ∧ (∀ l ∈ fs, l = .look ∨ l = .write) ∧
        run Drain.step d fs = some e ∧ e.drainer = .returned) := by
  have hexact := run_exact h
  have hdelivered := run_delivered h
  refine ⟨hexact.pending, hdelivered, by rw [hexact.filtered], ?_, hexact.returns⟩
  intro hreturned
  obtain ⟨heof, hpending⟩ := hexact.last (by rw [hreturned]; rfl)
  have hreader := hexact.eof.mp heof
  refine ⟨heof, ?_, ?_, hexact.step_returned hreturned⟩
  · have htotal := hexact.pending
    simpa [taken, hreturned, hpending, Drainer.holds] using htotal
  · simpa [hreader, PtyReader.holds] using hdelivered

/-- The drain starts first, sleeps, and takes the last chunk together with `eof`. -/
def sampleDrain : List Label :=
  [.start, .look, .read (.data [0x1b, 0x63, 0x6f]), .append, .look, .read .interrupted,
    .read (.data [0x6b, 0x0d]), .write, .append, .read .ended, .finish, .look, .write]

theorem drain_exact_sampleDrain :
    ∃ d, run Drain.step init sampleDrain = some d ∧ d.drainer = .returned ∧
      d.buffer.eof = true ∧ d.written = [0x1b, 0x63, 0x6f, 0x6b, 0x0d] ∧
      d.buffer.rawTotal = [0x1b, 0x63, 0x6f, 0x6b, 0x0d] ∧
      d.buffer.filteredTotal = [0x6f, 0x6b, 0x0a] ∧ ∀ l, d.step l = none := by
  obtain ⟨d, hrun⟩ : ∃ d, run Drain.step init sampleDrain = some d := ⟨_, rfl⟩
  have hreturned : d.drainer = .returned := by
    cases hrun
    rfl
  obtain ⟨-, -, hfiltered, hlast, -⟩ := drain_exact hrun
  obtain ⟨heof, hwritten, htotal, hover⟩ := hlast hreturned
  have hraw : d.buffer.rawTotal = [0x1b, 0x63, 0x6f, 0x6b, 0x0d] := htotal.trans (by decide)
  refine ⟨d, hrun, hreturned, heof, hwritten.trans hraw, hraw, ?_, hover⟩
  rw [hfiltered, hraw]
  decide

end Drain

/-! ## The console's drains -/

/-- Where the job of a spawned command stands with its drain. -/
def Job.drainer : Job → Drainer
  | .draining => .looking
  | .drainAsleep => .asleep
  | .writing chunk eof => .writing chunk eof
  | .newline | .releasing | .released => .returned
  | _ => .absent

namespace Console

/-- The buffer of a command, its reader and its drain. -/
structure Follows (c : Console) (s : Nat) (d : Drain) : Prop where
  buffer : d.buffer = (c.readers s).buffer
  filter : d.filter = (c.readers s).filter
  reader : d.reader = if (c.readers s).buffer.eof = true then .done else .reading
  drainer : d.drainer = (c.jobs s).drainer

section

variable {cmds : Nat → ConsoleJob} {c c' : Console} {s t : Nat} {d : Drain}

theorem follows_init : (init false cmds).Follows s Drain.init :=
  ⟨rfl, rfl, rfl, rfl⟩

/-- The console goes on elsewhere. -/
theorem Follows.congr (h : c.Follows s d) (hreaders : c'.readers s = c.readers s)
    (hjobs : (c'.jobs s).drainer = (c.jobs s).drainer) :
    c'.Follows s d := by
  obtain ⟨hbuffer, hfilter, hreader, hdrainer⟩ := h
  refine ⟨?_, ?_, ?_, ?_⟩
  · rw [hreaders, hbuffer]
  · rw [hreaders, hfilter]
  · rw [hreaders, hreader]
  · rw [hjobs, hdrainer]

/-- The job goes on, and its drain with it. -/
theorem Follows.job (h : c.Follows s d) (hreaders : c'.readers s = c.readers s)
    {drainer : Drainer} (hdrainer : drainer = (c'.jobs s).drainer) {out : List UInt8} :
    c'.Follows s { d with drainer := drainer, written := out } := by
  refine ⟨?_, ?_, ?_, hdrainer⟩
  · rw [hreaders, ← h.buffer]
  · rw [hreaders, ← h.filter]
  · rw [hreaders, ← h.reader]

theorem drainer_notified (j : Job) : j.drainNotified.drainer = j.drainer.notified := by
  cases j <;> rfl

theorem drainer_released (j : Job) : j.notified.drainer = j.drainer := by
  cases j <;> rfl

/-- The reader reads a chunk and appends it. -/
theorem Follows.ptyRead (h : c.Follows s d) {chunk rest : List UInt8}
    (heof : (c.readers s).buffer.eof = false) (hchunk : chunk ≠ []) :
    ∃ e, run Drain.step d [.read (.data chunk), .append] = some e ∧
      Follows (c.feed s
        { remaining := rest
          filter := ((c.readers s).buffer.append (c.readers s).filter chunk).1
          buffer := ((c.readers s).buffer.append (c.readers s).filter chunk).2 }) s e := by
  have hreader : d.reader = .reading := by rw [h.reader, heof]; rfl
  have hread : d.step (.read (.data chunk)) = some { d with reader := .appending chunk } := by
    simp [Drain.step, hreader, hchunk]
  rw [run_cons, hread, Option.bind_some]
  refine ⟨_, run_singleton _ rfl, ?_, ?_, ?_, ?_⟩
  · simp [Console.feed, h.buffer, h.filter]
  · simp [Console.feed, h.buffer, h.filter]
  · simp [Console.feed, PtyBuffer.append, heof]
  · simp [Console.feed, drainer_notified, h.drainer]

theorem Follows.ptyEof (h : c.Follows s d) (heof : (c.readers s).buffer.eof = false) :
    ∃ e, run Drain.step d [.read .ended, .finish] = some e ∧
      (c.feed s { c.readers s with buffer := (c.readers s).buffer.setEof }).Follows s e := by
  have hreader : d.reader = .reading := by rw [h.reader, heof]; rfl
  have hread : d.step (.read .ended) = some { d with reader := .leaving } := by
    simp [Drain.step, hreader]
  rw [run_cons, hread, Option.bind_some]
  refine ⟨_, run_singleton _ rfl, ?_, ?_, ?_, ?_⟩
  · simp [Console.feed, h.buffer]
  · simp [Console.feed, h.filter]
  · simp [Console.feed, PtyBuffer.setEof]
  · simp [Console.feed, drainer_notified, h.drainer]

theorem Follows.take (h : c.Follows s d) (hjob : c.jobs s = .draining)
    (hready : (c.readers s).buffer.rawPending ≠ [] ∨ (c.readers s).buffer.eof = true) :
    ∃ e, run Drain.step d [.look] = some e ∧
      Follows { c with
        jobs := Function.update c.jobs s
          (.writing (c.readers s).buffer.rawPending (c.readers s).buffer.eof)
        readers := Function.update c.readers s
          { c.readers s with buffer := (c.readers s).buffer.take.2 } } s e := by
  have hdrainer : d.drainer = .looking := by rw [h.drainer, hjob]; rfl
  have hlook : d.step .look =
      some { d with
        buffer := d.buffer.take.2, drainer := .writing d.buffer.take.1 d.buffer.eof } := by
    have hawake : ¬ (d.buffer.rawPending = [] ∧ d.buffer.eof = false) := by
      rw [h.buffer]
      rintro ⟨hempty, heof⟩
      rcases hready with hready | hready
      · exact hready hempty
      · rw [heof] at hready
        cases hready
    simp only [Drain.step, hdrainer, if_pos, if_neg hawake]
  refine ⟨_, run_singleton _ hlook, ?_, ?_, ?_, ?_⟩
  · simp [h.buffer]
  · simp [h.filter]
  · simp [h.reader, PtyBuffer.take]
  · simp [h.buffer, PtyBuffer.take, Job.drainer]

/-- The command a step is about. -/
def Label.command : Label → Nat
  | .queue s | .look s | .wake s | .banner s | .drain s | .write s | .newline s | .release s
  | .panic s | .ptyRead s _ | .ptyEof s => s

/-- A step about one command leaves the drains of the others alone. -/
theorem Step.elsewhere {silent : Bool} {l : Label} (hstep : c.Step silent cmds l c')
    (hl : s ≠ l.command) :
    c'.readers s = c.readers s ∧ (c'.jobs s).drainer = (c.jobs s).drainer := by
  have hupdate : ∀ {α : Type} (f : Nat → α) (x : α),
      Function.update f l.command x s = f s := fun f x => Function.update_of_ne hl x f
  have hjobs : ∀ (f : Nat → Job) (x : Job),
      (Function.update f l.command x s).drainer = (f s).drainer :=
    fun f x => congrArg Job.drainer (hupdate f x)
  cases hstep with
  | release =>
      refine ⟨rfl, ?_⟩
      rw [← drainer_released (c.jobs s)]
      exact hjobs (fun t => (c.jobs t).notified) _
  | drain => exact ⟨hupdate _ _, hjobs _ _⟩
  | ptyRead => exact ⟨hupdate _ _, hjobs _ _⟩
  | ptyEof => exact ⟨hupdate _ _, hjobs _ _⟩
  | _ => exact ⟨rfl, hjobs _ _⟩

/-- A step of the console is a run of the drain, unless the job panics. -/
theorem follows_step (hspawned : (cmds s).output.isSome = true) (h : c.Follows s d) {l : Label}
    (hl : l ≠ .panic s) (hstep : c.step false cmds l = some c') :
    ∃ es e, run Drain.step d es = some e ∧ c'.Follows s e := by
  have hcases := step_cases hstep
  by_cases hs : s = l.command
  case neg =>
    obtain ⟨hreaders, hjobs⟩ := hcases.elsewhere hs
    exact ⟨[], d, rfl, h.congr hreaders hjobs⟩
  cases hcases with
  | @queue t hjob =>
      obtain rfl : t = s := hs.symm
      exact ⟨[], d, rfl, h.congr rfl (by simp [Console.move, hjob, Job.drainer])⟩
  | @sleep t hjob =>
      obtain rfl : t = s := hs.symm
      exact ⟨[], d, rfl, h.congr rfl (by simp [Console.move, hjob, Job.drainer])⟩
  | @turn t hjob =>
      obtain rfl : t = s := hs.symm
      exact ⟨[], d, rfl, h.congr rfl (by simp [Console.move, hjob, Job.drainer])⟩
  | @wake t hjob =>
      obtain rfl : t = s := hs.symm
      exact ⟨[], d, rfl, h.congr rfl (by simp [Console.move, hjob, Job.drainer])⟩
  | @banner t hjob =>
      obtain rfl : t = s := hs.symm
      have hstart : d.step .start = some { d with drainer := .looking } := by
        simp [Drain.step, h.drainer, hjob, Job.drainer]
      refine ⟨[.start], _, run_singleton _ hstart, h.job ?_ ?_⟩
      · rfl
      · simp [Console.print, hspawned, Job.drainer]
  | @drainWake t hjob =>
      obtain rfl : t = s := hs.symm
      have hwake : d.step .wake = some { d with drainer := .looking } := by
        simp [Drain.step, h.drainer, hjob, Job.drainer]
      refine ⟨[.wake], _, run_singleton _ hwake, h.job ?_ ?_⟩
      · rfl
      · simp [Console.move, Job.drainer]
  | @drainSleep t hjob hempty heof =>
      obtain rfl : t = s := hs.symm
      have hlook : d.step .look = some { d with drainer := .asleep } := by
        simp [Drain.step, h.drainer, hjob, Job.drainer, h.buffer, hempty, heof]
      refine ⟨[.look], _, run_singleton _ hlook, h.job ?_ ?_⟩
      · rfl
      · simp [Console.move, Job.drainer]
  | @drain t hjob hready =>
      obtain rfl : t = s := hs.symm
      exact ⟨[.look], h.take hjob hready⟩
  | @write t chunk eof hjob =>
      obtain rfl : t = s := hs.symm
      have hwrite := Drain.step_write (d := d) (by rw [h.drainer, hjob]; rfl)
      refine ⟨[.write], _, run_singleton _ hwrite, h.job ?_ ?_⟩
      · rfl
      · cases eof <;> simp [Console.print, Job.drainer]
  | @newline t hjob =>
      obtain rfl : t = s := hs.symm
      exact ⟨[], d, rfl, h.congr rfl (by simp [Console.print, hjob, Job.drainer])⟩
  | @release t hjob =>
      obtain rfl : t = s := hs.symm
      exact ⟨[], d, rfl, h.congr rfl (by simp [hjob, Job.drainer])⟩
  | @panic t =>
      obtain rfl : t = s := hs.symm
      exact absurd rfl hl
  | @ptyRead t chunk rest _ heof hchunk =>
      obtain rfl : t = s := hs.symm
      exact ⟨[.read (.data chunk), .append], h.ptyRead heof hchunk⟩
  | @ptyEof t _ heof =>
      obtain rfl : t = s := hs.symm
      exact ⟨[.read .ended, .finish], h.ptyEof heof⟩

/-- What the console does to the buffer of a command is a run of its drain. -/
theorem follows_run (hspawned : (cmds s).output.isSome = true) {ls : List Label}
    (h : run (Console.step false cmds) (init false cmds) ls = some c) (hls : .panic s ∉ ls) :
    ∃ es d, run Drain.step Drain.init es = some d ∧ c.Follows s d := by
  refine run_induction (P := fun ls c => .panic s ∉ ls →
    ∃ es d, run Drain.step Drain.init es = some d ∧ c.Follows s d) ?_ ?_ h hls
  · intro _
    exact ⟨[], Drain.init, rfl, follows_init⟩
  · intro ls c l c' _ ih hstep hls
    have hnotin : .panic s ∉ ls ∧ l ≠ .panic s := by simpa [eq_comm] using hls
    obtain ⟨es, d, hd, hfollows⟩ := ih hnotin.1
    obtain ⟨fs, e, he, hfollows'⟩ := follows_step hspawned hfollows hnotin.2 hstep
    refine ⟨es ++ fs, e, ?_, hfollows'⟩
    rw [run_append, hd]
    exact he

/-- When its job prints the last newline, all a command has put out was taken. -/
theorem drained_at_newline (hspawned : (cmds s).output.isSome = true) {ls : List Label}
    (h : run (Console.step false cmds) (init false cmds) ls = some c) (hls : .panic s ∉ ls)
    (hjob : c.jobs s = .newline) :
    (c.readers s).buffer.eof = true ∧ (c.readers s).buffer.rawPending = [] ∧
      (c.readers s).buffer.filteredTotal =
        (FilterState.normal.push (c.readers s).buffer.rawTotal).2 := by
  obtain ⟨es, d, hd, hfollows⟩ := follows_run hspawned h hls
  have hexact := Drain.run_exact hd
  have hreturned : d.drainer = .returned := by rw [hfollows.drainer, hjob]; rfl
  obtain ⟨heof, hpending⟩ := hexact.last (by rw [hreturned]; rfl)
  have hfiltered := hexact.filtered
  rw [← hfollows.buffer]
  exact ⟨heof, hpending, by rw [hfiltered]⟩

end

end Console

end Rexec
