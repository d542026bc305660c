import Rexec.Connection
import Rexec.Text
import Rexec.Lib.Lines
import Rexec.Lib.Machine
import Mathlib.Tactic

/-!
# Framing: from the bytes of the socket to lines

The worker of `Connection` reads lines.  Here the lines are made of bytes: the
client's stream arrives at the socket in pieces, `recv` moves some bytes into
the buffer of the `BufReader`, and `read_line` collects them in `line` until
there is a line feed, the stream has ended, or the receive timeout of the socket
runs out.  Every caller clears `line` before it reads; what a read that timed
out had collected is lost then.

Two machines read the same stream:

* `Framed` is the byte machine, with any cut of the stream into pieces and into
  receives, and timeouts whenever there is nothing to receive;
* `Lined` is the same host when every line arrives in one piece.

`Follows` relates their states.  As long as no read of the watcher times out on
part of a line, every step of `Framed` is a step of `Lined` or some arrivals of
lines (`follows_step`).
-/

namespace Rexec

open Machine

/-- What `read_line` returns for the bytes of a line. -/
def lineResult (bs : List UInt8) : ReadLine :=
  match fromUtf8 bs with
  | some text => .line text
  | none => .error

/-- The line is an Abort, in bytes. -/
def Config.IsAbortLine (cfg : Config) (l : List UInt8) : Prop :=
  ∃ text, lineResult l = .line text ∧ cfg.IsAbort text

/-- The result of a read, for the events that are reads. -/
def Event.readResult : Event → Option ReadLine
  | .readLine r => some r
  | .watcherRead r => some r
  | _ => none

/-- A read is in progress; the flag says that the socket has a receive timeout. -/
def Worker.awaiting : Worker → Option Bool
  | .handshake => some true
  | .lineLoop _ => some false
  | .running cmd _ => if cmd.watcher = .reading then some true else none
  | _ => none

/-! ## The byte machine -/

structure Framed where
  /-- what the client has still to send -/
  rest : List UInt8
  socket : List UInt8
  /-- the buffer of the `BufReader` -/
  buffered : List UInt8
  /-- what the read in progress has collected -/
  line : List UInt8
  worker : Worker

namespace Framed

/-- The capacity of a `BufReader`. -/
def capacity : Nat := 8192

def start (stream : List UInt8) : Framed :=
  { rest := stream, socket := [], buffered := [], line := [], worker := .start }

inductive Label where
  | arrive (piece : List UInt8)
  | recv (n : Nat)
  | scan
  | act (e : Event)

/-- Whether the read in progress may return `r` when there is no byte to read. -/
def idle (s : Framed) (timed : Bool) : ReadLine → Bool
  | .timeout => timed
  | .eof => s.rest.isEmpty && s.line.isEmpty
  | .line text =>
      s.rest.isEmpty && !s.line.isEmpty && lineResult s.line = .line text
  | .error => s.rest.isEmpty && !s.line.isEmpty && lineResult s.line = .error

/-- What stays in the buffer when the read in progress returns `r`. -/
def returns (s : Framed) (timed : Bool) (r : ReadLine) : Option (List UInt8) :=
  match Lines.takeLine lineFeed s.buffered with
  | some (l, after) => if r = lineResult (s.line ++ l) then some after else none
  | none =>
      if s.buffered = [] ∧ s.socket = [] ∧ s.idle timed r = true then some []
      else none

def step (cfg : Config) (s : Framed) : Label → Option Framed
  | .arrive piece =>
      if piece ≠ [] ∧ piece <+: s.rest then
        some { s with
          rest := s.rest.drop piece.length
          socket := s.socket ++ piece }
      else none
  | .recv n =>
      if s.worker.awaiting.isSome ∧ s.buffered = [] ∧ 0 < n ∧ n ≤ capacity ∧
          n ≤ s.socket.length then
        some { s with buffered := s.socket.take n, socket := s.socket.drop n }
      else none
  | .scan =>
      if s.worker.awaiting.isSome ∧ s.buffered ≠ [] ∧ lineFeed ∉ s.buffered then
        some { s with line := s.line ++ s.buffered, buffered := [] }
      else none
  | .act e =>
      match e.readResult with
      | none => (s.worker.step cfg e).map fun w => { s with worker := w }
      | some r =>
          match s.worker.awaiting with
          | none => none
          | some timed =>
              match s.returns timed r with
              | none => none
              | some buffered =>
                  (s.worker.step cfg e).map fun w =>
                    { s with buffered, line := [], worker := w }

/-- What the host does in a run. -/
def acts (ls : List Label) : List Event :=
  ls.filterMap fun
    | .act e => some e
    | _ => none

/-- The pieces that arrive in a run. -/
def arrivals (ls : List Label) : List (List UInt8) :=
  ls.filterMap fun
    | .arrive piece => some piece
    | _ => none

@[simp] theorem acts_nil : acts [] = [] := rfl

@[simp] theorem acts_append (ls ms : List Label) :
    acts (ls ++ ms) = acts ls ++ acts ms :=
  List.filterMap_append

@[simp] theorem acts_act (e : Event) : acts [.act e] = [e] := rfl

@[simp] theorem arrivals_append (ls ms : List Label) :
    arrivals (ls ++ ms) = arrivals ls ++ arrivals ms :=
  List.filterMap_append

@[simp] theorem arrivals_act (e : Event) : arrivals [.act e] = [] := rfl

/-- What has arrived and is not read yet. -/
def unread (s : Framed) : List UInt8 :=
  s.line ++ s.buffered ++ s.socket

/-- An Abort has arrived completely and is not read yet. -/
def AbortWaits (cfg : Config) (s : Framed) : Prop :=
  ∃ l ∈ Lines.completeLines lineFeed s.unread, cfg.IsAbortLine l

/-- The watcher does not time out on part of a line. -/
def Lossless (s : Framed) : Label → Prop
  | .act (.watcherRead .timeout) => s.line = []
  | _ => True

/-- The watcher does not find its command finished with an Abort waiting. -/
def Timely (cfg : Config) (s : Framed) : Label → Prop
  | .act .watcherCheck =>
      ∀ cmd stage, s.worker = .running cmd stage → s.AbortWaits cfg →
        cmd.commandFinished = false
  | _ => True

end Framed

/-! ## The line machine -/

structure Lined where
  rest : List (List UInt8)
  arrived : List (List UInt8)
  worker : Worker

namespace Lined

def start (lines : List (List UInt8)) : Lined :=
  { rest := lines, arrived := [], worker := .start }

inductive Label where
  | arrive
  | act (e : Event)

/-- The lines that stay when the read in progress returns `r`. -/
def returns (a : Lined) (timed : Bool) (r : ReadLine) :
    Option (List (List UInt8)) :=
  match a.arrived with
  | l :: ls => if r = lineResult l then some ls else none
  | [] =>
      match r with
      | .timeout => if timed then some [] else none
      | .eof => if a.rest = [] then some [] else none
      | _ => none

def step (cfg : Config) (a : Lined) : Label → Option Lined
  | .arrive =>
      match a.rest with
      | [] => none
      | l :: ls => some { a with rest := ls, arrived := a.arrived ++ [l] }
  | .act e =>
      match e.readResult with
      | none => (a.worker.step cfg e).map fun w => { a with worker := w }
      | some r =>
          match a.worker.awaiting with
          | none => none
          | some timed =>
              match a.returns timed r with
              | none => none
              | some arrived =>
                  (a.worker.step cfg e).map fun w =>
                    { a with arrived, worker := w }

def acts (ls : List Label) : List Event :=
  ls.filterMap fun
    | .act e => some e
    | _ => none

@[simp] theorem acts_append (ls ms : List Label) :
    acts (ls ++ ms) = acts ls ++ acts ms :=
  List.filterMap_append

@[simp] theorem acts_act (e : Event) : acts [.act e] = [e] := rfl

@[simp] theorem acts_arrive (n : Nat) : acts (List.replicate n .arrive) = [] := by
  induction n with
  | zero => rfl
  | succ n ih =>
      rw [List.replicate_succ, ← List.singleton_append, acts_append, ih]
      rfl

end Lined

/-! ## What a step can do -/

theorem Worker.step_exited {cfg : Config} {e : Event} :
    Worker.exited.step cfg e = none := by
  cases e <;> rfl

inductive Framed.Step (cfg : Config) (s : Framed) : Framed.Label → Framed → Prop where
  | arrive {piece rest : List UInt8} (hpiece : piece ≠ [])
      (hrest : s.rest = piece ++ rest) :
      Step cfg s (.arrive piece) { s with rest, socket := s.socket ++ piece }
  | recv {chunk socket : List UInt8} (hreading : s.worker.awaiting.isSome)
      (hbuffered : s.buffered = []) (hchunk : chunk ≠ [])
      (hcap : chunk.length ≤ capacity) (hsocket : s.socket = chunk ++ socket) :
      Step cfg s (.recv chunk.length) { s with buffered := chunk, socket }
  | scan (hreading : s.worker.awaiting.isSome) (hbuffered : s.buffered ≠ [])
      (hpart : lineFeed ∉ s.buffered) :
      Step cfg s .scan { s with line := s.line ++ s.buffered, buffered := [] }
  | other {e : Event} {w : Worker} (he : e.readResult = none)
      (hw : s.worker.step cfg e = some w) :
      Step cfg s (.act e) { s with worker := w }
  | line {e : Event} {w : Worker} {timed : Bool} {l after : List UInt8}
      (hreading : s.worker.awaiting = some timed) (hl : Lines.IsLine lineFeed l)
      (hbuffered : s.buffered = l ++ after)
      (he : e.readResult = some (lineResult (s.line ++ l)))
      (hw : s.worker.step cfg e = some w) :
      Step cfg s (.act e) { s with buffered := after, line := [], worker := w }
  | idle {e : Event} {w : Worker} {timed : Bool} {r : ReadLine}
      (hreading : s.worker.awaiting = some timed) (hbuffered : s.buffered = [])
      (hsocket : s.socket = []) (hidle : s.idle timed r = true)
      (he : e.readResult = some r) (hw : s.worker.step cfg e = some w) :
      Step cfg s (.act e) { s with buffered := [], line := [], worker := w }

inductive Lined.Step (cfg : Config) (a : Lined) : Lined.Label → Lined → Prop where
  | arrive {l : List UInt8} {ls : List (List UInt8)} (hrest : a.rest = l :: ls) :
      Step cfg a .arrive { a with rest := ls, arrived := a.arrived ++ [l] }
  | other {e : Event} {w : Worker} (he : e.readResult = none)
      (hw : a.worker.step cfg e = some w) :
      Step cfg a (.act e) { a with worker := w }
  | line {e : Event} {w : Worker} {timed : Bool} {l : List UInt8}
      {ls : List (List UInt8)}
      (hreading : a.worker.awaiting = some timed) (harrived : a.arrived = l :: ls)
      (he : e.readResult = some (lineResult l)) (hw : a.worker.step cfg e = some w) :
      Step cfg a (.act e) { a with arrived := ls, worker := w }
  | timeout {e : Event} {w : Worker}
      (hreading : a.worker.awaiting = some true) (harrived : a.arrived = [])
      (he : e.readResult = some .timeout) (hw : a.worker.step cfg e = some w) :
      Step cfg a (.act e) { a with arrived := [], worker := w }
  | eof {e : Event} {w : Worker} {timed : Bool}
      (hreading : a.worker.awaiting = some timed) (harrived : a.arrived = [])
      (hrest : a.rest = []) (he : e.readResult = some .eof)
      (hw : a.worker.step cfg e = some w) :
      Step cfg a (.act e) { a with arrived := [], worker := w }

section Steps

variable {cfg : Config}

theorem Framed.step_cases {s s' : Framed} {l : Framed.Label}
    (h : s.step cfg l = some s') :
    s.Step cfg l s' := by
  cases l with
  | arrive piece =>
      simp only [Framed.step] at h
      split at h
      · rename_i hc
        obtain ⟨hpiece, rest, hrest⟩ := hc
        cases h
        have hdrop : s.rest.drop piece.length = rest := by
          rw [← hrest, List.drop_left]
        rw [hdrop]
        exact .arrive hpiece hrest.symm
      · cases h
  | recv n =>
      simp only [Framed.step] at h
      split at h
      · rename_i hc
        obtain ⟨hreading, hbuffered, hpos, hcap, hlen⟩ := hc
        cases h
        have htake : (s.socket.take n).length = n := by simpa using hlen
        have hchunk : s.socket.take n ≠ [] := by
          intro hnil
          rw [hnil] at htake
          simp only [List.length_nil] at htake
          omega
        have hstep : s.Step cfg (.recv (s.socket.take n).length)
            { s with buffered := s.socket.take n, socket := s.socket.drop n } :=
          .recv hreading hbuffered hchunk (by omega)
            (List.take_append_drop n s.socket).symm
        rwa [htake] at hstep
      · cases h
  | scan =>
      simp only [Framed.step] at h
      split at h
      · rename_i hc
        cases h
        exact .scan hc.1 hc.2.1 hc.2.2
      · cases h
  | act e =>
      simp only [Framed.step] at h
      cases he : e.readResult with
      | none =>
          simp only [he, Option.map_eq_some_iff] at h
          obtain ⟨w, hw, rfl⟩ := h
          exact .other he hw
      | some r =>
          cases hreading : s.worker.awaiting with
          | none => simp [he, hreading] at h
          | some timed =>
              simp only [he, hreading, Framed.returns] at h
              cases htake : Lines.takeLine lineFeed s.buffered with
              | none =>
                  simp only [htake] at h
                  split at h
                  · cases h
                  · rename_i hret
                    split at hret
                    · rename_i hc
                      cases hret
                      rw [Option.map_eq_some_iff] at h
                      obtain ⟨w, hw, rfl⟩ := h
                      exact .idle hreading hc.1 hc.2.1 hc.2.2 he hw
                    · cases hret
              | some p =>
                  obtain ⟨l, after⟩ := p
                  obtain ⟨hl, hbuffered⟩ := Lines.takeLine_eq_some htake
                  simp only [htake] at h
                  split at h
                  · cases h
                  · rename_i hret
                    split at hret
                    · rename_i hr
                      cases hret
                      subst hr
                      rw [Option.map_eq_some_iff] at h
                      obtain ⟨w, hw, rfl⟩ := h
                      exact .line hreading hl hbuffered he hw
                    · cases hret

theorem Framed.step_of_cases {s s' : Framed} {l : Framed.Label}
    (h : s.Step cfg l s') :
    s.step cfg l = some s' := by
  cases h with
  | arrive hpiece hrest =>
      simp only [Framed.step]
      rw [if_pos ⟨hpiece, by rw [hrest]; exact List.prefix_append ..⟩, hrest,
        List.drop_left]
  | recv hreading hbuffered hchunk hcap hsocket =>
      have hpos := List.length_pos_iff.mpr hchunk
      simp only [Framed.step]
      rw [if_pos ⟨hreading, hbuffered, hpos, hcap, by simp [hsocket]⟩, hsocket,
        List.take_left, List.drop_left]
  | scan hreading hbuffered hpart =>
      simp only [Framed.step]
      rw [if_pos ⟨hreading, hbuffered, hpart⟩]
  | other he hw => simp only [Framed.step, he, hw, Option.map_some]
  | line hreading hl hbuffered he hw =>
      simp only [Framed.step, he, hreading, Framed.returns, hbuffered,
        Lines.takeLine_line_append hl, if_true, hw, Option.map_some]
  | idle hreading hbuffered hsocket hidle he hw =>
      have htake : Lines.takeLine lineFeed s.buffered = none := by
        rw [hbuffered]
        rfl
      simp only [Framed.step, he, hreading, Framed.returns, htake]
      rw [if_pos ⟨hbuffered, hsocket, hidle⟩]
      simp only [hw, Option.map_some]

theorem Lined.step_cases {a a' : Lined} {l : Lined.Label}
    (h : a.step cfg l = some a') :
    a.Step cfg l a' := by
  cases l with
  | arrive =>
      simp only [Lined.step] at h
      split at h
      · cases h
      · rename_i hrest
        cases h
        exact .arrive hrest
  | act e =>
      simp only [Lined.step] at h
      cases he : e.readResult with
      | none =>
          simp only [he, Option.map_eq_some_iff] at h
          obtain ⟨w, hw, rfl⟩ := h
          exact .other he hw
      | some r =>
          cases hreading : a.worker.awaiting with
          | none => simp [he, hreading] at h
          | some timed =>
              simp only [he, hreading] at h
              split at h
              · cases h
              · rename_i hret
                rw [Option.map_eq_some_iff] at h
                obtain ⟨w, hw, rfl⟩ := h
                unfold Lined.returns at hret
                split at hret
                · rename_i harrived
                  split at hret
                  · rename_i hr
                    subst hr
                    cases hret
                    exact .line hreading harrived he hw
                  · cases hret
                · rename_i harrived
                  split at hret
                  · split at hret
                    · rename_i htimed
                      subst htimed
                      cases hret
                      exact .timeout hreading harrived he hw
                    · cases hret
                  · split at hret
                    · rename_i hrest
                      cases hret
                      exact .eof hreading harrived hrest he hw
                    · cases hret
                  · cases hret

theorem Lined.step_of_cases {a a' : Lined} {l : Lined.Label}
    (h : a.Step cfg l a') :
    a.step cfg l = some a' := by
  cases h with
  | arrive hrest => simp only [Lined.step, hrest]
  | other he hw => simp only [Lined.step, he, hw, Option.map_some]
  | line hreading harrived he hw =>
      simp only [Lined.step, he, hreading, Lined.returns, harrived, if_true, hw,
        Option.map_some]
  | timeout hreading harrived he hw =>
      simp only [Lined.step, he, hreading, Lined.returns, harrived, if_true, hw,
        Option.map_some]
  | eof hreading harrived hrest he hw =>
      simp only [Lined.step, he, hreading, Lined.returns, harrived, hrest, if_true, hw,
        Option.map_some]

end Steps

/-! ## The two machines side by side -/

/--
The bytes and the lines agree: what is unread are the lines that have arrived
and `part`, the first bytes of the next one.
-/
structure Aligned (part : List UInt8) (s : Framed) (a : Lined) : Prop where
  lines : ∀ l ∈ a.arrived ++ a.rest, Lines.IsLine lineFeed l
  scanned : lineFeed ∉ s.line
  unended : lineFeed ∉ part
  unread : s.unread = a.arrived.flatten ++ part
  ahead : part ++ s.rest = a.rest.flatten

/-- The same worker, and the same stream unless the worker has exited. -/
structure Follows (s : Framed) (a : Lined) : Prop where
  worker : s.worker = a.worker
  aligned : s.worker ≠ .exited → ∃ part, Aligned part s a

/-- What a step of the byte machine is to the line machine. -/
def Mirrors (cfg : Config) (a a' : Lined) : Framed.Label → Prop
  | .act e => a.step cfg (.act e) = some a'
  | _ => ∃ n, run (Lined.step cfg) a (List.replicate n .arrive) = some a'

section Simulation

variable {cfg : Config} {part : List UInt8} {s : Framed} {a : Lined}

theorem Aligned.arrived_isLine (h : Aligned part s a) :
    ∀ l ∈ a.arrived, Lines.IsLine lineFeed l :=
  fun l hl => h.lines l (List.mem_append_left _ hl)

theorem Aligned.rest_isLine (h : Aligned part s a) :
    ∀ l ∈ a.rest, Lines.IsLine lineFeed l :=
  fun l hl => h.lines l (List.mem_append_right _ hl)

/-- An Abort waits among the bytes when one waits among the lines. -/
theorem Aligned.abortWaits_iff (h : Aligned part s a) :
    s.AbortWaits cfg ↔ ∃ l ∈ a.arrived, cfg.IsAbortLine l := by
  rw [Framed.AbortWaits, h.unread,
    Lines.completeLines_flatten_append h.arrived_isLine h.unended]

/-- No line has arrived when there is no line feed among the unread bytes. -/
theorem Aligned.arrived_eq_nil (h : Aligned part s a)
    (hunread : lineFeed ∉ s.unread) :
    a.arrived = [] := by
  refine Lines.eq_nil_of_flatten h.arrived_isLine ?_
  rw [h.unread] at hunread
  exact fun hm => hunread (List.mem_append_left _ hm)

/-- Nothing is left of the stream when its bytes have all been read. -/
theorem Aligned.rest_eq_nil (h : Aligned part s a) (hrest : s.rest = []) :
    a.rest = [] := by
  refine Lines.eq_nil_of_flatten h.rest_isLine ?_
  rw [← h.ahead, hrest, List.append_nil]
  exact h.unended

theorem Aligned.idle_unread (h : Aligned part s a) (hbuffered : s.buffered = [])
    (hsocket : s.socket = []) :
    s.unread = s.line ∧ a.arrived = [] ∧ s.line = part := by
  have hunread : s.unread = s.line := by
    simp [Framed.unread, hbuffered, hsocket]
  have harrived : a.arrived = [] := by
    apply h.arrived_eq_nil
    rw [hunread]
    exact h.scanned
  refine ⟨hunread, harrived, ?_⟩
  have hline := h.unread
  rw [hunread, harrived] at hline
  simpa using hline

/-- A read that finds no byte times out or is at the end of the stream. -/
theorem Aligned.idle_cases (h : Aligned part s a) {timed : Bool} {r : ReadLine}
    (hbuffered : s.buffered = []) (hsocket : s.socket = [])
    (hidle : s.idle timed r = true) :
    a.arrived = [] ∧
      ((r = .timeout ∧ timed = true) ∨
        (r = .eof ∧ s.line = [] ∧ a.rest = [])) := by
  obtain ⟨-, harrived, hline⟩ := h.idle_unread hbuffered hsocket
  refine ⟨harrived, ?_⟩
  -- at the end of a stream of lines nothing has been collected
  have hend : s.rest = [] → s.line = [] := by
    intro hrest
    have hahead := h.ahead
    rw [h.rest_eq_nil hrest, hrest] at hahead
    rw [hline]
    simpa using hahead
  cases r with
  | timeout => exact .inl ⟨rfl, hidle⟩
  | eof =>
      simp only [Framed.idle, Bool.and_eq_true, List.isEmpty_iff] at hidle
      exact .inr ⟨rfl, hidle.2, h.rest_eq_nil hidle.1⟩
  | line text =>
      simp only [Framed.idle, Bool.and_eq_true, List.isEmpty_iff,
        Bool.not_eq_true'] at hidle
      have hnil := hend hidle.1.1
      simp [hnil] at hidle
  | error =>
      simp only [Framed.idle, Bool.and_eq_true, List.isEmpty_iff,
        Bool.not_eq_true'] at hidle
      have hnil := hend hidle.1.1
      simp [hnil] at hidle

/-- The first unread line, when it is complete in the buffer. -/
theorem Aligned.first_line (h : Aligned part s a) {l after : List UInt8}
    (hl : Lines.IsLine lineFeed l) (hbuffered : s.buffered = l ++ after) :
    ∃ ls, a.arrived = (s.line ++ l) :: ls ∧
      after ++ s.socket = ls.flatten ++ part := by
  have hwhole : Lines.IsLine lineFeed (s.line ++ l) := by
    obtain ⟨body, hbody, rfl⟩ := hl
    refine ⟨s.line ++ body, ?_, by rw [List.append_assoc]⟩
    rw [List.mem_append]
    rintro (hm | hm)
    · exact h.scanned hm
    · exact hbody hm
  have hunread := h.unread
  have hbytes : s.line ++ (l ++ after) ++ s.socket =
      (s.line ++ l) ++ (after ++ s.socket) := by
    simp only [List.append_assoc]
  rw [Framed.unread, hbuffered, hbytes] at hunread
  cases harrived : a.arrived with
  | nil =>
      rw [harrived] at hunread
      have hmem : lineFeed ∈ part := by
        have hparts : (s.line ++ l) ++ (after ++ s.socket) = part := by
          simpa using hunread
        rw [← hparts]
        exact List.mem_append_left _ hwhole.terminated
      exact absurd hmem h.unended
  | cons l' ls =>
      rw [harrived, List.flatten_cons, List.append_assoc l'] at hunread
      have hl' := h.arrived_isLine l' (by simp [harrived])
      obtain ⟨rfl, hrest⟩ := hwhole.append_inj hl' hunread
      exact ⟨ls, rfl, hrest⟩

/-- Several lines arrive. -/
theorem run_arrive {lines rest : List (List UInt8)} (hrest : a.rest = lines ++ rest) :
    run (Lined.step cfg) a (List.replicate lines.length .arrive) =
      some { a with rest, arrived := a.arrived ++ lines } := by
  induction lines generalizing a with
  | nil =>
      simp only [List.nil_append] at hrest
      subst hrest
      simp
  | cons l lines ih =>
      have hstep : a.step cfg .arrive = some { a with
          rest := lines ++ rest, arrived := a.arrived ++ [l] } :=
        Lined.step_of_cases (.arrive hrest)
      rw [List.length_cons, List.replicate_succ, run_cons, hstep, Option.bind_some,
        ih (a := { a with rest := lines ++ rest, arrived := a.arrived ++ [l] }) rfl]
      simp

/-- A piece of the stream completes some lines. -/
theorem Aligned.arrive (cfg : Config) (h : Aligned part s a) {piece rest : List UInt8}
    (hrest : s.rest = piece ++ rest) :
    ∃ n a' part', run (Lined.step cfg) a (List.replicate n .arrive) = some a' ∧
      a'.worker = a.worker ∧
      Aligned part' { s with rest, socket := s.socket ++ piece } a' := by
  have hahead := h.ahead
  rw [hrest, ← List.append_assoc] at hahead
  obtain ⟨lines, ahead, part', hlines, hpiece, hpart', hnext⟩ :=
    Lines.flatten_eq_append h.rest_isLine hahead
  refine ⟨lines.length, { a with rest := ahead, arrived := a.arrived ++ lines }, part',
    run_arrive hlines, rfl, ?_⟩
  constructor
  · simpa [hlines] using h.lines
  · exact h.scanned
  · exact hpart'
  · have hunread := h.unread
    simp only [Framed.unread] at hunread ⊢
    rw [← List.append_assoc, hunread, List.append_assoc, hpiece]
    simp
  · exact hnext

/-- A read that gives up exits the worker, unless the watcher made it. -/
theorem Worker.step_timeout {w w' : Worker} {e : Event}
    (h : w.step cfg e = some w') (he : e.readResult = some .timeout)
    (hreading : w.awaiting = some true) :
    e = .watcherRead .timeout ∨ w' = .exited := by
  cases e <;> simp only [Event.readResult, reduceCtorEq, Option.some.injEq] at he
  case readLine r =>
    subst he
    right
    rcases (Worker.step_cases h).read with ⟨rfl, rfl⟩ | ⟨p, rfl, -⟩
    · rfl
    · cases hreading
  case watcherRead r =>
    subst he
    exact .inl rfl

/-- Every step of the byte machine that loses nothing is one of the line machine. -/
theorem follows_step {l : Framed.Label} {s' : Framed} (h : Follows s a)
    (hlossless : s.Lossless l) (hstep : s.step cfg l = some s') :
    ∃ a', Follows s' a' ∧ Mirrors cfg a a' l := by
  by_cases hexited : s.worker = .exited
  · -- only bytes can still arrive
    have hstep := Framed.step_cases hstep
    have hdone : ∀ e w, s.worker.step cfg e = some w → False := by
      intro e w hw
      rw [hexited, Worker.step_exited] at hw
      cases hw
    have hidle : s.worker.awaiting = none := by
      rw [hexited]
      rfl
    cases hstep with
    | arrive _ _ =>
        exact ⟨a, ⟨h.worker, fun hne => absurd hexited hne⟩, 0, rfl⟩
    | recv hreading => simp [hidle] at hreading
    | scan hreading => simp [hidle] at hreading
    | other _ hw => exact (hdone _ _ hw).elim
    | line _ _ _ _ hw => exact (hdone _ _ hw).elim
    | idle _ _ _ _ _ hw => exact (hdone _ _ hw).elim
  · obtain ⟨part, hal⟩ := h.aligned hexited
    have hworker := h.worker
    cases Framed.step_cases hstep with
    | arrive hpiece hrest =>
        obtain ⟨n, a', part', hrun, ha', hal'⟩ := hal.arrive cfg hrest
        exact ⟨a', ⟨by rw [ha', ← hworker], fun _ => ⟨part', hal'⟩⟩, n, hrun⟩
    | recv hreading hbuffered hchunk hcap hsocket =>
        refine ⟨a, ⟨hworker, fun _ => ⟨part, hal.lines, hal.scanned,
          hal.unended, ?_, hal.ahead⟩⟩, 0, rfl⟩
        rw [← hal.unread, Framed.unread, Framed.unread, hsocket, hbuffered]
        simp
    | scan hreading hbuffered hpart =>
        refine ⟨a, ⟨hworker, fun _ => ⟨part, hal.lines, ?_, hal.unended, ?_,
          hal.ahead⟩⟩, 0, rfl⟩
        · rw [List.mem_append]
          rintro (hm | hm)
          · exact hal.scanned hm
          · exact hpart hm
        · rw [← hal.unread, Framed.unread, Framed.unread]
          simp
    | @other e w he hw =>
        refine ⟨{ a with worker := w }, ⟨rfl, fun _ => ⟨part, hal.lines, hal.scanned,
          hal.unended, hal.unread, hal.ahead⟩⟩, ?_⟩
        exact Lined.step_of_cases (.other he (hworker ▸ hw))
    | @line e w timed l after hreading hl hbuffered he hw =>
        obtain ⟨ls, harrived, hafter⟩ := hal.first_line hl hbuffered
        refine ⟨{ a with arrived := ls, worker := w }, ⟨rfl, fun _ => ⟨part, ?_,
          by simp, hal.unended, ?_, hal.ahead⟩⟩, ?_⟩
        · intro m hm
          refine hal.lines m ?_
          rw [harrived]
          exact List.mem_cons_of_mem _ hm
        · simpa [Framed.unread] using hafter
        · exact Lined.step_of_cases
            (.line (hworker ▸ hreading) harrived he (hworker ▸ hw))
    | @idle e w timed r hreading hbuffered hsocket hidle he hw =>
        obtain ⟨harrived, hcases⟩ := hal.idle_cases hbuffered hsocket hidle
        obtain ⟨hunread, -, hline⟩ := hal.idle_unread hbuffered hsocket
        -- nothing was collected, or the worker has given up
        have hnext : w ≠ .exited → s.line = [] → Aligned part
            { s with buffered := [], line := [], worker := w }
            { a with arrived := [], worker := w } := by
          intro _ hnil
          refine ⟨?_, by simp, hal.unended, ?_, hal.ahead⟩
          · intro m hm
            exact hal.rest_isLine m (by simpa using hm)
          · rw [← hline, hnil]
            simp [Framed.unread, hsocket]
        rcases hcases with ⟨rfl, rfl⟩ | ⟨rfl, hnil, hrest⟩
        · refine ⟨{ a with arrived := [], worker := w }, ⟨rfl, fun hne => ⟨part, ?_⟩⟩,
            Lined.step_of_cases
              (.timeout (hworker ▸ hreading) harrived he (hworker ▸ hw))⟩
          rcases Worker.step_timeout hw he hreading with rfl | hw'
          · exact hnext hne hlossless
          · exact absurd hw' hne
        · exact ⟨{ a with arrived := [], worker := w },
            ⟨rfl, fun hne => ⟨part, hnext hne hnil⟩⟩,
            Lined.step_of_cases
              (.eof (hworker ▸ hreading) harrived hrest he (hworker ▸ hw))⟩

end Simulation

end Rexec
