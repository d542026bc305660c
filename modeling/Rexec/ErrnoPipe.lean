import Rexec.Spawn
import Rexec.Lib.Machine
import Mathlib.Tactic

/-!
# The errno pipe

`write_errno` writes the four bytes of an errno in a loop, and `read_errno` reads
them into a buffer of four bytes in another; each call of either may be
interrupted or move fewer bytes than it was asked to.

* `ErrnoPipe.step` is the machine of the two loops, with their counters and the
  buffer; the write end can be closed at any time, as by `execvp` or a signal.
* `ErrnoPipe.Exact` is the invariant: what was read and what is in the pipe are
  the bytes written so far.
* `errno_round_trip` is the law of every run; `run_reads` says that `readErrno`
  is what the reading loop does once the write end is closed.
-/

namespace Rexec

open Machine

/-- Where the writer stands. -/
inductive WriterPhase where
  /-- it has not called `write_errno` -/
  | idle
  /-- at the head of the loop -/
  | looping
  | returned
  /-- the write end is closed -/
  | closed
deriving DecidableEq

structure ErrnoPipe where
  phase : WriterPhase
  /-- the errno that `write_errno` was called with -/
  report : Option Int32
  written : Nat
  /-- what is in the pipe -/
  pipe : List UInt8
  /-- the buffer of `read_errno` -/
  buf : List UInt8
  read : Nat
  /-- what `read_errno` has returned -/
  result : Option (Except Unit (Option Int32))

namespace ErrnoPipe

def init : ErrnoPipe :=
  { phase := .idle, report := none, written := 0, pipe := [], buf := [0, 0, 0, 0], read := 0
    result := none }

/-- The array that `write_errno` writes from. -/
def array (p : ErrnoPipe) : List UInt8 :=
  (p.report.map errnoBytes).getD []

/-- `bytes.len() - written`: the length that a `write` is given. -/
def writeLen (p : ErrnoPipe) : Nat :=
  4 - p.written

/-- The length of `buf[read..]`, which a `read` is given. -/
def readLen (p : ErrnoPipe) : Nat :=
  4 - p.read

/-- The end of `read_errno`. -/
def returns (buf : List UInt8) (read : Nat) : Option Int32 :=
  if read = 0 then none
  else if read = buf.length then errnoOfBytes buf
  else none

/-- Bytes that a `read` puts into the buffer from a place on. -/
def store (buf : List UInt8) (place : Nat) (bytes : List UInt8) : List UInt8 :=
  buf.take place ++ bytes ++ buf.drop (place + bytes.length)

inductive Label where
  /-- `write_errno` is called -/
  | report (errno : Int32)
  | write (w : WriteCall)
  | close
  | read (r : ReadCall)
deriving DecidableEq

/-- After a `write` of `n` bytes. -/
def wrote (p : ErrnoPipe) (n : Nat) : ErrnoPipe :=
  { p with
    phase := if n = 0 ∨ 4 ≤ p.written + n then .returned else .looping
    written := p.written + n
    pipe := p.pipe ++ (p.array.drop p.written).take n }

/-- After a `read` of `n` bytes. -/
def got (p : ErrnoPipe) (n : Nat) : ErrnoPipe :=
  let buf := store p.buf p.read (p.pipe.take n)
  { p with
    pipe := p.pipe.drop n
    buf
    read := p.read + n
    result := if n = 0 ∨ 4 ≤ p.read + n then some (.ok (returns buf (p.read + n))) else none }

/-- A call moves no more than it was asked to; a `read` finds the end when the pipe
is empty and its write end closed, and waits as long as it is only empty. -/
def step (p : ErrnoPipe) : Label → Option ErrnoPipe
  | .report errno =>
      if p.phase = .idle then some { p with phase := .looping, report := some errno } else none
  | .write w =>
      if p.phase = .looping then
        match w with
        | .wrote n => if n ≤ p.writeLen then some (p.wrote n) else none
        | .interrupted => some p
        | .failed => some { p with phase := .returned }
      else none
  | .close => if p.phase ≠ .closed then some { p with phase := .closed } else none
  | .read r =>
      if p.result = none then
        match r with
        | .got n =>
            if n ≤ p.readLen ∧ n ≤ p.pipe.length ∧
                (n = 0 → p.pipe = [] ∧ p.phase = .closed) then
              some (p.got n)
            else none
        | .interrupted => some p
        | .failed => some { p with result := some (.error ()) }
      else none

/--
The call that leads to `q` stays within the four bytes: a `write` is given the rest of the
array and a `read` the rest of the buffer, neither of which is empty, and a `read` of `n`
bytes changes the next `n` places of the buffer only.
-/
structure Within (p q : ErrnoPipe) (l : Label) : Prop where
  write : ∀ w, l = .write w → 0 < p.writeLen ∧ p.written + p.writeLen = p.array.length
  wrote : ∀ n, l = .write (.wrote n) → q.written = p.written + n ∧ q.written ≤ p.array.length
  read : ∀ r, l = .read r → 0 < p.readLen ∧ p.read + p.readLen = p.buf.length
  got : ∀ n, l = .read (.got n) → q.read = p.read + n ∧ q.read ≤ p.buf.length ∧
    q.buf.length = p.buf.length ∧ ∀ i, i < p.read ∨ q.read ≤ i → q.buf[i]? = p.buf[i]?

/-- A call of `write` that is not interrupted. -/
def Label.isWrite : Label → Bool
  | .write w => w ≠ .interrupted
  | _ => false

/-- A call of `read` that is not interrupted. -/
def Label.isRead : Label → Bool
  | .read r => r ≠ .interrupted
  | _ => false

/-! ## What a step can do -/

inductive Step (p : ErrnoPipe) : Label → ErrnoPipe → Prop where
  | report {errno : Int32} (hphase : p.phase = .idle) :
      Step p (.report errno) { p with phase := .looping, report := some errno }
  | wrote {n : Nat} (hphase : p.phase = .looping) (hn : n ≤ 4 - p.written) :
      Step p (.write (.wrote n)) (p.wrote n)
  | writeInterrupted (hphase : p.phase = .looping) : Step p (.write .interrupted) p
  | writeFailed (hphase : p.phase = .looping) :
      Step p (.write .failed) { p with phase := .returned }
  | close : Step p .close { p with phase := .closed }
  | got {n : Nat} (hresult : p.result = none) (hroom : n ≤ 4 - p.read)
      (hpipe : n ≤ p.pipe.length) (hend : n = 0 → p.pipe = [] ∧ p.phase = .closed) :
      Step p (.read (.got n)) (p.got n)
  | readInterrupted (hresult : p.result = none) : Step p (.read .interrupted) p
  | readFailed (hresult : p.result = none) :
      Step p (.read .failed) { p with result := some (.error ()) }

theorem step_cases {p q : ErrnoPipe} {l : Label} (h : p.step l = some q) : p.Step l q := by
  cases l <;> simp only [step] at h
  case report errno =>
    split at h
    · cases h
      exact .report ‹_›
    · cases h
  case write w =>
    split at h
    · rename_i hphase
      cases w with
      | wrote n =>
          simp only at h
          split at h
          · cases h
            exact .wrote hphase ‹_›
          · cases h
      | interrupted =>
          cases h
          exact .writeInterrupted hphase
      | failed =>
          cases h
          exact .writeFailed hphase
    · cases h
  case close =>
    split at h
    · cases h
      exact .close
    · cases h
  case read r =>
    split at h
    · rename_i hresult
      cases r with
      | got n =>
          simp only at h
          split at h
          · rename_i hc
            cases h
            exact .got hresult hc.1 hc.2.1 hc.2.2
          · cases h
      | interrupted =>
          cases h
          exact .readInterrupted hresult
      | failed =>
          cases h
          exact .readFailed hresult
    · cases h

/-! ## The invariant -/

section Buffer

variable {buf chunk : List UInt8} {place : Nat}

theorem store_length (h : place + chunk.length ≤ buf.length) :
    (store buf place chunk).length = buf.length := by
  simp only [store, List.length_append, List.length_take, List.length_drop]
  omega

/-- What stands in the buffer up to the end of what was stored. -/
theorem store_take (chunk : List UInt8) (h : place ≤ buf.length) :
    (store buf place chunk).take (place + chunk.length) = buf.take place ++ chunk := by
  have hlength : (buf.take place ++ chunk).length = place + chunk.length := by
    rw [List.length_append, List.length_take, Nat.min_eq_left h]
  rw [store, ← hlength, List.take_left]

/-- The other places of the buffer are as they were. -/
theorem store_getElem? (chunk : List UInt8) (h : place ≤ buf.length) {i : Nat}
    (hi : i < place ∨ place + chunk.length ≤ i) : (store buf place chunk)[i]? = buf[i]? := by
  have hlength : (buf.take place).length = place := by
    rw [List.length_take, Nat.min_eq_left h]
  rw [store]
  rcases hi with hi | hi
  · rw [List.append_assoc, List.getElem?_append_left (hlength.symm ▸ hi),
      List.getElem?_take_of_lt hi]
  · have hfront : (buf.take place ++ chunk).length = place + chunk.length := by
      rw [List.length_append, hlength]
    rw [List.getElem?_append_right (hfront.symm ▸ hi), hfront, List.getElem?_drop,
      Nat.add_sub_cancel' hi]

end Buffer

structure Exact (p : ErrnoPipe) : Prop where
  written : p.written ≤ 4
  idle : p.phase = .idle → p.report = none
  unreported : p.report = none → p.written = 0
  looping : p.phase = .looping → p.report ≠ none ∧ p.written < 4
  read : p.read ≤ 4
  buf : p.buf.length = 4
  /-- what was read and what is in the pipe were written -/
  bytes : p.buf.take p.read ++ p.pipe = p.array.take p.written
  running : p.result = none → p.read < 4
  finished : ∀ r, p.result = some (.ok r) →
    r = returns p.buf p.read ∧ (p.read = 4 ∨ p.phase = .closed ∧ p.pipe = [])

theorem exact_init : init.Exact where
  written := Nat.zero_le _
  idle := fun _ => rfl
  unreported := fun _ => rfl
  looping := by simp [init]
  read := Nat.zero_le _
  buf := rfl
  bytes := rfl
  running := fun _ => by simp [init]
  finished := by simp [init]

/-- The writer goes on without writing. -/
theorem Exact.phase {p : ErrnoPipe} (h : p.Exact) {phase : WriterPhase}
    (hphase : phase = .returned ∧ p.phase = .looping ∨ phase = .closed) :
    Exact { p with phase := phase } := by
  refine ⟨h.written, ?_, h.unreported, ?_, h.read, h.buf, h.bytes, h.running, ?_⟩
  · rintro rfl
    rcases hphase with ⟨hphase, -⟩ | hphase <;> cases hphase
  · rintro rfl
    rcases hphase with ⟨hphase, -⟩ | hphase <;> cases hphase
  · intro r hr
    obtain ⟨hreturns, hend⟩ := h.finished r hr
    refine ⟨hreturns, hend.imp_right fun hend => ?_⟩
    rcases hphase with ⟨-, hlooping⟩ | hclosed
    · rw [hend.1] at hlooping
      cases hlooping
    · exact ⟨hclosed, hend.2⟩

theorem Exact.report {p : ErrnoPipe} (h : p.Exact) (hphase : p.phase = .idle)
    (errno : Int32) :
    Exact { p with phase := .looping, report := some errno } := by
  have hwritten : p.written = 0 := h.unreported (h.idle hphase)
  refine ⟨h.written, by simp, by simp, ?_, h.read, h.buf, ?_, h.running, ?_⟩
  · simp [hwritten]
  · have hbytes := h.bytes
    rw [hwritten, List.take_zero] at hbytes
    simp only [hwritten, List.take_zero, hbytes]
  · intro r hr
    obtain ⟨hreturns, hend⟩ := h.finished r hr
    refine ⟨hreturns, .inl ?_⟩
    rcases hend with hfull | ⟨hclosed, -⟩
    · exact hfull
    · rw [hphase] at hclosed
      cases hclosed

theorem Exact.wrote {p : ErrnoPipe} (h : p.Exact) (hphase : p.phase = .looping) {n : Nat}
    (hn : n ≤ 4 - p.written) : (p.wrote n).Exact := by
  obtain ⟨hreport, hlt⟩ := h.looping hphase
  refine ⟨?_, ?_, ?_, ?_, h.read, h.buf, ?_, h.running, ?_⟩
  · change p.written + n ≤ 4
    omega
  · intro hidle
    simp only [ErrnoPipe.wrote] at hidle
    split at hidle <;> cases hidle
  · exact fun hnone => absurd hnone hreport
  · intro hlooping
    simp only [ErrnoPipe.wrote] at hlooping ⊢
    split at hlooping
    · cases hlooping
    · exact ⟨hreport, by omega⟩
  · change p.buf.take p.read ++ (p.pipe ++ (p.array.drop p.written).take n) =
      p.array.take (p.written + n)
    rw [List.take_add, ← h.bytes, List.append_assoc]
  · intro r hr
    obtain ⟨hreturns, hend⟩ := h.finished r hr
    refine ⟨hreturns, .inl ?_⟩
    rcases hend with hfull | ⟨hclosed, -⟩
    · exact hfull
    · rw [hphase] at hclosed
      cases hclosed

/-- A `read` puts the next bytes of the pipe behind those it has. -/
theorem Exact.got_take {p : ErrnoPipe} (h : p.Exact) {n : Nat} (hpipe : n ≤ p.pipe.length) :
    (p.got n).buf.take (p.got n).read = p.buf.take p.read ++ p.pipe.take n := by
  have hchunk : (p.pipe.take n).length = n := by
    rw [List.length_take, Nat.min_eq_left hpipe]
  have htake := store_take (p.pipe.take n) (h.buf.symm ▸ h.read)
  rwa [hchunk] at htake

theorem Exact.got {p : ErrnoPipe} (h : p.Exact) {n : Nat} (hroom : n ≤ 4 - p.read)
    (hpipe : n ≤ p.pipe.length) (hend : n = 0 → p.pipe = [] ∧ p.phase = .closed) :
    (p.got n).Exact := by
  have hread := h.read
  have hchunk : (p.pipe.take n).length = n := by
    rw [List.length_take, Nat.min_eq_left hpipe]
  refine ⟨h.written, h.idle, h.unreported, h.looping, ?_, ?_, ?_, ?_, ?_⟩
  · change p.read + n ≤ 4
    omega
  · refine (store_length ?_).trans h.buf
    rw [hchunk, h.buf]
    omega
  · rw [h.got_take hpipe]
    change p.buf.take p.read ++ p.pipe.take n ++ p.pipe.drop n = _
    rw [List.append_assoc, List.take_append_drop]
    exact h.bytes
  · intro hnone
    simp only [ErrnoPipe.got] at hnone ⊢
    split at hnone
    · cases hnone
    · omega
  · intro r hr
    simp only [ErrnoPipe.got] at hr ⊢
    split at hr
    · rename_i hover
      cases hr
      refine ⟨rfl, ?_⟩
      rcases hover with rfl | hover
      · obtain ⟨hempty, hclosed⟩ := hend rfl
        exact .inr ⟨hclosed, by simp [hempty]⟩
      · exact .inl (by omega)
    · cases hr

theorem Exact.step {p q : ErrnoPipe} {l : Label} (h : p.Exact) (hstep : p.step l = some q) :
    q.Exact := by
  cases step_cases hstep with
  | report hphase => exact h.report hphase _
  | wrote hphase hn => exact h.wrote hphase hn
  | writeInterrupted => exact h
  | writeFailed hphase => exact h.phase (.inl ⟨rfl, hphase⟩)
  | close => exact h.phase (.inr rfl)
  | got _ hroom hpipe hend => exact h.got hroom hpipe hend
  | readInterrupted => exact h
  | readFailed =>
      exact ⟨h.written, h.idle, h.unreported, h.looping, h.read, h.buf, h.bytes, by simp,
        by simp⟩

/-! ## What has been moved -/

theorem array_of_report {p : ErrnoPipe} {errno : Int32} (h : p.report = some errno) :
    p.array = errnoBytes errno := by
  rw [array, h]
  rfl

/-- Every byte written was read or is in the pipe. -/
theorem Exact.moved {p : ErrnoPipe} (h : p.Exact) : p.read + p.pipe.length = p.written := by
  have hlength := congrArg List.length h.bytes
  rw [List.length_append, List.length_take, List.length_take, h.buf,
    Nat.min_eq_left h.read] at hlength
  rcases hreport : p.report with _ | errno
  · have hwritten := h.unreported hreport
    omega
  · rw [array_of_report hreport, errnoBytes_length, Nat.min_eq_left h.written] at hlength
    exact hlength

/-- `read_errno` returns the errno if all of it was written, and nothing if the write
end was closed before. -/
theorem Exact.result {p : ErrnoPipe} (h : p.Exact) {r : Option Int32}
    (hr : p.result = some (.ok r)) :
    (p.written = 4 ∧ ∃ errno, p.report = some errno ∧ r = some errno) ∨
      (p.phase = .closed ∧ p.written < 4 ∧ r = none) := by
  obtain ⟨rfl, hend⟩ := h.finished r hr
  have hmoved := h.moved
  have hwritten := h.written
  by_cases hread : p.read = 4
  · have hpipe : p.pipe = [] := List.eq_nil_of_length_eq_zero (by omega)
    have hall : p.written = 4 := by omega
    obtain ⟨errno, hreport⟩ : ∃ errno, p.report = some errno := by
      rw [← Option.ne_none_iff_exists']
      intro hnone
      have hzero := h.unreported hnone
      omega
    have hbuf : p.buf = errnoBytes errno := by
      have hbytes := h.bytes
      rw [array_of_report hreport, hpipe, List.append_nil, hall, hread,
        List.take_of_length_le h.buf.le, List.take_of_length_le (errnoBytes_length _).le]
        at hbytes
      exact hbytes
    refine .inl ⟨hall, errno, hreport, ?_⟩
    rw [returns, if_neg (by omega), if_pos (hread.trans h.buf.symm), hbuf,
      errnoOfBytes_errnoBytes]
  · obtain ⟨hclosed, hpipe⟩ := hend.resolve_left hread
    rw [hpipe, List.length_nil] at hmoved
    have hpart := h.read
    refine .inr ⟨hclosed, by omega, ?_⟩
    rw [returns, h.buf, if_neg hread, ite_self]

/-! ## The number of calls -/

/-- A bound on the calls of `write` so far. -/
def writesUsed (p : ErrnoPipe) : Nat :=
  match p.phase with
  | .idle => 0
  | .looping => p.written
  | _ => 4

/-- A bound on the calls of `read` so far. -/
def readsUsed (p : ErrnoPipe) : Nat :=
  if p.result = none then p.read else 4

theorem writesUsed_le {p : ErrnoPipe} (h : p.Exact) : p.writesUsed ≤ 4 := by
  have hwritten := h.written
  unfold writesUsed
  split <;> omega

theorem readsUsed_le {p : ErrnoPipe} (h : p.Exact) : p.readsUsed ≤ 4 := by
  have hread := h.read
  unfold readsUsed
  split <;> omega

theorem Exact.step_writes {p q : ErrnoPipe} {l : Label} (h : p.Exact)
    (hstep : p.step l = some q) : p.writesUsed + l.isWrite.toNat ≤ q.writesUsed := by
  cases step_cases hstep with
  | report hphase => simp [writesUsed, Label.isWrite, hphase]
  | @wrote n hphase hn =>
      have hlt := (h.looping hphase).2
      have hused : p.writesUsed = p.written := by rw [writesUsed, hphase]
      have hused' : (p.wrote n).writesUsed =
          if n = 0 ∨ 4 ≤ p.written + n then 4 else p.written + n := by
        by_cases hover : n = 0 ∨ 4 ≤ p.written + n <;>
          simp [writesUsed, ErrnoPipe.wrote, hover]
      rw [hused, hused']
      change p.written + 1 ≤ _
      split <;> omega
  | writeInterrupted => simp [Label.isWrite]
  | writeFailed hphase =>
      have hlt := (h.looping hphase).2
      simp only [writesUsed, hphase, Label.isWrite]
      simp
      omega
  | close => simpa [writesUsed, Label.isWrite] using writesUsed_le h
  | got => simp [writesUsed, ErrnoPipe.got, Label.isWrite]
  | readInterrupted => simp [Label.isWrite]
  | readFailed => simp [writesUsed, Label.isWrite]

theorem Exact.step_reads {p q : ErrnoPipe} {l : Label} (h : p.Exact)
    (hstep : p.step l = some q) : p.readsUsed + l.isRead.toNat ≤ q.readsUsed := by
  cases step_cases hstep with
  | @got n hresult hroom =>
      have hlt := h.running hresult
      simp only [readsUsed, hresult, if_true, ErrnoPipe.got, Label.isRead]
      split
      · simp
        omega
      · rename_i hmore
        simp
        omega
  | readFailed hresult =>
      have hlt := h.running hresult
      simp [readsUsed, hresult, Label.isRead]
      omega
  | readInterrupted => simp [Label.isRead]
  | wrote => exact Nat.le_refl _
  | _ => simp [readsUsed, Label.isRead]

/-! ## Every run -/

theorem run_exact {es : List Label} {p : ErrnoPipe}
    (h : run ErrnoPipe.step init es = some p) : p.Exact :=
  run_invariant (I := Exact) (fun _ _ _ hI hstep => hI.step hstep) exact_init h

/-- As long as no `read` fails, `read_errno` does not. -/
theorem no_error {es : List Label} {p : ErrnoPipe}
    (h : run ErrnoPipe.step init es = some p) (hreads : .read .failed ∉ es) :
    p.result ≠ some (.error ()) := by
  refine run_induction (P := fun es p => .read .failed ∉ es → p.result ≠ some (.error ()))
    (by simp [init]) ?_ h hreads
  intro es p l q _ ih hstep hnot
  have hsplit : .read .failed ∉ es ∧ l ≠ .read .failed := by simpa [eq_comm] using hnot
  have hold := ih hsplit.1
  cases step_cases hstep with
  | got =>
      simp only [ErrnoPipe.got]
      split <;> simp
  | readFailed => exact absurd rfl hsplit.2
  | _ => exact hold

/-- A call of `write` can be made in the loop, and one of `read` unless the pipe is empty
and open. -/
theorem Exact.goes_on {p : ErrnoPipe} (h : p.Exact) :
    (p.phase = .looping → ∃ n q, p.step (.write (.wrote n)) = some q) ∧
      (p.result = none → p.pipe ≠ [] ∨ p.phase = .closed →
        ∃ n q, p.step (.read (.got n)) = some q) := by
  constructor
  · intro hphase
    have hroom : 1 ≤ p.writeLen := Nat.sub_pos_of_lt (h.looping hphase).2
    refine ⟨1, p.wrote 1, ?_⟩
    simp only [ErrnoPipe.step, hphase, if_true, if_pos hroom]
  · intro hresult hready
    have hroom : 1 ≤ p.readLen := Nat.sub_pos_of_lt (h.running hresult)
    by_cases hpipe : p.pipe = []
    · have hclosed := hready.resolve_left (not_not_intro hpipe)
      refine ⟨0, p.got 0, ?_⟩
      simp [ErrnoPipe.step, hresult, hpipe, hclosed]
    · have hlength : 1 ≤ p.pipe.length := List.length_pos_iff.mpr hpipe
      refine ⟨1, p.got 1, ?_⟩
      simp only [ErrnoPipe.step, hresult, if_true]
      rw [if_pos ⟨hroom, hlength, by simp⟩]

/-- Every call stays within the four bytes. -/
theorem Exact.within {p q : ErrnoPipe} {l : Label} (h : p.Exact)
    (hstep : p.step l = some q) : p.Within q l := by
  have hq := h.step hstep
  have harray : p.phase = .looping → p.written < 4 ∧ p.array.length = 4 := by
    intro hphase
    obtain ⟨hreport, hlt⟩ := h.looping hphase
    obtain ⟨errno, herrno⟩ := Option.ne_none_iff_exists'.mp hreport
    exact ⟨hlt, by rw [array_of_report herrno, errnoBytes_length]⟩
  have hbuf := h.buf
  refine ⟨?_, ?_, ?_, ?_⟩
  · rintro w rfl
    have hphase : p.phase = .looping := by cases step_cases hstep <;> assumption
    obtain ⟨hlt, hlength⟩ := harray hphase
    rw [writeLen, hlength]
    omega
  · rintro n rfl
    cases step_cases hstep with
    | wrote hphase =>
        rw [(harray hphase).2]
        exact ⟨rfl, hq.written⟩
  · rintro r rfl
    have hresult : p.result = none := by cases step_cases hstep <;> assumption
    have hlt := h.running hresult
    rw [readLen, hbuf]
    omega
  · rintro n rfl
    cases step_cases hstep with
    | got _ hroom hpipe =>
        have hchunk : (p.pipe.take n).length = n := by
          rw [List.length_take, Nat.min_eq_left hpipe]
        refine ⟨rfl, hbuf.symm ▸ hq.read, hq.buf.trans hbuf.symm, fun i hi => ?_⟩
        refine store_getElem? (p.pipe.take n) (hbuf.symm ▸ h.read) ?_
        rwa [hchunk]

/--
In every run in which no `read` fails: either loop makes four calls at most that
are not interrupted, and can go on unless it is over or waits for the other; the
calls stay within the four bytes; and when `read_errno` has returned, all four
bytes were written and it has returned the errno, or the write end was closed
before and it has returned nothing.
-/
theorem errno_round_trip {es : List Label} {p : ErrnoPipe}
    (h : run ErrnoPipe.step init es = some p) (hreads : .read .failed ∉ es) :
    (es.countP Label.isWrite ≤ 4 ∧ es.countP Label.isRead ≤ 4) ∧
    ((p.phase = .looping → ∃ n q, p.step (.write (.wrote n)) = some q) ∧
      (p.result = none → p.pipe ≠ [] ∨ p.phase = .closed →
        ∃ n q, p.step (.read (.got n)) = some q)) ∧
    (p.written ≤ 4 ∧ p.read ≤ 4 ∧ ∀ l q, p.step l = some q → p.Within q l) ∧
    ∀ r, p.result = some r →
      (p.written = 4 ∧ ∃ errno, p.report = some errno ∧ r = .ok (some errno)) ∨
        (p.phase = .closed ∧ p.written < 4 ∧ r = .ok none) := by
  have hexact := run_exact h
  refine ⟨⟨?_, ?_⟩, hexact.goes_on, ⟨hexact.written, hexact.read,
    fun l q hstep => hexact.within hstep⟩, ?_⟩
  · exact (run_countP_le Label.isWrite writesUsed
      (fun _ _ _ hI hstep => ⟨hI.step hstep, hI.step_writes hstep⟩) exact_init h).trans
      (writesUsed_le hexact)
  · exact (run_countP_le Label.isRead readsUsed
      (fun _ _ _ hI hstep => ⟨hI.step hstep, hI.step_reads hstep⟩) exact_init h).trans
      (readsUsed_le hexact)
  · intro r hr
    cases r with
    | error => exact absurd hr (no_error h hreads)
    | ok r =>
        rcases hexact.result hr with ⟨hall, errno, hreport, rfl⟩ | ⟨hclosed, hlt, rfl⟩
        · exact .inl ⟨hall, errno, hreport, rfl⟩
        · exact .inr ⟨hclosed, hlt, rfl⟩

/-- The bytes of -2 in two writes and three reads. -/
def sampleReport : List Label :=
  [.report (-2), .write (.wrote 1), .read .interrupted, .read (.got 1), .write .interrupted,
    .write (.wrote 3), .read (.got 2), .close, .read (.got 1)]

theorem errno_round_trip_sampleReport :
    ∃ p, run ErrnoPipe.step init sampleReport = some p ∧ p.result = some (.ok (some (-2))) ∧
      (sampleReport.countP Label.isWrite ≤ 4 ∧ sampleReport.countP Label.isRead ≤ 4) ∧
      ((p.phase = .looping → ∃ n q, p.step (.write (.wrote n)) = some q) ∧
        (p.result = none → p.pipe ≠ [] ∨ p.phase = .closed →
          ∃ n q, p.step (.read (.got n)) = some q)) ∧
      (p.written ≤ 4 ∧ p.read ≤ 4 ∧ ∀ l q, p.step l = some q → p.Within q l) ∧
      ∀ r, p.result = some r →
        (p.written = 4 ∧ ∃ errno, p.report = some errno ∧ r = .ok (some errno)) ∨
          (p.phase = .closed ∧ p.written < 4 ∧ r = .ok none) :=
  ⟨_, rfl, by rfl, errno_round_trip rfl (by decide)⟩

/-! ## The reading loop on its own -/

/-- The end of `read_errno` is a reading of the bytes it has. -/
theorem returns_eq {buf : List UInt8} {read : Nat} (hbuf : buf.length = 4) (hread : read ≤ 4) :
    returns buf read = errnoOfBytes (buf.take read) := by
  have hlength : (buf.take read).length = read := by
    rw [List.length_take, hbuf, Nat.min_eq_left hread]
  unfold returns
  split
  · rw [errnoOfBytes_eq_none (by omega)]
  · split
    · rename_i hfull
      rw [hfull, List.take_length]
    · rename_i hpart
      rw [errnoOfBytes_eq_none (by omega)]

/-- `read_errno` makes no call after it has returned. -/
theorem run_reads_over {p q : ErrnoPipe} {calls : List ReadCall} (hresult : p.result ≠ none)
    (hrun : run ErrnoPipe.step p (calls.map .read) = some q) : calls = [] ∧ q = p := by
  cases calls with
  | nil =>
      cases hrun
      exact ⟨rfl, rfl⟩
  | cons call calls =>
      rw [List.map_cons, run_cons, Option.bind_eq_some_iff] at hrun
      obtain ⟨m, hstep, -⟩ := hrun
      simp only [ErrnoPipe.step, if_neg hresult] at hstep
      cases hstep

/-- Once the write end is closed, the loop is `readLoop` of what is in the pipe. -/
theorem run_reads {p q : ErrnoPipe} {calls : List ReadCall} (h : p.Exact)
    (hresult : p.result = none) (hclosed : p.phase = .closed)
    (hrun : run ErrnoPipe.step p (calls.map .read) = some q) {r : Except Unit (Option Int32)}
    (hr : q.result = some r) :
    (readLoop (p.buf.take p.read) p.pipe calls).map (Except.map errnoOfBytes) = some r := by
  induction calls generalizing p with
  | nil =>
      cases hrun
      rw [hresult] at hr
      cases hr
  | cons call calls ih =>
      rw [List.map_cons, run_cons, Option.bind_eq_some_iff] at hrun
      obtain ⟨m, hstep, hrest⟩ := hrun
      have hm := h.step hstep
      have hlt := h.running hresult
      have hlength : (p.buf.take p.read).length = p.read := by
        rw [List.length_take, h.buf, Nat.min_eq_left h.read]
      rw [readLoop.eq_def]
      simp only [hlength, if_neg (by omega : ¬ 4 ≤ p.read)]
      cases step_cases hstep with
      | readInterrupted => exact ih h hresult hclosed hrest
      | readFailed =>
          obtain ⟨rfl, rfl⟩ := run_reads_over (by simp) hrest
          cases hr
          rfl
      | @got n _ hroom hpipe hend =>
          have htake := h.got_take hpipe
          have hgot : (p.got n).result = if n = 0 ∨ 4 ≤ p.read + n then
              some (.ok (errnoOfBytes (p.buf.take p.read ++ p.pipe.take n))) else none := by
            rw [← htake, ← returns_eq hm.buf hm.read]
            rfl
          by_cases hover : n = 0 ∨ 4 ≤ p.read + n
          · rw [if_pos hover] at hgot
            obtain ⟨rfl, rfl⟩ := run_reads_over (by simp [hgot]) hrest
            cases hgot.symm.trans hr
            cases n with
            | zero => simp [(hend rfl).1, Except.map]
            | succ k =>
                have hfull : 4 ≤ (p.buf.take p.read ++ p.pipe.take (k + 1)).length := by
                  rw [List.length_append, hlength, List.length_take, Nat.min_eq_left hpipe]
                  omega
                simp only [if_pos (And.intro hpipe hroom), readLoop, if_pos hfull]
                rfl
          · rw [if_neg hover] at hgot
            have hloop := ih hm hgot hclosed hrest
            rw [htake] at hloop
            obtain ⟨k, rfl⟩ : ∃ k, n = k + 1 := Nat.exists_eq_succ_of_ne_zero (by omega)
            simp only [if_pos (And.intro hpipe hroom)]
            exact hloop

/-- What the host makes of the pipe of a child that is gone is what the loop returns. -/
theorem readErrno_of_run {p q : ErrnoPipe} {calls : List ReadCall} (h : p.Exact)
    (hread : p.read = 0) (hresult : p.result = none) (hclosed : p.phase = .closed)
    (hrun : run ErrnoPipe.step p (calls.map .read) = some q) {r : Option Int32}
    (hr : q.result = some (.ok r)) :
    readErrno p.pipe calls = some r := by
  have hloop := run_reads h hresult hclosed hrun hr
  rw [hread, List.take_zero, Option.map_eq_some_iff] at hloop
  obtain ⟨result, hloop, hmap⟩ := hloop
  rw [readErrno, hloop]
  cases result with
  | error e => cases hmap
  | ok buf =>
      cases hmap
      rfl

end ErrnoPipe

end Rexec
