import Rexec.Protocol
import Rexec.PtyBuffer
import Rexec.Text
import Rexec.Lib.Machine
import Mathlib.Tactic

/-!
# The console

What the host prints of its commands.  Each command has a console thread that
waits for its turn in the `PrintQueue`, prints the banner, drains the buffer the
PTY reader fills, prints a newline and releases the turn.  Nothing holds a lock
while it prints: that the blocks do not mix rests on the counter `next` alone.

`Console.step` is the machine of all these threads.  `Ordered` is the invariant
of the counter, which needs nothing of what is printed and survives panics of a
job; `Printed` is the invariant of the output.  `console_serialised` states both
for whole runs.
-/

namespace Rexec

open Machine

/-! ## What is printed -/

/-- `is_safe` of `shell_quote`. -/
def isSafe (c : Char) : Bool :=
  c.isAlphanum || c ∈ ['-', '_', '/', '.', '+', ':', '@', '=', ',', '%']

/-- A single quote. -/
def quote : Char := Char.ofNat 0x27

/-- `shell_quote`. -/
def shellQuote (arg : String) : String :=
  if arg.isEmpty = false ∧ arg.toList.all isSafe = true then arg
  else
    String.ofList
      (quote ::
        (arg.toList.flatMap fun c =>
          if c = quote then [quote, '\\', quote, quote] else [c]) ++ [quote])

/-- The text of `print_banner`. -/
def banner (req : Request) (ts : String) : String :=
  "[" ++ ts ++ "] " ++ req.whoami ++ ":" ++ req.dir ++ " $" ++
    " TO=" ++ toString req.timeout.toNat ++
    String.join (req.exec.map fun arg => " " ++ shellQuote arg) ++ "\n"

/-- What `queue_console_output` is given for a command. -/
structure ConsoleJob where
  request : Request
  requestTime : String
  /-- what the PTY reader will read, if the command was spawned -/
  output : Option (List UInt8)

/-- All a job prints. -/
def ConsoleJob.block (j : ConsoleJob) : List UInt8 :=
  bytes (banner j.request j.requestTime) ++ j.output.getD [] ++ bytes "\n"

/-! ## The machine -/

/-- Where the console thread of a command stands. -/
inductive Job where
  | absent
  /-- in `wait_turn`, about to compare the counter -/
  | looking
  /-- in `wait_turn`, on the condition variable -/
  | asleep
  | banner
  /-- in `drain_to_stdout`, about to look at the buffer -/
  | draining
  /-- in `drain_to_stdout`, on the condition variable -/
  | drainAsleep
  | writing (chunk : List UInt8) (eof : Bool)
  | newline
  /-- the job is over, by its end or by a panic; the guard is about to be dropped -/
  | releasing
  | released
deriving DecidableEq

namespace Job

/-- Between `wait_turn` and `release`. -/
def inTurn : Job → Bool
  | .banner | .draining | .drainAsleep | .writing _ _ | .newline | .releasing => true
  | _ => false

/-- Nothing of the job is printed yet. -/
def waits : Job → Bool
  | .absent | .looking | .asleep | .banner => true
  | _ => false

/-- `notify_all` on the condition variable of the queue. -/
def notified : Job → Job
  | .asleep => .looking
  | j => j

/-- `notify_all` on the condition variable of the buffer. -/
def drainNotified : Job → Job
  | .drainAsleep => .draining
  | j => j

end Job

/-- The PTY reader of a command and the buffer it fills. -/
structure Reader where
  remaining : List UInt8
  filter : FilterState
  buffer : PtyBuffer

structure Console where
  /-- `PrintQueue::next` -/
  next : Nat
  jobs : Nat → Job
  readers : Nat → Reader
  stdout : List UInt8

namespace Console

def init (silent : Bool) (cmds : Nat → ConsoleJob) : Console :=
  { next := 0
    jobs := fun _ => .absent
    readers := fun s =>
      { remaining := (cmds s).output.getD [], filter := .normal
        buffer := PtyBuffer.new silent }
    stdout := [] }

inductive Label where
  | queue (s : Nat)
  | look (s : Nat)
  /-- a wake-up nobody asked for -/
  | wake (s : Nat)
  | banner (s : Nat)
  | drain (s : Nat)
  | write (s : Nat)
  | newline (s : Nat)
  | release (s : Nat)
  | panic (s : Nat)
  | ptyRead (s : Nat) (chunk : List UInt8)
  | ptyEof (s : Nat)
deriving DecidableEq

/-- The thread of one job goes on. -/
def move (c : Console) (s : Nat) (j : Job) : Console :=
  { c with jobs := Function.update c.jobs s j }

/-- The thread of one job goes on and has printed. -/
def print (c : Console) (s : Nat) (j : Job) (out : List UInt8) : Console :=
  { c with jobs := Function.update c.jobs s j, stdout := c.stdout ++ out }

/-- The PTY reader of one command goes on and notifies the console thread. -/
def feed (c : Console) (s : Nat) (r : Reader) : Console :=
  { c with
    readers := Function.update c.readers s r
    jobs := Function.update c.jobs s (c.jobs s).drainNotified }

def step (silent : Bool) (cmds : Nat → ConsoleJob) (c : Console) :
    Label → Option Console
  | .queue s => if c.jobs s = .absent then some (c.move s .looking) else none
  | .look s =>
      if c.jobs s = .looking then
        some (c.move s
          (if c.next < s then .asleep else if silent then .releasing else .banner))
      else none
  | .wake s =>
      match c.jobs s with
      | .asleep => some (c.move s .looking)
      | .drainAsleep => some (c.move s .draining)
      | _ => none
  | .banner s =>
      if c.jobs s = .banner then
        some (c.print s (if (cmds s).output.isSome then .draining else .newline)
          (bytes (Rexec.banner (cmds s).request (cmds s).requestTime)))
      else none
  | .drain s =>
      if c.jobs s = .draining then
        let r := c.readers s
        if r.buffer.rawPending = [] ∧ r.buffer.eof = false then
          some (c.move s .drainAsleep)
        else
          some { c with
            jobs := Function.update c.jobs s (.writing r.buffer.take.1 r.buffer.eof)
            readers := Function.update c.readers s
              { r with buffer := r.buffer.take.2 } }
      else none
  | .write s =>
      match c.jobs s with
      | .writing chunk eof => some (c.print s (if eof then .newline else .draining) chunk)
      | _ => none
  | .newline s =>
      if c.jobs s = .newline then some (c.print s .releasing (bytes "\n")) else none
  | .release s =>
      if c.jobs s = .releasing then
        some { c with
          next := c.next + 1
          jobs := Function.update (fun t => (c.jobs t).notified) s .released }
      else none
  | .panic s =>
      if (c.jobs s).inTurn = true ∧ c.jobs s ≠ .releasing then
        some (c.move s .releasing)
      else none
  | .ptyRead s chunk =>
      let r := c.readers s
      if (cmds s).output.isSome ∧ r.buffer.eof = false ∧ chunk ≠ [] ∧
          chunk <+: r.remaining then
        let pushed := r.buffer.append r.filter chunk
        some (c.feed s
          { remaining := r.remaining.drop chunk.length, filter := pushed.1
            buffer := pushed.2 })
      else none
  | .ptyEof s =>
      let r := c.readers s
      if (cmds s).output.isSome ∧ r.buffer.eof = false ∧ r.remaining = [] then
        some (c.feed s { r with buffer := r.buffer.setEof })
      else none

/-! ## What a step can do -/

inductive Step (silent : Bool) (cmds : Nat → ConsoleJob) (c : Console) :
    Label → Console → Prop where
  | queue {s : Nat} (hjob : c.jobs s = .absent) :
      Step silent cmds c (.queue s) (c.move s .looking)
  | sleep {s : Nat} (hjob : c.jobs s = .looking) (hnext : c.next < s) :
      Step silent cmds c (.look s) (c.move s .asleep)
  | turn {s : Nat} (hjob : c.jobs s = .looking) (hnext : s ≤ c.next) :
      Step silent cmds c (.look s)
        (c.move s (if silent then .releasing else .banner))
  | wake {s : Nat} (hjob : c.jobs s = .asleep) :
      Step silent cmds c (.wake s) (c.move s .looking)
  | drainWake {s : Nat} (hjob : c.jobs s = .drainAsleep) :
      Step silent cmds c (.wake s) (c.move s .draining)
  | banner {s : Nat} (hjob : c.jobs s = .banner) :
      Step silent cmds c (.banner s)
        (c.print s (if (cmds s).output.isSome then .draining else .newline)
          (bytes (Rexec.banner (cmds s).request (cmds s).requestTime)))
  | drainSleep {s : Nat} (hjob : c.jobs s = .draining)
      (hempty : (c.readers s).buffer.rawPending = [])
      (heof : (c.readers s).buffer.eof = false) :
      Step silent cmds c (.drain s) (c.move s .drainAsleep)
  | drain {s : Nat} (hjob : c.jobs s = .draining)
      (hready : (c.readers s).buffer.rawPending ≠ [] ∨
        (c.readers s).buffer.eof = true) :
      Step silent cmds c (.drain s)
        { c with
          jobs := Function.update c.jobs s
            (.writing (c.readers s).buffer.rawPending (c.readers s).buffer.eof)
          readers := Function.update c.readers s
            { c.readers s with buffer := (c.readers s).buffer.take.2 } }
  | write {s : Nat} {chunk : List UInt8} {eof : Bool}
      (hjob : c.jobs s = .writing chunk eof) :
      Step silent cmds c (.write s)
        (c.print s (if eof then .newline else .draining) chunk)
  | newline {s : Nat} (hjob : c.jobs s = .newline) :
      Step silent cmds c (.newline s) (c.print s .releasing (bytes "\n"))
  | release {s : Nat} (hjob : c.jobs s = .releasing) :
      Step silent cmds c (.release s)
        { c with
          next := c.next + 1
          jobs := Function.update (fun t => (c.jobs t).notified) s .released }
  | panic {s : Nat} (hturn : (c.jobs s).inTurn = true)
      (hjob : c.jobs s ≠ .releasing) :
      Step silent cmds c (.panic s) (c.move s .releasing)
  | ptyRead {s : Nat} {chunk rest : List UInt8}
      (hspawned : (cmds s).output.isSome) (heof : (c.readers s).buffer.eof = false)
      (hchunk : chunk ≠ []) (hrest : (c.readers s).remaining = chunk ++ rest) :
      Step silent cmds c (.ptyRead s chunk)
        (c.feed s
          { remaining := rest
            filter := ((c.readers s).buffer.append (c.readers s).filter chunk).1
            buffer := ((c.readers s).buffer.append (c.readers s).filter chunk).2 })
  | ptyEof {s : Nat} (hspawned : (cmds s).output.isSome)
      (heof : (c.readers s).buffer.eof = false)
      (hrest : (c.readers s).remaining = []) :
      Step silent cmds c (.ptyEof s)
        (c.feed s { c.readers s with buffer := (c.readers s).buffer.setEof })

theorem step_cases {silent : Bool} {cmds : Nat → ConsoleJob} {c d : Console}
    {l : Label} (h : c.step silent cmds l = some d) :
    c.Step silent cmds l d := by
  cases l <;> simp only [step] at h
  case queue s =>
    split at h
    · cases h
      exact .queue ‹_›
    · cases h
  case look s =>
    split at h
    · rename_i hjob
      cases h
      by_cases hnext : c.next < s
      · rw [if_pos hnext]
        exact .sleep hjob hnext
      · rw [if_neg hnext]
        exact .turn hjob (by omega)
    · cases h
  case wake s =>
    split at h
    · rename_i hjob
      cases h
      exact .wake hjob
    · rename_i hjob
      cases h
      exact .drainWake hjob
    · cases h
  case banner s =>
    split at h
    · cases h
      exact .banner ‹_›
    · cases h
  case drain s =>
    split at h
    · rename_i hjob
      split at h
      · rename_i hc
        cases h
        exact .drainSleep hjob hc.1 hc.2
      · rename_i hc
        cases h
        refine .drain hjob ?_
        by_cases hempty : (c.readers s).buffer.rawPending = []
        · exact .inr (by simpa [hempty] using hc)
        · exact .inl hempty
    · cases h
  case write s =>
    split at h
    · rename_i hjob
      cases h
      exact .write hjob
    · cases h
  case newline s =>
    split at h
    · cases h
      exact .newline ‹_›
    · cases h
  case release s =>
    split at h
    · cases h
      exact .release ‹_›
    · cases h
  case panic s =>
    split at h
    · rename_i hc
      cases h
      exact .panic hc.1 hc.2
    · cases h
  case ptyRead s chunk =>
    split at h
    · rename_i hc
      obtain ⟨hspawned, heof, hchunk, rest, hrest⟩ := hc
      cases h
      have hdrop : (c.readers s).remaining.drop chunk.length = rest := by
        rw [← hrest, List.drop_left]
      rw [hdrop]
      exact .ptyRead hspawned heof hchunk hrest.symm
    · cases h
  case ptyEof s =>
    split at h
    · rename_i hc
      cases h
      exact .ptyEof hc.1 hc.2.1 hc.2.2
    · cases h

/-! ## The counter -/

/--
What the counter is to the jobs: those below it have released their turn and no
other has, only the one at it can be in its turn, and a job that sleeps is above
it.
-/
structure Ordered (c : Console) : Prop where
  released : ∀ s, c.jobs s = .released ↔ s < c.next
  turn : ∀ s, (c.jobs s).inTurn = true → s = c.next
  asleep : ∀ s, c.jobs s = .asleep → c.next < s

theorem ordered_init (silent : Bool) (cmds : Nat → ConsoleJob) :
    (init silent cmds).Ordered := by
  constructor
  · intro s
    simp [init]
  · intro s h
    cases h
  · intro s h
    cases h

section Ordered

variable {c : Console}

/-- A thread that neither releases nor was released goes on. -/
theorem Ordered.move (h : c.Ordered) {s : Nat} {j : Job} (hold : c.jobs s ≠ .released)
    (hnew : j ≠ .released) (hturn : j.inTurn = true → s = c.next)
    (hasleep : j = .asleep → c.next < s) :
    (c.move s j).Ordered := by
  constructor
  · intro t
    by_cases ht : t = s
    · subst ht
      have hge := (h.released t).not.mp hold
      simp [Console.move, hnew, hge]
    · simpa [Console.move, Function.update_of_ne ht] using h.released t
  · intro t hin
    by_cases ht : t = s
    · subst ht
      exact hturn (by simpa [Console.move] using hin)
    · exact h.turn t (by simpa [Console.move, Function.update_of_ne ht] using hin)
  · intro t hsleep
    by_cases ht : t = s
    · subst ht
      exact hasleep (by simpa [Console.move] using hsleep)
    · exact h.asleep t (by simpa [Console.move, Function.update_of_ne ht] using hsleep)

/-- Only the counter and the jobs matter. -/
theorem Ordered.congr {d : Console} (h : c.Ordered) (hnext : d.next = c.next)
    (hjobs : d.jobs = c.jobs) :
    d.Ordered := by
  constructor
  · rw [hnext, hjobs]
    exact h.released
  · rw [hnext, hjobs]
    exact h.turn
  · rw [hnext, hjobs]
    exact h.asleep

/-- The PTY reader moves no thread into its turn or out of it. -/
theorem Ordered.feed (h : c.Ordered) (s : Nat) (r : Reader) : (c.feed s r).Ordered := by
  have hmoved : (c.move s (c.jobs s).drainNotified).Ordered := by
    by_cases hreleased : c.jobs s = .released
    · have hsame : (c.jobs s).drainNotified = c.jobs s := by rw [hreleased]; rfl
      refine h.congr rfl ?_
      rw [hsame]
      exact Function.update_eq_self ..
    · refine h.move hreleased ?_ ?_ ?_
      · cases hj : c.jobs s <;> simp_all [Job.drainNotified]
      · intro hin
        refine h.turn s ?_
        cases hj : c.jobs s <;> simp_all [Job.drainNotified, Job.inTurn]
      · intro hsleep
        refine h.asleep s ?_
        cases hj : c.jobs s <;> simp_all [Job.drainNotified]
  exact hmoved.congr rfl rfl

/-- The turn goes to the next job. -/
theorem Ordered.release (h : c.Ordered) {s : Nat} (hjob : c.jobs s = .releasing) :
    Ordered { c with
      next := c.next + 1
      jobs := Function.update (fun t => (c.jobs t).notified) s .released } := by
  have hs : s = c.next := h.turn s (by rw [hjob]; rfl)
  subst hs
  constructor
  · intro t
    by_cases ht : t = c.next
    · subst ht
      simp
    · have hnotified : (c.jobs t).notified = .released ↔ c.jobs t = .released := by
        cases c.jobs t <;> simp [Job.notified]
      simp only [Function.update_of_ne ht, hnotified, h.released]
      omega
  · intro t hin
    by_cases ht : t = c.next
    · subst ht
      simp [Job.inTurn] at hin
    · simp only [Function.update_of_ne ht] at hin
      have hold : (c.jobs t).inTurn = true := by
        cases hj : c.jobs t <;> simp_all [Job.notified, Job.inTurn]
      exact absurd (h.turn t hold) ht
  · intro t hsleep
    by_cases ht : t = c.next
    · subst ht
      simp at hsleep
    · simp only [Function.update_of_ne ht] at hsleep
      cases hj : c.jobs t <;> simp [hj, Job.notified] at hsleep

theorem Ordered.step {silent : Bool} {cmds : Nat → ConsoleJob} {d : Console} {l : Label}
    (h : c.Ordered) (hstep : c.step silent cmds l = some d) :
    d.Ordered := by
  -- a job in its turn goes on in its turn
  have hgo : ∀ {s : Nat} {j : Job}, (c.jobs s).inTurn = true → j ≠ .released →
      j ≠ .asleep → (c.move s j).Ordered := by
    intro s j hin hnew hawake
    refine h.move ?_ hnew (fun _ => h.turn s hin) (fun hj => absurd hj hawake)
    intro hreleased
    rw [hreleased] at hin
    cases hin
  cases step_cases hstep with
  | queue hjob => exact h.move (by simp [hjob]) (by simp) (by simp [Job.inTurn]) (by simp)
  | sleep hjob hnext =>
      exact h.move (by simp [hjob]) (by simp) (by simp [Job.inTurn]) (fun _ => hnext)
  | @turn s hjob hnext =>
      have hs : s = c.next := by
        have hge := (h.released s).not.mp (by simp [hjob])
        omega
      refine h.move (by simp [hjob]) ?_ (fun _ => hs) ?_ <;> split <;> simp
  | wake hjob => exact h.move (by simp [hjob]) (by simp) (by simp [Job.inTurn]) (by simp)
  | drainWake hjob => exact hgo (by rw [hjob]; rfl) (by simp) (by simp)
  | banner hjob =>
      refine (hgo (by rw [hjob]; rfl) ?_ ?_).congr rfl rfl <;> split <;> simp
  | drainSleep hjob => exact hgo (by rw [hjob]; rfl) (by simp) (by simp)
  | drain hjob => exact (hgo (by rw [hjob]; rfl) (by simp) (by simp)).congr rfl rfl
  | write hjob =>
      refine (hgo (by rw [hjob]; rfl) ?_ ?_).congr rfl rfl <;> split <;> simp
  | newline hjob => exact (hgo (by rw [hjob]; rfl) (by simp) (by simp)).congr rfl rfl
  | release hjob => exact h.release hjob
  | panic hturn => exact hgo hturn (by simp) (by simp)
  | ptyRead => exact h.feed ..
  | ptyEof => exact h.feed ..

end Ordered

/-! ## The output -/

/-- What the job at a point has printed, `g` being the buffer of its command. -/
def Prints (j : ConsoleJob) (g : PtyBuffer) (printed : List UInt8) : Job → Prop
  | .draining | .drainAsleep =>
      ∃ taken, printed = bytes (Rexec.banner j.request j.requestTime) ++ taken ∧
        taken ++ g.rawPending = g.rawTotal
  | .writing chunk eof =>
      ∃ taken, printed = bytes (Rexec.banner j.request j.requestTime) ++ taken ∧
        taken ++ chunk ++ g.rawPending = g.rawTotal ∧
        (eof = true → taken ++ chunk = j.output.getD [])
  | .newline =>
      printed = bytes (Rexec.banner j.request j.requestTime) ++ j.output.getD []
  | .releasing => printed = j.block
  | _ => printed = []

/--
What is printed on a host that is not silent, as long as no job panics: the
blocks of the jobs below the counter, and what the job at the counter has
printed so far.
-/
structure Printed (cmds : Nat → ConsoleJob) (c : Console) : Prop where
  fed : ∀ s, (c.readers s).buffer.rawTotal ++ (c.readers s).remaining =
    (cmds s).output.getD []
  console : ∀ s, (c.readers s).buffer.consoleOutput = true
  eof : ∀ s, (c.readers s).buffer.eof = true → (c.readers s).remaining = []
  kept : ∀ s, (c.jobs s).waits = true →
    (c.readers s).buffer.rawPending = (c.readers s).buffer.rawTotal
  stdout : ∃ printed,
    c.stdout = ((List.range c.next).flatMap fun s => (cmds s).block) ++ printed ∧
    Prints (cmds c.next) (c.readers c.next).buffer printed (c.jobs c.next)

section Printed

variable {cmds : Nat → ConsoleJob} {c : Console}

theorem printed_init (cmds : Nat → ConsoleJob) : Printed cmds (init false cmds) :=
  ⟨fun _ => rfl, fun _ => rfl, nofun, fun _ _ => rfl, [], rfl, rfl⟩

/-- What a job has printed is the first part of its block. -/
theorem Prints.prefix_block {j : ConsoleJob} {g : PtyBuffer} {rest printed : List UInt8}
    {job : Job} (h : Prints j g printed job)
    (hfed : g.rawTotal ++ rest = j.output.getD []) :
    printed <+: j.block := by
  have hdrained : ∀ taken more, taken ++ more = g.rawTotal →
      bytes (Rexec.banner j.request j.requestTime) ++ taken <+: j.block := by
    intro taken more htotal
    refine ⟨more ++ rest ++ bytes "\n", ?_⟩
    rw [ConsoleJob.block, ← hfed, ← htotal]
    simp only [List.append_assoc]
  cases job with
  | draining =>
      obtain ⟨taken, hprinted, htotal⟩ := h
      rw [hprinted]
      exact hdrained taken _ htotal
  | drainAsleep =>
      obtain ⟨taken, hprinted, htotal⟩ := h
      rw [hprinted]
      exact hdrained taken _ htotal
  | writing chunk eof =>
      obtain ⟨taken, hprinted, htotal, -⟩ := h
      rw [List.append_assoc] at htotal
      rw [hprinted]
      exact hdrained taken _ htotal
  | newline =>
      rw [show printed = _ from h, ConsoleJob.block]
      exact List.prefix_append _ _
  | releasing =>
      rw [show printed = j.block from h]
  | _ =>
      rw [show printed = [] from h]
      exact List.nil_prefix

/-- A thread goes on and prints nothing. -/
theorem Printed.move (h : Printed cmds c) {s : Nat} {j : Job}
    (hwaits : j.waits = true → (c.jobs s).waits = true)
    (hprints : s = c.next → ∀ printed,
      Prints (cmds s) (c.readers s).buffer printed (c.jobs s) →
        Prints (cmds s) (c.readers s).buffer printed j) :
    Printed cmds (c.move s j) := by
  refine ⟨h.fed, h.console, h.eof, ?_, ?_⟩
  · intro t ht
    by_cases hts : t = s
    · subst hts
      exact h.kept t (hwaits (by simpa [Console.move] using ht))
    · exact h.kept t (by simpa [Console.move, Function.update_of_ne hts] using ht)
  · obtain ⟨printed, hout, hp⟩ := h.stdout
    refine ⟨printed, hout, ?_⟩
    by_cases hs : c.next = s
    · subst hs
      simpa [Console.move] using hprints rfl printed hp
    · simpa [Console.move, Function.update_of_ne hs] using hp

/-- The job at the counter goes on and prints. -/
theorem Printed.print (h : Printed cmds c) {s : Nat} {j : Job} {out : List UInt8}
    (hs : s = c.next) (hwaits : j.waits = false)
    (hprints : ∀ printed, Prints (cmds s) (c.readers s).buffer printed (c.jobs s) →
      Prints (cmds s) (c.readers s).buffer (printed ++ out) j) :
    Printed cmds (c.print s j out) := by
  subst hs
  refine ⟨h.fed, h.console, h.eof, ?_, ?_⟩
  · intro t ht
    by_cases hts : t = c.next
    · subst hts
      simp [Console.print, hwaits] at ht
    · exact h.kept t (by simpa [Console.print, Function.update_of_ne hts] using ht)
  · obtain ⟨printed, hout, hp⟩ := h.stdout
    refine ⟨printed ++ out, ?_, ?_⟩
    · simp only [Console.print, hout, List.append_assoc]
    · simpa [Console.print] using hprints printed hp

/-- The PTY reader appends to what is pending and to what was read in total. -/
theorem Printed.feed (h : Printed cmds c) {s : Nat} {r : Reader} (chunk : List UInt8)
    (hfed : r.buffer.rawTotal ++ r.remaining = (cmds s).output.getD [])
    (hconsole : r.buffer.consoleOutput = true)
    (heof : r.buffer.eof = true → r.remaining = [])
    (htotal : r.buffer.rawTotal = (c.readers s).buffer.rawTotal ++ chunk)
    (hpending : r.buffer.rawPending = (c.readers s).buffer.rawPending ++ chunk) :
    Printed cmds (c.feed s r) := by
  have hreaders : ∀ t, (t = s ∧ (c.feed s r).readers t = r) ∨
      (t ≠ s ∧ (c.feed s r).readers t = c.readers t) := by
    intro t
    by_cases ht : t = s
    · subst ht
      exact .inl ⟨rfl, by simp [Console.feed]⟩
    · exact .inr ⟨ht, by simp [Console.feed, Function.update_of_ne ht]⟩
  constructor
  · intro t
    rcases hreaders t with ⟨rfl, hr⟩ | ⟨-, hr⟩ <;> rw [hr]
    · exact hfed
    · exact h.fed t
  · intro t
    rcases hreaders t with ⟨rfl, hr⟩ | ⟨-, hr⟩ <;> rw [hr]
    · exact hconsole
    · exact h.console t
  · intro t
    rcases hreaders t with ⟨rfl, hr⟩ | ⟨-, hr⟩ <;> rw [hr]
    · exact heof
    · exact h.eof t
  · intro t ht
    rcases hreaders t with ⟨rfl, hr⟩ | ⟨hne, hr⟩ <;> rw [hr]
    · have hold : (c.jobs t).waits = true := by
        cases hj : c.jobs t <;> simp_all [Console.feed, Job.drainNotified, Job.waits]
      rw [hpending, htotal, h.kept t hold]
    · exact h.kept t (by simpa [Console.feed, Function.update_of_ne hne] using ht)
  · obtain ⟨printed, hout, hp⟩ := h.stdout
    refine ⟨printed, hout, ?_⟩
    rcases hreaders c.next with ⟨hs, hr⟩ | ⟨hne, hr⟩
    · subst hs
      have hjob : (c.feed c.next r).jobs c.next = (c.jobs c.next).drainNotified := by
        simp [Console.feed]
      change Prints (cmds c.next) ((c.feed c.next r).readers c.next).buffer printed
        ((c.feed c.next r).jobs c.next)
      rw [hr, hjob]
      have hmore : ∀ taken, taken ++ (c.readers c.next).buffer.rawPending =
          (c.readers c.next).buffer.rawTotal →
          taken ++ r.buffer.rawPending = r.buffer.rawTotal := by
        intro taken ht
        rw [hpending, htotal, ← ht, List.append_assoc]
      cases hj : c.jobs c.next with
      | draining =>
          rw [hj] at hp
          obtain ⟨taken, hprinted, ht⟩ := hp
          exact ⟨taken, hprinted, hmore taken ht⟩
      | drainAsleep =>
          rw [hj] at hp
          obtain ⟨taken, hprinted, ht⟩ := hp
          exact ⟨taken, hprinted, hmore taken ht⟩
      | writing chunk eof =>
          rw [hj] at hp
          obtain ⟨taken, hprinted, ht, hlast⟩ := hp
          exact ⟨taken, hprinted, hmore _ ht, hlast⟩
      | _ =>
          rw [hj] at hp
          exact hp
    · change Prints (cmds c.next) ((c.feed s r).readers c.next).buffer printed
        ((c.feed s r).jobs c.next)
      rw [hr]
      simpa [Console.feed, Function.update_of_ne hne] using hp

/-- A job that has not had its turn has printed nothing. -/
theorem prints_nil {j : ConsoleJob} {g : PtyBuffer} {job : Job}
    (h : job.inTurn = false) :
    Prints j g [] job.notified := by
  cases job with
  | absent => exact rfl
  | looking => exact rfl
  | asleep => exact rfl
  | released => exact rfl
  | _ => simp [Job.inTurn] at h

/-- The job at the counter takes what is pending. -/
theorem Printed.drain (h : Printed cmds c) (hjob : c.jobs c.next = .draining) :
    Printed cmds { c with
      jobs := Function.update c.jobs c.next
        (.writing (c.readers c.next).buffer.rawPending (c.readers c.next).buffer.eof)
      readers := Function.update c.readers c.next
        { c.readers c.next with buffer := (c.readers c.next).buffer.take.2 } } := by
  have hreaders : ∀ (P : Nat → Reader → Prop), (∀ t, P t (c.readers t)) →
      P c.next { c.readers c.next with buffer := (c.readers c.next).buffer.take.2 } →
      ∀ t, P t (Function.update c.readers c.next
        { c.readers c.next with buffer := (c.readers c.next).buffer.take.2 } t) := by
    intro P hold hnew t
    by_cases ht : t = c.next
    · subst ht
      simpa using hnew
    · simpa [Function.update_of_ne ht] using hold t
  refine ⟨?_, ?_, ?_, ?_, ?_⟩
  · exact hreaders (fun t r => r.buffer.rawTotal ++ r.remaining = (cmds t).output.getD [])
      h.fed (h.fed c.next)
  · exact hreaders (fun _ r => r.buffer.consoleOutput = true) h.console
      (h.console c.next)
  · exact hreaders (fun _ r => r.buffer.eof = true → r.remaining = []) h.eof
      (h.eof c.next)
  · intro t ht
    by_cases hts : t = c.next
    · subst hts
      simp [Job.waits] at ht
    · simpa [Function.update_of_ne hts] using
        h.kept t (by simpa [Function.update_of_ne hts] using ht)
  · obtain ⟨printed, hout, hp⟩ := h.stdout
    rw [hjob] at hp
    obtain ⟨taken, hprinted, htotal⟩ := hp
    refine ⟨printed, hout, ?_⟩
    simp only [Function.update_self]
    refine ⟨taken, hprinted, ?_, ?_⟩
    · simpa [PtyBuffer.take] using htotal
    · intro heof
      have hfed := h.fed c.next
      rwa [h.eof c.next heof, List.append_nil, ← htotal] at hfed

/-- The block of the job at the counter is complete. -/
theorem Printed.release (h : Printed cmds c) (hordered : c.Ordered) {s : Nat}
    (hjob : c.jobs s = .releasing) :
    Printed cmds { c with
      next := c.next + 1
      jobs := Function.update (fun t => (c.jobs t).notified) s .released } := by
  have hs : s = c.next := hordered.turn s (by rw [hjob]; rfl)
  subst hs
  refine ⟨h.fed, h.console, h.eof, ?_, ?_⟩
  · intro t ht
    by_cases hts : t = c.next
    · subst hts
      simp [Job.waits] at ht
    · refine h.kept t ?_
      simp only [Function.update_of_ne hts] at ht
      cases hj : c.jobs t <;> simp_all [Job.notified, Job.waits]
  · obtain ⟨printed, hout, hp⟩ := h.stdout
    rw [hjob] at hp
    refine ⟨[], ?_, ?_⟩
    · simp only [hout, show printed = (cmds c.next).block from hp, List.range_succ,
        List.flatMap_append, List.flatMap_singleton, List.append_nil]
    · -- the next job has not had its turn
      have hne : c.next + 1 ≠ c.next := by omega
      have hout : (c.jobs (c.next + 1)).inTurn = false := by
        rw [Bool.eq_false_iff]
        intro hin
        exact hne (hordered.turn _ hin)
      simp only [Function.update_of_ne hne]
      exact prints_nil hout

theorem Printed.step {d : Console} {l : Label} (h : Printed cmds c) (hordered : c.Ordered)
    (hpanic : ∀ s, l ≠ .panic s) (hstep : c.step false cmds l = some d) :
    Printed cmds d := by
  have hturn : ∀ {s : Nat}, (c.jobs s).inTurn = true → s = c.next :=
    fun hin => hordered.turn _ hin
  cases step_cases hstep with
  | queue hjob =>
      refine h.move (fun _ => by rw [hjob]; rfl) ?_
      intro _ printed hp
      rwa [hjob] at hp
  | sleep hjob hnext =>
      exact h.move (fun _ => by rw [hjob]; rfl) (fun hs => absurd hs (by omega))
  | turn hjob hnext =>
      refine h.move (fun _ => by rw [hjob]; rfl) ?_
      intro _ printed hp
      rw [hjob] at hp
      exact hp
  | wake hjob =>
      refine h.move (fun _ => by rw [hjob]; rfl) ?_
      intro _ printed hp
      rwa [hjob] at hp
  | drainWake hjob =>
      refine h.move nofun ?_
      intro _ printed hp
      rwa [hjob] at hp
  | @banner s hjob =>
      have hs := hturn (s := s) (by rw [hjob]; rfl)
      have hkept := h.kept s (by rw [hjob]; rfl)
      refine h.print hs (by split <;> rfl) ?_
      intro printed hp
      rw [hjob] at hp
      rw [show printed = [] from hp, List.nil_append]
      split
      · exact ⟨[], by rw [List.append_nil], by rw [hkept, List.nil_append]⟩
      · rename_i hnone
        have hout : (cmds s).output = none := by simpa using hnone
        simp [Prints, hout]
  | drainSleep hjob hempty heof =>
      refine h.move nofun ?_
      intro _ printed hp
      rwa [hjob] at hp
  | @drain s hjob hready =>
      have hs := hturn (s := s) (by rw [hjob]; rfl)
      subst hs
      exact h.drain hjob
  | @write s chunk eof hjob =>
      have hs := hturn (s := s) (by rw [hjob]; rfl)
      refine h.print hs (by split <;> rfl) ?_
      intro printed hp
      rw [hjob] at hp
      obtain ⟨taken, hprinted, htotal, hlast⟩ := hp
      rw [hprinted]
      cases eof with
      | true =>
          rw [if_pos rfl, List.append_assoc, hlast rfl]
          exact rfl
      | false =>
          rw [if_neg (by simp)]
          exact ⟨taken ++ chunk, by rw [List.append_assoc], htotal⟩
  | newline hjob =>
      refine h.print (hturn (by rw [hjob]; rfl)) rfl ?_
      intro printed hp
      rw [hjob] at hp
      rw [show printed = _ from hp]
      exact rfl
  | release hjob => exact h.release hordered hjob
  | panic => exact absurd rfl (hpanic _)
  | @ptyRead s chunk rest hspawned heof hchunk hrest =>
      have hconsole := h.console s
      refine h.feed chunk ?_ ?_ ?_ rfl ?_
      · have hfed := h.fed s
        rw [hrest, ← List.append_assoc] at hfed
        exact hfed
      · exact hconsole
      · intro heof'
        rw [show (c.readers s).buffer.eof = true from heof'] at heof
        cases heof
      · simp [PtyBuffer.append, hconsole]
  | @ptyEof s hspawned heof hrest =>
      refine h.feed [] (h.fed s) (h.console s) (fun _ => hrest) ?_ ?_
      · simp [PtyBuffer.setEof]
      · simp [PtyBuffer.setEof]

end Printed

/-! ## Whole runs -/

/-- The job a label prints for. -/
def Label.writer : Label → Option Nat
  | .banner s => some s
  | .write s => some s
  | .newline s => some s
  | _ => none

/-- The job a label releases the turn of. -/
def Label.releaser : Label → Option Nat
  | .release s => some s
  | _ => none

/-- The jobs that printed, in order. -/
def writers (es : List Label) : List Nat :=
  es.filterMap Label.writer

/-- The turns released, in order. -/
def releases (es : List Label) : List Nat :=
  es.filterMap Label.releaser

section Runs

variable {silent : Bool} {cmds : Nat → ConsoleJob} {es : List Label} {c d : Console}

theorem ordered_run (hrun : run (step silent cmds) (init silent cmds) es = some c) :
    c.Ordered :=
  run_invariant (fun _ _ _ h hstep => h.step hstep) (ordered_init silent cmds) hrun

/-- Only the job at the counter prints, and only a release moves the counter. -/
theorem step_counter {l : Label} (h : c.Ordered) (hstep : c.step silent cmds l = some d) :
    (∀ s, l.writer = some s → s = c.next) ∧
      ((∃ s, l.releaser = some s ∧ s = c.next ∧ d.next = c.next + 1) ∨
        (l.releaser = none ∧ d.next = c.next)) := by
  have hturn : ∀ {s : Nat} {j : Job}, c.jobs s = j → j.inTurn = true → s = c.next := by
    intro s j hjob hin
    exact h.turn s (by rw [hjob, hin])
  cases step_cases hstep with
  | banner hjob =>
      refine ⟨?_, .inr ⟨rfl, rfl⟩⟩
      rintro _ ⟨⟩
      exact hturn hjob rfl
  | write hjob =>
      refine ⟨?_, .inr ⟨rfl, rfl⟩⟩
      rintro _ ⟨⟩
      exact hturn hjob rfl
  | newline hjob =>
      refine ⟨?_, .inr ⟨rfl, rfl⟩⟩
      rintro _ ⟨⟩
      exact hturn hjob rfl
  | release hjob => exact ⟨nofun, .inl ⟨_, rfl, hturn hjob rfl, rfl⟩⟩
  | _ => exact ⟨nofun, .inr ⟨rfl, rfl⟩⟩

/-- The turns are released in the order of the numbers, and counted. -/
theorem releases_run (hrun : run (step silent cmds) (init silent cmds) es = some c) :
    releases es = List.range c.next := by
  refine run_induction (P := fun es c => releases es = List.range c.next) rfl ?_ hrun
  intro es c l d hc hreleases hstep
  rw [releases, List.filterMap_append, ← releases, hreleases]
  rcases (step_counter (ordered_run hc) hstep).2 with ⟨s, hl, rfl, hnext⟩ | ⟨hl, hnext⟩
  · rw [hnext, List.range_succ, List.filterMap_cons_some hl, List.filterMap_nil]
  · rw [hnext, List.filterMap_cons_none hl, List.filterMap_nil, List.append_nil]

/-- What one job prints is printed after what the jobs before it printed. -/
theorem writers_run (hrun : run (step silent cmds) (init silent cmds) es = some c) :
    (writers es).Pairwise (· ≤ ·) ∧ ∀ s ∈ writers es, s ≤ c.next := by
  refine run_induction (P := fun es c =>
    (writers es).Pairwise (· ≤ ·) ∧ ∀ s ∈ writers es, s ≤ c.next)
    ⟨List.Pairwise.nil, nofun⟩ ?_ hrun
  rintro es c l d hc ⟨hsorted, hbound⟩ hstep
  obtain ⟨hwriter, hcounter⟩ := step_counter (ordered_run hc) hstep
  have hnext : c.next ≤ d.next := by
    rcases hcounter with ⟨s, -, -, hnext⟩ | ⟨-, hnext⟩ <;> omega
  rw [writers, List.filterMap_append, ← writers]
  cases hl : l.writer with
  | none =>
      rw [List.filterMap_cons_none hl, List.filterMap_nil, List.append_nil]
      exact ⟨hsorted, fun s hs => (hbound s hs).trans hnext⟩
  | some s =>
      have hs := hwriter s hl
      rw [List.filterMap_cons_some hl, List.filterMap_nil]
      refine ⟨List.pairwise_append.mpr ⟨hsorted, List.pairwise_singleton .., ?_⟩, ?_⟩
      · intro t ht u hu
        rw [List.mem_singleton.mp hu, hs]
        exact hbound t ht
      · intro t ht
        rcases List.mem_append.mp ht with ht | ht
        · exact (hbound t ht).trans hnext
        · rw [List.mem_singleton.mp ht, hs]
          exact hnext

theorem printed_run (hpanic : ∀ s, .panic s ∉ es)
    (hrun : run (step false cmds) (init false cmds) es = some c) :
    Printed cmds c := by
  have hquiet : Along (step false cmds) (fun _ l => ∀ s, l ≠ .panic s)
      (init false cmds) es := by
    refine along_of_forall ?_
    rintro l hl _ s rfl
    exact hpanic s hl
  refine run_induction_along (P := fun _ c => Printed cmds c) (printed_init cmds) ?_
    hquiet hrun
  intro es c l d hc hprinted hl hstep
  exact hprinted.step (ordered_run hc) hl hstep

/--
Serialisation of the console, for every schedule of the console threads and the
PTY readers, the commands being queued in any order and at any time.

* On a host that is not silent, as long as no job panics, what was printed is a
  first part of the blocks of the commands in the order of their numbers.
* No two jobs are in their turn at once.
* No job prints after a job with a larger number has.
* The turns are released in the order of the numbers, and `next` counts them.
* A job whose predecessors have all released their turn is not asleep in
  `wait_turn`, and gets its turn when it looks.
-/
theorem console_serialised
    (hrun : run (step silent cmds) (init silent cmds) es = some c) :
    (silent = false → (∀ s, .panic s ∉ es) →
      c.stdout <+: (List.range (c.next + 1)).flatMap fun s => (cmds s).block) ∧
    (∀ s t, (c.jobs s).inTurn = true → (c.jobs t).inTurn = true → s = t) ∧
    (writers es).Pairwise (· ≤ ·) ∧
    releases es = List.range c.next ∧
    ∀ s, (∀ t < s, c.jobs t = .released) →
      c.jobs s ≠ .asleep ∧
        (c.jobs s = .looking → ∃ d, c.step silent cmds (.look s) = some d ∧
          (d.jobs s).inTurn = true) := by
  have hordered := ordered_run hrun
  refine ⟨?_, ?_, (writers_run hrun).1, releases_run hrun, ?_⟩
  · rintro rfl hpanic
    have hprinted := printed_run hpanic hrun
    obtain ⟨printed, hout, hp⟩ := hprinted.stdout
    rw [hout, List.range_succ, List.flatMap_append, List.flatMap_singleton]
    exact (List.prefix_append_right_inj _).mpr (hp.prefix_block (hprinted.fed c.next))
  · intro s t hs ht
    rw [hordered.turn s hs, hordered.turn t ht]
  · intro s hbelow
    have hs : s ≤ c.next := by
      by_contra hgt
      have hreleased := hbelow c.next (by omega)
      have hlt := (hordered.released c.next).mp hreleased
      omega
    refine ⟨fun hasleep => ?_, fun hlooking => ?_⟩
    · have hlt := hordered.asleep s hasleep
      omega
    · have hnext : ¬ c.next < s := by omega
      refine ⟨c.move s (if silent then .releasing else .banner), ?_, ?_⟩
      · rw [step, if_pos hlooking, if_neg hnext]
      · cases silent <;> simp [move, Job.inTurn]

end Runs

/-- One command that prints a line, and commands that could not be spawned. -/
def sampleJobs (s : Nat) : ConsoleJob :=
  { request := { whoami := "me", dir := "/", envs := ∅, clearEnv := false
                 exec := ["true"], stdin := none, timeout := 0 }
    requestTime := ""
    output := if s = 0 then some [0x6f, 0x6b] else none }

/-- The second command is queued first, and waits for the first. -/
def sampleSchedule : List Label :=
  [.queue 1, .look 1, .queue 0, .look 0, .banner 0, .drain 0, .ptyRead 0 [0x6f, 0x6b],
    .drain 0, .write 0, .ptyEof 0, .drain 0, .write 0, .newline 0, .release 0, .look 1,
    .banner 1, .newline 1, .release 1]

theorem console_serialised_two :
    ∃ c, run (step false sampleJobs) (init false sampleJobs) sampleSchedule = some c ∧
      c.stdout <+: (List.range (c.next + 1)).flatMap (fun s => (sampleJobs s).block) ∧
      releases sampleSchedule = List.range c.next := by
  have hsome : (run (step false sampleJobs) (init false sampleJobs) sampleSchedule).isSome := by
    decide
  obtain ⟨c, hc⟩ := Option.isSome_iff_exists.mp hsome
  have hlaw := console_serialised hc
  exact ⟨c, hc, hlaw.1 rfl (by simp [sampleSchedule]), hlaw.2.2.2.1⟩

end Console

end Rexec
