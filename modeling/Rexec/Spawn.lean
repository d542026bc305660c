import Rexec.Connection
import Mathlib.Tactic

/-!
# Starting a child

`pty_exec::spawn` checks a request, opens its descriptors and forks.  The child
then makes a few calls before it becomes the program: the first that fails ends
it, and its errno goes back through a pipe which all of them share.

* `Request.check` is what the parent checks before it opens anything.
* `Child` is the forked process up to `execvp`, one call at a time; it can be
  killed at any point.
* `readErrno` is what the host makes of the pipe.  `Child.Sound` says what the
  pipe tells: a child without a failure leaves it empty, and the report of a
  failure is a first part of the four bytes of its errno.
-/

namespace Rexec

/-! ## The parent -/

/-- `CString::new` fails. -/
def hasNul (s : String) : Bool :=
  s.toList.any (· = Char.ofNat 0)

/-- What is wrong with one variable of the environment. -/
def checkEnv (kv : String × String) : Option SpawnError :=
  if kv.1.toList.any (· = '=') then some (.invalidEnvName kv.1)
  else if hasNul kv.1 then some (.nulByte "env name")
  else if hasNul kv.2 then some (.nulByte "env value")
  else none

/-- The error of `spawn` for a request that no child can be started for. -/
def Request.check (r : Request) : Option SpawnError :=
  match r.exec with
  | [] => some (.nulByte "argv")
  | program :: _ =>
      if hasNul program then some (.nulByte "program")
      else if r.exec.any hasNul then some (.nulByte "argument")
      else if hasNul r.whoami then some (.nulByte "whoami")
      else
        match r.envs.toList.findSome? checkEnv with
        | some err => some err
        | none => if hasNul r.dir then some (.nulByte "cwd") else none

/-- The errors of the calls of the parent. -/
def SpawnError.isSystem : SpawnError → Bool
  | .nulByte _ => false
  | .invalidEnvName _ => false
  | _ => true

/-- What `spawn` can return for a request. -/
def Request.Spawns (r : Request) : Except SpawnError Nat → Prop
  | .ok _ => r.check = none
  | .error err => r.check = some err ∨ (r.check = none ∧ err.isSystem = true)

instance (r : Request) : ∀ result, Decidable (r.Spawns result)
  | .ok _ => inferInstanceAs (Decidable (_ = _))
  | .error _ => inferInstanceAs (Decidable (_ ∨ _))

/-! ## The child -/

inductive ChildCall where
  | dup2
  | chdir (dir : String)
  | clearenv
  | setenv (key value : String)
  | execvp (argv : List String)
deriving DecidableEq

def ChildCall.isExecvp : ChildCall → Bool
  | .execvp _ => true
  | _ => false

/-- The calls of the child, in their order. -/
def Request.childCalls (r : Request) : List ChildCall :=
  [.dup2, .chdir r.dir] ++ (if r.clearEnv then [.clearenv] else []) ++
    r.envs.toList.map (fun kv => .setenv kv.1 kv.2) ++
    [.setenv "REXEC_WHOAMI" r.whoami, .execvp r.exec]

/-- `to_le_bytes` of an errno. -/
def errnoBytes (errno : Int32) : List UInt8 :=
  let n := errno.toUInt32.toNat
  [UInt8.ofNat n, UInt8.ofNat (n / 256), UInt8.ofNat (n / 65536), UInt8.ofNat (n / 16777216)]

@[simp] theorem errnoBytes_length (errno : Int32) : (errnoBytes errno).length = 4 := by
  rfl

/-- `from_le_bytes`, of four bytes. -/
def errnoOfBytes : List UInt8 → Option Int32
  | [a, b, c, d] =>
      some (UInt32.ofNat (a.toNat + 256 * b.toNat + 65536 * c.toNat +
        16777216 * d.toNat)).toInt32
  | _ => none

theorem errnoOfBytes_errnoBytes (errno : Int32) :
    errnoOfBytes (errnoBytes errno) = some errno := by
  have hlt : errno.toUInt32.toNat < 4294967296 := errno.toUInt32.toNat_lt
  have hsum : errno.toUInt32.toNat % 256 + 256 * (errno.toUInt32.toNat / 256 % 256) +
      65536 * (errno.toUInt32.toNat / 65536 % 256) +
      16777216 * (errno.toUInt32.toNat / 16777216 % 256) = errno.toUInt32.toNat := by
    omega
  simp only [errnoBytes, errnoOfBytes, UInt8.toNat_ofNat', Option.some.injEq]
  rw [show (2 : Nat) ^ 8 = 256 from rfl, hsum]
  simp

theorem errnoOfBytes_eq_none {bs : List UInt8} (h : bs.length ≠ 4) :
    errnoOfBytes bs = none := by
  unfold errnoOfBytes
  split
  · exact absurd rfl h
  · rfl

/-- Where a child stands before it is the program. -/
inductive ChildPhase where
  /-- with the calls still to make -/
  | calls (todo : List ChildCall)
  /-- in `write_errno`, with the bytes still to write -/
  | reporting (report : List UInt8)
  | exiting
  | program
  | gone
deriving DecidableEq

structure Child where
  phase : ChildPhase
  /-- the call that failed, and its errno -/
  failed : Option (ChildCall × Int32)
  /-- what is in the errno pipe -/
  pipe : List UInt8

/-- What one `write` of `write_errno` returns. -/
inductive WriteCall where
  | wrote (n : Nat)
  | interrupted
  | failed
deriving DecidableEq

inductive ChildEvent where
  /-- the next call, with its errno if it fails -/
  | call (errno : Option Int32)
  | write (w : WriteCall)
  /-- the end of the process, also by a signal -/
  | die
deriving DecidableEq

namespace Child

/-- There is no child. -/
def absent : Child :=
  { phase := .gone, failed := none, pipe := [] }

def forked (request : Request) : Child :=
  { phase := .calls request.childCalls, failed := none, pipe := [] }

/-- After a write of `n` bytes of the report. -/
def wrote (child : Child) (report : List UInt8) (n : Nat) : Child :=
  { child with
    phase := if n = 0 ∨ report.length ≤ n then .exiting else .reporting (report.drop n)
    pipe := child.pipe ++ report.take n }

def step (child : Child) : ChildEvent → Option Child
  | .call errno =>
      match child.phase, errno with
      | .calls (call :: _), some n =>
          some { child with phase := .reporting (errnoBytes n), failed := some (call, n) }
      | .calls [_], none => some { child with phase := .program }
      | .calls (_ :: todo), none => some { child with phase := .calls todo }
      | _, _ => none
  | .write w =>
      match child.phase, w with
      | .reporting report, .wrote n =>
          if n ≤ report.length then some (child.wrote report n) else none
      | .reporting _, .interrupted => some child
      | .reporting _, .failed => some { child with phase := .exiting }
      | _, _ => none
  | .die => if child.phase ≠ .gone then some { child with phase := .gone } else none

/-- What can happen to a child. -/
inductive Step (child : Child) : ChildEvent → Child → Prop where
  | fails {call : ChildCall} {todo : List ChildCall} {errno : Int32}
      (hphase : child.phase = .calls (call :: todo)) :
      Step child (.call (some errno))
        { child with phase := .reporting (errnoBytes errno), failed := some (call, errno) }
  | succeeds {call : ChildCall} {todo : List ChildCall}
      (hphase : child.phase = .calls (call :: todo)) :
      Step child (.call none)
        { child with phase := if todo = [] then .program else .calls todo }
  | wrote {report : List UInt8} {n : Nat} (hphase : child.phase = .reporting report)
      (hn : n ≤ report.length) :
      Step child (.write (.wrote n)) (child.wrote report n)
  | interrupted {report : List UInt8} (hphase : child.phase = .reporting report) :
      Step child (.write .interrupted) child
  | failed {report : List UInt8} (hphase : child.phase = .reporting report) :
      Step child (.write .failed) { child with phase := .exiting }
  | die (hphase : child.phase ≠ .gone) : Step child .die { child with phase := .gone }

theorem step_cases {child child' : Child} {e : ChildEvent} (h : child.step e = some child') :
    child.Step e child' := by
  cases e with
  | call errno =>
      simp only [step] at h
      split at h
      · rename_i call todo errno hphase
        cases h
        exact .fails hphase
      · rename_i call hphase
        cases h
        exact .succeeds hphase
      · rename_i call todo hne hphase
        cases h
        have hmore : todo ≠ [] := by
          rintro rfl
          exact hne rfl
        have hstep := Step.succeeds hphase
        rwa [if_neg hmore] at hstep
      · cases h
  | write w =>
      simp only [step] at h
      split at h
      · rename_i report n hphase
        split at h
        · rename_i hn
          cases h
          exact .wrote hphase hn
        · cases h
      · rename_i report hphase
        cases h
        exact .interrupted hphase
      · rename_i report hphase
        cases h
        exact .failed hphase
      · cases h
  | die =>
      simp only [step] at h
      split at h
      · rename_i hphase
        cases h
        exact .die hphase
      · cases h

/-- The write end of the errno pipe is closed, or the whole report is in the pipe. -/
def Reported (child : Child) : Prop :=
  child.phase = .gone ∨ child.phase = .program ∨ child.pipe.length = 4

instance (child : Child) : Decidable child.Reported :=
  inferInstanceAs (Decidable (_ ∨ _ ∨ _))

/-- What the pipe tells of the child. -/
inductive Sound (child : Child) : Prop where
  | clean (hfailed : child.failed = none) (hpipe : child.pipe = [])
      (hphase : ∀ report, child.phase ≠ .reporting report)
  | report {call : ChildCall} {errno : Int32} (hfailed : child.failed = some (call, errno))
      (hpipe : child.pipe <+: errnoBytes errno)
      (hphase : ∀ report, child.phase = .reporting report →
        child.pipe ++ report = errnoBytes errno)
      (hcalls : ∀ todo, child.phase ≠ .calls todo)

theorem sound_absent : Child.absent.Sound :=
  .clean rfl rfl (by simp [Child.absent])

theorem sound_forked (request : Request) : (Child.forked request).Sound :=
  .clean rfl rfl (by simp [Child.forked])

/-- A child that makes calls has not failed. -/
theorem Sound.calls {child : Child} (hs : child.Sound) {todo : List ChildCall}
    (hphase : child.phase = .calls todo) : child.failed = none ∧ child.pipe = [] := by
  cases hs with
  | clean hfailed hpipe => exact ⟨hfailed, hpipe⟩
  | report _ _ _ hcalls => exact absurd hphase (hcalls todo)

/-- What a child that reports has written and has still to write is an errno. -/
theorem Sound.reporting {child : Child} (hs : child.Sound) {report : List UInt8}
    (hphase : child.phase = .reporting report) :
    ∃ call errno, child.failed = some (call, errno) ∧
      child.pipe ++ report = errnoBytes errno := by
  cases hs with
  | clean _ _ hnot => exact absurd hphase (hnot report)
  | report hfailed _ hbytes => exact ⟨_, _, hfailed, hbytes report hphase⟩

/-- A write of a child that reports. -/
theorem Sound.wrote {child : Child} (hs : child.Sound) {report : List UInt8}
    (hphase : child.phase = .reporting report) (n : Nat) : (child.wrote report n).Sound := by
  obtain ⟨call, errno, hfailed, hbytes⟩ := hs.reporting hphase
  have hwhole : child.pipe ++ report.take n ++ report.drop n = errnoBytes errno := by
    rw [List.append_assoc, List.take_append_drop, hbytes]
  refine .report hfailed ⟨report.drop n, hwhole⟩ ?_ ?_
  · intro rest hrest
    simp only [Child.wrote] at hrest
    split at hrest
    · cases hrest
    · cases hrest
      exact hwhole
  · intro todo htodo
    simp only [Child.wrote] at htodo
    split at htodo <;> cases htodo

/-- What happens to a child keeps what its pipe tells. -/
theorem Sound.step {child child' : Child} {e : ChildEvent} (hs : child.Sound)
    (h : child.step e = some child') : child'.Sound := by
  cases step_cases h with
  | fails hphase =>
      obtain ⟨-, hpipe⟩ := hs.calls hphase
      refine .report rfl (by simp [hpipe]) ?_ (by simp)
      rintro report ⟨⟩
      simp [hpipe]
  | succeeds hphase =>
      obtain ⟨hfailed, hpipe⟩ := hs.calls hphase
      refine .clean hfailed hpipe fun report => ?_
      simp only
      split <;> simp
  | wrote hphase => exact hs.wrote hphase _
  | interrupted => exact hs
  | @failed report hphase =>
      obtain ⟨call, errno, hfailed, hbytes⟩ := hs.reporting hphase
      exact .report hfailed ⟨report, hbytes⟩ (by simp) (by simp)
  | die =>
      cases hs with
      | clean hfailed hpipe => exact .clean hfailed hpipe (by simp)
      | report hfailed hpipe => exact .report hfailed hpipe (by simp) (by simp)

/-- A child whose report is over makes no call and has nothing left to write. -/
theorem Sound.reported_phase {child : Child} (hs : child.Sound) (hr : child.Reported) :
    (∀ todo, child.phase ≠ .calls todo) ∧
      ∀ report, child.phase = .reporting report → report = [] := by
  constructor
  · intro todo hphase
    have hpipe := (hs.calls hphase).2
    simp [Reported, hphase, hpipe] at hr
  · intro report hphase
    obtain ⟨call, errno, -, hbytes⟩ := hs.reporting hphase
    have hlength : child.pipe.length = 4 := by simpa [Reported, hphase] using hr
    have hwhole := congrArg List.length hbytes
    rw [List.length_append, hlength, errnoBytes_length] at hwhole
    exact List.eq_nil_of_length_eq_zero (by omega)

/-- Once the report is over, nothing more comes into the pipe. -/
theorem Sound.reported {child child' : Child} {e : ChildEvent} (hs : child.Sound)
    (hr : child.Reported) (h : child.step e = some child') :
    child'.pipe = child.pipe ∧ child'.failed = child.failed ∧ child'.Reported := by
  obtain ⟨hcalls, hreport⟩ := hs.reported_phase hr
  have hlength : ∀ report, child.phase = .reporting report → child.pipe.length = 4 :=
    fun report hphase => by simpa [Reported, hphase] using hr
  cases step_cases h with
  | fails hphase => exact absurd hphase (hcalls _)
  | succeeds hphase => exact absurd hphase (hcalls _)
  | wrote hphase =>
      obtain rfl := hreport _ hphase
      exact ⟨by simp [Child.wrote], rfl, .inr (.inr (by simp [Child.wrote, hlength _ hphase]))⟩
  | interrupted => exact ⟨rfl, rfl, hr⟩
  | failed hphase => exact ⟨rfl, rfl, .inr (.inr (hlength _ hphase))⟩
  | die => exact ⟨rfl, rfl, .inl rfl⟩

end Child

/-! ## Reading the report -/

/-- What one `read` of `read_errno` returns; `failed` also for its `dup`. -/
inductive ReadCall where
  | got (n : Nat)
  | interrupted
  | failed
deriving DecidableEq

/-- The loop of `read_errno` over what its reads return: the bytes it has then, or its
error; `none` if the pipe does not return this. -/
def readLoop (buf pipe : List UInt8) : List ReadCall → Option (Except Unit (List UInt8))
  | [] => if 4 ≤ buf.length then some (.ok buf) else none
  | call :: calls =>
      if 4 ≤ buf.length then none
      else
        match call with
        | .got 0 => if pipe = [] ∧ calls = [] then some (.ok buf) else none
        | .got (n + 1) =>
            if n + 1 ≤ pipe.length ∧ n + 1 ≤ 4 - buf.length then
              readLoop (buf ++ pipe.take (n + 1)) (pipe.drop (n + 1)) calls
            else none
        | .interrupted => readLoop buf pipe calls
        | .failed => if calls = [] then some (.error ()) else none

/-- `read_errno(..).unwrap_or(None)`. -/
def readErrno (pipe : List UInt8) (calls : List ReadCall) : Option (Option Int32) :=
  (readLoop [] pipe calls).map fun
    | .ok buf => errnoOfBytes buf
    | .error () => none

/-- Without an error, the first four bytes are read. -/
theorem readLoop_eq {buf pipe : List UInt8} {calls : List ReadCall}
    {result : Except Unit (List UInt8)} (hbuf : buf.length ≤ 4)
    (h : readLoop buf pipe calls = some result) :
    result = if .failed ∈ calls then .error () else .ok ((buf ++ pipe).take 4) := by
  induction calls generalizing buf pipe with
  | nil =>
      rw [readLoop] at h
      split at h
      · rename_i hfull
        cases h
        have hlength : buf.length = 4 := by omega
        rw [if_neg (by simp), List.take_append_of_le_length (by omega),
          List.take_of_length_le (by omega)]
      · cases h
  | cons call calls ih =>
      rw [readLoop.eq_def] at h
      simp only at h
      split at h
      · cases h
      · rename_i hroom
        cases call with
        | interrupted =>
            rw [ih hbuf h]
            simp
        | failed =>
            simp only at h
            split at h
            · cases h
              simp
            · cases h
        | got n =>
            cases n with
            | zero =>
                simp only at h
                split at h
                · rename_i hend
                  cases h
                  rw [hend.1, hend.2, if_neg (by simp), List.append_nil,
                    List.take_of_length_le (by omega)]
                · cases h
            | succ n =>
                simp only at h
                split at h
                · rename_i hfits
                  have hlength : (buf ++ pipe.take (n + 1)).length ≤ 4 := by
                    rw [List.length_append, List.length_take]
                    omega
                  rw [ih hlength h, List.append_assoc, List.take_append_drop]
                  simp
                · cases h

/-- The host finds the errno of the call that failed, if the whole report is in the pipe
and no read fails; otherwise it finds nothing. -/
theorem Child.Sound.readErrno_eq {child : Child} {calls : List ReadCall}
    {errno : Option Int32} (hs : child.Sound) (h : readErrno child.pipe calls = some errno) :
    errno =
      if child.pipe.length = 4 ∧ .failed ∉ calls then child.failed.map Prod.snd
      else none := by
  rw [readErrno, Option.map_eq_some_iff] at h
  obtain ⟨result, hloop, rfl⟩ := h
  rw [readLoop_eq (by simp) hloop, List.nil_append]
  by_cases hfailed : ReadCall.failed ∈ calls
  · simp [hfailed]
  · simp only [hfailed, if_false, not_false_eq_true, and_true]
    cases hs with
    | clean _ hpipe => simp [hpipe, errnoOfBytes]
    | @report call n hsome hpipe =>
        have hle : child.pipe.length ≤ 4 := hpipe.length_le
        rw [List.take_of_length_le hle, hsome]
        by_cases hlength : child.pipe.length = 4
        · have hwhole : child.pipe = errnoBytes n := hpipe.eq_of_length hlength
          rw [if_pos hlength, hwhole, errnoOfBytes_errnoBytes]
          rfl
        · rw [if_neg hlength, errnoOfBytes_eq_none hlength]

end Rexec
