import Rexec.Report
import Rexec.Spawn
import Mathlib.Tactic

/-!
# What is reported of a command

A worker together with the child of its command.  `Fate` is what becomes of a
command: whether it was spawned, which call of the child failed, whether the
timer expired, whether the watcher honoured an abort, and how the child ended.
`Fate.expected` is how the protocol describes that by an error tag and an exit
code.

* `Execution` is the machine.  The worker sees of the child only what the errno
  pipe returns and what `waitpid` returns.
* `Fated` reads the fate off what has happened since the spawn: the results of
  the calls of the child, the expiry, the reads of the watcher, the wait status.
* `Execution.failed_of_run` and `Execution.Read` say what the child has come to
  and what the worker has read of it; the rest is the story of the worker.
* `outcome_reported_iff` says for which fates the response is the expected one.
-/

namespace Rexec

open Machine

/-! ## Fates -/

inductive Fate where
  | notSpawned
  | spawned (failed : Option ChildCall) (timedOut aborted : Bool) (exitCode : Int32)

/-- The error tag and the exit code of a command, as the protocol describes them. -/
def Fate.expected : Fate → Option String × Int32
  | .notSpawned => (some "spawn_failed", 127)
  | .spawned (some call) _ _ _ =>
      (some (if call.isExecvp then errorNotFound else "spawn_failed"), 127)
  | .spawned none timedOut aborted exitCode =>
      if timedOut then (some errorTimeout, 124)
      else if aborted then (some errorAborted, exitCode)
      else (none, exitCode)

/-- It is `execvp` that failed. -/
def Fate.ExecFailed : Fate → Prop
  | .spawned (some call) _ _ _ => call.isExecvp = true
  | _ => False

/-! ## What the client prints -/

structure RunOutput where
  stdout : String
  stderr : String
  exit : Int32

/-- The line for a program that is not found. -/
def notFoundLine (arg0 : String) : String :=
  arg0 ++ ": not found\n"

/-- The line for any other error tag. -/
def hostErrorLine (err : String) : String :=
  "rexec: host reported error: " ++ err ++ "\n"

/-- The end of `run`, from the result of the request on. -/
def runOutput (argv : List String) : Except String Response → RunOutput
  | .error err =>
      { stdout := "", stderr := "rexec: host request failed: " ++ err ++ "\n", exit := 127 }
  | .ok response =>
      if response.error = some errorNotFound then
        { stdout := "", stderr := notFoundLine (argv.headD ""), exit := response.exit }
      else
        { stdout := response.output, stderr := (response.error.map hostErrorLine).getD ""
          exit := response.exit }

/-- The line for a tag with another end is not that for a program that is not found. -/
theorem hostErrorLine_ne_notFoundLine {err arg0 : String} (hlong : 5 ≤ err.toList.length)
    (hend : err.toList.reverse.take 5 ≠ ['d', 'n', 'u', 'o', 'f']) :
    hostErrorLine err ≠ notFoundLine arg0 := by
  intro heq
  unfold hostErrorLine notFoundLine at heq
  have hlist := congrArg (fun s => (s.toList.reverse.drop 1).take 5) heq
  simp only [String.toList_append, List.reverse_append] at hlist
  have hright : ((": not found\n".toList.reverse ++ arg0.toList.reverse).drop 1).take 5 =
      ['d', 'n', 'u', 'o', 'f'] := by
    rfl
  have hleft : (("\n".toList.reverse ++ (err.toList.reverse ++
      "rexec: host reported error: ".toList.reverse)).drop 1).take 5 =
      err.toList.reverse.take 5 := by
    have hlength : 5 ≤ err.toList.reverse.length := by rwa [List.length_reverse]
    exact List.take_append_of_le_length hlength
  exact hend (hleft.symm.trans (hlist.trans hright))

theorem empty_ne_notFoundLine (arg0 : String) : "" ≠ notFoundLine arg0 := by
  intro heq
  have hlength := congrArg (fun s => s.toList.length) heq
  simp [notFoundLine, String.toList_append] at hlength

/-- The client prints that line for the tag only. -/
theorem runOutput_notFound {argv : List String} {response : Response} {arg0 : String}
    (htag : ∀ err, response.error = some err → err ∈
      [errorNotFound, errorTimeout, errorAborted, "spawn_failed"])
    (h : (runOutput argv (.ok response)).stderr = notFoundLine arg0) :
    response.error = some errorNotFound := by
  by_contra hother
  simp only [runOutput, if_neg hother] at h
  cases herr : response.error with
  | none =>
      rw [herr] at h
      exact empty_ne_notFoundLine arg0 h
  | some err =>
      have hmem := htag err herr
      rw [herr] at h hother
      have hne : err ≠ errorNotFound := fun heq => hother (congrArg some heq)
      rcases List.mem_cons.mp hmem with rfl | hmem
      · exact hne rfl
      · have hline : hostErrorLine err ≠ notFoundLine arg0 := by
          simp only [List.mem_cons, List.not_mem_nil, or_false] at hmem
          rcases hmem with rfl | rfl | rfl <;>
            exact hostErrorLine_ne_notFoundLine (by decide) (by decide)
        exact hline h

/-! ## The report -/

/-- The tag and the code are the expected ones, and the client says that the program is
not found only if `execvp` failed. -/
def Reports (response : Response) (fate : Fate) : Prop :=
  (response.error, response.exit) = fate.expected ∧
    ∀ argv arg0, (runOutput argv (.ok response)).stderr = notFoundLine arg0 →
      fate.ExecFailed

/-- The tags the protocol has for a command. -/
theorem Fate.expected_tag {fate : Fate} {err : String} (h : fate.expected.1 = some err) :
    err ∈ [errorNotFound, errorTimeout, errorAborted, "spawn_failed"] := by
  cases fate with
  | notSpawned =>
      cases h
      simp
  | spawned failed timedOut aborted code =>
      cases failed with
      | none =>
          simp only [Fate.expected] at h
          split_ifs at h <;> cases h <;> simp
      | some call =>
          simp only [Fate.expected, Option.some.injEq] at h
          split_ifs at h <;> subst h <;> simp

/-- A command of which `not_found` is expected is one whose `execvp` failed. -/
theorem Fate.execFailed_of_expected {fate : Fate}
    (h : fate.expected.1 = some errorNotFound) : fate.ExecFailed := by
  cases fate with
  | notSpawned => simp [Fate.expected, errorNotFound] at h
  | spawned failed timedOut aborted code =>
      cases failed with
      | none =>
          simp only [Fate.expected] at h
          split_ifs at h <;> simp [errorNotFound, errorTimeout, errorAborted] at h
      | some call =>
          by_contra hcall
          have hnot : call.isExecvp = false := by simpa [Fate.ExecFailed] using hcall
          simp [Fate.expected, hnot, errorNotFound] at h

/-- Without an errno the program was found, for all the host knows. -/
theorem classify_none_ne_notFound (timedOut aborted : Bool) (code : Int32) :
    (classify none timedOut aborted code).1 ≠ some errorNotFound := by
  rw [classify, if_neg (by simp)]
  split_ifs <;> simp [errorNotFound, errorTimeout, errorAborted]

/-- The tag that `classify` finds is the expected one if and only if a failure of the
child was one of `execvp` that got through. -/
theorem classify_expected_iff {failed : Option (ChildCall × Int32)} {delivered : Prop}
    [Decidable delivered] {timedOut aborted : Bool} {code : Int32} :
    classify (if delivered then failed.map Prod.snd else none) timedOut aborted code =
        (Fate.spawned (failed.map Prod.fst) timedOut aborted code).expected ↔
      ∀ call errno, failed = some (call, errno) →
        call.isExecvp = true ∧ delivered := by
  cases failed with
  | none => simp [classify, Fate.expected]
  | some failure =>
      obtain ⟨call, errno⟩ := failure
      rw [Option.map_some, Option.map_some, Fate.expected]
      constructor
      · rintro heq call errno ⟨⟩
        have htag := congrArg Prod.fst heq
        by_cases hd : delivered
        · refine ⟨?_, hd⟩
          by_contra hcall
          rw [if_neg hcall] at htag
          exact classify_ne_spawnFailed _ _ _ _ htag
        · rw [if_neg hd] at htag
          split at htag
          · exact absurd htag (classify_none_ne_notFound _ _ _)
          · exact absurd htag (classify_ne_spawnFailed _ _ _ _)
      · intro h
        obtain ⟨hcall, hd⟩ := h call errno rfl
        rw [if_pos hd, if_pos hcall]
        rfl

/-- The client prints no more than the tag says. -/
theorem reports_iff {response : Response} {fate : Fate} :
    Reports response fate ↔ (response.error, response.exit) = fate.expected := by
  constructor
  · exact And.left
  · intro h
    refine ⟨h, fun argv arg0 hline => ?_⟩
    have htag : response.error = fate.expected.1 := congrArg Prod.fst h
    have hfound : response.error = some errorNotFound :=
      runOutput_notFound (fun err herr => Fate.expected_tag (htag ▸ herr)) hline
    exact Fate.execFailed_of_expected (htag ▸ hfound)

/-! ## A worker and its child -/

structure Execution where
  worker : Worker
  child : Child
  /-- what the reads of `read_errno` have returned -/
  reads : List ReadCall

namespace Execution

def init : Execution :=
  { worker := .start, child := .absent, reads := [] }

inductive Label where
  | worker (e : Event)
  | child (e : ChildEvent)
  /-- `read_errno`, by what its reads return -/
  | readReport (calls : List ReadCall) (errno : Option Int32)

/-- What an event of the worker has to do with the child. -/
def effect (s : Execution) : Event → Option Execution
  | .spawn request (.ok pid) =>
      if request.Spawns (.ok pid) then
        some { s with child := .forked request, reads := [] }
      else none
  | .spawn request (.error err) =>
      if request.Spawns (.error err) then some { s with child := .absent, reads := [] }
      else none
  | .waitpid r =>
      -- only a process that is gone is reaped
      if r = .error ∨ waitForChild r = none ∨ s.child.phase = .gone then some s else none
  | .readErrno _ => none
  | _ => some s

/-- One step. -/
def step (cfg : Config) (s : Execution) : Label → Option Execution
  | .worker e =>
      match s.effect e, s.worker.step cfg e with
      | some m, some worker => some { m with worker }
      | _, _ => none
  | .child e => (s.child.step e).map fun child => { s with child }
  | .readReport calls errno =>
      if s.child.Reported ∧ readErrno s.child.pipe calls = some errno then
        (s.worker.step cfg (.readErrno errno)).map fun worker => { s with worker, reads := calls }
      else none

/-- The worker's part of a label. -/
def Label.event : Label → Option Event
  | .worker e => some e
  | .child _ => none
  | .readReport _ errno => some (.readErrno errno)

def Label.childEvent : Label → Option ChildEvent
  | .child e => some e
  | _ => none

def Label.isSpawn : Label → Bool
  | .worker (.spawn _ _) => true
  | _ => false

/-- What the worker does in a run. -/
def events (es : List Label) : List Event :=
  es.filterMap Label.event

def childEvents (es : List Label) : List ChildEvent :=
  es.filterMap Label.childEvent

end Execution

/-! ## What becomes of a command -/

/-- What the calls of the child return. -/
def callResults (es : List ChildEvent) : List (Option Int32) :=
  es.filterMap fun
    | .call errno => some errno
    | _ => none

/-- The first call that fails, when the calls return this one after the other. -/
def firstFailure : List ChildCall → List (Option Int32) → Option (ChildCall × Int32)
  | call :: _, some errno :: _ => some (call, errno)
  | _ :: calls, none :: results => firstFailure calls results
  | _, _ => none

/-- The exit code of a child, from its wait status; a signal counts from 128 on. -/
inductive WaitResult.ExitCode : WaitResult → Int32 → Prop where
  | exited {code : Int32} : ExitCode (.exited code) code
  | signaled {sig : Int32} : ExitCode (.signaled sig) (128 + sig)
  /-- the host has no child to wait for -/
  | lost : ExitCode .error 127

/-- The client asks to abort, or it is gone. -/
inductive Config.Ends (cfg : Config) : ReadLine → Prop where
  | abort {text : String} (habort : cfg.IsAbort text) : Ends cfg (.line text)
  | eof : Ends cfg .eof
  | error : Ends cfg .error

/-- What has become of the command spawned last, by what has happened since. -/
inductive Fated (cfg : Config) (es : List Execution.Label) : Fate → Prop where
  | notSpawned {front during : List Execution.Label} {request : Request} {err : SpawnError}
      (hspawn : es = front ++ .worker (.spawn request (.error err)) :: during)
      (hlast : ∀ l ∈ during, l.isSpawn = false) : Fated cfg es .notSpawned
  | spawned {front during : List Execution.Label} {request : Request} {child : Nat}
      {timedOut aborted : Bool} {wait : WaitResult} {code : Int32}
      (hspawn : es = front ++ .worker (.spawn request (.ok child)) :: during)
      (hlast : ∀ l ∈ during, l.isSpawn = false)
      (hexpired : timedOut = true ↔ .worker .timeoutExpired ∈ during)
      (htimer : timedOut = true ↔ .worker (.timerKill child) ∈ during)
      (hended : aborted = true ↔ ∃ r, .worker (.watcherRead r) ∈ during ∧ cfg.Ends r)
      (hwatcher : aborted = true ↔ .worker (.watcherKill child) ∈ during)
      (hwait : lastWait (Execution.events during) = some wait) (hcode : wait.ExitCode code) :
      Fated cfg es
        (.spawned
          ((firstFailure request.childCalls
            (callResults (Execution.childEvents during))).map Prod.fst)
          timedOut aborted code)

/-- If a call of the child failed, it was `execvp`, and its report got through. -/
def Execution.Reliable (s : Execution) : Prop :=
  ∀ call errno, s.child.failed = some (call, errno) →
    call.isExecvp = true ∧ s.child.pipe.length = 4 ∧ .failed ∉ s.reads

theorem exitCode_iff {wait : WaitResult} {code : Int32} :
    wait.ExitCode code ↔ waitForChild wait = some code := by
  constructor
  · rintro (_ | _ | _) <;> rfl
  · intro h
    cases wait <;> cases h
    · exact .exited
    · exact .signaled
    · exact .lost

theorem Config.onWatched_term_iff {cfg : Config} {r : ReadLine} :
    cfg.onWatched r = .term ↔ cfg.Ends r := by
  constructor
  · intro h
    cases r with
    | line text =>
        simp only [Config.onWatched] at h
        split at h
        · cases h
        · rename_i hblank
          split at h
          · rename_i haction
            exact .abort ⟨by simpa using hblank, haction⟩
          · cases h
    | eof => exact .eof
    | timeout => cases h
    | error => exact .error
  · rintro (habort | _ | _)
    · exact Config.onWatched_isAbort habort
    · rfl
    · rfl

/-- A command has one fate only. -/
theorem Fated.unique {cfg : Config} {es : List Execution.Label} {fate fate' : Fate}
    (h : Fated cfg es fate) (h' : Fated cfg es fate') : fate = fate' := by
  have hsame : ∀ {front front' during during' : List Execution.Label} {l l' : Execution.Label},
      es = front ++ l :: during → es = front' ++ l' :: during' →
      l.isSpawn = true → l'.isSpawn = true → (∀ l ∈ during, l.isSpawn = false) →
      (∀ l ∈ during', l.isSpawn = false) → l = l' ∧ during = during' := by
    intro front front' during during' l l' hes hes' hl hl' hlast hlast'
    have hsplit := split_last_unique (p := fun l => l.isSpawn = true) (hes.symm.trans hes') hl hl'
      (by simpa using hlast) (by simpa using hlast')
    exact hsplit.2
  cases h with
  | notSpawned hspawn hlast =>
      cases h' with
      | notSpawned => rfl
      | spawned hspawn' hlast' =>
          obtain ⟨hl, -⟩ := hsame hspawn hspawn' rfl rfl hlast hlast'
          cases hl
  | spawned hspawn hlast hexpired htimer hended hwatcher hwait hcode =>
      cases h' with
      | notSpawned hspawn' hlast' =>
          obtain ⟨hl, -⟩ := hsame hspawn hspawn' rfl rfl hlast hlast'
          cases hl
      | spawned hspawn' hlast' hexpired' htimer' hended' hwatcher' hwait' hcode' =>
          obtain ⟨hl, rfl⟩ := hsame hspawn hspawn' rfl rfl hlast hlast'
          cases hl
          cases hwait.symm.trans hwait'
          have hcodes := (exitCode_iff.mp hcode).symm.trans (exitCode_iff.mp hcode')
          rw [Bool.eq_iff_iff.mpr (hexpired.trans hexpired'.symm),
            Bool.eq_iff_iff.mpr (hwatcher.trans hwatcher'.symm), Option.some.inj hcodes]

/-! ## The child since its spawn -/

/-- The calls a child has still to make. -/
def ChildPhase.todo : ChildPhase → List ChildCall
  | .calls todo => todo
  | _ => []

/-- A child that is through with its calls makes none. -/
theorem Child.callResults_of_run {child child' : Child} {es : List ChildEvent}
    (hrun : run Child.step child es = some child') (hphase : ∀ todo, child.phase ≠ .calls todo) :
    callResults es = [] := by
  induction es generalizing child with
  | nil => rfl
  | cons e es ih =>
      rw [run_cons, Option.bind_eq_some_iff] at hrun
      obtain ⟨m, hm, hrest⟩ := hrun
      cases Child.step_cases hm with
      | fails hcalls => exact absurd hcalls (hphase _)
      | succeeds hcalls => exact absurd hcalls (hphase _)
      | wrote => exact ih hrest fun todo => by simp only [Child.wrote]; split <;> simp
      | interrupted => exact ih hrest hphase
      | failed => exact ih hrest (by simp)
      | die => exact ih hrest (by simp)

/-- Which call of a child has failed, if none had. -/
theorem Child.failed_of_run {child child' : Child} {es : List ChildEvent} (hs : child.Sound)
    (hrun : run Child.step child es = some child') :
    child'.failed = child.failed.or (firstFailure child.phase.todo (callResults es)) := by
  have hnone : ∀ results, firstFailure [] results = none := fun results => by
    cases results <;> rfl
  induction es generalizing child with
  | nil =>
      cases hrun
      have hend : firstFailure child'.phase.todo (callResults []) = none := by
        cases child'.phase.todo <;> rfl
      rw [hend, Option.or_none]
  | cons e es ih =>
      rw [run_cons, Option.bind_eq_some_iff] at hrun
      obtain ⟨m, hm, hrest⟩ := hrun
      have hlater := ih (hs.step hm) hrest
      cases Child.step_cases hm with
      | @fails call todo errno hphase =>
          rw [hlater, (hs.calls hphase).1, hphase]
          rfl
      | @succeeds call todo hphase =>
          rw [hlater, hphase]
          have htodo : ChildPhase.todo (if todo = [] then .program else .calls todo) = todo := by
            split
            · rename_i hempty
              rw [hempty]
              rfl
            · rfl
          simp only [htodo]
          rfl
      | @wrote report n hphase =>
          have htodo : (child.wrote report n).phase.todo = [] := by
            simp only [Child.wrote]
            split <;> rfl
          rw [hlater, htodo, hphase, hnone]
          exact congrArg _ (hnone _).symm
      | interrupted => exact hlater
      | failed hphase =>
          rw [hlater, hphase]
          exact congrArg _ ((hnone _).trans (hnone _).symm)
      | die =>
          have hresults : callResults es = [] := Child.callResults_of_run hrest (by simp)
          have hcall : callResults (ChildEvent.die :: es) = callResults es := rfl
          rw [hlater, hcall, hresults]
          cases child.phase.todo <;> rfl

/-! ## What the worker knows of its child -/

/-- A worker is about to respond once it has read the errno. -/
theorem Worker.Step.responding {cfg : Config} {w : Worker} {e : Event} {cmd : Command}
    {response : Response} {entry : TranscriptEntry} {raw : String}
    (h : w.Step cfg e (.running cmd (.respond response entry raw)))
    (hother : ∀ errno, e ≠ .readErrno errno) :
    ∃ cmd', w = .running cmd' (.respond response entry raw) ∧ cmd'.Background cfg e cmd := by
  generalize hw : Worker.running cmd (.respond response entry raw) = w' at h
  cases h with
  | @opening r =>
      rcases cfg.onOpening_cases r with ⟨-, -, -, h⟩ | h <;> cases hw.trans h
  | @line p r =>
      rcases cfg.onLine_leads p r with h | h | h | ⟨ansi, h⟩ | ⟨resp, h⟩ | ⟨request, h⟩ <;>
        cases hw.trans h
  | foreground hf =>
      cases hf with
      | readErrno => exact absurd rfl (hother _)
      | _ => cases hw
  | background hb =>
      cases hw
      exact ⟨_, rfl, hb⟩
  | _ => cases hw

namespace Execution

/-- The child a spawn gives. -/
def spawnedChild (request : Request) : Except SpawnError Nat → Child
  | .ok _ => .forked request
  | .error _ => .absent

section Steps

variable {cfg : Config} {s s' : Execution} {es front during : List Label}

theorem step_worker {e : Event} (h : s.step cfg (.worker e) = some s') :
    ∃ m worker, s.effect e = some m ∧ s.worker.Step cfg e worker ∧
      s' = { m with worker } := by
  simp only [step] at h
  split at h
  · rename_i m worker hm hworker
    cases h
    exact ⟨m, worker, hm, Worker.step_cases hworker, rfl⟩
  · cases h

theorem step_readReport {calls : List ReadCall} {errno : Option Int32}
    (h : s.step cfg (.readReport calls errno) = some s') :
    s.child.Reported ∧ readErrno s.child.pipe calls = some errno ∧
      ∃ worker, s.worker.Step cfg (.readErrno errno) worker ∧
        s' = { s with worker, reads := calls } := by
  simp only [step] at h
  split at h
  · rename_i hread
    obtain ⟨worker, hworker, rfl⟩ := Option.map_eq_some_iff.mp h
    exact ⟨hread.1, hread.2, worker, Worker.step_cases hworker, rfl⟩
  · cases h

theorem step_child {e : ChildEvent} (h : s.step cfg (.child e) = some s') :
    ∃ child, s.child.step e = some child ∧ s' = { s with child } := by
  obtain ⟨child, hchild, rfl⟩ := Option.map_eq_some_iff.mp h
  exact ⟨child, hchild, rfl⟩

/-- Only a spawn gives the worker another child. -/
theorem effect_keeps {m : Execution} {e : Event} (hspawn : (Label.worker e).isSpawn = false)
    (h : s.effect e = some m) : m = s := by
  cases e with
  | spawn request result => cases hspawn
  | waitpid r =>
      simp only [effect] at h
      split at h
      · cases h
        rfl
      · cases h
  | readErrno errno => cases h
  | _ =>
      cases h
      rfl

theorem effect_spawn {m : Execution} {request : Request} {result : Except SpawnError Nat}
    (h : s.effect (.spawn request result) = some m) :
    m.child = spawnedChild request result := by
  cases result <;> simp only [effect] at h <;> split at h <;> cases h <;> rfl

theorem sound_spawnedChild (request : Request) (result : Except SpawnError Nat) :
    (spawnedChild request result).Sound := by
  cases result with
  | ok pid => exact Child.sound_forked request
  | error err => exact Child.sound_absent

/-- An event of a worker gives it a sound child, or leaves it the one it has. -/
theorem effect_sound {m : Execution} {e : Event} (hs : s.child.Sound)
    (h : s.effect e = some m) : m.child.Sound := by
  cases hspawn : (Label.worker e).isSpawn with
  | false => exact effect_keeps hspawn h ▸ hs
  | true =>
      cases e with
      | spawn request result => exact effect_spawn h ▸ sound_spawnedChild request result
      | _ => cases hspawn

/-- What a worker and its child do together is a run of the worker. -/
theorem worker_of_run (hrun : run (step cfg) init es = some s) :
    run (Worker.step cfg) .start (events es) = some s.worker := by
  refine run_induction (P := fun es s => run (Worker.step cfg) .start (events es) = some s.worker)
    rfl ?_ hrun
  intro es s l s' _ ih hstep
  have hevents : events (es ++ [l]) = events es ++ l.event.toList := by
    rw [events, List.filterMap_append]
    cases h : l.event <;> simp [events, h]
  rw [hevents]
  cases l with
  | worker e =>
      obtain ⟨m, worker, -, hworker, rfl⟩ := step_worker hstep
      exact (run_concat _).mpr ⟨_, ih, Worker.step_iff.mpr hworker⟩
  | child e =>
      obtain ⟨child, -, rfl⟩ := step_child hstep
      simpa [Label.event] using ih
  | readReport calls errno =>
      obtain ⟨-, -, worker, hworker, rfl⟩ := step_readReport hstep
      exact (run_concat _).mpr ⟨_, ih, Worker.step_iff.mpr hworker⟩

/-- As long as nothing is spawned, it is a run of the child. -/
theorem child_of_run (hrun : run (step cfg) s es = some s')
    (hlast : ∀ l ∈ es, l.isSpawn = false) :
    run Child.step s.child (childEvents es) = some s'.child := by
  induction es generalizing s with
  | nil =>
      cases hrun
      rfl
  | cons l es ih =>
      rw [run_cons, Option.bind_eq_some_iff] at hrun
      obtain ⟨m, hm, hrest⟩ := hrun
      have hlater := ih hrest fun l hl => hlast l (List.mem_cons_of_mem _ hl)
      cases l with
      | worker e =>
          obtain ⟨k, worker, hk, -, rfl⟩ := step_worker hm
          rw [effect_keeps (hlast _ List.mem_cons_self) hk] at hlater
          exact hlater
      | child e =>
          obtain ⟨child, hchild, rfl⟩ := step_child hm
          exact run_of_cons _ hchild hlater
      | readReport calls errno =>
          obtain ⟨-, -, worker, -, rfl⟩ := step_readReport hm
          exact hlater

/-- Which call of the child has failed, by what has happened since the spawn. -/
theorem failed_of_run {request : Request} {result : Except SpawnError Nat}
    (hrun : run (step cfg) init es = some s)
    (hes : es = front ++ .worker (.spawn request result) :: during)
    (hlast : ∀ l ∈ during, l.isSpawn = false) :
    s.child.failed =
      firstFailure (spawnedChild request result).phase.todo (callResults (childEvents during)) := by
  subst hes
  rw [run_append, Option.bind_eq_some_iff] at hrun
  obtain ⟨m, -, hm⟩ := hrun
  rw [run_cons, Option.bind_eq_some_iff] at hm
  obtain ⟨k, hk, hrest⟩ := hm
  obtain ⟨n, worker, hn, -, rfl⟩ := step_worker hk
  have hchild : n.child = spawnedChild request result := effect_spawn hn
  have hfailed := Child.failed_of_run (hchild ▸ sound_spawnedChild request result)
    (child_of_run hrest hlast)
  rw [hfailed, show ({ n with worker } : Execution).child = n.child from rfl, hchild]
  cases result <;> rfl

/-- What the worker has read of its child when it is about to respond. -/
structure Read (es : List Label) (s : Execution) : Prop where
  sound : s.child.Sound
  read : ∀ cmd response entry raw, s.worker = .running cmd (.respond response entry raw) →
    s.child.Reported ∧ ∃ errno, lastErrno (events es) = some errno ∧
      readErrno s.child.pipe s.reads = some errno

theorem Read.step {l : Label} (h : Read es s) (hstep : s.step cfg l = some s') :
    Read (es ++ [l]) s' := by
  have herrno : lastErrno (events (es ++ [l])) =
      (lastErrno (events [l])).or (lastErrno (events es)) := by
    rw [events, List.filterMap_append]
    exact latest_append ..
  cases l with
  | worker e =>
      obtain ⟨m, worker, hm, hworker, rfl⟩ := step_worker hstep
      refine ⟨show m.child.Sound from effect_sound h.sound hm, fun cmd response entry raw heq => ?_⟩
      obtain rfl : worker = .running cmd (.respond response entry raw) := heq
      have hother : ∀ errno, e ≠ .readErrno errno := by
        rintro errno rfl
        cases hm
      obtain ⟨cmd', hw, hb⟩ := hworker.responding hother
      obtain rfl := effect_keeps (by cases hb <;> rfl) hm
      rw [herrno, show lastErrno (events [.worker e]) = none by cases hb <;> rfl, Option.none_or]
      exact h.read _ _ _ _ hw
  | child e =>
      obtain ⟨child, hchild, rfl⟩ := step_child hstep
      refine ⟨h.sound.step hchild, fun cmd response entry raw heq => ?_⟩
      obtain ⟨hreported, errno, hlast, hread⟩ := h.read _ _ _ _ heq
      obtain ⟨hpipe, -, hreported'⟩ := h.sound.reported hreported hchild
      exact ⟨hreported', errno, by rw [herrno]; exact hlast, by rw [hpipe]; exact hread⟩
  | readReport calls errno =>
      obtain ⟨hreported, hread, worker, -, rfl⟩ := step_readReport hstep
      exact ⟨h.sound, fun _ _ _ _ _ => ⟨hreported, errno, by rw [herrno]; rfl, hread⟩⟩

theorem read_of_run (hrun : run (step cfg) init es = some s) : Read es s :=
  run_induction (P := Read) ⟨Child.sound_absent, fun _ _ _ _ h => by cases h⟩
    (fun _ _ _ _ _ hread hstep => hread.step hstep) hrun

end Steps

end Execution

/-! ## The law -/

namespace Execution

section Law

variable {cfg : Config} {s : Execution} {es during : List Label} {before : List Event}
  {request : Request} {result : Except SpawnError Nat}

/-- A spawn among the events of the worker, in the run itself. -/
theorem events_split {mid : List Event}
    (hes : events es = before ++ .spawn request result :: mid) :
    ∃ front during, es = front ++ .worker (.spawn request result) :: during ∧
      events during = mid := by
  obtain ⟨front, rest, rfl, -, hrest⟩ := List.filterMap_eq_append_iff.mp hes
  obtain ⟨skipped, l, during, rfl, -, hl, hduring⟩ := List.filterMap_eq_cons_iff.mp hrest
  have hspawn : l = .worker (.spawn request result) := by
    cases l <;> simp [Label.event] at hl
    rw [hl]
  exact ⟨front ++ skipped, during, by rw [hspawn, List.append_assoc], hduring⟩

theorem mem_events {e : Event} (he : ∀ errno, e ≠ .readErrno errno) :
    e ∈ events during ↔ .worker e ∈ during := by
  rw [events, List.mem_filterMap]
  constructor
  · rintro ⟨l, hl, hevent⟩
    cases l with
    | worker e' =>
        cases hevent
        exact hl
    | child e' => cases hevent
    | readReport calls errno =>
        cases hevent
        exact absurd rfl (he errno)
  · exact fun h => ⟨_, h, rfl⟩

/-- No event of a command is a spawn. -/
theorem isSpawn_eq_false (h : ∀ e ∈ events during, e.ofCommand = true) :
    ∀ l ∈ during, l.isSpawn = false := by
  intro l hl
  cases hspawn : l.isSpawn with
  | false => rfl
  | true =>
      cases l with
      | worker e =>
          have hcommand := h e (List.mem_filterMap.mpr ⟨_, hl, rfl⟩)
          cases e with
          | spawn => cases hcommand
          | _ => cases hspawn
      | _ => cases hspawn

/-- A response that reports a command is the one its fate asks for if and only if the
child is reliable; `hread` is what the worker has of the errno pipe. -/
theorem reports_iff_reliable {x : Exec} {mid : List Event} {response : Response}
    (hrun : run (step cfg) init es = some s) (hsound : s.child.Sound)
    (hes : events es = before ++ (x.opening ++ mid)) (hreports : x.Reports cfg mid response)
    (hread : ∀ errno, lastErrno mid = some errno →
      readErrno s.child.pipe s.reads = some errno) :
    (∃ fate, Fated cfg es fate) ∧
      ∀ fate, Fated cfg es fate → (Reports response fate ↔ s.Reliable) := by
  have hspawn : events es = (before ++ [.readLine (.line x.text), .fetchAdd x.seq x.time]) ++
      .spawn x.request x.result :: mid := by
    rw [hes]
    simp [Exec.opening]
  obtain ⟨front, during, hsplit, hduring⟩ := events_split hspawn
  cases hreports with
  | notSpawned hresult =>
      have hlast : ∀ l ∈ during, l.isSpawn = false := isSpawn_eq_false (by simp [hduring])
      have hfailed := failed_of_run hrun hsplit hlast
      rw [hresult] at hsplit hfailed
      refine ⟨⟨_, .notSpawned hsplit hlast⟩, fun fate hfate => ?_⟩
      obtain rfl := hfate.unique (.notSpawned hsplit hlast)
      refine iff_of_true (reports_iff.mpr rfl) fun call errno hsome => ?_
      have hnone : s.child.failed = none := by
        rw [hfailed]
        cases callResults (childEvents during) <;> rfl
      cases hnone.symm.trans hsome
  | @spawned child _ _ timedOut aborted code wait errno hresult hcommand hwait hcode herrno htag
      htimer hexpired htimeout hwatcher hended =>
      subst hduring
      have hlast := isSpawn_eq_false hcommand
      have hfailed := failed_of_run hrun hsplit hlast
      rw [hresult] at hsplit hfailed
      have hfated : Fated cfg es
          (.spawned (s.child.failed.map Prod.fst) timedOut aborted code) := by
        rw [hfailed]
        refine .spawned hsplit hlast ?_ ?_ ?_ ?_ hwait (exitCode_iff.mpr hcode)
        · rw [hexpired, mem_events (by simp)]
        · rw [htimer, mem_events (by simp)]
        · simp only [hended, mem_events, ne_eq, reduceCtorEq, not_false_eq_true, implies_true,
            Config.onWatched_term_iff]
        · rw [hwatcher, mem_events (by simp)]
      refine ⟨⟨_, hfated⟩, fun fate hfate => ?_⟩
      obtain rfl := hfate.unique hfated
      rw [reports_iff, htag, hsound.readErrno_eq (hread errno herrno)]
      exact classify_expected_iff

end Law

end Execution

/-- For every command that was accepted the response and the entry agree, and they are
the expected ones if and only if a failure of the child was one of `execvp` whose report
got through. -/
theorem outcome_reported_iff
    {cfg : Config} {es : List Execution.Label} {s s' : Execution}
    (hrun : run (Execution.step cfg) .init es = some s)
    {seq : Nat} {response : Response} {ok : Bool}
    (hstep : s.step cfg (.worker (.writeResponse (some seq) response ok)) = some s') :
    (∀ entry raw, s'.worker = .submitting seq entry raw → Agrees response entry) ∧
      (∃ fate, Fated cfg es fate) ∧
      ∀ fate, Fated cfg es fate → (Reports response fate ↔ s.Reliable) := by
  have hexplained := explained_run (Execution.worker_of_run hrun)
  obtain ⟨hsound, hread⟩ := Execution.read_of_run hrun
  obtain ⟨m, worker, -, hw, rfl⟩ := Execution.step_worker hstep
  generalize hworker : s.worker = w at hw hexplained
  cases hw with
  | @failureReported _ request time err =>
      obtain ⟨front, text, hes, -⟩ := hexplained
      have hes' : Execution.events es =
          front ++ (Exec.opening ⟨text, seq, time, request, .error err⟩ ++ []) := by
        rw [hes, List.append_nil]
      refine ⟨?_, Execution.reports_iff_reliable hrun hsound hes' (.notSpawned rfl)
        fun _ h => by cases h⟩
      rintro entry raw ⟨⟩
      exact ⟨rfl, rfl, rfl⟩
  | @abandoned _ request time err =>
      obtain ⟨front, text, hes, -⟩ := hexplained
      have hes' : Execution.events es =
          front ++ (Exec.opening ⟨text, seq, time, request, .error err⟩ ++ []) := by
        rw [hes, List.append_nil]
      refine ⟨?_, Execution.reports_iff_reliable hrun hsound hes' (.notSpawned rfl)
        fun _ h => by cases h⟩
      rintro entry raw ⟨⟩
  | foreground h =>
      cases h with
      | @respond _ entry raw =>
          obtain ⟨front, text, during, hes, -, -, -, -, hreport, hentry, -⟩ := hexplained
          obtain ⟨-, errno, herrno, hcalls⟩ := hread _ _ _ _ hworker
          refine ⟨?_, Execution.reports_iff_reliable hrun hsound hes hreport
            fun errno' herrno' => ?_⟩
          · rintro _ _ ⟨⟩
            rw [hentry]
            exact ⟨rfl, rfl, rfl⟩
          · have hlast : lastErrno (Execution.events es) = some errno' := by
              rw [hes, lastErrno, latest_append, latest_append,
                show latest _ during = some errno' from herrno']
              rfl
            rw [hcalls, ← hlast, herrno]
  | background h => cases h

/-! ## A call that fails -/

/-- What the worker does without its child is a run of both. -/
theorem Execution.run_worker {cfg : Config} {s : Execution} {es : List Event} {w : Worker}
    (hfree : ∀ e ∈ es, ∀ m : Execution, m.effect e = some m)
    (hrun : run (Worker.step cfg) s.worker es = some w) :
    run (Execution.step cfg) s (es.map .worker) = some { s with worker := w } := by
  induction es generalizing s with
  | nil =>
      cases hrun
      rfl
  | cons e es ih =>
      rw [run_cons, Option.bind_eq_some_iff] at hrun
      obtain ⟨m, hm, hrest⟩ := hrun
      have hstep : s.step cfg (.worker e) = some { s with worker := m } := by
        simp only [Execution.step, hfree e (by simp) s, hm]
      rw [List.map_cons, run_cons, hstep, Option.bind_some]
      exact ih (s := { s with worker := m }) (fun x hx => hfree x (by simp [hx])) hrest

theorem sampleRequest_spawns : sampleRequest.Spawns (.ok 7) := by
  have henvs : sampleRequest.envs.toList = [] := by
    decide
  simp only [Request.Spawns, Request.check, henvs]
  decide

theorem sampleRequest_childCalls :
    sampleRequest.childCalls =
      [.dup2, .chdir "/", .setenv "REXEC_WHOAMI" "me", .execvp ["true"]] := by
  simp [sampleRequest, Request.childCalls]

/-- Call number `n` of the child fails, and it reports that. -/
def failingChild (n : Nat) : List ChildEvent :=
  List.replicate n (.call none) ++ [.call (some 2), .write (.wrote 4), .die]

theorem run_failingChild {n : Nat} {call : ChildCall}
    (hcall : (n = 1 ∧ call = .chdir "/") ∨ (n = 3 ∧ call = .execvp ["true"])) :
    run Child.step (.forked sampleRequest) (failingChild n) =
      some ⟨.gone, some (call, 2), errnoBytes 2⟩ := by
  have htake : (errnoBytes 2).take 4 = errnoBytes 2 := by
    rfl
  rcases hcall with ⟨rfl, rfl⟩ | ⟨rfl, rfl⟩
  all_goals
    simp [failingChild, run_cons, Child.forked, sampleRequest_childCalls, Child.step,
      Child.wrote, htake]

/-- What the child does is a run of both. -/
theorem Execution.run_child {cfg : Config} {s : Execution} {es : List ChildEvent}
    {child : Child} (hrun : run Child.step s.child es = some child) :
    run (Execution.step cfg) s (es.map .child) = some { s with child } := by
  refine run_map (fun child => { s with child }) Execution.Label.child (fun _ _ _ hm => ?_) hrun
  simp only [Execution.step, hm, Option.map_some]

/-- What happens after the spawn of a command of which call number `n` of the child fails. -/
def failingSince (n : Nat) : List Execution.Label :=
  (failingChild n).map .child ++ sampleJoins.map .worker ++
    [.worker (.waitpid (.exited 127)), .readReport [.got 4] (some 2)]

def failingCommand (n : Nat) : List Execution.Label :=
  sampleOpening.map .worker ++
    [.worker (.fetchAdd 0 "t"), .worker (.spawn sampleRequest (.ok 7))] ++ failingSince n

/-- Where the worker is about to report it. -/
theorem run_failingCommand {n : Nat} {call : ChildCall}
    (hcall : (n = 1 ∧ call = .chdir "/") ∨ (n = 3 ∧ call = .execvp ["true"])) :
    ∃ cmd entry raw, cmd.seq = 0 ∧
      run (Execution.step (.compact true)) .init (failingCommand n) =
        some { worker := .running cmd
                 (.respond ⟨127, "", some errorNotFound⟩ entry raw)
               child := ⟨.gone, some (call, 2), errnoBytes 2⟩
               reads := [.got 4] } := by
  have hopening : run (Execution.step (.compact true)) .init (sampleOpening.map .worker) =
      some { Execution.init with worker := .accepted sampleRequest } :=
    Execution.run_worker (by simp [sampleOpening, Execution.effect]) (run_sampleOpening true)
  have hspawn : run (Execution.step (.compact true))
      { Execution.init with worker := .accepted sampleRequest }
      [.worker (.fetchAdd 0 "t"), .worker (.spawn sampleRequest (.ok 7))] =
      some { Execution.init with
        worker := .running sampleSpawned .joinReader, child := .forked sampleRequest } := by
    simp [run_cons, Execution.step, Execution.effect, Worker.step, sampleRequest_spawns,
      Execution.init, sampleSpawned]
  have hchild : run (Execution.step (.compact true))
      { Execution.init with
        worker := .running sampleSpawned .joinReader, child := .forked sampleRequest }
      ((failingChild n).map .child) =
      some { Execution.init with
        worker := .running sampleSpawned .joinReader
        child := ⟨.gone, some (call, 2), errnoBytes 2⟩ } :=
    Execution.run_child (run_failingChild hcall)
  obtain ⟨cmd, hseq, houtput, hjoins⟩ := run_sampleJoins
  have hend : run (Execution.step (.compact true))
      { Execution.init with
        worker := .running sampleSpawned .joinReader
        child := ⟨.gone, some (call, 2), errnoBytes 2⟩ } (sampleJoins.map .worker) =
      some { Execution.init with
        worker := .running cmd (.waitChild false false)
        child := ⟨.gone, some (call, 2), errnoBytes 2⟩ } :=
    Execution.run_worker (by simp [sampleJoins, Execution.effect]) hjoins
  have hread : readErrno (errnoBytes 2) [.got 4] = some (some 2) := by
    decide
  have hreported : (⟨.gone, some (call, 2), errnoBytes 2⟩ : Child).Reported := Or.inl rfl
  have htag : classify (some 2) false false 127 = (some errorNotFound, 127) := by
    rfl
  rw [failingCommand, failingSince]
  simp only [run_append, hopening, hspawn, hchild, hend, Option.bind_some]
  simp [run_cons, Execution.step, Execution.effect, Execution.init, Worker.step,
    Command.foreground, Command.background, Command.outcome, waitForChild, hread, hreported,
    htag, houtput, hseq]

/-- The step that reports it. -/
theorem step_failingCommand {cmd : Command} {response : Response} {entry : TranscriptEntry}
    {raw : String} {child : Child} {reads : List ReadCall} (hseq : cmd.seq = 0) :
    Execution.step (.compact true) ⟨.running cmd (.respond response entry raw), child, reads⟩
        (.worker (.writeResponse (some 0) response true)) =
      some ⟨.submitting 0 entry raw, child, reads⟩ := by
  simp [Execution.step, Execution.effect, Worker.step, Command.foreground, hseq]

theorem fated_failingCommand {n : Nat} {call : ChildCall}
    (hcall : (n = 1 ∧ call = .chdir "/") ∨ (n = 3 ∧ call = .execvp ["true"])) :
    Fated (.compact true) (failingCommand n) (.spawned (some call) false false 127) := by
  have hworker : ∀ e, Execution.Label.worker e ∈ failingSince n →
      e ∈ sampleJoins ++ [.waitpid (.exited 127)] := by
    intro e he
    simpa [failingSince] using he
  have hnot : ∀ e, e ∉ sampleJoins ++ [.waitpid (.exited 127)] →
      (false = true ↔ Execution.Label.worker e ∈ failingSince n) := fun e he =>
    iff_of_false (by simp) fun h => he (hworker e h)
  have hfailed : (firstFailure sampleRequest.childCalls
      (callResults (Execution.childEvents (failingSince n)))).map Prod.fst = some call := by
    rw [sampleRequest_childCalls]
    rcases hcall with ⟨rfl, rfl⟩ | ⟨rfl, rfl⟩ <;> rfl
  have hwait : lastWait (Execution.events (failingSince n)) = some (.exited 127) := by
    rcases hcall with ⟨rfl, rfl⟩ | ⟨rfl, rfl⟩ <;> rfl
  have hspawn : failingCommand n =
      (sampleOpening.map .worker ++ [.worker (.fetchAdd 0 "t")]) ++
        .worker (.spawn sampleRequest (.ok 7)) :: failingSince n := by
    simp [failingCommand]
  rw [← hfailed]
  refine .spawned hspawn ?_ (hnot .timeoutExpired (by simp [sampleJoins]))
    (hnot (.timerKill 7) (by simp [sampleJoins])) (iff_of_false (by simp) ?_)
    (hnot (.watcherKill 7) (by simp [sampleJoins])) hwait .exited
  · rintro (e | e | _) hl
    · have hmem := hworker e hl
      cases e <;> first | rfl | simp [sampleJoins] at hmem
    · rfl
    · rfl
  · rintro ⟨r, hr, -⟩
    have hmem := hworker _ hr
    simp [sampleJoins] at hmem

theorem outcome_reported_iff_execvp :
    ∃ s s' : Execution,
      run (Execution.step (.compact true)) .init (failingCommand 3) = some s ∧
      s.step (.compact true)
        (.worker (.writeResponse (some 0) ⟨127, "", some errorNotFound⟩ true)) = some s' ∧
      (∀ entry raw, s'.worker = .submitting 0 entry raw →
        Agrees ⟨127, "", some errorNotFound⟩ entry) ∧
      (Reports ⟨127, "", some errorNotFound⟩
        (.spawned (some (.execvp ["true"])) false false 127) ↔ s.Reliable) := by
  obtain ⟨cmd, entry, raw, hseq, hrun⟩ := run_failingCommand (Or.inr ⟨rfl, rfl⟩)
  obtain ⟨hagrees, -, hreports⟩ := outcome_reported_iff hrun (step_failingCommand hseq)
  exact ⟨_, _, hrun, step_failingCommand hseq, hagrees,
    hreports _ (fated_failingCommand (Or.inr ⟨rfl, rfl⟩))⟩

/-- A `chdir` that fails is reported as a program that is not found. -/
theorem chdir_reported_notFound :
    ¬ ∀ (cfg : Config) (es : List Execution.Label) (s s' : Execution) (seq : Nat)
        (response : Response) (ok : Bool),
      run (Execution.step cfg) .init es = some s →
      s.step cfg (.worker (.writeResponse (some seq) response ok)) = some s' →
      ∃ fate, Fated cfg es fate ∧ Reports response fate := by
  intro h
  obtain ⟨cmd, entry, raw, hseq, hrun⟩ := run_failingCommand (Or.inl ⟨rfl, rfl⟩)
  obtain ⟨fate, hfate, htag, -⟩ := h _ _ _ _ _ _ _ hrun (step_failingCommand hseq)
  obtain rfl := hfate.unique (fated_failingCommand (Or.inl ⟨rfl, rfl⟩))
  have herror := congrArg Prod.fst htag
  simp [Fate.expected, ChildCall.isExecvp, errorNotFound] at herror

end Rexec
