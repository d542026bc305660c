import Rexec.Protocol
import Rexec.Wire
import Rexec.PtyBuffer
import Rexec.Lib.Machine
import Mathlib.Tactic

/-!
# One client connection of the host

`handle_connection` as a machine.  A state is the program point of the worker
thread with what it holds there; while a command runs, the state also contains
the command's own threads: the PTY reader, the timer and the abort watcher.  An
event is one atomic action of one of these threads, and carries what the
outside decides: what a read returns, whether a write succeeds, the result of a
spawn, the status of the child.

* `Worker.step` is the machine, as the source computes it.
* `Worker.Step` lists what a step can do, one constructor for each rule, and
  `step_cases` says that the machine does nothing else.

The console job and the thread feeding the child's standard input run beside
the connection and give nothing back to it; they are not part of this state.
-/

namespace Rexec

/-- `serde_json::from_str` at the two types the host reads; errors as text. -/
structure Config where
  clientAction : String → Option ClientAction
  request : String → Except String Request
  silent : Bool

/-- The configuration over a JSON implementation. -/
def Config.ofJson (J : JsonText) (message : String → String) (silent : Bool) :
    Config where
  clientAction := J.decode ClientAction.ofJson
  request text :=
    match J.decode Request.ofJson text with
    | some r => .ok r
    | none => .error (message text)
  silent := silent

/-- What `read_line` returns. -/
inductive ReadLine where
  /-- `Ok(n)` with `n > 0` -/
  | line (text : String)
  /-- `Ok(0)` -/
  | eof
  /-- `Err` of kind `WouldBlock` or `TimedOut` -/
  | timeout
  /-- any other `Err` -/
  | error
deriving DecidableEq

/-- An errno with the text it is displayed as. -/
structure Errno where
  code : Int32
  display : String
deriving DecidableEq

inductive SpawnError where
  | nulByte (field : String)
  | invalidEnvName (name : String)
  | pipe (err : Errno)
  | stdin (err : Errno)
  | openPty (err : Errno)
  | termios (err : Errno)
  | fork (err : Errno)
deriving DecidableEq

def SpawnError.display : SpawnError → String
  | .nulByte field => "PTY " ++ field ++ " contains a NUL byte"
  | .invalidEnvName name => "environment variable name contains '=': " ++ name
  | .pipe err => "failed to open errno pipe: " ++ err.display
  | .stdin err => "failed to open child stdin: " ++ err.display
  | .openPty err => "failed to open PTY: " ++ err.display
  | .termios err => "failed to configure PTY termios: " ++ err.display
  | .fork err => "failed to fork PTY child: " ++ err.display

/-- What `waitpid` returns. -/
inductive WaitResult where
  | exited (code : Int32)
  | signaled (sig : Int32)
  | other
  | eintr
  | error
deriving DecidableEq

/-- The loop of `wait_for_child`: the exit code, or one more round. -/
def waitForChild : WaitResult → Option Int32
  | .exited code => some code
  | .signaled sig => some (128 + sig)
  | .other => none
  | .eintr => none
  | .error => some 127

/-! ## The threads of a running command -/

/-- The timer thread; `term` and `kill` are inside `kill_child_group`. -/
inductive Timer where
  | absent
  | waiting
  | term
  | kill
  | done (timedOut : Bool)
deriving DecidableEq

/-- The abort watcher; `check` is the top of its loop. -/
inductive Watcher where
  | check
  | reading
  | term
  | kill
  | done (aborted : Bool)
deriving DecidableEq

structure Command where
  seq : Nat
  request : Request
  requestTime : String
  child : Nat
  buffer : PtyBuffer
  filter : FilterState
  readerDone : Bool
  commandFinished : Bool
  cancelled : Bool
  timer : Timer
  watcher : Watcher

/-- The command right after its threads were started. -/
def Command.spawned (silent : Bool) (seq : Nat) (request : Request)
    (requestTime : String) (child : Nat) : Command :=
  { seq, request, requestTime, child
    buffer := PtyBuffer.new silent
    filter := .normal
    readerDone := false
    commandFinished := false
    cancelled := false
    timer := if request.timeout = 0 then .absent else .waiting
    watcher := .check }

/-- Where the worker stands while a command runs. -/
inductive Stage where
  | joinReader
  | storeFinished
  | cancelTimer
  | joinTimer
  | joinWatcher (timedOut : Bool)
  | waitChild (timedOut aborted : Bool)
  | readErrno (timedOut aborted : Bool) (exitCode : Int32)
  | respond (response : Response) (entry : TranscriptEntry) (rawOutput : String)

/-- The program points of the worker. -/
inductive Worker where
  | start
  | handshake
  | openingPong
  | lineLoop (commandPinged : Bool)
  | pong
  /-- a malformed or empty request, about to be answered -/
  | reject (response : Response)
  | accepted (request : Request)
  | spawning (seq : Nat) (request : Request) (requestTime : String)
  | spawnFailed (seq : Nat) (request : Request) (requestTime : String)
      (err : SpawnError)
  | running (cmd : Command) (stage : Stage)
  | submitting (seq : Nat) (entry : TranscriptEntry) (rawOutput : String)
  | attaching (ansi : Bool)
  | attached (receiver : Nat)
  | sending (receiver : Nat) (entry : TranscriptEntry)
  | exited

inductive Event where
  | tryClone (ok : Bool)
  | readLine (r : ReadLine)
  | writePong (ok : Bool)
  /-- a response; `seq` is the number of the command it is for, if it took one -/
  | writeResponse (seq : Option Nat) (response : Response) (ok : Bool)
  | fetchAdd (seq : Nat) (requestTime : String)
  | spawn (request : Request) (result : Except SpawnError Nat)
  | submit (seq : Nat) (entry : TranscriptEntry) (rawOutput : String)
  | joinReader
  | storeFinished
  | cancelTimer
  | joinTimer
  | joinWatcher
  | waitpid (r : WaitResult)
  | readErrno (errno : Option Int32)
  | ptyRead (chunk : List UInt8)
  | ptyEof
  | timeoutExpired
  | timerCancelled
  | timerTerm (child : Nat)
  | timerKill (child : Nat)
  | watcherCheck
  | watcherRead (r : ReadLine)
  | watcherTerm (child : Nat)
  | watcherKill (child : Nat)
  | subscribe (ansi : Bool) (receiver : Nat)
  | recv (entry : TranscriptEntry)
  | writeEvent (entry : TranscriptEntry) (ok : Bool)
  | detach

/-! ## What the source computes at each point -/

/-- The entry of a request with its outcome. -/
def Request.entry (r : Request) (requestTime : String) (exit : Int32)
    (output : String) (error : Option String) : TranscriptEntry :=
  { whoami := r.whoami, dir := r.dir, envs := r.envs, clearEnv := r.clearEnv
    exec := r.exec, timeout := r.timeout, exit, output, error
    time := some requestTime }

def malformedResponse (err : String) : Response :=
  { exit := 127, output := "", error := some ("malformed request: " ++ err) }

def emptyExecResponse : Response :=
  { exit := 127, output := "", error := some "exec is empty" }

def spawnFailedMessage (err : SpawnError) : String :=
  "rexec: failed to spawn command: " ++ err.display ++ "\n"

def spawnFailedResponse (err : SpawnError) : Response :=
  { exit := 127, output := spawnFailedMessage err, error := some "spawn_failed" }

def spawnFailedEntry (request : Request) (requestTime : String)
    (err : SpawnError) : TranscriptEntry :=
  request.entry requestTime 127 (spawnFailedMessage err) (some "spawn_failed")

/-- The tag and the exit code of a command that was spawned. -/
def classify (errno : Option Int32) (timedOut aborted : Bool)
    (exitCode : Int32) : Option String × Int32 :=
  if errno.isSome then (some errorNotFound, 127)
  else if timedOut then (some errorTimeout, 124)
  else if aborted then (some errorAborted, exitCode)
  else (none, exitCode)

/-- The first line of a connection. -/
def Config.onOpening (cfg : Config) : ReadLine → Worker
  | .line text =>
      match cfg.clientAction (trimEnd text) with
      | some .ping => .openingPong
      | _ => .exited
  | _ => .exited

/-- A request line, its ping used up. -/
def Config.onRequest (cfg : Config) (trimmed : String) : Worker :=
  match cfg.request trimmed with
  | .error err => .reject (malformedResponse err)
  | .ok request =>
      if request.exec.isEmpty then .reject emptyExecResponse
      else .accepted request

/-- A further line. -/
def Config.onLine (cfg : Config) (commandPinged : Bool) : ReadLine → Worker
  | .line text =>
      let trimmed := trimEnd text
      if trimmed.isEmpty then .lineLoop commandPinged
      else
        match cfg.clientAction trimmed with
        | some .ping => .pong
        | some .abort => .lineLoop commandPinged
        | some (.attach ansi) => .attaching ansi
        | none => if commandPinged then cfg.onRequest trimmed else .exited
  | _ => .exited

/-- What the watcher does with the result of its read. -/
def Config.onWatched (cfg : Config) : ReadLine → Watcher
  | .line text =>
      let trimmed := trimEnd text
      if trimmed.isEmpty then .check
      else
        match cfg.clientAction trimmed with
        | some .abort => .term
        | _ => .check
  | .eof => .term
  | .timeout => .check
  | .error => .term

section ClientLines

variable {J : JsonText} (hJ : J.Lawful) {message : String → String} {silent : Bool}

include hJ

theorem Config.ofJson_action (a : ClientAction) :
    (Config.ofJson J message silent).clientAction (trimEnd (J.line a.toJson)) =
      some a := by
  have htrim : trimEnd (J.line a.toJson) = J.toString a.toJson :=
    Message.trimEnd_line hJ (.clientAction a)
  rw [htrim]
  exact a.decode_toString hJ

theorem Config.ofJson_request (r : Request) :
    (Config.ofJson J message silent).clientAction (trimEnd (J.line r.toJson)) =
        none ∧
      (Config.ofJson J message silent).request (trimEnd (J.line r.toJson)) =
        .ok r := by
  have htrim : trimEnd (J.line r.toJson) = J.toString r.toJson :=
    Message.trimEnd_line hJ (.request r)
  rw [htrim]
  refine ⟨r.decode_action hJ, ?_⟩
  simp only [Config.ofJson, r.decode_toString hJ]

/-- The opening Ping of a client. -/
theorem Config.onOpening_ping :
    (Config.ofJson J message silent).onOpening
      (.line (J.line ClientAction.ping.toJson)) = .openingPong := by
  simp only [Config.onOpening, Config.ofJson_action hJ]

theorem Config.onLine_ping (p : Bool) :
    (Config.ofJson J message silent).onLine p
      (.line (J.line ClientAction.ping.toJson)) = .pong := by
  have hblank : (trimEnd (J.line ClientAction.ping.toJson)).isEmpty = false :=
    Message.line_not_blank hJ (.clientAction .ping)
  simp only [Config.onLine, Config.ofJson_action hJ, hblank, Bool.false_eq_true,
    if_false]

/-- A request a client sends after a Ping, or without one. -/
theorem Config.onLine_request_line (p : Bool) (r : Request)
    (hexec : r.exec.isEmpty = false) :
    (Config.ofJson J message silent).onLine p (.line (J.line r.toJson)) =
      if p then .accepted r else .exited := by
  have hblank : (trimEnd (J.line r.toJson)).isEmpty = false :=
    Message.line_not_blank hJ (.request r)
  simp only [Config.onLine, Config.onRequest, Config.ofJson_request hJ r, hblank,
    hexec, Bool.false_eq_true, if_false]

/-- An Abort the watcher reads. -/
theorem Config.onWatched_abort :
    (Config.ofJson J message silent).onWatched
      (.line (J.line ClientAction.abort.toJson)) = .term := by
  have hblank : (trimEnd (J.line ClientAction.abort.toJson)).isEmpty = false :=
    Message.line_not_blank hJ (.clientAction .abort)
  simp only [Config.onWatched, Config.ofJson_action hJ, hblank,
    Bool.false_eq_true, if_false]

end ClientLines

/-- The host over compact JSON. -/
def Config.compact (silent : Bool) : Config :=
  Config.ofJson Json.compact id silent

def samplePing : String := Json.compact.line ClientAction.ping.toJson

def sampleAbort : String := Json.compact.line ClientAction.abort.toJson

def sampleRequestLine : String := Json.compact.line sampleRequest.toJson

section Samples

variable (silent p : Bool)

@[simp] theorem Config.compact_silent : (Config.compact silent).silent = silent :=
  rfl

@[simp] theorem onOpening_samplePing :
    (Config.compact silent).onOpening (.line samplePing) = .openingPong :=
  Config.onOpening_ping Json.compact_lawful

@[simp] theorem onLine_samplePing :
    (Config.compact silent).onLine p (.line samplePing) = .pong :=
  Config.onLine_ping Json.compact_lawful p

@[simp] theorem onLine_sampleRequestLine :
    (Config.compact silent).onLine p (.line sampleRequestLine) =
      if p then .accepted sampleRequest else .exited :=
  Config.onLine_request_line Json.compact_lawful p sampleRequest rfl

@[simp] theorem onWatched_sampleAbort :
    (Config.compact silent).onWatched (.line sampleAbort) = .term :=
  Config.onWatched_abort Json.compact_lawful

/-- A client that pings twice and sends its request. -/
def sampleOpening : List Event :=
  [.tryClone true, .readLine (.line samplePing), .writePong true,
    .readLine (.line samplePing), .writePong true,
    .readLine (.line sampleRequestLine)]

end Samples

/-- The response and the entry once the child was reaped. -/
def Command.outcome (cmd : Command) (errno : Option Int32)
    (timedOut aborted : Bool) (exitCode : Int32) : Stage :=
  let tag := classify errno timedOut aborted exitCode
  let filtered := fromUtf8Lossy cmd.buffer.filteredTotal
  let raw := fromUtf8Lossy cmd.buffer.rawTotal
  .respond
    { exit := tag.2, output := filtered, error := tag.1 }
    (cmd.request.entry cmd.requestTime tag.2 filtered tag.1)
    raw

/-! ## The machine -/

/-- One action of the PTY reader, the timer or the watcher. -/
def Command.background (cfg : Config) (cmd : Command) : Event → Option Command
  | .ptyRead chunk =>
      if cmd.readerDone = false ∧ chunk ≠ [] then
        let appended := cmd.buffer.append cmd.filter chunk
        some { cmd with filter := appended.1, buffer := appended.2 }
      else none
  | .ptyEof =>
      if cmd.readerDone = false then
        some { cmd with buffer := cmd.buffer.setEof, readerDone := true }
      else none
  | .timeoutExpired =>
      if cmd.timer = .waiting ∧ cmd.cancelled = false then
        some { cmd with timer := .term }
      else none
  | .timerCancelled =>
      if cmd.timer = .waiting ∧ cmd.cancelled = true then
        some { cmd with timer := .done false }
      else none
  | .timerTerm child =>
      if cmd.timer = .term ∧ child = cmd.child then
        some { cmd with timer := .kill }
      else none
  | .timerKill child =>
      if cmd.timer = .kill ∧ child = cmd.child then
        some { cmd with timer := .done true }
      else none
  | .watcherCheck =>
      if cmd.watcher = .check then
        some { cmd with
          watcher := if cmd.commandFinished then .done false else .reading }
      else none
  | .watcherRead r =>
      if cmd.watcher = .reading then
        some { cmd with watcher := cfg.onWatched r }
      else none
  | .watcherTerm child =>
      if cmd.watcher = .term ∧ child = cmd.child then
        some { cmd with watcher := .kill }
      else none
  | .watcherKill child =>
      if cmd.watcher = .kill ∧ child = cmd.child then
        some { cmd with watcher := .done true }
      else none
  | _ => none

/-- One action of the worker while a command runs. -/
def Command.foreground (cmd : Command) : Stage → Event → Option Worker
  | .joinReader, .joinReader =>
      if cmd.readerDone then some (.running cmd .storeFinished) else none
  | .storeFinished, .storeFinished =>
      some (.running { cmd with commandFinished := true } .cancelTimer)
  | .cancelTimer, .cancelTimer =>
      if cmd.timer = .absent then some (.running cmd (.joinWatcher false))
      else some (.running { cmd with cancelled := true } .joinTimer)
  | .joinTimer, .joinTimer =>
      match cmd.timer with
      | .done timedOut => some (.running cmd (.joinWatcher timedOut))
      | _ => none
  | .joinWatcher timedOut, .joinWatcher =>
      match cmd.watcher with
      | .done aborted => some (.running cmd (.waitChild timedOut aborted))
      | _ => none
  | .waitChild timedOut aborted, .waitpid r =>
      match waitForChild r with
      | some code => some (.running cmd (.readErrno timedOut aborted code))
      | none => some (.running cmd (.waitChild timedOut aborted))
  | .readErrno timedOut aborted code, .readErrno errno =>
      some (.running cmd (cmd.outcome errno timedOut aborted code))
  | .respond response entry raw, .writeResponse seq r _ =>
      if seq = some cmd.seq ∧ r = response then
        some (.submitting cmd.seq entry raw)
      else none
  | _, _ => none

/-- `handle_connection`, one event at a time. -/
def Worker.step (cfg : Config) : Worker → Event → Option Worker
  | .start, .tryClone ok => some (if ok then .handshake else .exited)
  | .handshake, .readLine r => some (cfg.onOpening r)
  | .openingPong, .writePong ok =>
      some (if ok then .lineLoop false else .exited)
  | .lineLoop commandPinged, .readLine r => some (cfg.onLine commandPinged r)
  | .pong, .writePong ok => some (if ok then .lineLoop true else .exited)
  | .reject response, .writeResponse seq r ok =>
      if seq = none ∧ r = response then
        some (if ok then .lineLoop false else .exited)
      else none
  | .accepted request, .fetchAdd seq requestTime =>
      some (.spawning seq request requestTime)
  | .spawning seq request requestTime, .spawn r (.ok child) =>
      if r = request then
        some (.running
          (Command.spawned cfg.silent seq request requestTime child) .joinReader)
      else none
  | .spawning seq request requestTime, .spawn r (.error err) =>
      if r = request then some (.spawnFailed seq request requestTime err) else none
  | .spawnFailed seq request requestTime err, .writeResponse s r ok =>
      if s = some seq ∧ r = spawnFailedResponse err then
        some (if ok then
            .submitting seq (spawnFailedEntry request requestTime err)
              (spawnFailedMessage err)
          else .exited)
      else none
  | .running cmd stage, e =>
      match cmd.foreground stage e with
      | some w => some w
      | none => (cmd.background cfg e).map fun cmd => .running cmd stage
  | .submitting seq entry rawOutput, .submit s en raw =>
      if s = seq ∧ en = entry ∧ raw = rawOutput then some (.lineLoop false)
      else none
  | .attaching ansi, .subscribe a receiver =>
      if a = ansi then some (.attached receiver) else none
  | .attached receiver, .recv entry => some (.sending receiver entry)
  | .attached _, .detach => some .exited
  | .sending receiver entry, .writeEvent en ok =>
      if en = entry then some (if ok then .attached receiver else .exited)
      else none
  | _, _ => none

/-! ## What a step can do -/

inductive Command.Background (cfg : Config) : Command → Event → Command → Prop where
  | ptyRead {cmd : Command} {chunk : List UInt8}
      (hopen : cmd.readerDone = false) (hchunk : chunk ≠ []) :
      Background cfg cmd (.ptyRead chunk)
        { cmd with
          filter := (cmd.buffer.append cmd.filter chunk).1
          buffer := (cmd.buffer.append cmd.filter chunk).2 }
  | ptyEof {cmd : Command} (hopen : cmd.readerDone = false) :
      Background cfg cmd .ptyEof
        { cmd with buffer := cmd.buffer.setEof, readerDone := true }
  | timeoutExpired {cmd : Command}
      (htimer : cmd.timer = .waiting) (hcancelled : cmd.cancelled = false) :
      Background cfg cmd .timeoutExpired { cmd with timer := .term }
  | timerCancelled {cmd : Command}
      (htimer : cmd.timer = .waiting) (hcancelled : cmd.cancelled = true) :
      Background cfg cmd .timerCancelled { cmd with timer := .done false }
  | timerTerm {cmd : Command} (htimer : cmd.timer = .term) :
      Background cfg cmd (.timerTerm cmd.child) { cmd with timer := .kill }
  | timerKill {cmd : Command} (htimer : cmd.timer = .kill) :
      Background cfg cmd (.timerKill cmd.child) { cmd with timer := .done true }
  | watcherCheck {cmd : Command} (hwatcher : cmd.watcher = .check) :
      Background cfg cmd .watcherCheck
        { cmd with
          watcher := if cmd.commandFinished then .done false else .reading }
  | watcherRead {cmd : Command} {r : ReadLine} (hwatcher : cmd.watcher = .reading) :
      Background cfg cmd (.watcherRead r) { cmd with watcher := cfg.onWatched r }
  | watcherTerm {cmd : Command} (hwatcher : cmd.watcher = .term) :
      Background cfg cmd (.watcherTerm cmd.child) { cmd with watcher := .kill }
  | watcherKill {cmd : Command} (hwatcher : cmd.watcher = .kill) :
      Background cfg cmd (.watcherKill cmd.child) { cmd with watcher := .done true }

inductive Command.Foreground (cmd : Command) : Stage → Event → Worker → Prop where
  | joinReader (hdone : cmd.readerDone = true) :
      Foreground cmd .joinReader .joinReader (.running cmd .storeFinished)
  | storeFinished :
      Foreground cmd .storeFinished .storeFinished
        (.running { cmd with commandFinished := true } .cancelTimer)
  | noTimer (htimer : cmd.timer = .absent) :
      Foreground cmd .cancelTimer .cancelTimer (.running cmd (.joinWatcher false))
  | cancelTimer (htimer : cmd.timer ≠ .absent) :
      Foreground cmd .cancelTimer .cancelTimer
        (.running { cmd with cancelled := true } .joinTimer)
  | joinTimer {timedOut : Bool} (htimer : cmd.timer = .done timedOut) :
      Foreground cmd .joinTimer .joinTimer (.running cmd (.joinWatcher timedOut))
  | joinWatcher {timedOut aborted : Bool} (hwatcher : cmd.watcher = .done aborted) :
      Foreground cmd (.joinWatcher timedOut) .joinWatcher
        (.running cmd (.waitChild timedOut aborted))
  | waitAgain {timedOut aborted : Bool} {r : WaitResult}
      (hwait : waitForChild r = none) :
      Foreground cmd (.waitChild timedOut aborted) (.waitpid r)
        (.running cmd (.waitChild timedOut aborted))
  | waited {timedOut aborted : Bool} {r : WaitResult} {code : Int32}
      (hwait : waitForChild r = some code) :
      Foreground cmd (.waitChild timedOut aborted) (.waitpid r)
        (.running cmd (.readErrno timedOut aborted code))
  | readErrno {timedOut aborted : Bool} {code : Int32} {errno : Option Int32} :
      Foreground cmd (.readErrno timedOut aborted code) (.readErrno errno)
        (.running cmd (cmd.outcome errno timedOut aborted code))
  | respond {response : Response} {entry : TranscriptEntry} {raw : String}
      {ok : Bool} :
      Foreground cmd (.respond response entry raw)
        (.writeResponse (some cmd.seq) response ok)
        (.submitting cmd.seq entry raw)

inductive Worker.Step (cfg : Config) : Worker → Event → Worker → Prop where
  | cloned : Step cfg .start (.tryClone true) .handshake
  | notCloned : Step cfg .start (.tryClone false) .exited
  | opening {r : ReadLine} : Step cfg .handshake (.readLine r) (cfg.onOpening r)
  | opened : Step cfg .openingPong (.writePong true) (.lineLoop false)
  | notOpened : Step cfg .openingPong (.writePong false) .exited
  | line {p : Bool} {r : ReadLine} :
      Step cfg (.lineLoop p) (.readLine r) (cfg.onLine p r)
  | ponged : Step cfg .pong (.writePong true) (.lineLoop true)
  | notPonged : Step cfg .pong (.writePong false) .exited
  | rejected {resp : Response} :
      Step cfg (.reject resp) (.writeResponse none resp true) (.lineLoop false)
  | notRejected {resp : Response} :
      Step cfg (.reject resp) (.writeResponse none resp false) .exited
  | fetchAdd {request : Request} {seq : Nat} {time : String} :
      Step cfg (.accepted request) (.fetchAdd seq time)
        (.spawning seq request time)
  | spawned {seq : Nat} {request : Request} {time : String} {child : Nat} :
      Step cfg (.spawning seq request time) (.spawn request (.ok child))
        (.running (Command.spawned cfg.silent seq request time child) .joinReader)
  | spawnFailed {seq : Nat} {request : Request} {time : String} {err : SpawnError} :
      Step cfg (.spawning seq request time) (.spawn request (.error err))
        (.spawnFailed seq request time err)
  | failureReported {seq : Nat} {request : Request} {time : String}
      {err : SpawnError} :
      Step cfg (.spawnFailed seq request time err)
        (.writeResponse (some seq) (spawnFailedResponse err) true)
        (.submitting seq (spawnFailedEntry request time err)
          (spawnFailedMessage err))
  | abandoned {seq : Nat} {request : Request} {time : String} {err : SpawnError} :
      Step cfg (.spawnFailed seq request time err)
        (.writeResponse (some seq) (spawnFailedResponse err) false) .exited
  | foreground {cmd : Command} {stage : Stage} {e : Event} {w : Worker}
      (h : cmd.Foreground stage e w) : Step cfg (.running cmd stage) e w
  | background {cmd cmd' : Command} {stage : Stage} {e : Event}
      (h : cmd.Background cfg e cmd') :
      Step cfg (.running cmd stage) e (.running cmd' stage)
  | submit {seq : Nat} {entry : TranscriptEntry} {raw : String} :
      Step cfg (.submitting seq entry raw) (.submit seq entry raw) (.lineLoop false)
  | subscribe {ansi : Bool} {receiver : Nat} :
      Step cfg (.attaching ansi) (.subscribe ansi receiver) (.attached receiver)
  | recv {receiver : Nat} {entry : TranscriptEntry} :
      Step cfg (.attached receiver) (.recv entry) (.sending receiver entry)
  | detach {receiver : Nat} : Step cfg (.attached receiver) .detach .exited
  | sent {receiver : Nat} {entry : TranscriptEntry} :
      Step cfg (.sending receiver entry) (.writeEvent entry true)
        (.attached receiver)
  | notSent {receiver : Nat} {entry : TranscriptEntry} :
      Step cfg (.sending receiver entry) (.writeEvent entry false) .exited

theorem Command.background_cases {cfg : Config} {cmd cmd' : Command} {e : Event}
    (h : cmd.background cfg e = some cmd') :
    cmd.Background cfg e cmd' := by
  cases e <;> simp only [Command.background, reduceCtorEq] at h
  case ptyRead chunk =>
    split at h
    · rename_i hc
      cases h
      exact .ptyRead hc.1 hc.2
    · cases h
  case ptyEof =>
    split at h
    · rename_i hc
      cases h
      exact .ptyEof hc
    · cases h
  case timeoutExpired =>
    split at h
    · rename_i hc
      cases h
      exact .timeoutExpired hc.1 hc.2
    · cases h
  case timerCancelled =>
    split at h
    · rename_i hc
      cases h
      exact .timerCancelled hc.1 hc.2
    · cases h
  case timerTerm child =>
    split at h
    · rename_i hc
      obtain ⟨htimer, rfl⟩ := hc
      cases h
      exact .timerTerm htimer
    · cases h
  case timerKill child =>
    split at h
    · rename_i hc
      obtain ⟨htimer, rfl⟩ := hc
      cases h
      exact .timerKill htimer
    · cases h
  case watcherCheck =>
    split at h
    · rename_i hc
      cases h
      exact .watcherCheck hc
    · cases h
  case watcherRead r =>
    split at h
    · rename_i hc
      cases h
      exact .watcherRead hc
    · cases h
  case watcherTerm child =>
    split at h
    · rename_i hc
      obtain ⟨hwatcher, rfl⟩ := hc
      cases h
      exact .watcherTerm hwatcher
    · cases h
  case watcherKill child =>
    split at h
    · rename_i hc
      obtain ⟨hwatcher, rfl⟩ := hc
      cases h
      exact .watcherKill hwatcher
    · cases h

theorem Command.foreground_cases {cmd : Command} {stage : Stage} {e : Event}
    {w : Worker} (h : cmd.foreground stage e = some w) :
    cmd.Foreground stage e w := by
  cases stage <;> cases e <;> simp only [Command.foreground, reduceCtorEq] at h
  case joinReader.joinReader =>
    split at h
    · rename_i hdone
      cases h
      exact .joinReader hdone
    · cases h
  case storeFinished.storeFinished =>
    cases h
    exact .storeFinished
  case cancelTimer.cancelTimer =>
    split at h
    · rename_i htimer
      cases h
      exact .noTimer htimer
    · rename_i htimer
      cases h
      exact .cancelTimer htimer
  case joinTimer.joinTimer =>
    split at h
    · rename_i timedOut htimer
      cases h
      exact .joinTimer htimer
    · cases h
  case joinWatcher.joinWatcher timedOut =>
    split at h
    · rename_i aborted hwatcher
      cases h
      exact .joinWatcher hwatcher
    · cases h
  case waitChild.waitpid timedOut aborted r =>
    split at h
    · rename_i code hwait
      cases h
      exact .waited hwait
    · rename_i hwait
      cases h
      exact .waitAgain hwait
  case readErrno.readErrno =>
    cases h
    exact .readErrno
  case respond.writeResponse =>
    split at h
    · rename_i hc
      obtain ⟨rfl, rfl⟩ := hc
      cases h
      exact .respond
    · cases h

/-- The machine does nothing but what `Worker.Step` lists. -/
theorem Worker.step_cases {cfg : Config} {w w' : Worker} {e : Event}
    (h : w.step cfg e = some w') :
    w.Step cfg e w' := by
  cases w
  case running cmd stage =>
    simp only [Worker.step] at h
    split at h
    · rename_i hfg
      cases h
      exact .foreground (Command.foreground_cases hfg)
    · rw [Option.map_eq_some_iff] at h
      obtain ⟨cmd', hbg, rfl⟩ := h
      exact .background (Command.background_cases hbg)
  all_goals
    cases e <;> simp only [Worker.step, reduceCtorEq] at h
  case start.tryClone ok =>
    cases h
    cases ok
    · exact .notCloned
    · exact .cloned
  case handshake.readLine r =>
    cases h
    exact .opening
  case openingPong.writePong ok =>
    cases h
    cases ok
    · exact .notOpened
    · exact .opened
  case lineLoop.readLine p r =>
    cases h
    exact .line
  case pong.writePong ok =>
    cases h
    cases ok
    · exact .notPonged
    · exact .ponged
  case reject.writeResponse resp s r ok =>
    split at h
    · rename_i hc
      obtain ⟨rfl, rfl⟩ := hc
      cases h
      cases ok
      · exact .notRejected
      · exact .rejected
    · cases h
  case accepted.fetchAdd request seq time =>
    cases h
    exact .fetchAdd
  case spawning.spawn seq request time r result =>
    cases result with
    | error err =>
        simp only at h
        split at h
        · rename_i hr
          subst hr
          cases h
          exact .spawnFailed
        · cases h
    | ok child =>
        simp only at h
        split at h
        · rename_i hr
          subst hr
          cases h
          exact .spawned
        · cases h
  case spawnFailed.writeResponse seq request time err s r ok =>
    split at h
    · rename_i hc
      obtain ⟨rfl, rfl⟩ := hc
      cases h
      cases ok
      · exact .abandoned
      · exact .failureReported
    · cases h
  case submitting.submit seq entry raw s en r =>
    split at h
    · rename_i hc
      obtain ⟨rfl, rfl, rfl⟩ := hc
      cases h
      exact .submit
    · cases h
  case attaching.subscribe ansi a receiver =>
    split at h
    · rename_i ha
      subst ha
      cases h
      exact .subscribe
    · cases h
  case attached.recv receiver entry =>
    cases h
    exact .recv
  case attached.detach receiver =>
    cases h
    exact .detach
  case sending.writeEvent receiver entry en ok =>
    split at h
    · rename_i hen
      subst hen
      cases h
      cases ok
      · exact .notSent
      · exact .sent
    · cases h

theorem Command.background_of_step {cfg : Config} {cmd cmd' : Command} {e : Event}
    (h : cmd.Background cfg e cmd') :
    cmd.background cfg e = some cmd' := by
  cases h <;> simp_all [Command.background]

theorem Command.foreground_of_step {cmd : Command} {stage : Stage} {e : Event}
    {w : Worker} (h : cmd.Foreground stage e w) :
    cmd.foreground stage e = some w := by
  cases h <;> simp_all [Command.foreground]

/-- The worker and the other threads of a command have no event in common. -/
theorem Command.foreground_eq_none {cfg : Config} {cmd cmd' : Command}
    {stage : Stage} {e : Event} (h : cmd.Background cfg e cmd') :
    cmd.foreground stage e = none := by
  cases h <;> cases stage <;> rfl

/-- `Worker.Step` lists exactly what the machine does. -/
theorem Worker.step_iff {cfg : Config} {w w' : Worker} {e : Event} :
    w.step cfg e = some w' ↔ w.Step cfg e w' := by
  constructor
  · exact Worker.step_cases
  · intro h
    cases h with
    | foreground h =>
        simp only [Worker.step, Command.foreground_of_step h]
    | background h =>
        simp only [Worker.step, Command.foreground_eq_none h,
          Command.background_of_step h, Option.map_some]
    | _ => simp [Worker.step]

/-! ## What the worker does with a line -/

/-- The line is a Ping. -/
def Config.IsPing (cfg : Config) (text : String) : Prop :=
  cfg.clientAction (trimEnd text) = some .ping

/-- The line is an Abort. -/
def Config.IsAbort (cfg : Config) (text : String) : Prop :=
  (trimEnd text).isEmpty = false ∧ cfg.clientAction (trimEnd text) = some .abort

/-- The line is what the worker takes for a request: not blank, and no action. -/
def Config.IsRequestLine (cfg : Config) (text : String) : Prop :=
  (trimEnd text).isEmpty = false ∧ cfg.clientAction (trimEnd text) = none

section Lines

variable {cfg : Config}

theorem Config.onOpening_cases (r : ReadLine) :
    (∃ text, r = .line text ∧ cfg.IsPing text ∧ cfg.onOpening r = .openingPong) ∨
      cfg.onOpening r = .exited := by
  unfold Config.onOpening
  split
  · rename_i text
    split
    · rename_i hping
      exact .inl ⟨text, rfl, hping, rfl⟩
    · exact .inr rfl
  · exact .inr rfl

/-- An Abort is nothing to the worker. -/
theorem Config.onLine_abort {text : String} (p : Bool) (h : cfg.IsAbort text) :
    cfg.onLine p (.line text) = .lineLoop p := by
  simp only [Config.onLine, h.1, h.2, Bool.false_eq_true, if_false]

theorem Config.onWatched_isAbort {text : String} (h : cfg.IsAbort text) :
    cfg.onWatched (.line text) = .term := by
  simp only [Config.onWatched, h.1, h.2, Bool.false_eq_true, if_false]

theorem Config.onWatched_cases (r : ReadLine) :
    cfg.onWatched r = .term ∨ cfg.onWatched r = .check := by
  cases r with
  | line text =>
      simp only [Config.onWatched]
      split
      · exact .inr rfl
      · split
        · exact .inl rfl
        · exact .inr rfl
  | eof => exact .inl rfl
  | timeout => exact .inr rfl
  | error => exact .inl rfl

theorem Config.onRequest_cases (trimmed : String) :
    (∃ resp, cfg.onRequest trimmed = .reject resp) ∨
      ∃ request, cfg.request trimmed = .ok request ∧
        cfg.onRequest trimmed = .accepted request := by
  unfold Config.onRequest
  cases hr : cfg.request trimmed with
  | error err => exact .inl ⟨malformedResponse err, rfl⟩
  | ok request =>
      by_cases hexec : request.exec.isEmpty = true
      · exact .inl ⟨emptyExecResponse, by simp [hexec]⟩
      · exact .inr ⟨request, rfl, by simp [hexec]⟩

theorem Config.onLine_request {p : Bool} {text : String}
    (hline : cfg.IsRequestLine text) :
    cfg.onLine p (.line text) =
      if p then cfg.onRequest (trimEnd text) else .exited := by
  simp only [Config.onLine, hline.1, hline.2, Bool.false_eq_true, if_false]

theorem Config.onLine_cases (p : Bool) (r : ReadLine) :
    (∃ text, r = .line text ∧ cfg.IsPing text ∧ cfg.onLine p r = .pong) ∨
      (∃ text, r = .line text ∧ cfg.IsRequestLine text) ∨
      ((∀ text, r = .line text → ¬ cfg.IsRequestLine text) ∧
        (cfg.onLine p r = .lineLoop p ∨
          (∃ ansi, cfg.onLine p r = .attaching ansi) ∨
          cfg.onLine p r = .exited)) := by
  cases r with
  | line text =>
      by_cases hblank : (trimEnd text).isEmpty = true
      · refine .inr (.inr ⟨?_, .inl ?_⟩)
        · rintro _ ⟨⟩ hline
          exact absurd hline.1 (by simp [hblank])
        · simp [Config.onLine, hblank]
      · cases ha : cfg.clientAction (trimEnd text) with
        | none => exact .inr (.inl ⟨text, rfl, by simpa using hblank, ha⟩)
        | some action =>
            have hnot : ∀ text', ReadLine.line text = .line text' →
                ¬ cfg.IsRequestLine text' := by
              rintro _ ⟨⟩ hline
              rw [hline.2] at ha
              cases ha
            cases action with
            | ping =>
                exact .inl ⟨text, rfl, ha, by simp [Config.onLine, hblank, ha]⟩
            | abort =>
                exact .inr (.inr ⟨hnot, .inl (by simp [Config.onLine, hblank, ha])⟩)
            | attach ansi =>
                exact .inr (.inr
                  ⟨hnot, .inr (.inl ⟨ansi, by simp [Config.onLine, hblank, ha]⟩)⟩)
  | eof => exact .inr (.inr ⟨by simp, .inr (.inr rfl)⟩)
  | timeout => exact .inr (.inr ⟨by simp, .inr (.inr rfl)⟩)
  | error => exact .inr (.inr ⟨by simp, .inr (.inr rfl)⟩)

/-- Where a line can lead. -/
theorem Config.onLine_leads (p : Bool) (r : ReadLine) :
    cfg.onLine p r = .exited ∨ cfg.onLine p r = .lineLoop p ∨
      cfg.onLine p r = .pong ∨ (∃ ansi, cfg.onLine p r = .attaching ansi) ∨
      (∃ resp, cfg.onLine p r = .reject resp) ∨
      ∃ request, cfg.onLine p r = .accepted request := by
  rcases cfg.onLine_cases p r with
    ⟨text, rfl, -, h⟩ | ⟨text, rfl, hline⟩ | ⟨-, h | ⟨ansi, h⟩ | h⟩
  · exact .inr (.inr (.inl h))
  · rw [Config.onLine_request hline]
    cases p with
    | false => exact .inl rfl
    | true =>
        rcases cfg.onRequest_cases (trimEnd text) with ⟨resp, h⟩ | ⟨request, -, h⟩
        · exact .inr (.inr (.inr (.inr (.inl ⟨resp, h⟩))))
        · exact .inr (.inr (.inr (.inr (.inr ⟨request, h⟩))))
  · exact .inr (.inl h)
  · exact .inr (.inr (.inr (.inl ⟨ansi, h⟩)))
  · exact .inl h

/-- What holds of the two points a first line leads to. -/
@[elab_as_elim]
theorem Config.onOpening_elim {P : Worker → Prop} (r : ReadLine)
    (pinged : P .openingPong) (exited : P .exited) : P (cfg.onOpening r) := by
  rcases cfg.onOpening_cases r with ⟨_, -, -, h⟩ | h
  · rw [h]
    exact pinged
  · rw [h]
    exact exited

/-- What holds of every point a line leads to. -/
@[elab_as_elim]
theorem Config.onLine_elim {P : Worker → Prop} (p : Bool) (r : ReadLine)
    (exited : P .exited) (loop : P (.lineLoop p)) (pong : P .pong)
    (attaching : ∀ ansi, P (.attaching ansi)) (reject : ∀ resp, P (.reject resp))
    (accepted : ∀ request, P (.accepted request)) : P (cfg.onLine p r) := by
  rcases cfg.onLine_leads p r with h | h | h | ⟨ansi, h⟩ | ⟨resp, h⟩ | ⟨request, h⟩
  · rw [h]
    exact exited
  · rw [h]
    exact loop
  · rw [h]
    exact pong
  · rw [h]
    exact attaching ansi
  · rw [h]
    exact reject resp
  · rw [h]
    exact accepted request

/-- The worker reads at two points only. -/
theorem Worker.Step.read {w w' : Worker} {r : ReadLine}
    (h : w.Step cfg (.readLine r) w') :
    (w = .handshake ∧ w' = cfg.onOpening r) ∨
      ∃ p, w = .lineLoop p ∧ w' = cfg.onLine p r := by
  cases h with
  | opening => exact .inl ⟨rfl, rfl⟩
  | line => exact .inr ⟨_, rfl, rfl⟩
  | foreground h => cases h
  | background h => cases h

end Lines

/-- The worker that serves `sampleOpening` has accepted the request. -/
theorem run_sampleOpening (silent : Bool) :
    Machine.run (Worker.step (.compact silent)) .start sampleOpening =
      some (.accepted sampleRequest) := by
  simp only [sampleOpening, Machine.run_cons, Machine.run_nil, Worker.step, if_true,
    Option.bind_some, onOpening_samplePing, onLine_samplePing,
    onLine_sampleRequestLine]

end Rexec
