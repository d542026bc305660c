import Rexec.Signals
import Rexec.FilterGrammar
import Mathlib.Tactic

/-!
# Where a response comes from

`handle_connection` serves any number of requests on one connection.  An `Exec`
is what the worker has of one of them when its command is spawned: the line it
read, the number and the time it took, and the result of the spawn.

* `Exec.Reports` says of a response that it is what came of the command in the
  events since its spawn.
* `Worker.Explained` is the invariant: what the worker is about stands right
  behind it in its events, and nothing of another request stands between.
* `reports_explained`: whatever the clients do, every response of every worker is
  the refusal of the line right before it or the report of the command right
  before it, and every record for the transcript is the response told before.
-/

namespace Rexec

open Machine FilterState

/-- What the worker has of a request when its command is spawned. -/
structure Exec where
  text : String
  seq : Nat
  time : String
  request : Request
  result : Except SpawnError Nat

/-- The events up to the spawn, from the line of the request on. -/
def Exec.opening (x : Exec) : List Event :=
  [.readLine (.line x.text), .fetchAdd x.seq x.time, .spawn x.request x.result]

/-- The line is that of the request, and the request has something to execute. -/
structure Config.Accepts (cfg : Config) (text : String) (request : Request) : Prop where
  line : cfg.IsRequestLine text
  exec : request.exec.isEmpty = false
  read : cfg.request (trimEnd text) = .ok request

/-- The line is refused with this response. -/
structure Config.Refuses (cfg : Config) (text : String) (response : Response) : Prop where
  line : cfg.IsRequestLine text
  cause : (∃ err, cfg.request (trimEnd text) = .error err ∧ response = malformedResponse err) ∨
    ∃ request, cfg.request (trimEnd text) = .ok request ∧ request.exec.isEmpty = true ∧
      response = emptyExecResponse

/-- The events of a command while it runs. -/
def Event.ofCommand : Event → Bool
  | .tryClone _ => false
  | .readLine _ => false
  | .writePong _ => false
  | .writeResponse _ _ _ => false
  | .fetchAdd _ _ => false
  | .spawn _ _ => false
  | .submit _ _ _ => false
  | .subscribe _ _ => false
  | .recv _ => false
  | .writeEvent _ _ => false
  | .detach => false
  | _ => true

/-- The events of the PTY reader, the timer and the watcher. -/
def Event.ofThread : Event → Bool
  | .ptyRead _ => true
  | .ptyEof => true
  | .timeoutExpired => true
  | .timerCancelled => true
  | .timerTerm _ => true
  | .timerKill _ => true
  | .watcherCheck => true
  | .watcherRead _ => true
  | .watcherTerm _ => true
  | .watcherKill _ => true
  | _ => false

/-- The bytes the PTY reader has read. -/
def ptyBytes (es : List Event) : List UInt8 :=
  es.flatMap fun
    | .ptyRead chunk => chunk
    | _ => []

theorem ptyBytes_append (es fs : List Event) : ptyBytes (es ++ fs) = ptyBytes es ++ ptyBytes fs :=
  List.flatMap_append

/-- What the last `waitpid` has returned. -/
def lastWait (es : List Event) : Option WaitResult :=
  latest (fun | .waitpid r => some r | _ => none) es

/-- What the last `read_errno` has returned. -/
def lastErrno (es : List Event) : Option (Option Int32) :=
  latest (fun | .readErrno errno => some errno | _ => none) es

/-- The response is what came of the command; `during` is what happened since its spawn. -/
inductive Exec.Reports (cfg : Config) (x : Exec) : List Event → Response → Prop where
  | notSpawned {err : SpawnError} (hresult : x.result = .error err) :
      Reports cfg x [] (spawnFailedResponse err)
  | spawned {child : Nat} {during : List Event} {response : Response} {timedOut aborted : Bool}
      {code : Int32} {wait : WaitResult} {errno : Option Int32}
      (hresult : x.result = .ok child)
      (hcommand : ∀ e ∈ during, e.ofCommand = true)
      (hwait : lastWait during = some wait) (hcode : waitForChild wait = some code)
      (herrno : lastErrno during = some errno)
      (htag : (response.error, response.exit) = classify errno timedOut aborted code)
      (htimedOut : timedOut = true ↔ .timerKill child ∈ during)
      (hexpired : timedOut = true ↔ .timeoutExpired ∈ during)
      (htimeout : timedOut = true → x.request.timeout ≠ 0)
      (haborted : aborted = true ↔ .watcherKill child ∈ during)
      (hwatched : aborted = true ↔ ∃ r, .watcherRead r ∈ during ∧ cfg.onWatched r = .term)
      (heof : .ptyEof ∈ during)
      (houtput : response.output = fromUtf8Lossy (push .normal (ptyBytes during)).2) :
      Reports cfg x during response

/-- What a terminal would have shown. -/
def Exec.rawOutput (x : Exec) (during : List Event) : String :=
  match x.result with
  | .ok _ => fromUtf8Lossy (ptyBytes during)
  | .error err => spawnFailedMessage err

/-- The entry of a request that got this response. -/
def Exec.entry (x : Exec) (response : Response) : TranscriptEntry :=
  x.request.entry x.time response.exit response.output response.error

/-- Before this response stands the line it refuses, or the command it reports. -/
def Answers (cfg : Config) (before : List Event) (seq : Option Nat) (response : Response) : Prop :=
  (seq = none ∧ ∃ front text, before = front ++ [.readLine (.line text)] ∧
      cfg.Refuses text response) ∨
    ∃ (front : List Event) (x : Exec) (during : List Event),
      before = front ++ (x.opening ++ during) ∧ seq = some x.seq ∧
      cfg.Accepts x.text x.request ∧ x.Reports cfg during response

/-- Before this record stands the response it records. -/
def Records (cfg : Config) (before : List Event) (seq : Nat) (entry : TranscriptEntry)
    (rawOutput : String) : Prop :=
  ∃ (front : List Event) (x : Exec) (during : List Event) (response : Response) (ok : Bool),
    before = front ++ (x.opening ++ during) ++ [.writeResponse (some x.seq) response ok] ∧
      cfg.Accepts x.text x.request ∧ x.Reports cfg during response ∧
      seq = x.seq ∧ entry = x.entry response ∧ rawOutput = x.rawOutput during

/-! ## A command and what has happened since its spawn -/

/-- The timer has expired. -/
def Command.expired (cmd : Command) : Bool :=
  cmd.timer = .done true

/-- The watcher has honoured an abort or a disconnect. -/
def Command.honoured (cmd : Command) : Bool :=
  cmd.watcher = .done true

/-- The results of the joins are what the threads came to. -/
structure Command.Learnt (cmd : Command) (timedOut aborted : Bool) : Prop where
  done : cmd.Over
  expired : cmd.expired = timedOut
  honoured : cmd.honoured = aborted

/-- What the PTY reader has of the events. -/
structure Command.Reading (cmd : Command) (during : List Event) : Prop where
  filtered : push .normal (ptyBytes during) = (cmd.filter, cmd.buffer.filteredTotal)
  raw : cmd.buffer.rawTotal = ptyBytes during
  eof : cmd.readerDone = true → .ptyEof ∈ during

/-- The timer ends the command, or has ended it. -/
def Timer.ends : Timer → Bool
  | .term => true
  | .kill => true
  | .done timedOut => timedOut
  | _ => false

/-- The watcher ends the command, or has ended it. -/
def Watcher.ends : Watcher → Bool
  | .term => true
  | .kill => true
  | .done aborted => aborted
  | _ => false

/-- What the timer has of them. -/
structure Command.Timing (cmd : Command) (during : List Event) : Prop where
  killed : cmd.expired = true ↔ .timerKill cmd.child ∈ during
  ends : cmd.timer.ends = true ↔ .timeoutExpired ∈ during
  timeout : cmd.timer ≠ .absent → cmd.request.timeout ≠ 0

/-- What the watcher has of them. -/
structure Command.Watching (cfg : Config) (cmd : Command) (during : List Event) : Prop where
  killed : cmd.honoured = true ↔ .watcherKill cmd.child ∈ during
  ends : cmd.watcher.ends = true ↔ ∃ r, .watcherRead r ∈ during ∧ cfg.onWatched r = .term

structure Command.Story (cfg : Config) (cmd : Command) (during : List Event) : Prop where
  command : ∀ e ∈ during, e.ofCommand = true
  reading : cmd.Reading during
  timing : cmd.Timing during
  watching : cmd.Watching cfg during

/-- What the worker has of a command, and the line of its request. -/
def Command.exec (cmd : Command) (text : String) : Exec :=
  { text, seq := cmd.seq, time := cmd.requestTime, request := cmd.request
    result := .ok cmd.child }

/-- What the worker has learnt at a stage of the command. -/
def Stage.Story (cfg : Config) (x : Exec) (cmd : Command) (during : List Event) : Stage → Prop
  | .joinReader => True
  | .joinWatcher timedOut => cmd.readerDone = true ∧ cmd.TimerOver ∧ cmd.expired = timedOut
  | .waitChild timedOut aborted => cmd.readerDone = true ∧ cmd.Learnt timedOut aborted
  | .readErrno timedOut aborted code =>
      cmd.readerDone = true ∧ cmd.Learnt timedOut aborted ∧
        ∃ wait, lastWait during = some wait ∧ waitForChild wait = some code
  | .respond response entry raw =>
      cmd.readerDone = true ∧ cmd.Over ∧ x.Reports cfg during response ∧
        entry = x.entry response ∧ raw = x.rawOutput during
  | _ => cmd.readerDone = true

/-- What the worker is about has happened right before. -/
def Worker.Explained (cfg : Config) (es : List Event) : Worker → Prop
  | .reject response =>
      ∃ front text, es = front ++ [.readLine (.line text)] ∧ cfg.Refuses text response
  | .accepted request =>
      ∃ front text, es = front ++ [.readLine (.line text)] ∧ cfg.Accepts text request
  | .spawning seq request time =>
      ∃ front text, es = front ++ [.readLine (.line text), .fetchAdd seq time] ∧
        cfg.Accepts text request
  | .spawnFailed seq request time err =>
      ∃ front text, es = front ++ Exec.opening ⟨text, seq, time, request, .error err⟩ ∧
        cfg.Accepts text request
  | .running cmd stage =>
      ∃ front text during, es = front ++ ((cmd.exec text).opening ++ during) ∧
        cfg.Accepts text cmd.request ∧ cmd.Story cfg during ∧
        stage.Story cfg (cmd.exec text) cmd during
  | .submitting seq entry raw => Records cfg es seq entry raw
  | _ => True

/-! ## The threads -/

section Threads

variable {cfg : Config} {cmd cmd' : Command} {during : List Event} {e : Event}

/-- An event in which nothing is read. -/
theorem Command.Reading.concat (h : cmd.Reading during) (hchunk : ptyBytes [e] = [])
    (hfilter : cmd'.filter = cmd.filter) (hbuffer : cmd'.buffer = cmd.buffer)
    (hdone : cmd'.readerDone = cmd.readerDone) : cmd'.Reading (during ++ [e]) := by
  have hbytes : ptyBytes (during ++ [e]) = ptyBytes during := by
    rw [ptyBytes_append, hchunk, List.append_nil]
  refine ⟨?_, ?_, fun hd => List.mem_append_left _ (h.eof (hdone ▸ hd))⟩
  · rw [hbytes, hfilter, hbuffer]
    exact h.filtered
  · rw [hbytes, hbuffer]
    exact h.raw

theorem Command.Reading.background (h : cmd.Reading during) (hb : cmd.Background cfg e cmd') :
    cmd'.Reading (during ++ [e]) := by
  cases hb with
  | @ptyRead chunk hopen =>
      have hbytes : ptyBytes (during ++ [.ptyRead chunk]) = ptyBytes during ++ chunk := by
        rw [ptyBytes_append]
        exact congrArg _ (List.append_nil chunk)
      refine ⟨?_, ?_, fun hd => ?_⟩
      · rw [hbytes, push_append, h.filtered]
        rfl
      · rw [hbytes, ← h.raw]
        rfl
      · cases hopen.symm.trans hd
  | ptyEof =>
      have hbytes : ptyBytes (during ++ [.ptyEof]) = ptyBytes during := by
        rw [ptyBytes_append]
        exact List.append_nil _
      exact ⟨by rw [hbytes]; exact h.filtered, by rw [hbytes]; exact h.raw,
        fun _ => List.mem_append_right _ (List.mem_singleton_self _)⟩
  | _ => exact h.concat rfl rfl rfl rfl

/-- An event that neither lets the timer expire nor is its SIGKILL. -/
theorem Command.Timing.concat (h : cmd.Timing during) (hkill : ∀ child, .timerKill child ≠ e)
    (hexpire : .timeoutExpired ≠ e) (hkilled : cmd'.expired = cmd.expired)
    (hends : cmd'.timer.ends = cmd.timer.ends) (hchild : cmd'.child = cmd.child)
    (hrequest : cmd'.request = cmd.request)
    (habsent : cmd'.timer ≠ .absent → cmd.timer ≠ .absent) : cmd'.Timing (during ++ [e]) where
  killed := by rw [hkilled, hchild, h.killed, mem_concat_of_ne (hkill _)]
  ends := by rw [hends, h.ends, mem_concat_of_ne hexpire]
  timeout := fun ht => hrequest ▸ h.timeout (habsent ht)

theorem Command.Timing.background (h : cmd.Timing during) (hb : cmd.Background cfg e cmd') :
    cmd'.Timing (during ++ [e]) := by
  cases hb with
  | timeoutExpired htimer =>
      exact ⟨by simpa [Command.expired, htimer] using h.killed, by simp [Timer.ends],
        fun _ => h.timeout (by simp [htimer])⟩
  | timerCancelled htimer =>
      exact h.concat (by simp) (by simp) (by simp [Command.expired, htimer])
        (by simp [Timer.ends, htimer]) rfl rfl (by simp [htimer])
  | timerTerm htimer =>
      exact h.concat (by simp) (by simp) (by simp [Command.expired, htimer])
        (by simp [Timer.ends, htimer]) rfl rfl (by simp [htimer])
  | timerKill htimer =>
      exact ⟨by simp [Command.expired], by simpa [Timer.ends, htimer] using h.ends,
        fun _ => h.timeout (by simp [htimer])⟩
  | _ => exact h.concat (by simp) (by simp) rfl rfl rfl rfl id

/-- An event that neither makes the watcher end the command nor is its SIGKILL. -/
theorem Command.Watching.concat (h : cmd.Watching cfg during)
    (hkill : ∀ child, .watcherKill child ≠ e)
    (hread : ∀ r, cfg.onWatched r = .term → .watcherRead r ≠ e)
    (hkilled : cmd'.honoured = cmd.honoured) (hends : cmd'.watcher.ends = cmd.watcher.ends)
    (hchild : cmd'.child = cmd.child) : cmd'.Watching cfg (during ++ [e]) where
  killed := by rw [hkilled, hchild, h.killed, mem_concat_of_ne (hkill _)]
  ends := by
    rw [hends, h.ends]
    exact exists_congr fun r => and_congr_left fun hterm =>
      (mem_concat_of_ne (hread r hterm)).symm

theorem Command.Watching.background (h : cmd.Watching cfg during)
    (hb : cmd.Background cfg e cmd') : cmd'.Watching cfg (during ++ [e]) := by
  cases hb with
  | watcherCheck hwatcher =>
      refine h.concat (by simp) (by simp) ?_ ?_ rfl
      · simp only [Command.honoured, hwatcher]
        split <;> simp
      · simp only [hwatcher]
        split <;> rfl
  | @watcherRead r hwatcher =>
      -- the read that makes the watcher kill is the one that is remembered
      rcases cfg.onWatched_cases r with hterm | hcheck
      · have hmem : .watcherRead r ∈ during ++ [Event.watcherRead r] :=
          List.mem_append_right _ (List.mem_singleton_self _)
        exact ⟨by simpa [Command.honoured, hterm, hwatcher] using h.killed,
          iff_of_true (by simp [hterm, Watcher.ends]) ⟨r, hmem, hterm⟩⟩
      · refine h.concat (by simp) ?_ (by simp [Command.honoured, hwatcher, hcheck])
          (by simp [Watcher.ends, hwatcher, hcheck]) rfl
        rintro r' hterm heq
        cases heq
        cases hcheck.symm.trans hterm
  | watcherTerm hwatcher =>
      exact h.concat (by simp) (by simp) (by simp [Command.honoured, hwatcher])
        (by simp [Watcher.ends, hwatcher]) rfl
  | watcherKill hwatcher =>
      exact ⟨by simp [Command.honoured], by simpa [Watcher.ends, hwatcher] using h.ends⟩
  | _ => exact h.concat (by simp) (by simp) rfl rfl rfl

theorem Command.Background.ofCommand (hb : cmd.Background cfg e cmd') : e.ofCommand = true := by
  cases hb <;> rfl

theorem Command.Background.exec (hb : cmd.Background cfg e cmd') (text : String) :
    cmd'.exec text = cmd.exec text := by
  cases hb <;> rfl

theorem Command.Background.readerDone (hb : cmd.Background cfg e cmd')
    (hdone : cmd.readerDone = true) : cmd'.readerDone = true := by
  cases hb <;> first | exact hdone | rfl

/-- When all threads are through, none of them does anything. -/
theorem Command.Background.not_over (hb : cmd.Background cfg e cmd')
    (hdone : cmd.readerDone = true) (hover : cmd.Over) : False := by
  obtain ⟨aborted, hwatched⟩ := hover.watcher
  have htimer := hover.timer
  cases hb with
  | ptyRead hopen => cases hopen.symm.trans hdone
  | ptyEof hopen => cases hopen.symm.trans hdone
  | timeoutExpired ht => simp [Command.TimerOver, ht] at htimer
  | timerCancelled ht => simp [Command.TimerOver, ht] at htimer
  | timerTerm ht => simp [Command.TimerOver, ht] at htimer
  | timerKill ht => simp [Command.TimerOver, ht] at htimer
  | watcherCheck hw => cases hw.symm.trans hwatched
  | watcherRead hw => cases hw.symm.trans hwatched
  | watcherTerm hw => cases hw.symm.trans hwatched
  | watcherKill hw => cases hw.symm.trans hwatched

theorem Command.Story.background (h : cmd.Story cfg during) (hb : cmd.Background cfg e cmd') :
    cmd'.Story cfg (during ++ [e]) where
  command := by
    intro e' he'
    rcases List.mem_append.mp he' with he' | he'
    · exact h.command e' he'
    · rw [List.mem_singleton.mp he']
      exact hb.ofCommand
  reading := h.reading.background hb
  timing := h.timing.background hb
  watching := h.watching.background hb

/-- An event of the worker itself. -/
theorem Command.Story.concat (h : cmd.Story cfg during) (hcommand : e.ofCommand = true)
    (hown : e.ofThread = false) (finished cancelled : Bool) :
    Command.Story cfg { cmd with commandFinished := finished, cancelled := cancelled }
      (during ++ [e]) where
  command := by
    intro e' he'
    rcases List.mem_append.mp he' with he' | he'
    · exact h.command e' he'
    · rw [List.mem_singleton.mp he']
      exact hcommand
  reading := h.reading.concat (by cases e <;> first | rfl | cases hown) rfl rfl rfl
  timing := h.timing.concat (by rintro child rfl; cases hown) (by rintro rfl; cases hown)
    rfl rfl rfl rfl id
  watching := h.watching.concat (by rintro child rfl; cases hown)
    (by rintro r - rfl; cases hown) rfl rfl rfl

theorem Stage.Story.background {stage : Stage} {x : Exec} (h : stage.Story cfg x cmd during)
    (hb : cmd.Background cfg e cmd') : stage.Story cfg x cmd' (during ++ [e]) := by
  cases stage with
  | joinReader => trivial
  | joinWatcher timedOut =>
      obtain ⟨hdone, hover, rfl⟩ := h
      exact ⟨hb.readerDone hdone, hb.timerOver hover,
        by rw [Command.expired, Command.expired, hb.timer_eq hover]⟩
  | waitChild => exact (hb.not_over h.1 h.2.done).elim
  | readErrno => exact (hb.not_over h.1 h.2.1.done).elim
  | respond => exact (hb.not_over h.1 h.2.1).elim
  | _ => exact hb.readerDone h

end Threads

/-! ## The worker -/

/-- A timer that is over has ended the command if it has expired. -/
theorem Command.Learnt.timer_ends {cmd : Command} {timedOut aborted : Bool}
    (h : cmd.Learnt timedOut aborted) : cmd.timer.ends = timedOut := by
  rw [← h.expired]
  rcases h.done.timer with htimer | ⟨done, htimer⟩
  · simp [Command.expired, Timer.ends, htimer]
  · simp [Command.expired, Timer.ends, htimer]

theorem Command.Learnt.watcher_ends {cmd : Command} {timedOut aborted : Bool}
    (h : cmd.Learnt timedOut aborted) : cmd.watcher.ends = aborted := by
  rw [← h.honoured]
  obtain ⟨done, hwatcher⟩ := h.done.watcher
  simp [Command.honoured, Watcher.ends, hwatcher]

section Workers

variable {cfg : Config} {w w' : Worker} {es : List Event} {e : Event}

theorem Config.onLine_reject {p : Bool} {r : ReadLine} {response : Response}
    (h : cfg.onLine p r = .reject response) :
    ∃ text, r = .line text ∧ cfg.Refuses text response := by
  rcases cfg.onLine_cases p r with
    ⟨text, rfl, -, h'⟩ | ⟨text, rfl, hline⟩ | ⟨-, h' | ⟨ansi, h'⟩ | h'⟩
  · cases h.symm.trans h'
  · refine ⟨text, rfl, hline, ?_⟩
    rw [Config.onLine_request hline] at h
    cases p with
    | false => cases h
    | true =>
        simp only [if_true, Config.onRequest] at h
        split at h
        · rename_i err herr
          cases h
          exact .inl ⟨err, herr, rfl⟩
        · rename_i request hrequest
          split at h
          · rename_i hexec
            cases h
            exact .inr ⟨request, hrequest, hexec, rfl⟩
          · cases h
  · cases h.symm.trans h'
  · cases h.symm.trans h'
  · cases h.symm.trans h'

theorem Config.onLine_accepted {p : Bool} {r : ReadLine} {request : Request}
    (h : cfg.onLine p r = .accepted request) :
    ∃ text, r = .line text ∧ cfg.Accepts text request := by
  rcases cfg.onLine_cases p r with
    ⟨text, rfl, -, h'⟩ | ⟨text, rfl, hline⟩ | ⟨-, h' | ⟨ansi, h'⟩ | h'⟩
  · cases h.symm.trans h'
  · rw [Config.onLine_request hline] at h
    cases p with
    | false => cases h
    | true =>
        simp only [if_true, Config.onRequest] at h
        split at h
        · cases h
        · rename_i hrequest
          split at h
          · cases h
          · rename_i hexec
            cases h
            exact ⟨text, rfl, hline, by simpa using hexec, hrequest⟩
  · cases h.symm.trans h'
  · cases h.symm.trans h'
  · cases h.symm.trans h'

/-- The command starts with nothing read, no timer expired and no abort. -/
theorem Command.story_spawned (silent : Bool) (seq : Nat) (request : Request) (time : String)
    (child : Nat) : (Command.spawned silent seq request time child).Story cfg [] where
  command := by simp
  reading := ⟨rfl, rfl, fun hdone => by cases hdone⟩
  timing := by
    refine ⟨?_, ?_, ?_⟩
    · simp only [Command.expired, Command.spawned, List.not_mem_nil, iff_false]
      split <;> simp
    · simp only [Command.spawned, List.not_mem_nil, iff_false]
      split <;> simp [Timer.ends]
    · simp only [Command.spawned]
      split <;> simp_all
  watching :=
    ⟨by simp [Command.honoured, Command.spawned], by simp [Watcher.ends, Command.spawned]⟩

/-- What the worker does while a command runs. -/
theorem Worker.Explained.foreground {cmd : Command} {stage : Stage}
    (h : (Worker.running cmd stage).Explained cfg es) (hf : cmd.Foreground stage e w) :
    w.Explained cfg (es ++ [e]) := by
  obtain ⟨front, text, during, rfl, haccepts, hstory, hstage⟩ := h
  have hes : ∀ e, front ++ ((cmd.exec text).opening ++ during) ++ [e] =
      front ++ ((cmd.exec text).opening ++ (during ++ [e])) := by simp
  -- the worker goes on, with or without setting one of its two flags
  have hgo : ∀ {stage' : Stage} (finished cancelled : Bool), e.ofCommand = true →
      e.ofThread = false → stage'.Story cfg (cmd.exec text)
        { cmd with commandFinished := finished, cancelled := cancelled } (during ++ [e]) →
      (Worker.running { cmd with commandFinished := finished, cancelled := cancelled }
        stage').Explained cfg (front ++ ((cmd.exec text).opening ++ during) ++ [e]) :=
    fun finished cancelled hcommand hown hstage' =>
      ⟨front, text, during ++ [e], hes e, haccepts,
        hstory.concat hcommand hown finished cancelled, hstage'⟩
  cases hf with
  | joinReader hdone =>
      exact hgo cmd.commandFinished cmd.cancelled rfl rfl hdone
  | storeFinished =>
      exact hgo true cmd.cancelled rfl rfl hstage
  | noTimer htimer =>
      exact hgo cmd.commandFinished cmd.cancelled rfl rfl
        ⟨hstage, .inl htimer, by simp [Command.expired, htimer]⟩
  | cancelTimer htimer =>
      exact hgo cmd.commandFinished true rfl rfl hstage
  | joinTimer htimer =>
      exact hgo cmd.commandFinished cmd.cancelled rfl rfl
        ⟨hstage, .inr ⟨_, htimer⟩, by simp [Command.expired, htimer]⟩
  | joinWatcher hwatcher =>
      obtain ⟨hdone, hover, hexpired⟩ := hstage
      exact hgo cmd.commandFinished cmd.cancelled rfl rfl
        ⟨hdone, ⟨hover, _, hwatcher⟩, hexpired, by simp [Command.honoured, hwatcher]⟩
  | waitAgain hwait =>
      exact hgo cmd.commandFinished cmd.cancelled rfl rfl hstage
  | @waited _ _ r code hwait =>
      exact hgo cmd.commandFinished cmd.cancelled rfl rfl
        ⟨hstage.1, hstage.2, r, latest_concat .., hwait⟩
  | @readErrno timedOut aborted code errno =>
      obtain ⟨hdone, hlearnt, wait, hwait, hcode⟩ := hstage
      have hstory' := hstory.concat (e := .readErrno errno) rfl rfl
        cmd.commandFinished cmd.cancelled
      refine hgo cmd.commandFinished cmd.cancelled rfl rfl
        ⟨hdone, hlearnt.done, ?_, rfl, ?_⟩
      · have htimedOut := hlearnt.timer_ends
        have haborted := hlearnt.watcher_ends
        refine .spawned rfl hstory'.command ((latest_concat ..).trans hwait) hcode
          (latest_concat ..) rfl ?_ ?_ ?_ ?_ ?_ (hstory'.reading.eof hdone) ?_
        · rw [← hlearnt.expired]
          exact hstory'.timing.killed
        · rw [← htimedOut]
          exact hstory'.timing.ends
        · intro hexpired
          refine hstory.timing.timeout fun habsent => ?_
          rw [← hlearnt.expired, Command.expired, habsent] at hexpired
          cases hexpired
        · rw [← hlearnt.honoured]
          exact hstory'.watching.killed
        · rw [← haborted]
          exact hstory'.watching.ends
        · rw [hstory'.reading.filtered]
      · exact congrArg fromUtf8Lossy hstory'.reading.raw
  | @respond response entry raw ok =>
      obtain ⟨-, -, hreports, hentry, hraw⟩ := hstage
      exact ⟨front, cmd.exec text, during, response, ok, rfl, haccepts, hreports, rfl, hentry,
        hraw⟩

theorem Worker.Step.explained (h : w.Step cfg e w') (hw : w.Explained cfg es) :
    w'.Explained cfg (es ++ [e]) := by
  cases h with
  | @opening r => exact cfg.onOpening_elim r trivial trivial
  | @line p r =>
      rcases cfg.onLine_leads p r with h | h | h | ⟨ansi, h⟩ | ⟨resp, h⟩ | ⟨request, h⟩
      · rw [h]
        trivial
      · rw [h]
        trivial
      · rw [h]
        trivial
      · rw [h]
        trivial
      · obtain ⟨text, rfl, hrefuses⟩ := Config.onLine_reject h
        rw [h]
        exact ⟨es, text, rfl, hrefuses⟩
      · obtain ⟨text, rfl, haccepts⟩ := Config.onLine_accepted h
        rw [h]
        exact ⟨es, text, rfl, haccepts⟩
  | fetchAdd =>
      obtain ⟨front, text, rfl, haccepts⟩ := hw
      exact ⟨front, text, by simp, haccepts⟩
  | @spawned seq request time child =>
      obtain ⟨front, text, rfl, haccepts⟩ := hw
      exact ⟨front, text, [], by simp [Exec.opening, Command.exec, Command.spawned], haccepts,
        Command.story_spawned .., trivial⟩
  | spawnFailed =>
      obtain ⟨front, text, rfl, haccepts⟩ := hw
      exact ⟨front, text, by simp [Exec.opening], haccepts⟩
  | @failureReported seq request time err =>
      obtain ⟨front, text, rfl, haccepts⟩ := hw
      exact ⟨front, ⟨text, seq, time, request, .error err⟩, [], spawnFailedResponse err, true,
        by simp, haccepts, .notSpawned rfl, rfl, rfl, rfl⟩
  | foreground hf => exact hw.foreground hf
  | @background cmd cmd' stage _ hb =>
      obtain ⟨front, text, during, rfl, haccepts, hstory, hstage⟩ := hw
      refine ⟨front, text, during ++ [e], by simp [hb.exec], ?_, hstory.background hb, ?_⟩
      · have hrequest : cmd'.request = cmd.request := congrArg Exec.request (hb.exec text)
        rw [hrequest]
        exact haccepts
      · rw [hb.exec]
        exact hstage.background hb
  | _ => trivial

theorem explained_run (hrun : run (Worker.step cfg) .start es = some w) : w.Explained cfg es :=
  run_induction (P := fun es w => w.Explained cfg es) trivial
    (fun _ _ _ _ _ hw hstep => (Worker.step_cases hstep).explained hw) hrun

/-- A response a worker writes. -/
theorem Worker.Step.answers {seq : Option Nat} {response : Response} {ok : Bool}
    (h : w.Step cfg (.writeResponse seq response ok) w') (hw : w.Explained cfg es) :
    Answers cfg es seq response := by
  cases h with
  | rejected => exact .inl ⟨rfl, hw⟩
  | notRejected => exact .inl ⟨rfl, hw⟩
  | @failureReported seq request time err =>
      obtain ⟨front, text, rfl, haccepts⟩ := hw
      exact .inr ⟨front, ⟨text, seq, time, request, .error err⟩, [], by simp, rfl, haccepts,
        .notSpawned rfl⟩
  | @abandoned seq request time err =>
      obtain ⟨front, text, rfl, haccepts⟩ := hw
      exact .inr ⟨front, ⟨text, seq, time, request, .error err⟩, [], by simp, rfl, haccepts,
        .notSpawned rfl⟩
  | foreground hf =>
      cases hf with
      | @respond _ entry raw =>
          obtain ⟨front, text, during, rfl, haccepts, -, -, -, hreports, -⟩ := hw
          exact .inr ⟨front, _, during, rfl, rfl, haccepts, hreports⟩
  | background hb => cases hb

/-- A record a worker submits. -/
theorem Worker.Step.records {seq : Nat} {entry : TranscriptEntry} {raw : String}
    (h : w.Step cfg (.submit seq entry raw) w') (hw : w.Explained cfg es) :
    Records cfg es seq entry raw := by
  cases h with
  | submit => exact hw
  | foreground hf => cases hf
  | background hb => cases hb

end Workers

/-! ## The host -/

/-- The events of the worker of a connection. -/
def eventsOf (c : Nat) (es : List Label) : List Event :=
  es.filterMap fun
    | .worker c' e => if c' = c then some e else none
    | _ => none

section Hosts

variable {cfg : Config} {es : List Label} {h : Host}

/-- In a run of the host each worker runs by itself. -/
theorem Host.run_worker (hrun : run (Host.step cfg) Host.init es = some h) (c : Nat) :
    run (Worker.step cfg) .start (eventsOf c es) = some (h.workers c) := by
  refine run_induction
    (P := fun es h => run (Worker.step cfg) .start (eventsOf c es) = some (h.workers c))
    rfl ?_ hrun
  intro es h l h' _ ih hstep
  cases l with
  | worker c' e =>
      obtain ⟨hs, w, -, hw, rfl⟩ := Host.step_worker hstep
      by_cases hc : c' = c
      · subst hc
        have hevents : eventsOf c' (es ++ [.worker c' e]) = eventsOf c' es ++ [e] := by
          simp [eventsOf]
        have hworker : Function.update h.workers c' w c' = w := Function.update_self ..
        rw [hevents]
        exact (run_concat _).mpr
          ⟨_, ih, (Worker.step_iff.mpr hw).trans (congrArg some hworker.symm)⟩
      · have hevents : eventsOf c (es ++ [.worker c' e]) = eventsOf c es := by
          simp [eventsOf, hc]
        have hworker : Function.update h.workers c' w c = h.workers c :=
          Function.update_of_ne (Ne.symm hc) ..
        rw [hevents, ih]
        exact congrArg some hworker.symm
  | _ =>
      obtain ⟨-, hworkers⟩ := Host.step_main (fun c e h => by cases h) hstep
      rw [hworkers, ← ih]
      simp [eventsOf]

/-- Every response of a worker answers what stands right before it, and every record of it
is the response told right before. -/
theorem reports_explained (hrun : run (Host.step cfg) Host.init es = some h) (c : Nat) :
    (∀ before seq response ok after,
      eventsOf c es = before ++ .writeResponse seq response ok :: after →
        Answers cfg before seq response) ∧
    ∀ before seq entry raw after,
      eventsOf c es = before ++ .submit seq entry raw :: after →
        Records cfg before seq entry raw := by
  have hworker := Host.run_worker hrun c
  refine ⟨fun before seq response ok after hes => ?_, fun before seq entry raw after hes => ?_⟩
  · rw [hes] at hworker
    obtain ⟨w, w', hbefore, hstep⟩ := exists_step_of_run _ hworker
    exact (Worker.step_cases hstep).answers (explained_run hbefore)
  · rw [hes] at hworker
    obtain ⟨w, w', hbefore, hstep⟩ := exists_step_of_run _ hworker
    exact (Worker.step_cases hstep).records (explained_run hbefore)

/-- The sample command right after its threads were started. -/
def sampleSpawned : Command :=
  .spawned true 0 sampleRequest "t" 7

/-- From the end of its output to the joins. -/
def sampleJoins : List Event :=
  [.ptyEof, .joinReader, .storeFinished, .cancelTimer, .watcherCheck, .joinWatcher]

theorem run_sampleJoins :
    ∃ cmd, cmd.seq = 0 ∧ fromUtf8Lossy cmd.buffer.filteredTotal = "" ∧
      run (Worker.step (.compact true)) (.running sampleSpawned .joinReader) sampleJoins =
        some (.running cmd (.waitChild false false)) := by
  have htimeout : sampleRequest.timeout = 0 := by
    rfl
  have houtput : fromUtf8Lossy (PtyBuffer.new true).setEof.filteredTotal = "" := by
    rfl
  simp [sampleJoins, sampleSpawned, run_cons, Worker.step, Command.spawned,
    Command.foreground, Command.background, htimeout, houtput]

/-- What a command that prints a line reports. -/
def sampleReport : Response :=
  { exit := 0, output := "h\n", error := none }

def sampleReportEntry : TranscriptEntry :=
  sampleRequest.entry "t" 0 "h\n" none

/-- From the spawn of the sample command to its response. -/
def sampleReporting : List Event :=
  .ptyRead [104, 13] :: sampleJoins ++
    [.waitpid (.exited 0), .readErrno none, .writeResponse (some 0) sampleReport true]

def sampleReported : List Label :=
  sampleCommand 0 0 ++ [.worker 0 (.spawn sampleRequest (.ok 7))] ++
    sampleReporting.map (.worker 0) ++ [.worker 0 (.submit 0 sampleReportEntry "h\r")]

theorem run_sampleReporting :
    run (Worker.step (.compact true)) (.running sampleSpawned .joinReader) sampleReporting =
      some (.submitting 0 sampleReportEntry "h\r") := by
  have htimeout : sampleRequest.timeout = 0 := rfl
  have hfiltered : fromUtf8Lossy (push .normal [104, 13]).2 = "h\n" := rfl
  have hraw : fromUtf8Lossy [104, 13] = "h\r" := rfl
  have htag : classify none false false 0 = (none, 0) := rfl
  simp [sampleReporting, sampleJoins, sampleSpawned, run_cons, Worker.step, Command.spawned,
    Command.foreground, Command.background, Command.outcome, waitForChild, PtyBuffer.append,
    PtyBuffer.setEof, PtyBuffer.new, htimeout, hfiltered, hraw, htag, sampleReport,
    sampleReportEntry]

theorem run_sampleReported :
    ∃ h, run (Host.step (.compact true)) Host.init sampleReported = some h := by
  have hprivate : ∀ e ∈ sampleReporting, e.isPrivate = true := by decide
  have hmain : Host.init.main = .loopTop := rfl
  have hreporting := @Host.run_private (.compact true)
    { Host.init with
      nextSeq := 1, accepted := 1
      workers := Function.update Host.init.workers 0 (.running sampleSpawned .joinReader) }
    0 _ _ (by decide) Nat.zero_lt_one hprivate run_sampleReporting
  have hbefore := run_of_append _ run_sampleSpawn hreporting
  rw [sampleReported, run_append, hbefore]
  simp [run_cons, Host.step, Host.share, Worker.step, hmain]

theorem reports_explained_sampleReported :
    ∃ before after, eventsOf 0 sampleReported =
        before ++ .writeResponse (some 0) sampleReport true :: after ∧
      Answers (.compact true) before (some 0) sampleReport ∧
      Records (.compact true) (before ++ [.writeResponse (some 0) sampleReport true]) 0
        sampleReportEntry "h\r" := by
  obtain ⟨h, hrun⟩ := run_sampleReported
  obtain ⟨hanswers, hrecords⟩ := reports_explained hrun 0
  exact ⟨_, _, rfl, hanswers (sampleOpening ++ [.fetchAdd 0 "t", .spawn sampleRequest (.ok 7)] ++
      .ptyRead [104, 13] :: sampleJoins ++ [.waitpid (.exited 0), .readErrno none]) _ _ true _ rfl,
    hrecords _ _ _ _ [] rfl⟩

end Hosts

end Rexec
