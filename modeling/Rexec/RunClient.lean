import Rexec.Lib.JsonNesting
import Rexec.Framing
import Mathlib.Tactic

/-!
# The client that runs one command

`client::run` connects, pings twice, writes its request and reads the response.
Its handlers of SIGINT, SIGTERM and SIGHUP write the abort line while
`ABORT_FD` holds the socket and then let the signal kill the process; they may
run at any moment, also inside each other and between two writes of one line.
`AbortGuard` writes the abort line when `run` unwinds.

The machine has one label for each write of a part of a line, for each call that
may fail, and for each step of a handler.  `Sound` says what is on the socket: a
beginning of the two Pings and the request, and behind it beginnings of the
abort line, one for each handler that ran and one for the guard.
-/

namespace Rexec

open Machine

/-- The signals `install_abort_handlers` handles. -/
inductive AbortSignal where
  | int
  | term
  | hup
deriving DecidableEq

/-- Where `run` stands. -/
inductive RunPhase where
  | connecting
  /-- writing the opening Ping -/
  | hello
  | greeting
  /-- `--dir`, the environment and the standard input -/
  | preparing
  | installing (todo : List AbortSignal)
  | arming
  /-- writing the Ping of the command -/
  | ping
  | pong
  /-- writing the request and its line feed -/
  | sending
  | receiving
  /-- the request has failed or was answered; the guard is still armed -/
  | disarming
  /-- the guard is disarmed, and the response is printed -/
  | reporting
  /-- a panic: the guard is about to write the abort line -/
  | unwinding
  /-- the guard has written it -/
  | unwound
  | exited
deriving DecidableEq

structure RunClient where
  phase : RunPhase
  /-- what the current `write_all` has still to write -/
  rest : List UInt8
  /-- the socket is open at this end -/
  connected : Bool
  /-- `ABORT_FD` holds the socket -/
  armed : Bool
  /-- the signals whose handlers are installed -/
  installed : List AbortSignal
  /-- the handlers in progress, the innermost first, and whether they have written -/
  handling : List (AbortSignal × Bool)
  alive : Bool
  /-- everything written on the socket -/
  sent : List UInt8
  /-- the part of it that `run` itself has written -/
  script : List UInt8
  /-- the parts that handlers and the guard have written -/
  aborts : List (List UInt8)

namespace RunClient

def init : RunClient :=
  { phase := .connecting, rest := [], connected := false, armed := false
    installed := [], handling := [], alive := true, sent := [], script := []
    aborts := [] }

/-- What `run` does next. -/
inductive Act where
  | connect (ok : Bool)
  /-- `write` has taken `n` bytes -/
  | write (n : Nat)
  | writeFailed
  /-- a Pong or the response, or no such thing -/
  | read (ok : Bool)
  | prepare (ok : Bool)
  | install
  | arm
  | disarm
  | finish
  | panic
  | guardWrite (n : Nat)
  | guardDisarm
deriving DecidableEq

inductive Label where
  | main (a : Act)
  | signal (s : AbortSignal)
  /-- the innermost handler writes; `n` bytes of the abort line are taken -/
  | abortWrite (n : Nat)
  /-- it restores the default disposition and raises the signal -/
  | die
  | kill
deriving DecidableEq

/-- `run` gives the connection up and returns. -/
def exit (s : RunClient) : RunClient :=
  { s with phase := .exited, rest := [], connected := false }

/-- A write or read of `run` fails; the guard, if there is one, is disarmed next. -/
def fail (s : RunClient) : Option RunClient :=
  match s.phase with
  | .hello | .greeting => some s.exit
  | .ping | .pong | .sending | .receiving => some { s with phase := .disarming, rest := [] }
  | _ => none

/-- The phase after a line is written. -/
def written : RunPhase → Option RunPhase
  | .hello => some .greeting
  | .ping => some .pong
  | .sending => some .receiving
  | _ => none

/-- Some bytes are written on the socket by `run`. -/
def push (s : RunClient) (n : Nat) : RunClient :=
  { s with
    sent := s.sent ++ s.rest.take n, script := s.script ++ s.rest.take n
    rest := s.rest.drop n }

/-- Bytes of the abort line are written on the socket. -/
def pushAbort (s : RunClient) (n : Nat) : RunClient :=
  { s with
    sent := s.sent ++ (bytes abortLine).take n
    aborts := s.aborts ++ [(bytes abortLine).take n] }

def act (requestLine : List UInt8) (s : RunClient) : Act → Option RunClient
  | .connect ok =>
      if s.phase = .connecting then
        some (if ok then { s with phase := .hello, rest := bytes pingLine, connected := true }
          else s.exit)
      else none
  | .write n =>
      match written s.phase with
      | some next =>
          if 0 < n ∧ n ≤ s.rest.length then
            let s' := s.push n
            some (if s'.rest = [] then { s' with phase := next } else s')
          else none
      | none => none
  | .writeFailed => if (written s.phase).isSome then s.fail else none
  | .read ok =>
      match s.phase with
      | .greeting => if ok then some { s with phase := .preparing } else s.fail
      | .pong => if ok then some { s with phase := .sending, rest := requestLine } else s.fail
      | .receiving => some { s with phase := .disarming }
      | _ => none
  | .prepare ok =>
      if s.phase = .preparing then
        some (if ok then { s with phase := .installing [.int, .term, .hup] } else s.exit)
      else none
  | .install =>
      match s.phase with
      | .installing (sig :: todo) =>
          some { s with
            installed := sig :: s.installed
            phase := if todo = [] then .arming else .installing todo }
      | _ => none
  | .arm =>
      if s.phase = .arming then
        some { s with phase := .ping, rest := bytes pingLine, armed := true }
      else none
  | .disarm =>
      if s.phase = .disarming then some { s with phase := .reporting, armed := false } else none
  | .finish => if s.phase = .reporting then some s.exit else none
  | .panic =>
      match s.phase with
      | .ping | .pong | .sending | .receiving | .disarming =>
          some { s with phase := .unwinding, rest := [] }
      | .unwinding | .unwound | .exited => none
      | _ => some s.exit
  | .guardWrite n =>
      if s.phase = .unwinding ∧ n ≤ (bytes abortLine).length then
        some { s.pushAbort n with phase := .unwound }
      else none
  | .guardDisarm => if s.phase = .unwound then some { s.exit with armed := false } else none

/-- The process is over, and with it the socket. -/
def stop (s : RunClient) : RunClient :=
  { s with alive := false, connected := false, rest := [] }

def step (requestLine : List UInt8) (s : RunClient) : Label → Option RunClient
  | .main a => if s.alive = true ∧ s.handling = [] then s.act requestLine a else none
  | .signal sig =>
      if s.alive = true ∧ sig ∉ s.handling.map Prod.fst then
        some (if sig ∈ s.installed then { s with handling := (sig, false) :: s.handling }
          else s.stop)
      else none
  | .abortWrite n =>
      match s.handling with
      | (sig, false) :: outer =>
          if s.alive = true ∧ n ≤ (bytes abortLine).length then
            let s' := { s with handling := (sig, true) :: outer }
            some (if s.armed then s'.pushAbort n else s')
          else none
      | _ => none
  | .die =>
      match s.handling with
      | (_, true) :: _ => if s.alive then some s.stop else none
      | _ => none
  | .kill => if s.alive then some s.stop else none

/-! ## What is on the socket -/

/-- The two Pings and the request. -/
def whole (requestLine : List UInt8) : List UInt8 :=
  bytes pingLine ++ (bytes pingLine ++ requestLine)

end RunClient

namespace RunPhase

/-- `run` may still write. -/
def live : RunPhase → Bool
  | .disarming | .reporting | .unwinding | .unwound | .exited => false
  | _ => true

/-- The guard is armed. -/
def guarded : RunPhase → Bool
  | .ping | .pong | .sending | .receiving | .disarming | .unwinding | .unwound => true
  | _ => false

/-- The opening Ping is written. -/
def opened : RunPhase → Bool
  | .connecting | .hello | .exited => false
  | _ => true

/-- The socket is open. -/
def linked : RunPhase → Bool
  | .connecting | .exited => false
  | _ => true

/-- What `run` will write after the line it is writing. -/
def todo (requestLine : List UInt8) : RunPhase → List UInt8
  | .connecting => RunClient.whole requestLine
  | .hello | .greeting | .preparing | .installing _ | .arming => bytes pingLine ++ requestLine
  | .ping | .pong => requestLine
  | _ => []

theorem opened_of_guarded {ph : RunPhase} (h : ph.guarded = true) : ph.opened = true := by
  cases ph <;> first | rfl | cases h

theorem linked_of_opened {ph : RunPhase} (h : ph.opened = true) : ph.linked = true := by
  cases ph <;> first | rfl | cases h

end RunPhase

namespace RunClient

theorem written_live {ph next : RunPhase} (h : written ph = some next) (requestLine : List UInt8) :
    ph.live = true ∧ next.todo requestLine = ph.todo requestLine ∧ written next = none ∧
      next.guarded = ph.guarded := by
  cases ph <;> cases h <;> exact ⟨rfl, rfl, rfl, rfl⟩

theorem written_opened {ph next : RunPhase} (h : written ph = some next) :
    ph.opened = true ∨ ph = .hello := by
  cases ph <;> cases h <;> first | exact .inl rfl | exact .inr rfl

theorem written_linked {ph next : RunPhase} (h : written ph = some next) :
    ph.linked = true := by
  cases ph <;> cases h <;> rfl

/-- What holds between the script, the handlers and the socket. -/
structure Sound (requestLine : List UInt8) (s : RunClient) : Prop where
  sent : s.sent = s.script ++ s.aborts.flatten
  piece : ∀ p ∈ s.aborts, p <+: bytes abortLine
  front : s.script <+: whole requestLine
  follows : s.alive = true → s.phase.live = true →
    s.script ++ (s.rest ++ s.phase.todo requestLine) = whole requestLine
  settled : s.alive = true → written s.phase = none → s.rest = []
  clean : s.alive = true → s.handling = [] → s.phase.live = true → s.aborts = []
  guarded : s.alive = true → s.armed = true → s.phase.guarded = true
  opened : s.alive = true → s.phase.opened = true → bytes pingLine <+: s.script
  linked : s.alive = true → s.phase.linked = true → s.connected = true
  late : s.aborts ≠ [] → bytes pingLine <+: s.script

variable {requestLine : List UInt8} {s t : RunClient}

theorem sound_init : Sound requestLine init where
  sent := rfl
  piece := by simp [init]
  front := List.nil_prefix
  follows _ _ := rfl
  settled _ _ := rfl
  clean _ _ _ := rfl
  guarded _ h := by cases h
  opened _ h := by cases h
  linked _ h := by cases h
  late h := absurd rfl h

/-- A step in which `run` writes nothing; `extra` is what a handler or the guard writes. -/
theorem Sound.move (h : Sound requestLine s) (extra : List (List UInt8))
    (hsent : t.sent = s.sent ++ extra.flatten) (hscript : t.script = s.script)
    (haborts : t.aborts = s.aborts ++ extra)
    (hextra : ∀ p ∈ extra, p <+: bytes abortLine)
    (hlate : extra ≠ [] → bytes pingLine <+: s.script)
    (follows : t.alive = true → t.phase.live = true →
      s.script ++ (t.rest ++ t.phase.todo requestLine) = whole requestLine)
    (settled : t.alive = true → written t.phase = none → t.rest = [])
    (clean : t.alive = true → t.handling = [] → t.phase.live = true → t.aborts = [])
    (guarded : t.alive = true → t.armed = true → t.phase.guarded = true)
    (opened : t.alive = true → t.phase.opened = true → bytes pingLine <+: s.script)
    (linked : t.alive = true → t.phase.linked = true → t.connected = true) :
    Sound requestLine t where
  sent := by
    rw [hsent, hscript, haborts, h.sent, List.flatten_append, List.append_assoc]
  piece := by
    rw [haborts]
    intro p hp
    rcases List.mem_append.mp hp with hp | hp
    · exact h.piece p hp
    · exact hextra p hp
  front := by rw [hscript]; exact h.front
  follows := by rw [hscript]; exact follows
  settled := settled
  clean := clean
  guarded := guarded
  opened := by rw [hscript]; exact opened
  linked := linked
  late := by
    rw [haborts, hscript]
    intro hne
    by_cases hextra : extra = []
    · exact h.late (by simpa [hextra] using hne)
    · exact hlate hextra

/-- A step that writes nothing. -/
theorem Sound.quiet (h : Sound requestLine s) (hsent : t.sent = s.sent)
    (hscript : t.script = s.script) (haborts : t.aborts = s.aborts)
    (follows : t.alive = true → t.phase.live = true →
      s.script ++ (t.rest ++ t.phase.todo requestLine) = whole requestLine)
    (settled : t.alive = true → written t.phase = none → t.rest = [])
    (clean : t.alive = true → t.handling = [] → t.phase.live = true → s.aborts = [])
    (guarded : t.alive = true → t.armed = true → t.phase.guarded = true)
    (opened : t.alive = true → t.phase.opened = true → bytes pingLine <+: s.script)
    (linked : t.alive = true → t.phase.linked = true → t.connected = true) :
    Sound requestLine t :=
  h.move [] (by simpa using hsent) hscript (by simpa using haborts) (by simp)
    (by simp) follows settled (haborts ▸ clean) guarded opened linked

/-- `run` returns, or the process is killed. -/
theorem Sound.exit (h : Sound requestLine s) (harmed : s.armed = false) :
    Sound requestLine s.exit :=
  h.quiet rfl rfl rfl (fun _ hlive => by cases hlive) (fun _ _ => rfl)
    (fun _ _ hlive => by cases hlive) (fun _ ha => by simp [RunClient.exit, harmed] at ha)
    (fun _ ho => by cases ho) (fun _ hl => by cases hl)

theorem Sound.stop (h : Sound requestLine s) : Sound requestLine s.stop := by
  have hdead : s.stop.alive ≠ true := by simp [RunClient.stop]
  exact h.quiet rfl rfl rfl (fun ha => absurd ha hdead) (fun ha => absurd ha hdead)
    (fun ha => absurd ha hdead) (fun ha => absurd ha hdead) (fun ha => absurd ha hdead)
    (fun ha => absurd ha hdead)

theorem Sound.unarmed (h : Sound requestLine s) (halive : s.alive = true)
    (hphase : s.phase.guarded = false) : s.armed = false := by
  cases harmed : s.armed with
  | false => rfl
  | true =>
      have hguarded := h.guarded halive harmed
      rw [hphase] at hguarded
      cases hguarded

theorem Sound.fail (h : Sound requestLine s) (halive : s.alive = true)
    (hfail : s.fail = some t) : Sound requestLine t := by
  unfold RunClient.fail at hfail
  cases hphase : s.phase <;> rw [hphase] at hfail <;> cases hfail
  case hello => exact h.exit (h.unarmed halive (by rw [hphase]; rfl))
  case greeting => exact h.exit (h.unarmed halive (by rw [hphase]; rfl))
  all_goals
    refine h.quiet rfl rfl rfl (fun _ hlive => by cases hlive) (fun _ _ => rfl)
      (fun _ _ hlive => by cases hlive) (fun _ _ => rfl)
      (fun _ _ => h.opened halive (by rw [hphase]; rfl))
      (fun _ _ => h.linked halive (by rw [hphase]; rfl))

/-- Part of a line is written; `ph` is where `run` stands then. -/
theorem Sound.push (h : Sound requestLine s) (halive : s.alive = true)
    (hidle : s.handling = []) {next : RunPhase} (hnext : written s.phase = some next) (n : Nat)
    {ph : RunPhase}
    (hph : ph = s.phase ∨ ph = next ∧ (s.push n).rest = []) :
    Sound requestLine { s.push n with phase := ph } := by
  obtain ⟨hlive, htodo, hend, hguarded⟩ := written_live hnext requestLine
  have hclean : s.aborts = [] := h.clean halive hidle hlive
  have hscript : (s.push n).script ++ ((s.push n).rest ++ s.phase.todo requestLine) =
      whole requestLine := by
    rw [← h.follows halive hlive]
    show s.script ++ s.rest.take n ++ (s.rest.drop n ++ _) = _
    rw [List.append_assoc, ← List.append_assoc (s.rest.take n), List.take_append_drop]
  have hfollows : (s.push n).script ++ ((s.push n).rest ++ ph.todo requestLine) =
      whole requestLine := by
    rcases hph with rfl | ⟨rfl, -⟩
    · exact hscript
    · rwa [htodo]
  have hstays : ph.guarded = s.phase.guarded := by
    rcases hph with rfl | ⟨rfl, -⟩
    · rfl
    · exact hguarded
  have hmore : bytes pingLine <+: s.script → bytes pingLine <+: (s.push n).script :=
    fun hp => hp.trans (List.prefix_append _ _)
  refine ⟨?_, ?_, ⟨_, hfollows⟩, fun _ _ => hfollows, ?_, fun _ _ _ => hclean, ?_, ?_, ?_, ?_⟩
  · show s.sent ++ s.rest.take n = s.script ++ s.rest.take n ++ s.aborts.flatten
    rw [h.sent, hclean]
    simp
  · exact h.piece
  · intro _ hnone
    rcases hph with rfl | ⟨-, hrest⟩
    · rw [show written s.phase = none from hnone] at hnext
      cases hnext
    · exact hrest
  · intro _ harmed
    exact hstays.trans (h.guarded halive harmed)
  · intro _ hopen
    by_cases hbefore : s.phase.opened = true
    · exact hmore (h.opened halive hbefore)
    · -- the opening Ping is the only line written before `opened`
      have hhello : s.phase = .hello := (written_opened hnext).resolve_left hbefore
      rw [hhello] at hnext hph hscript
      cases hnext
      rcases hph with rfl | ⟨rfl, hrest⟩
      · cases hopen
      · rw [hrest, List.nil_append] at hscript
        have heq : (s.push n).script = bytes pingLine := List.append_cancel_right hscript
        exact heq ▸ List.prefix_refl _
  · exact fun _ _ => h.linked halive (written_linked hnext)
  · exact fun hne => absurd hclean hne

theorem Sound.act (h : Sound requestLine s) (halive : s.alive = true)
    (hidle : s.handling = []) {a : Act} (hact : s.act requestLine a = some t) :
    Sound requestLine t := by
  -- a move of `run` that neither writes nor ends it
  have hgo : ∀ {t : RunClient}, t.sent = s.sent → t.script = s.script → t.aborts = s.aborts →
      t.connected = s.connected → s.phase.live = true → s.phase.opened = true →
      s.rest = [] → t.rest ++ t.phase.todo requestLine = s.phase.todo requestLine →
      (written t.phase = none → t.rest = []) →
      (t.alive = true → t.armed = true → t.phase.guarded = true) → Sound requestLine t := by
    intro t hsent hscript haborts hconn hlive hopen hrest htodo hsettled hguarded
    have hfollows := h.follows halive hlive
    rw [hrest, List.nil_append] at hfollows
    exact h.quiet hsent hscript haborts (fun _ _ => htodo ▸ hfollows) (fun _ => hsettled)
      (fun _ _ _ => h.clean halive hidle hlive) hguarded (fun _ _ => h.opened halive hopen)
      (fun _ _ => hconn.trans (h.linked halive (RunPhase.linked_of_opened hopen)))
  -- the request has been dealt with, and the guard is left
  have hleave : ∀ {t : RunClient}, t.sent = s.sent → t.script = s.script →
      t.aborts = s.aborts → t.connected = s.connected → s.phase.opened = true →
      t.phase.live = false → t.rest = [] →
      (t.alive = true → t.armed = true → t.phase.guarded = true) → Sound requestLine t := by
    intro t hsent hscript haborts hconn hopen hlive hrest hguarded
    have hnot : t.phase.live ≠ true := by simp [hlive]
    exact h.quiet hsent hscript haborts (fun _ ht => absurd ht hnot) (fun _ _ => hrest)
      (fun _ _ ht => absurd ht hnot) hguarded (fun _ _ => h.opened halive hopen)
      (fun _ _ => hconn.trans (h.linked halive (RunPhase.linked_of_opened hopen)))
  cases a with
  | connect ok =>
      simp only [RunClient.act] at hact
      split at hact
      · rename_i hphase
        cases hact
        have harmed := h.unarmed halive (by rw [hphase]; rfl)
        split
        · have hrest := h.settled halive (by rw [hphase]; rfl)
          have hfollows := h.follows halive (by rw [hphase]; rfl)
          rw [hphase, hrest] at hfollows
          exact h.quiet rfl rfl rfl (fun _ _ => hfollows) (fun _ hnone => by cases hnone)
            (fun _ _ _ => h.clean halive hidle (by rw [hphase]; rfl))
            (fun _ ha => by simp [harmed] at ha) (fun _ ho => by cases ho) (fun _ _ => rfl)
        · exact h.exit harmed
      · cases hact
  | write n =>
      simp only [RunClient.act] at hact
      split at hact
      · rename_i next hnext
        split at hact
        · cases hact
          split
          · rename_i hrest
            exact h.push halive hidle hnext n (.inr ⟨rfl, hrest⟩)
          · exact h.push halive hidle hnext n (.inl rfl)
        · cases hact
      · cases hact
  | writeFailed =>
      simp only [RunClient.act] at hact
      split at hact
      · exact h.fail halive hact
      · cases hact
  | read ok =>
      simp only [RunClient.act] at hact
      split at hact
      · rename_i hphase
        have hrest := h.settled halive (by rw [hphase]; rfl)
        have harmed := h.unarmed halive (by rw [hphase]; rfl)
        split at hact
        · cases hact
          exact hgo rfl rfl rfl rfl (by rw [hphase]; rfl) (by rw [hphase]; rfl) hrest
            (by rw [hrest, hphase]; rfl) (fun _ => hrest) (fun _ ha => by simp [harmed] at ha)
        · exact h.fail halive hact
      · rename_i hphase
        have hrest := h.settled halive (by rw [hphase]; rfl)
        split at hact
        · cases hact
          exact hgo rfl rfl rfl rfl (by rw [hphase]; rfl) (by rw [hphase]; rfl) hrest
            (by rw [hphase]; simp [RunPhase.todo]) (fun hnone => by cases hnone) (fun _ _ => rfl)
        · exact h.fail halive hact
      · rename_i hphase
        cases hact
        exact hleave rfl rfl rfl rfl (by rw [hphase]; rfl) rfl
          (h.settled halive (by rw [hphase]; rfl)) (fun _ _ => rfl)
      · cases hact
  | prepare ok =>
      simp only [RunClient.act] at hact
      split at hact
      · rename_i hphase
        cases hact
        have harmed := h.unarmed halive (by rw [hphase]; rfl)
        have hrest := h.settled halive (by rw [hphase]; rfl)
        split
        · exact hgo rfl rfl rfl rfl (by rw [hphase]; rfl) (by rw [hphase]; rfl) hrest
            (by rw [hrest, hphase]; rfl) (fun _ => hrest) (fun _ ha => by simp [harmed] at ha)
        · exact h.exit harmed
      · cases hact
  | install =>
      simp only [RunClient.act] at hact
      split at hact
      · rename_i hphase
        cases hact
        have harmed := h.unarmed halive (by rw [hphase]; rfl)
        have hrest := h.settled halive (by rw [hphase]; rfl)
        refine hgo rfl rfl rfl rfl (by rw [hphase]; rfl) (by rw [hphase]; rfl) hrest ?_
          (fun _ => hrest) (fun _ ha => by simp [harmed] at ha)
        rw [hrest, hphase]
        show [] ++ RunPhase.todo requestLine (if _ then _ else _) = _
        split <;> rfl
      · cases hact
  | arm =>
      simp only [RunClient.act] at hact
      split at hact
      · rename_i hphase
        cases hact
        exact hgo rfl rfl rfl rfl (by rw [hphase]; rfl) (by rw [hphase]; rfl)
          (h.settled halive (by rw [hphase]; rfl)) (by rw [hphase]; rfl)
          (fun hnone => by cases hnone) (fun _ _ => rfl)
      · cases hact
  | disarm =>
      simp only [RunClient.act] at hact
      split at hact
      · rename_i hphase
        cases hact
        exact hleave rfl rfl rfl rfl (by rw [hphase]; rfl) rfl
          (h.settled halive (by rw [hphase]; rfl)) (fun _ ha => by cases ha)
      · cases hact
  | finish =>
      simp only [RunClient.act] at hact
      split at hact
      · rename_i hphase
        cases hact
        exact h.exit (h.unarmed halive (by rw [hphase]; rfl))
      · cases hact
  | panic =>
      simp only [RunClient.act] at hact
      cases hphase : s.phase <;> rw [hphase] at hact <;> cases hact
      all_goals first
        | exact h.exit (h.unarmed halive (by rw [hphase]; rfl))
        | exact hleave rfl rfl rfl rfl (by rw [hphase]; rfl) rfl rfl (fun _ _ => rfl)
  | guardWrite n =>
      simp only [RunClient.act] at hact
      split at hact
      · rename_i hc
        cases hact
        have hopen := h.opened halive (by rw [hc.1]; rfl)
        exact h.move [(bytes abortLine).take n] (by simp [pushAbort]) rfl rfl
          (by simp [List.take_prefix]) (fun _ => hopen) (fun _ hlive => by cases hlive)
          (fun _ _ => h.settled halive (by rw [hc.1]; rfl)) (fun _ _ hlive => by cases hlive)
          (fun _ _ => rfl) (fun _ _ => hopen)
          (fun _ _ => h.linked halive (by rw [hc.1]; rfl))
      · cases hact
  | guardDisarm =>
      simp only [RunClient.act] at hact
      split at hact
      · cases hact
        exact h.quiet rfl rfl rfl (fun _ hlive => by cases hlive) (fun _ _ => rfl)
          (fun _ _ hlive => by cases hlive) (fun _ ha => by cases ha) (fun _ ho => by cases ho)
          (fun _ hl => by cases hl)
      · cases hact

theorem Sound.step (h : Sound requestLine s) {l : Label}
    (hstep : s.step requestLine l = some t) : Sound requestLine t := by
  cases l with
  | main a =>
      simp only [RunClient.step] at hstep
      split at hstep
      · rename_i hc
        exact h.act hc.1 hc.2 hstep
      · cases hstep
  | signal sig =>
      simp only [RunClient.step] at hstep
      split at hstep
      · rename_i hc
        cases hstep
        split
        · exact h.quiet rfl rfl rfl h.follows h.settled (fun _ hnil => by cases hnil) h.guarded
            h.opened h.linked
        · exact h.stop
      · cases hstep
  | abortWrite n =>
      simp only [RunClient.step] at hstep
      split at hstep
      · split at hstep
        · rename_i hc
          cases hstep
          split
          · rename_i harmed
            have hopen := h.opened hc.1
              (RunPhase.opened_of_guarded (h.guarded hc.1 harmed))
            exact h.move [(bytes abortLine).take n]
              (by simp [pushAbort]) rfl rfl (by simp [List.take_prefix])
              (fun _ => hopen) h.follows h.settled (fun _ hnil => by cases hnil) h.guarded
              h.opened h.linked
          · exact h.quiet rfl rfl rfl h.follows h.settled (fun _ hnil => by cases hnil) h.guarded
              h.opened h.linked
        · cases hstep
      · cases hstep
  | die =>
      simp only [RunClient.step] at hstep
      split at hstep
      · split at hstep
        · cases hstep
          exact h.stop
        · cases hstep
      · cases hstep
  | kill =>
      simp only [RunClient.step] at hstep
      split at hstep
      · cases hstep
        exact h.stop
      · cases hstep

end RunClient
end Rexec
