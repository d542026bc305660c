import Rexec.Host
import Mathlib.Tactic

/-!
# Signals and reaping

The timer and the watcher of a command send SIGTERM and, after a while, SIGKILL
to the process group of its child.  Once the worker has waited for the child its
number may belong to another process, so no thread of the command may be inside
`kill_child_group` by then.

* `Command.Over` says that both threads are done.  The joins make it hold before
  the worker waits, and it still holds when the command is over
  (`Worker.Step.joined`).
* `Alive` says of a trace that a worker has spawned a child and has neither
  waited nor spawned since.  As long as a thread of a command is not done, its
  child is alive (`run_guarded`).
* `signals_alive` says of every run: whatever is signalled is the living child of
  the command the signalling thread belongs to.
-/

namespace Rexec

open Machine

/-! ## What happens to a child -/

/-- A signal to the process group of the child. -/
def Event.Signals (child : Nat) : Event → Prop
  | .timerTerm target => target = child
  | .timerKill target => target = child
  | .watcherTerm target => target = child
  | .watcherKill target => target = child
  | _ => False

/-- Worker `c` spawns the child. -/
def Label.Spawns (c child : Nat) (l : Label) : Prop :=
  ∃ request, l = .worker c (.spawn request (.ok child))

/-- Worker `c` waits for its child. -/
def Label.Waits (c : Nat) (l : Label) : Prop :=
  ∃ r, l = .worker c (.waitpid r)

/-- Worker `c` waits for its child, and the child is reaped. -/
def Label.Reaps (c : Nat) (l : Label) : Prop :=
  ∃ r, (waitForChild r).isSome ∧ l = .worker c (.waitpid r)

/-- Worker `c` spawned the child, and has neither waited nor spawned since. -/
def Alive (es : List Label) (c child : Nat) : Prop :=
  Since es (Label.Spawns c child) fun l => ¬ l.Waits c ∧ ∀ other, ¬ l.Spawns c other

/-- The same, and no worker has spawned another child with its number. -/
def AliveAlone (es : List Label) (c child : Nat) : Prop :=
  Since es (Label.Spawns c child) fun l =>
    (¬ l.Waits c ∧ ∀ other, ¬ l.Spawns c other) ∧ ∀ d, ¬ l.Spawns d child

/-- The number of a child is not given to another process before it is reaped. -/
def FreshChildren (es : List Label) : Prop :=
  ∀ before l after, es = before ++ l :: after → ∀ c child, l.Spawns c child →
    ∀ owner, ¬ Since before (Label.Spawns owner child) fun l => ¬ l.Reaps owner

/-! ## The threads of a command -/

def Command.TimerOver (cmd : Command) : Prop :=
  cmd.timer = .absent ∨ ∃ timedOut, cmd.timer = .done timedOut

/-- No thread of the command is left that could signal. -/
structure Command.Over (cmd : Command) : Prop where
  timer : cmd.TimerOver
  watcher : ∃ aborted, cmd.watcher = .done aborted

/-- What the joins have made sure of at each stage. -/
def Worker.Joined : Worker → Prop
  | .running cmd (.joinWatcher _) => cmd.TimerOver
  | .running cmd (.waitChild _ _) => cmd.Over
  | .running cmd (.readErrno _ _ _) => cmd.Over
  | .running cmd (.respond _ _ _) => cmd.Over
  | _ => True

section Steps

variable {cfg : Config} {w w' : Worker} {e : Event}

/-- A timer that is over does nothing. -/
theorem Command.Background.timer_eq {cmd cmd' : Command} (h : cmd.Background cfg e cmd')
    (hover : cmd.TimerOver) : cmd'.timer = cmd.timer := by
  cases h with
  | timeoutExpired htimer => simp [Command.TimerOver, htimer] at hover
  | timerCancelled htimer => simp [Command.TimerOver, htimer] at hover
  | timerTerm htimer => simp [Command.TimerOver, htimer] at hover
  | timerKill htimer => simp [Command.TimerOver, htimer] at hover
  | _ => rfl

theorem Command.Background.timerOver {cmd cmd' : Command} (h : cmd.Background cfg e cmd')
    (hover : cmd.TimerOver) : cmd'.TimerOver := by
  rw [Command.TimerOver, h.timer_eq hover]
  exact hover

/-- A watcher that is done does nothing. -/
theorem Command.Background.watcher_eq {cmd cmd' : Command} {aborted : Bool}
    (h : cmd.Background cfg e cmd') (hdone : cmd.watcher = .done aborted) :
    cmd'.watcher = .done aborted := by
  cases h with
  | watcherCheck hwatcher => simp [hdone] at hwatcher
  | watcherRead hwatcher => simp [hdone] at hwatcher
  | watcherTerm hwatcher => simp [hdone] at hwatcher
  | watcherKill hwatcher => simp [hdone] at hwatcher
  | _ => exact hdone

theorem Command.Background.over {cmd cmd' : Command} (h : cmd.Background cfg e cmd')
    (hover : cmd.Over) : cmd'.Over := by
  obtain ⟨aborted, hdone⟩ := hover.watcher
  exact ⟨h.timerOver hover.timer, aborted, h.watcher_eq hdone⟩

theorem Command.Background.child {cmd cmd' : Command} (h : cmd.Background cfg e cmd') :
    cmd'.child = cmd.child := by
  cases h <;> rfl

theorem Worker.Step.joined (h : w.Step cfg e w') (hw : w.Joined) : w'.Joined := by
  cases h with
  | @opening r => exact cfg.onOpening_elim r trivial trivial
  | @line p r =>
      refine cfg.onLine_elim p r ?_ ?_ ?_ ?_ ?_ ?_ <;> intros <;> trivial
  | foreground h =>
      cases h with
      | noTimer htimer => exact Or.inl htimer
      | joinTimer htimer => exact Or.inr ⟨_, htimer⟩
      | joinWatcher hwatcher => exact ⟨hw, _, hwatcher⟩
      | waitAgain => exact hw
      | waited => exact hw
      | readErrno => exact hw
      | _ => trivial
  | @background cmd cmd' stage _ h =>
      cases stage with
      | joinWatcher timedOut => exact h.timerOver hw
      | waitChild timedOut aborted => exact h.over hw
      | readErrno timedOut aborted code => exact h.over hw
      | respond response entry raw => exact h.over hw
      | _ => trivial
  | _ => trivial

/-- Only a thread that is not done signals, and only the child of its command. -/
theorem Worker.Step.signals {child : Nat} (h : w.Step cfg e w') (he : e.Signals child) :
    ∃ cmd stage, w = .running cmd stage ∧ cmd.child = child ∧ ¬ cmd.Over := by
  cases h with
  | foreground h => cases h <;> cases he
  | @background cmd cmd' stage _ h =>
      refine ⟨cmd, stage, rfl, ?_, ?_⟩
      · cases h <;> first | exact he | cases he
      · rintro ⟨htimer, aborted, hdone⟩
        cases h with
        | timerTerm hterm => simp [Command.TimerOver, hterm] at htimer
        | timerKill hkill => simp [Command.TimerOver, hkill] at htimer
        | watcherTerm hterm => simp [hdone] at hterm
        | watcherKill hkill => simp [hdone] at hkill
        | _ => cases he
  | _ => cases he

/-- A worker waits when the threads of its command are done. -/
theorem Worker.Step.waits {r : WaitResult} (h : w.Step cfg (.waitpid r) w')
    (hw : w.Joined) : ∃ cmd stage, w = .running cmd stage ∧ cmd.Over := by
  cases h with
  | foreground h => cases h <;> exact ⟨_, _, rfl, hw⟩
  | background h => cases h

/-- A command is left when its threads are done. -/
theorem Worker.Step.leaves {cmd : Command} {stage : Stage}
    (h : (Worker.running cmd stage).Step cfg e w') (hw : (Worker.running cmd stage).Joined)
    (hleft : ∀ cmd' stage', w' ≠ .running cmd' stage') : cmd.Over := by
  cases h with
  | foreground h =>
      cases h with
      | respond => exact hw
      | _ => exact absurd rfl (hleft _ _)
  | background h => exact absurd rfl (hleft _ _)

end Steps

/-! ## Every run -/

/-- The child of worker `c` is alive while its command has a thread that may signal. -/
def Worker.Guarded (es : List Label) (c : Nat) : Worker → Prop
  | .running cmd _ => cmd.Over ∨ Alive es c cmd.child
  | _ => True

section Runs

variable {cfg : Config} {es : List Label} {h h' : Host} {l : Label}

theorem Alive.concat {c child : Nat} (ha : Alive es c child) (hwait : ¬ l.Waits c)
    (hspawn : ∀ other, ¬ l.Spawns c other) : Alive (es ++ [l]) c child :=
  Since.concat ha ⟨hwait, hspawn⟩

/-- What another label does leaves a worker guarded. -/
theorem Worker.Guarded.concat {c : Nat} {w : Worker} (hw : w.Guarded es c)
    (hother : ∀ e, l ≠ .worker c e) : w.Guarded (es ++ [l]) c := by
  cases w with
  | running cmd stage =>
      rcases hw with hover | halive
      · exact Or.inl hover
      · refine Or.inr (halive.concat ?_ ?_)
        · rintro ⟨r, hr⟩
          exact hother _ hr
        · rintro other ⟨request, hr⟩
          exact hother _ hr
  | _ => trivial

/-- One step of the worker itself. -/
theorem Worker.Step.guarded {c : Nat} {w w' : Worker} {e : Event} (h : w.Step cfg e w')
    (hw : w.Guarded es c) (hjoined : w.Joined) :
    w'.Guarded (es ++ [.worker c e]) c := by
  have hkept : ∀ child, (∀ r, e ≠ .waitpid r) →
      (∀ request result, e ≠ .spawn request result) →
      Alive es c child → Alive (es ++ [.worker c e]) c child := by
    intro child hwait hspawn halive
    refine halive.concat ?_ ?_
    · rintro ⟨r, hr⟩
      cases hr
      exact hwait r rfl
    · rintro other ⟨request, hr⟩
      cases hr
      exact hspawn _ _ rfl
  cases h with
  | @opening r => exact cfg.onOpening_elim r trivial trivial
  | @line p r =>
      refine cfg.onLine_elim p r ?_ ?_ ?_ ?_ ?_ ?_ <;> intros <;> trivial
  | spawned => exact Or.inr (since_here ⟨_, rfl⟩)
  | foreground h =>
      cases h with
      | waitAgain => exact Or.inl hjoined
      | waited => exact Or.inl hjoined
      | respond => trivial
      | _ =>
          exact hw.imp (fun hover => ⟨hover.timer, hover.watcher⟩)
            (hkept _ (by simp) (by simp))
  | background h =>
      rcases hw with hover | halive
      · exact Or.inl (h.over hover)
      · right
        rw [h.child]
        cases h <;> exact hkept _ (by simp) (by simp) halive
  | _ => trivial

/-- Every worker of a host is guarded, and has joined what its stage says. -/
def Host.Guarded (es : List Label) (h : Host) : Prop :=
  ∀ c, (h.workers c).Joined ∧ (h.workers c).Guarded es c

theorem Host.Guarded.step (hg : h.Guarded es) (hstep : h.step cfg l = some h') :
    h'.Guarded (es ++ [l]) := by
  by_cases hl : ∃ c e, l = .worker c e
  · obtain ⟨c, e, rfl⟩ := hl
    obtain ⟨hs, w, -, hw, rfl⟩ := Host.step_worker hstep
    intro d
    by_cases hd : d = c
    · subst hd
      simp only [Function.update_self]
      exact ⟨hw.joined (hg d).1, hw.guarded (hg d).2 (hg d).1⟩
    · simp only [Function.update_of_ne hd]
      refine ⟨(hg d).1, (hg d).2.concat ?_⟩
      rintro e' heq
      cases heq
      exact hd rfl
  · have hother : ∀ c e, l ≠ .worker c e := fun c e heq => hl ⟨c, e, heq⟩
    rw [Host.Guarded, (Host.step_main hother hstep).2]
    exact fun c => ⟨(hg c).1, (hg c).2.concat (hother c)⟩

theorem run_guarded (hrun : run (Host.step cfg) Host.init es = some h) : h.Guarded es :=
  run_induction (P := fun es h => h.Guarded es) (fun _ => ⟨trivial, trivial⟩)
    (fun _ _ _ _ _ hg hstep => hg.step hstep) hrun

/-- With fresh numbers, that of a living child is given to nobody else. -/
theorem Alive.alone {c child : Nat} (ha : Alive es c child) (hfresh : FreshChildren es) :
    AliveAlone es c child := by
  refine Since.and ha ?_
  intro before l after hes hbefore d hspawn
  refine hfresh before l after hes d child hspawn c ?_
  obtain ⟨front, x, back, hsplit, hx, hback⟩ := hbefore
  refine ⟨front, x, back, hsplit, hx, fun y hy => ?_⟩
  rintro ⟨r, -, hr⟩
  exact (hback y hy).1 ⟨r, hr⟩

/--
What holds of a step of worker `c` behind a run.

* `alive`: what is signalled is the child that `c` spawned last, and `c` has not
  waited for it.
* `alone`: if numbers are fresh, its number was not given away meanwhile.
* `joined`: when `c` waits, and when it leaves a command, no thread of the command
  is left.
-/
structure SignalsAlive (es : List Label) (c : Nat) (e : Event) (w w' : Worker) : Prop where
  alive : ∀ child, e.Signals child → Alive es c child
  alone : FreshChildren es → ∀ child, e.Signals child → AliveAlone es c child
  joined : ∀ cmd stage, w = .running cmd stage →
    ((∃ r, e = .waitpid r) ∨ ∀ cmd' stage', w' ≠ .running cmd' stage') → cmd.Over

theorem signals_alive
    (hrun : run (Host.step cfg) Host.init es = some h) {c : Nat} {e : Event}
    (hstep : h.step cfg (.worker c e) = some h') :
    SignalsAlive es c e (h.workers c) (h'.workers c) := by
  obtain ⟨hjoined, hguarded⟩ := run_guarded hrun c
  obtain ⟨hs, w, -, hw, rfl⟩ := Host.step_worker hstep
  have halive : ∀ child, e.Signals child → Alive es c child := by
    intro child he
    obtain ⟨cmd, stage, hworker, rfl, hopen⟩ := hw.signals he
    rw [hworker] at hguarded
    exact hguarded.resolve_left hopen
  constructor
  case alive => exact halive
  case alone => exact fun hfresh child he => (halive child he).alone hfresh
  case joined =>
    intro cmd stage hworker hends
    rw [hworker] at hw hjoined
    simp only [Function.update_self] at hends
    rcases hends with ⟨r, rfl⟩ | hleft
    · obtain ⟨cmd', stage', heq, hover⟩ := hw.waits hjoined
      cases heq
      exact hover
    · exact hw.leaves hjoined hleft

/-- A command whose client aborts it, up to the SIGTERM. -/
def abortedCommand : List Label :=
  sampleCommand 0 0 ++ [.worker 0 (.spawn sampleRequest (.ok 7))] ++
    [.worker 0 .watcherCheck, .worker 0 (.watcherRead (.line sampleAbort)),
      .worker 0 (.watcherTerm 7)]

/-- The host in the middle of `kill_child_group`. -/
def signallingHost : Host :=
  { Host.init with
    nextSeq := 1, accepted := 1
    workers := Function.update Host.init.workers 0
      (.running { Command.spawned true 0 sampleRequest "t" 7 with watcher := .kill }
        .joinReader) }

theorem run_abortedCommand :
    run (Host.step (.compact true)) Host.init abortedCommand = some signallingHost := by
  have hmain : Host.init.main = .loopTop := rfl
  rw [abortedCommand, run_append, run_sampleSpawn, Option.bind_some]
  simp [run_cons, Host.step, Host.share, Worker.step, Command.foreground,
    Command.background, Command.spawned, signallingHost, hmain]

theorem signals_alive_abortedCommand :
    ∃ h', signallingHost.step (.compact true) (.worker 0 (.watcherKill 7)) = some h' ∧
      SignalsAlive abortedCommand 0 (.watcherKill 7) (signallingHost.workers 0)
        (h'.workers 0) := by
  have hmain : Host.init.main = .loopTop := rfl
  obtain ⟨h', hstep⟩ : ∃ h',
      signallingHost.step (.compact true) (.worker 0 (.watcherKill 7)) = some h' := by
    simp [Host.step, Host.share, Worker.step, Command.foreground, Command.background,
      Command.spawned, signallingHost, hmain]
  exact ⟨h', hstep, signals_alive run_abortedCommand hstep⟩

end Runs
end Rexec
