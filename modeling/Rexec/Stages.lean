import Rexec.Connection
import Mathlib.Tactic

/-!
# The stages of a command

What is settled at each stage of a running command (`Worker.Tidy`), and what can
have made its watcher kill it (`Worker.Aborting`).  Both are read off one step
of the worker, and are used for whole runs elsewhere.
-/

namespace Rexec

/-- The stage goes on from an abort. -/
def Stage.aborted : Stage → Prop
  | .waitChild _ aborted => aborted = true
  | .readErrno _ aborted _ => aborted = true
  | .respond response _ _ => response.error = some errorAborted
  | _ => False

/-- The watcher was provoked to kill the child. -/
def Worker.Aborting : Worker → Prop
  | .running cmd stage =>
      cmd.watcher = .term ∨ cmd.watcher = .kill ∨ cmd.watcher = .done true ∨
        stage.aborted
  | _ => False

/-- What is settled when the worker reaches a stage. -/
def Worker.Tidy : Worker → Prop
  | .reject response => response.error ≠ some errorAborted
  | .running cmd .cancelTimer => cmd.commandFinished = true
  | .running cmd .joinTimer =>
      cmd.commandFinished = true ∧ cmd.cancelled = true ∧ cmd.timer ≠ .absent
  | .running cmd (.joinWatcher _) => cmd.commandFinished = true
  | .running cmd (.waitChild _ _) => ∃ aborted, cmd.watcher = .done aborted
  | .running cmd (.readErrno _ _ _) => ∃ aborted, cmd.watcher = .done aborted
  | .running cmd (.respond _ _ _) => ∃ aborted, cmd.watcher = .done aborted
  | _ => True

theorem classify_aborted {errno : Option Int32} {timedOut aborted : Bool}
    {exitCode : Int32}
    (h : (classify errno timedOut aborted exitCode).1 = some errorAborted) :
    aborted = true := by
  unfold classify at h
  split_ifs at h with h1 h2 h3
  · simp [errorNotFound, errorAborted] at h
  · simp [errorTimeout, errorAborted] at h
  · exact h3

/-- A request that is refused is not reported as aborted. -/
theorem tidy_onRequest (cfg : Config) (trimmed : String) :
    (cfg.onRequest trimmed).Tidy := by
  have hmalformed : ∀ err, (malformedResponse err).error ≠ some errorAborted := by
    intro err h
    have hhead := congrArg (fun o => o.map fun s => s.toList.head?) h
    simp [malformedResponse, errorAborted] at hhead
  have hempty : emptyExecResponse.error ≠ some errorAborted := by
    simp [emptyExecResponse, errorAborted]
  unfold Config.onRequest
  split
  · exact hmalformed _
  · split
    · exact hempty
    · trivial

theorem tidy_onLine (cfg : Config) (p : Bool) (r : ReadLine) : (cfg.onLine p r).Tidy := by
  rcases cfg.onLine_cases p r with
    ⟨text, rfl, -, h⟩ | ⟨text, rfl, hline⟩ | ⟨-, h | ⟨ansi, h⟩ | h⟩
  · rw [h]
    trivial
  · rw [Config.onLine_request hline]
    cases p with
    | false => trivial
    | true => exact tidy_onRequest cfg (trimEnd text)
  all_goals
    rw [h]
    trivial

section Steps

variable {cfg : Config} {w w' : Worker} {e : Event}

/-- Only what the watcher reads provokes it. -/
theorem Worker.Step.aborting (h : w.Step cfg e w') (hw : w'.Aborting) :
    w.Aborting ∨ ∃ r, e = .watcherRead r ∧ cfg.onWatched r = .term := by
  cases h with
  | @opening r =>
      rcases cfg.onOpening_cases r with ⟨_, -, -, h⟩ | h <;> rw [h] at hw <;> cases hw
  | @line p r =>
      rcases cfg.onLine_leads p r with h | h | h | ⟨_, h⟩ | ⟨_, h⟩ | ⟨_, h⟩ <;>
        rw [h] at hw <;> cases hw
  | spawned => simp [Worker.Aborting, Command.spawned, Stage.aborted] at hw
  | foreground h =>
      left
      cases h with
      | joinWatcher hwatcher =>
          rcases hw with hw | hw | hw | hw
          · exact .inl hw
          · exact .inr (.inl hw)
          · exact .inr (.inr (.inl hw))
          · exact .inr (.inr (.inl (by rw [hwatcher, show _ = true from hw])))
      | readErrno =>
          rcases hw with hw | hw | hw | hw
          · exact .inl hw
          · exact .inr (.inl hw)
          · exact .inr (.inr (.inl hw))
          · exact .inr (.inr (.inr (classify_aborted hw)))
      | respond => cases hw
      | _ => simpa [Worker.Aborting, Stage.aborted] using hw
  | background h =>
      cases h with
      | @watcherRead r hwatcher =>
          rcases cfg.onWatched_cases r with hread | hread
          · exact .inr ⟨r, rfl, hread⟩
          · simp only [Worker.Aborting, hread, reduceCtorEq, false_or] at hw
            exact .inl (.inr (.inr (.inr hw)))
      | @watcherCheck hwatcher =>
          refine .inl (.inr (.inr (.inr ?_)))
          simp only [Worker.Aborting] at hw
          split at hw <;> simpa using hw
      | watcherTerm hwatcher => exact .inl (.inl hwatcher)
      | watcherKill hwatcher => exact .inl (.inr (.inl hwatcher))
      | _ => exact .inl hw
  | _ => cases hw

theorem Worker.Step.tidy (h : w.Step cfg e w') (hw : w.Tidy) : w'.Tidy := by
  cases h with
  | @opening r => exact cfg.onOpening_elim r trivial trivial
  | @line p r => exact tidy_onLine cfg p r
  | foreground h =>
      cases h with
      | storeFinished => rfl
      | noTimer htimer => exact hw
      | cancelTimer htimer => exact ⟨hw, rfl, htimer⟩
      | joinTimer htimer => exact hw.1
      | joinWatcher hwatcher => exact ⟨_, hwatcher⟩
      | waitAgain hwait => exact hw
      | waited hwait => exact hw
      | readErrno => exact hw
      | _ => trivial
  | @background cmd cmd' stage _ h =>
      -- the flags only the worker sets are kept, and a watcher that is done stays so
      have hflags : cmd'.commandFinished = cmd.commandFinished ∧
          cmd'.cancelled = cmd.cancelled ∧
          (cmd.timer ≠ .absent → cmd'.timer ≠ .absent) ∧
          ∀ aborted, cmd.watcher = .done aborted → cmd'.watcher = .done aborted := by
        cases h <;> simp_all
      obtain ⟨hfinished, hcancelled, htimer, hdone⟩ := hflags
      cases stage with
      | cancelTimer => exact hfinished.trans hw
      | joinTimer => exact ⟨hfinished.trans hw.1, hcancelled.trans hw.2.1, htimer hw.2.2⟩
      | joinWatcher timedOut => exact hfinished.trans hw
      | waitChild timedOut aborted =>
          obtain ⟨b, hb⟩ := hw
          exact ⟨b, hdone b hb⟩
      | readErrno timedOut aborted code =>
          obtain ⟨b, hb⟩ := hw
          exact ⟨b, hdone b hb⟩
      | respond response entry raw =>
          obtain ⟨b, hb⟩ := hw
          exact ⟨b, hdone b hb⟩
      | _ => trivial
  | _ => trivial

/-- What an event does to the watcher of the command it happens in. -/
inductive Config.Watches (cfg : Config) (finished : Bool) (child : Nat) :
    Watcher → Event → Watcher → Prop where
  | check :
      Watches cfg finished child .check .watcherCheck
        (if finished then .done false else .reading)
  | read {r : ReadLine} :
      Watches cfg finished child .reading (.watcherRead r) (cfg.onWatched r)
  | term : Watches cfg finished child .term (.watcherTerm child) .kill
  | kill : Watches cfg finished child .kill (.watcherKill child) (.done true)
  | other {watcher : Watcher} {e : Event} (hcheck : e ≠ .watcherCheck)
      (hread : ∀ r, e ≠ .watcherRead r ∧ e ≠ .readLine r) :
      Watches cfg finished child watcher e watcher

/-- A command is not over before its watcher is. -/
theorem Worker.Step.watched {cmd : Command} {stage : Stage}
    (h : (Worker.running cmd stage).Step cfg e w') (htidy : (Worker.running cmd stage).Tidy)
    (hopen : ∀ aborted, cmd.watcher ≠ .done aborted) :
    ∃ cmd' stage', w' = .running cmd' stage' ∧ cmd'.seq = cmd.seq ∧
      cmd'.child = cmd.child ∧
      cfg.Watches cmd.commandFinished cmd.child cmd.watcher e cmd'.watcher := by
  have hdone : (∃ aborted, cmd.watcher = .done aborted) → False := by
    rintro ⟨aborted, hdone⟩
    exact hopen aborted hdone
  cases h with
  | foreground h =>
      cases h with
      | joinReader => exact ⟨_, _, rfl, rfl, rfl, .other (by simp) (by simp)⟩
      | storeFinished => exact ⟨_, _, rfl, rfl, rfl, .other (by simp) (by simp)⟩
      | noTimer => exact ⟨_, _, rfl, rfl, rfl, .other (by simp) (by simp)⟩
      | cancelTimer => exact ⟨_, _, rfl, rfl, rfl, .other (by simp) (by simp)⟩
      | joinTimer => exact ⟨_, _, rfl, rfl, rfl, .other (by simp) (by simp)⟩
      | joinWatcher hwatcher => exact (hdone ⟨_, hwatcher⟩).elim
      | waitAgain => exact (hdone htidy).elim
      | waited => exact (hdone htidy).elim
      | readErrno => exact (hdone htidy).elim
      | respond => exact (hdone htidy).elim
  | background h =>
      cases h with
      | watcherCheck hwatcher => exact ⟨_, _, rfl, rfl, rfl, hwatcher ▸ .check⟩
      | watcherRead hwatcher => exact ⟨_, _, rfl, rfl, rfl, hwatcher ▸ .read⟩
      | watcherTerm hwatcher => exact ⟨_, _, rfl, rfl, rfl, hwatcher ▸ .term⟩
      | watcherKill hwatcher => exact ⟨_, _, rfl, rfl, rfl, hwatcher ▸ .kill⟩
      | _ => exact ⟨_, _, rfl, rfl, rfl, .other (by simp) (by simp)⟩

end Steps

end Rexec
