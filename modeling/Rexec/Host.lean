import Rexec.Connection
import Rexec.TranscriptQueue
import Rexec.Lib.Machine
import Mathlib.Tactic

/-!
# The host process

`run_with_path_options` from its accept loop on, with one worker for each
connection.  The workers share the number counter and the transcript queue; the
main thread accepts connections, and on a signal or an error of `poll` leaves
its loop, closes the subscriptions, drops the listener, removes the socket file
and returns.  It does not wait for the workers, so nothing happens after the
return: the process is over.

A label is an action of the main thread, the arrival of a signal, or an event of
one worker.  Counters are unbounded; the source has 64 bits for them.
-/

namespace Rexec

open Machine

/-- What `poll` returns: an error, or which descriptors are readable. -/
inductive PollResult where
  | interrupted
  | error
  | ready (listener wake : Bool)
deriving DecidableEq

/-- The program points of the main thread. -/
inductive Main where
  | loopTop
  | polled (r : PollResult)
  | accepting
  | closeSubscriptions
  | dropListener
  | removeFile
  | returned
deriving DecidableEq

structure Host where
  main : Main
  /-- `SHUTDOWN` -/
  shutdown : Bool
  nextSeq : Nat
  transcript : TranscriptQueue
  /-- the number of connections accepted so far -/
  accepted : Nat
  /-- the worker of each connection; those not accepted yet are at their start -/
  workers : Nat → Worker

namespace Host

def init : Host :=
  { main := .loopTop, shutdown := false, nextSeq := 0
    transcript := .new, accepted := 0, workers := fun _ => .start }

end Host

inductive Label where
  | signal
  | leave
  | poll (r : PollResult)
  | dispatch
  | accept (ok : Bool)
  | closeSubscriptions
  | dropListener
  | removeFile
  | worker (c : Nat) (e : Event)

namespace Host

/-- What an event of a worker does to the state the workers share. -/
def share (h : Host) (w : Worker) : Event → Option Host
  | .fetchAdd seq _ =>
      if seq = h.nextSeq then some { h with nextSeq := h.nextSeq + 1 } else none
  | .submit seq entry rawOutput =>
      some { h with transcript := h.transcript.submit seq entry rawOutput }
  | .subscribe ansi receiver =>
      if receiver = (h.transcript.subscribe ansi).2 then
        some { h with transcript := (h.transcript.subscribe ansi).1 }
      else none
  | .recv entry =>
      match w with
      | .attached receiver =>
          match h.transcript.recv receiver with
          | some (en, transcript) =>
              if en = entry then some { h with transcript } else none
          | none => none
      | _ => none
  | .detach =>
      match w with
      | .attached receiver =>
          some { h with transcript := h.transcript.dropReceiver receiver }
      | _ => none
  | .writeEvent _ ok =>
      match w with
      | .sending receiver _ =>
          if ok then some h
          else some { h with transcript := h.transcript.dropReceiver receiver }
      | _ => none
  | _ => some h

/-- What the main thread does once `poll` has returned. -/
def afterPoll (shutdown : Bool) : PollResult → Main
  | .interrupted => .loopTop
  | .error => .closeSubscriptions
  | .ready listener wake =>
      if shutdown || wake then .closeSubscriptions
      else if listener then .accepting
      else .loopTop

/-- One step of the host. -/
def step (cfg : Config) (h : Host) : Label → Option Host
  | .signal =>
      if h.main ≠ .returned then some { h with shutdown := true } else none
  | .leave =>
      if h.main = .loopTop ∧ h.shutdown = true then
        some { h with main := .closeSubscriptions }
      else none
  | .poll r =>
      if h.main = .loopTop ∧ h.shutdown = false then
        some { h with main := .polled r }
      else none
  | .dispatch =>
      match h.main with
      | .polled r => some { h with main := afterPoll h.shutdown r }
      | _ => none
  | .accept ok =>
      if h.main = .accepting then
        if ok then some { h with main := .loopTop, accepted := h.accepted + 1 }
        else
          some { h with
            main := if h.shutdown then .closeSubscriptions else .loopTop }
      else none
  | .closeSubscriptions =>
      if h.main = .closeSubscriptions then
        some { h with
          main := .dropListener, transcript := h.transcript.closeSubscriptions }
      else none
  | .dropListener =>
      if h.main = .dropListener then some { h with main := .removeFile } else none
  | .removeFile =>
      if h.main = .removeFile then some { h with main := .returned } else none
  | .worker c e =>
      if h.main ≠ .returned ∧ c < h.accepted then
        match h.share (h.workers c) e, (h.workers c).step cfg e with
        | some h', some w =>
            some { h' with workers := Function.update h.workers c w }
        | _, _ => none
      else none

end Host

/-- The shared state is the same, up to subscribers and their channels. -/
structure Host.Quiet (h h' : Host) : Prop where
  nextSeq : h'.nextSeq = h.nextSeq
  reflects : ∀ S, TranscriptQueue.Reflects S h.transcript →
    TranscriptQueue.Reflects S h'.transcript

theorem Host.Quiet.refl (h : Host) : h.Quiet h :=
  ⟨rfl, fun _ hS => hS⟩

theorem Host.step_worker {cfg : Config} {h h' : Host} {c : Nat} {e : Event}
    (hstep : h.step cfg (.worker c e) = some h') :
    ∃ hs w, h.share (h.workers c) e = some hs ∧
      (h.workers c).Step cfg e w ∧
      h' = { hs with workers := Function.update h.workers c w } := by
  simp only [Host.step] at hstep
  split at hstep
  · split at hstep
    · rename_i hs w hshare hw
      cases hstep
      exact ⟨hs, w, hshare, Worker.step_cases hw, rfl⟩
    · cases hstep
  · cases hstep

theorem Host.share_fetchAdd {h hs : Host} {w : Worker} {seq : Nat} {time : String}
    (hshare : h.share w (.fetchAdd seq time) = some hs) :
    seq = h.nextSeq ∧ hs = { h with nextSeq := h.nextSeq + 1 } := by
  simp only [Host.share] at hshare
  split at hshare
  · rename_i hseq
    cases hshare
    exact ⟨hseq, rfl⟩
  · cases hshare

/-- Only `fetchAdd` and `submit` do more than serve the subscribers. -/
theorem Host.share_quiet {h hs : Host} {w : Worker} {e : Event}
    (htake : ∀ seq time, e ≠ .fetchAdd seq time)
    (hsubmit : ∀ seq entry raw, e ≠ .submit seq entry raw)
    (hshare : h.share w e = some hs) :
    h.Quiet hs := by
  cases e <;> simp only [Host.share, Option.some.injEq] at hshare
  case fetchAdd seq time => exact absurd rfl (htake seq time)
  case submit seq entry raw => exact absurd rfl (hsubmit seq entry raw)
  case subscribe ansi receiver =>
    split at hshare
    · cases hshare
      exact ⟨rfl, fun S hS => TranscriptQueue.subscribe_reflects ansi hS⟩
    · cases hshare
  case recv entry =>
    split at hshare
    · split at hshare
      · rename_i hrecv
        split at hshare
        · cases hshare
          exact ⟨rfl, fun S hS => TranscriptQueue.recv_reflects hS hrecv⟩
        · cases hshare
      · cases hshare
    · cases hshare
  case detach =>
    split at hshare
    · rename_i receiver
      cases hshare
      exact ⟨rfl, fun S hS => TranscriptQueue.dropReceiver_reflects receiver hS⟩
    · cases hshare
  case writeEvent entry ok =>
    split at hshare
    · rename_i receiver _
      split at hshare
      · cases hshare
        exact Host.Quiet.refl h
      · cases hshare
        exact ⟨rfl, fun S hS => TranscriptQueue.dropReceiver_reflects receiver hS⟩
    · cases hshare
  all_goals
    subst hshare
    exact Host.Quiet.refl h

/-- The events in which a worker does not touch the shared state. -/
def Event.isPrivate : Event → Bool
  | .fetchAdd _ _ => false
  | .submit _ _ _ => false
  | .subscribe _ _ => false
  | .recv _ => false
  | .writeEvent _ _ => false
  | .detach => false
  | _ => true

/-- What a worker does by itself is a run of the host. -/
theorem Host.run_private {cfg : Config} {h : Host} {c : Nat} {es : List Event}
    {w : Worker} (hmain : h.main ≠ .returned) (hc : c < h.accepted)
    (hprivate : ∀ e ∈ es, e.isPrivate = true)
    (hrun : run (Worker.step cfg) (h.workers c) es = some w) :
    run (Host.step cfg) h (es.map (.worker c)) =
      some { h with workers := Function.update h.workers c w } := by
  induction es generalizing h with
  | nil =>
      cases hrun
      rw [List.map_nil, run_nil, Function.update_eq_self]
  | cons e es ih =>
      rw [run_cons, Option.bind_eq_some_iff] at hrun
      obtain ⟨m, hm, hrest⟩ := hrun
      have he : e.isPrivate = true := hprivate e (by simp)
      have hshare : h.share (h.workers c) e = some h := by
        cases e <;> first | rfl | cases he
      have hstep : h.step cfg (.worker c e) =
          some { h with workers := Function.update h.workers c m } := by
        simp only [Host.step, hshare, hm]
        rw [if_pos ⟨hmain, hc⟩]
      have hes := ih (h := { h with workers := Function.update h.workers c m })
        hmain hc (fun x hx => hprivate x (by simp [hx])) (by simpa using hrest)
      rw [List.map_cons, run_cons, hstep, Option.bind_some, hes]
      simp

/-- The main thread leaves the workers and the numbers alone. -/
theorem Host.step_main {cfg : Config} {h h' : Host} {l : Label}
    (hl : ∀ c e, l ≠ .worker c e) (hstep : h.step cfg l = some h') :
    h.Quiet h' ∧ h'.workers = h.workers := by
  cases l <;> simp only [Host.step] at hstep
  case worker c e => exact absurd rfl (hl c e)
  case dispatch =>
    split at hstep
    · cases hstep
      exact ⟨⟨rfl, fun _ hS => hS⟩, rfl⟩
    · cases hstep
  case accept ok =>
    split at hstep
    · split at hstep
      · cases hstep
        exact ⟨⟨rfl, fun _ hS => hS⟩, rfl⟩
      · cases hstep
        exact ⟨⟨rfl, fun _ hS => hS⟩, rfl⟩
    · cases hstep
  case closeSubscriptions =>
    split at hstep
    · cases hstep
      exact ⟨⟨rfl, fun S hS => TranscriptQueue.closeSubscriptions_reflects hS⟩, rfl⟩
    · cases hstep
  all_goals
    split at hstep
    · cases hstep
      exact ⟨⟨rfl, fun _ hS => hS⟩, rfl⟩
    · cases hstep

/-! ## Numbers and their owners -/

/-- The number a worker has taken and not yet passed to `submit`. -/
def Worker.held : Worker → Option Nat
  | .spawning seq _ _ => some seq
  | .spawnFailed seq _ _ _ => some seq
  | .running cmd _ => some cmd.seq
  | .submitting seq _ _ => some seq
  | _ => none

/-- The response and the entry of a command agree. -/
def Agrees (response : Response) (entry : TranscriptEntry) : Prop :=
  entry.exit = response.exit ∧ entry.output = response.output ∧
    entry.error = response.error

/-- The response a command ends with agrees with its entry, and is no spawn failure. -/
def Worker.Sound : Worker → Prop
  | .running _ (.respond response entry _) =>
      Agrees response entry ∧ response.error ≠ some "spawn_failed"
  | _ => True

theorem classify_ne_spawnFailed (errno : Option Int32) (timedOut aborted : Bool)
    (exitCode : Int32) :
    (classify errno timedOut aborted exitCode).1 ≠ some "spawn_failed" := by
  unfold classify
  split_ifs <;> simp [errorNotFound, errorTimeout, errorAborted]

section Steps

variable {cfg : Config} {w w' : Worker} {e : Event}

theorem Worker.Step.sound (h : w.Step cfg e w') (hs : w.Sound) : w'.Sound := by
  cases h with
  | @opening r => exact cfg.onOpening_elim r trivial trivial
  | @line p r =>
      refine cfg.onLine_elim p r ?_ ?_ ?_ ?_ ?_ ?_ <;> intros <;> trivial
  | foreground h =>
      cases h with
      | readErrno => exact ⟨⟨rfl, rfl, rfl⟩, classify_ne_spawnFailed _ _ _ _⟩
      | _ => trivial
  | @background cmd cmd' stage _ h =>
      cases stage with
      | respond response entry raw => exact hs
      | _ => trivial
  | _ => trivial

/--
The four things a step can do to the number a worker holds: take one, submit
it, give it up because the report of a failed spawn could not be written, or
leave it.
-/
inductive Worker.Holding (w : Worker) (e : Event) (w' : Worker) :
    Prop where
  | taken (seq : Nat) (time : String) (he : e = .fetchAdd seq time)
      (hw : w.held = none) (hw' : w'.held = some seq)
  | submitted (seq : Nat) (entry : TranscriptEntry) (raw : String)
      (he : e = .submit seq entry raw)
      (hw : w = .submitting seq entry raw) (hw' : w' = .lineLoop false)
  | abandoned (seq : Nat) (err : SpawnError)
      (he : e = .writeResponse (some seq) (spawnFailedResponse err) false)
      (hw : w.held = some seq) (hw' : w' = .exited)
  | kept (hheld : w'.held = w.held)
      (htake : ∀ seq time, e ≠ .fetchAdd seq time)
      (hsubmit : ∀ seq entry raw, e ≠ .submit seq entry raw)
      (habandon : ∀ seq err,
        e ≠ .writeResponse (some seq) (spawnFailedResponse err) false)

theorem Worker.Step.holding (h : w.Step cfg e w') (hs : w.Sound) :
    w.Holding e w' := by
  have hread : ∀ r, w.held = none → w'.held = none → e = .readLine r →
      w.Holding e w' := by
    rintro r hw hw' rfl
    exact .kept (by rw [hw, hw']) (by simp) (by simp) (by simp)
  cases h with
  | @opening r =>
      refine hread r rfl ?_ rfl
      exact cfg.onOpening_elim r rfl rfl
  | @line p r =>
      refine hread r rfl ?_ rfl
      exact cfg.onLine_elim p r rfl rfl rfl (fun _ => rfl) (fun _ => rfl) fun _ => rfl
  | @fetchAdd request seq time => exact .taken seq time rfl rfl rfl
  | @submit seq entry raw => exact .submitted seq entry raw rfl rfl rfl
  | @abandoned seq request time err => exact .abandoned seq err rfl rfl rfl
  | foreground h =>
      cases h with
      | respond =>
          refine .kept rfl (by simp) (by simp) ?_
          rintro seq err heq
          cases heq
          exact hs.2 rfl
      | _ => exact .kept rfl (by simp) (by simp) (by simp)
  | background h =>
      cases h <;> exact .kept rfl (by simp) (by simp) (by simp)
  | _ => exact .kept rfl (by simp) (by simp) (by simp)

end Steps
/-! ## Sample runs -/

/-- Connection `c` is accepted and sends the sample request, which takes `seq`. -/
def sampleCommand (c seq : Nat) : List Label :=
  [.poll (.ready true false), .dispatch, .accept true] ++
    sampleOpening.map (.worker c) ++ [.worker c (.fetchAdd seq "t")]

def sampleError : SpawnError := .fork ⟨11, "EAGAIN"⟩

/-- The same, and its spawn fails; `ok` says whether the client takes the report. -/
def failedCommand (c seq : Nat) (ok : Bool) : List Label :=
  sampleCommand c seq ++
    [.worker c (.spawn sampleRequest (.error sampleError)),
      .worker c (.writeResponse (some seq) (spawnFailedResponse sampleError) ok)]

/-- The submission of a command whose spawn failed. -/
def failedSubmit (seq : Nat) : Event :=
  .submit seq (spawnFailedEntry sampleRequest "t" sampleError)
    (spawnFailedMessage sampleError)

section Samples

variable {silent : Bool} {h : Host}

theorem run_sampleCommand (hmain : h.main = .loopTop) (hshutdown : h.shutdown = false)
    (hstart : h.workers h.accepted = .start) :
    run (Host.step (.compact silent)) h (sampleCommand h.accepted h.nextSeq) =
      some { h with
        nextSeq := h.nextSeq + 1, accepted := h.accepted + 1
        workers := Function.update h.workers h.accepted
          (.spawning h.nextSeq sampleRequest "t") } := by
  have haccept : run (Host.step (.compact silent)) h
      [.poll (.ready true false), .dispatch, .accept true] =
      some { h with accepted := h.accepted + 1 } := by
    simp [run_cons, Host.step, Host.afterPoll, hmain, hshutdown]
  have hprivate : ∀ e ∈ sampleOpening, e.isPrivate = true := by decide
  have hworker : run (Worker.step (.compact silent)) (h.workers h.accepted)
      sampleOpening = some (.accepted sampleRequest) := by
    rw [hstart]
    exact run_sampleOpening silent
  have hopening := Host.run_private (h := { h with accepted := h.accepted + 1 })
    (c := h.accepted) (by simp [hmain]) (Nat.lt_succ_self _) hprivate hworker
  simp only [sampleCommand, run_append, haccept, hopening, Option.bind_some]
  simp [run_cons, Host.step, Host.share, Worker.step, hmain]

/-- The first command of a host, up to its spawn. -/
theorem run_sampleSpawn :
    run (Host.step (.compact silent)) Host.init
        (sampleCommand 0 0 ++ [.worker 0 (.spawn sampleRequest (.ok 7))]) =
      some { Host.init with
        nextSeq := 1, accepted := 1
        workers := Function.update Host.init.workers 0
          (.running (.spawned silent 0 sampleRequest "t" 7) .joinReader) } := by
  have hcommand : run (Host.step (.compact silent)) Host.init (sampleCommand 0 0) =
      some { Host.init with
        nextSeq := 1, accepted := 1
        workers := Function.update Host.init.workers 0
          (.spawning 0 sampleRequest "t") } :=
    run_sampleCommand rfl rfl rfl
  have hmain : Host.init.main = .loopTop := rfl
  rw [run_append, hcommand]
  simp [run_cons, Host.step, Host.share, Worker.step, hmain]

theorem run_failedCommand (ok : Bool) (hmain : h.main = .loopTop)
    (hshutdown : h.shutdown = false) (hstart : h.workers h.accepted = .start) :
    run (Host.step (.compact silent)) h (failedCommand h.accepted h.nextSeq ok) =
      some { h with
        nextSeq := h.nextSeq + 1, accepted := h.accepted + 1
        workers := Function.update h.workers h.accepted
          (if ok then
            .submitting h.nextSeq (spawnFailedEntry sampleRequest "t" sampleError)
              (spawnFailedMessage sampleError)
          else .exited) } := by
  rw [failedCommand, run_append, run_sampleCommand hmain hshutdown hstart]
  simp [run_cons, Host.step, Host.share, Worker.step, hmain]

end Samples
end Rexec
