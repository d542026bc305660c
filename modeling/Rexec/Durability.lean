import Rexec.Journal
import Mathlib.Tactic

/-!
# What is in the transcript file at shutdown

A response goes to the client as soon as its command is over; its entry is
appended only when all earlier commands were submitted.  The main thread does
not wait for either.  So a command that was answered is in the file exactly if
no number up to its own is still held by a worker, or was abandoned.

The file is taken to hold what was appended: appends are assumed to succeed.
-/

namespace Rexec

open Machine

/-- The response of the command `seq` was written to the client of `c`. -/
def AnsweredBy (es : List Label) (c seq : Nat) (resp : Response) : Prop :=
  Label.worker c (.writeResponse (some seq) resp true) ∈ es

/-- Every command that was answered has its entry in the file. -/
def Durable (es : List Label) (h : Host) : Prop :=
  ∀ c seq resp, AnsweredBy es c seq resp →
    ∃ entry, h.transcript.appended[seq]? = some entry ∧ Agrees resp entry

/-- No number up to that of an answered command is held or was abandoned. -/
def Settled (es : List Label) (h : Host) : Prop :=
  ∀ c seq resp, AnsweredBy es c seq resp → ∀ j, j ≤ seq →
    (∀ c', (h.workers c').held ≠ some j) ∧ ¬ Abandoned es j

/-- An answered command is about to be submitted, or was submitted. -/
def Followed (es : List Label) (h : Host) : Prop :=
  ∀ c seq resp, AnsweredBy es c seq resp →
    (∃ entry raw, h.workers c = .submitting seq entry raw ∧ Agrees resp entry) ∨
      ∃ record, submissions es seq = [(c, record)] ∧ Agrees resp record.entry

section Steps

variable {cfg : Config} {w w' : Worker} {e : Event}

theorem Worker.Step.answered {seq : Nat} {resp : Response}
    (h : w.Step cfg (.writeResponse (some seq) resp true) w') (hs : w.Sound) :
    ∃ entry raw, w' = .submitting seq entry raw ∧ Agrees resp entry := by
  cases h with
  | failureReported => exact ⟨_, _, rfl, rfl, rfl, rfl⟩
  | foreground h =>
      cases h with
      | respond => exact ⟨_, _, rfl, hs.1⟩
  | background h => cases h

/-- A worker that submits does nothing before it. -/
theorem Worker.Step.submits {seq : Nat} {entry : TranscriptEntry} {raw : String}
    (h : (Worker.submitting seq entry raw).Step cfg e w') :
    e = .submit seq entry raw := by
  cases h
  rfl

variable {es : List Label} {h h' : Host} {l : Label}

theorem answeredBy_concat {c seq : Nat} {resp : Response} :
    AnsweredBy (es ++ [l]) c seq resp ↔
      AnsweredBy es c seq resp ∨
        l = .worker c (.writeResponse (some seq) resp true) := by
  unfold AnsweredBy
  simp only [List.mem_append, List.mem_singleton, eq_comm]

/-- A number submitted once is not submitted again. -/
theorem Ledger.submissions_final (hL : Ledger es h) (hL' : Ledger (es ++ [l]) h')
    {c seq : Nat} {record : TranscriptRecord}
    (hone : submissions es seq = [(c, record)]) :
    submissions (es ++ [l]) seq = [(c, record)] := by
  have hsub : submissions (es ++ [l]) seq =
      submissions es seq ++ (Label.submission seq l).toList := submissions_concat
  rw [hone] at hsub
  obtain ⟨c', ht⟩ := hL.taken seq (hL.known seq (.inl (by rw [hone]; simp)))
  have hlen : (submissions (es ++ [l]) seq).length ≤ 1 := by
    cases hL'.condition c' seq (takenBy_concat.mpr (.inl ht)) with
    | held _ hnone _ => simp [hnone]
    | submitted _ record' hone' _ => simp [hone']
    | abandoned _ hnone _ => simp [hnone]
  cases hnew : Label.submission seq l with
  | none => rw [hsub, hnew]; rfl
  | some new =>
      rw [hsub, hnew] at hlen
      simp at hlen

theorem Followed.step (hF : Followed es h) (hL : Ledger es h)
    (hstep : h.step cfg l = some h') :
    Followed (es ++ [l]) h' := by
  have hL' := hL.step hstep
  intro c seq resp hans
  rcases answeredBy_concat.mp hans with hans | rfl
  · rcases hF c seq resp hans with ⟨entry, raw, hw, hagrees⟩ | ⟨record, hone, hagrees⟩
    · by_cases hl : ∃ e, l = .worker c e
      · -- the worker of the command moves: it submits
        obtain ⟨e, rfl⟩ := hl
        obtain ⟨hs, w, hshare, hwstep, rfl⟩ := Host.step_worker hstep
        rw [hw] at hwstep
        obtain rfl := hwstep.submits
        have hnone : submissions es seq = [] :=
          submitted_eq_none_iff.mp (hL.submitted_held (by rw [hw]; rfl))
        refine .inr ⟨⟨entry, raw⟩, ?_, hagrees⟩
        rw [submissions_concat, hnone]
        simp [Label.submission]
      · refine .inl ⟨entry, raw, ?_, hagrees⟩
        rw [← hw]
        by_cases hother : ∃ c' e, l = .worker c' e
        · obtain ⟨c', e, rfl⟩ := hother
          obtain ⟨hs, w, -, -, rfl⟩ := Host.step_worker hstep
          have hne : c ≠ c' := by
            rintro rfl
            exact hl ⟨e, rfl⟩
          exact Function.update_of_ne hne _ _
        · rw [(Host.step_main (fun c' e hc => hother ⟨c', e, hc⟩) hstep).2]
    · exact .inr ⟨record, hL.submissions_final hL' hone, hagrees⟩
  · obtain ⟨hs, w, -, hwstep, rfl⟩ := Host.step_worker hstep
    obtain ⟨entry, raw, rfl, hagrees⟩ := hwstep.answered (hL.sound c)
    exact .inl ⟨entry, raw, by simp, hagrees⟩

theorem run_followed (hrun : run (Host.step cfg) Host.init es = some h) :
    Followed es h :=
  run_induction (P := fun es h => Followed es h)
    (by intro c seq resp hans; cases hans)
    (fun _ _ _ _ hprefix hF hstep => hF.step (run_ledger hprefix) hstep) hrun

end Steps

section Laws

variable {cfg : Config} {es : List Label} {h : Host}

/-- Entry `seq` is in the file exactly if every number up to it was submitted. -/
theorem Ledger.appended_iff (hL : Ledger es h) (seq : Nat) :
    (∃ entry, h.transcript.appended[seq]? = some entry) ↔
      ∀ j, j ≤ seq → submitted es j ≠ none := by
  obtain ⟨out, hrep, happ⟩ := hL.reflects
  have hlen : (∃ entry, h.transcript.appended[seq]? = some entry) ↔
      seq < h.transcript.appended.length := by
    rw [← Option.isSome_iff_exists, isSome_getElem?]
  rw [hlen, ← hrep.lt_next_iff, ← hrep.length, happ, List.length_map]

/-- What is in the file under a number is what was submitted under it. -/
theorem Ledger.appended_eq (hL : Ledger es h) {seq : Nat} {entry : TranscriptEntry}
    (hentry : h.transcript.appended[seq]? = some entry) :
    ∃ record, submitted es seq = some record ∧ record.entry = entry := by
  obtain ⟨out, hrep, happ⟩ := hL.reflects
  rw [happ, List.getElem?_map, Option.map_eq_some_iff] at hentry
  obtain ⟨record, hout, hentry⟩ := hentry
  exact ⟨record, hrep.getElem?_out hout, hentry⟩

/-- A number that was taken is submitted, held or abandoned. -/
theorem Ledger.submitted_iff (hL : Ledger es h) {seq : Nat} (hlt : seq < h.nextSeq) :
    submitted es seq ≠ none ↔
      (∀ c, (h.workers c).held ≠ some seq) ∧ ¬ Abandoned es seq := by
  obtain ⟨c, ht⟩ := hL.taken seq hlt
  rw [Ne, submitted_eq_none_iff]
  cases hL.condition c seq ht with
  | held hh hnone hno =>
      exact iff_of_false (fun hne => hne hnone) fun hset => hset.1 c hh
  | submitted hh record hone hno =>
      refine iff_of_true (by simp [hone]) ⟨?_, hno⟩
      intro c' hh'
      obtain rfl := hL.holder_unique hh' ht
      exact hh hh'
  | abandoned hh hnone hyes =>
      exact iff_of_false (fun hne => hne hnone) fun hset => hset.2 hyes

theorem durable_iff (hL : Ledger es h) (hF : Followed es h) :
    Durable es h ↔ Settled es h := by
  have hknown : ∀ c seq resp, AnsweredBy es c seq resp → seq < h.nextSeq := by
    intro c seq resp hans
    rcases hF c seq resp hans with ⟨entry, raw, hw, -⟩ | ⟨record, hone, -⟩
    · exact hL.bounded c seq (hL.holder c seq (by rw [hw]; rfl))
    · exact hL.known seq (.inl (by rw [hone]; simp))
  constructor
  · intro hdur c seq resp hans j hj
    obtain ⟨entry, hentry, -⟩ := hdur c seq resp hans
    have hall := (hL.appended_iff seq).mp ⟨entry, hentry⟩
    have hlt := hknown c seq resp hans
    exact (hL.submitted_iff (by omega)).mp (hall j hj)
  · intro hset c seq resp hans
    have hlt := hknown c seq resp hans
    have hall : ∀ j, j ≤ seq → submitted es j ≠ none := fun j hj =>
      (hL.submitted_iff (by omega)).mpr (hset c seq resp hans j hj)
    obtain ⟨entry, hentry⟩ := (hL.appended_iff seq).mpr hall
    obtain ⟨record, hrecord, rfl⟩ := hL.appended_eq hentry
    refine ⟨record.entry, hentry, ?_⟩
    rcases hF c seq resp hans with ⟨entry', raw, hw, -⟩ | ⟨record', hone, hagrees⟩
    · exact absurd (by rw [hw]; rfl) ((hset c seq resp hans seq (Nat.le_refl _)).1 c)
    · rw [submitted_of_once hone] at hrecord
      cases hrecord
      exact hagrees

/--
When `run_with_path_options` returns, every answered command is in the file
exactly if no number up to its own is still held by a worker or was abandoned.
-/
theorem durable_at_return
    (hrun : run (Host.step cfg) Host.init (es ++ [.removeFile]) = some h) :
    h.main = .returned ∧
      (Durable (es ++ [.removeFile]) h ↔ Settled (es ++ [.removeFile]) h) := by
  obtain ⟨m, -, hlast⟩ := (run_concat _).mp hrun
  refine ⟨?_, durable_iff (run_ledger hrun) (run_followed hrun)⟩
  simp only [Host.step] at hlast
  split at hlast
  · cases hlast
    rfl
  · cases hlast

end Laws
/-- Command 0 still runs when command 1 was answered and a signal ends the host. -/
def earlyReturn : List Label :=
  sampleCommand 0 0 ++ [.worker 0 (.spawn sampleRequest (.ok 7))] ++
    failedCommand 1 1 true ++
    [.worker 1 (failedSubmit 1), .signal, .leave, .closeSubscriptions, .dropListener]

/-- After the spawn of command 0. -/
def busyHost : Host :=
  { Host.init with
    nextSeq := 1, accepted := 1
    workers := Function.update Host.init.workers 0
      (.running (.spawned true 0 sampleRequest "t" 7) .joinReader) }

/-- Where `earlyReturn` and the removal of the socket file end. -/
def returnedHost : Host :=
  { main := .returned, shutdown := true, nextSeq := 2, accepted := 2
    workers := Function.update busyHost.workers 1 (.lineLoop false)
    transcript := (TranscriptQueue.new.submit 1
      (spawnFailedEntry sampleRequest "t" sampleError)
      (spawnFailedMessage sampleError)).closeSubscriptions }

theorem run_earlyReturn :
    run (Host.step (.compact true)) Host.init (earlyReturn ++ [.removeFile]) =
      some returnedHost := by
  have hslow : run (Host.step (.compact true)) Host.init
      (sampleCommand 0 0 ++ [.worker 0 (.spawn sampleRequest (.ok 7))]) =
      some busyHost :=
    run_sampleSpawn
  have hfast := @run_failedCommand true busyHost true rfl rfl rfl
  have haccepted : busyHost.accepted = 1 := rfl
  have hnext : busyHost.nextSeq = 1 := rfl
  have hmain : busyHost.main = .loopTop := rfl
  have htranscript : busyHost.transcript = .new := rfl
  rw [haccepted, hnext] at hfast
  rw [earlyReturn, run_append, run_append, run_append, hslow, Option.bind_some, hfast]
  simp [run_cons, failedSubmit, Host.step, Host.share, Worker.step, returnedHost,
    hmain, htranscript]

theorem durable_earlyReturn :
    returnedHost.main = .returned ∧
      (Durable (earlyReturn ++ [.removeFile]) returnedHost ↔
        Settled (earlyReturn ++ [.removeFile]) returnedHost) :=
  durable_at_return run_earlyReturn

/-- The host returns, the answered command 1 is not in the file. -/
theorem return_loses_answered :
    ∃ h, run (Host.step (.compact true)) Host.init (earlyReturn ++ [.removeFile]) =
        some h ∧ h.main = .returned ∧ h.transcript.appended = [] ∧
      AnsweredBy (earlyReturn ++ [.removeFile]) 1 1 (spawnFailedResponse sampleError) ∧
      ¬ Durable (earlyReturn ++ [.removeFile]) h := by
  have hempty : returnedHost.transcript.appended = [] := by decide
  have hanswered : AnsweredBy (earlyReturn ++ [.removeFile]) 1 1
      (spawnFailedResponse sampleError) := by
    simp [AnsweredBy, earlyReturn, failedCommand]
  refine ⟨returnedHost, run_earlyReturn, rfl, hempty, hanswered, ?_⟩
  intro hdur
  obtain ⟨entry, hentry, -⟩ := hdur 1 1 _ hanswered
  rw [hempty] at hentry
  cases hentry

end Rexec
