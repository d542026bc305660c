import Rexec.Host
import Mathlib.Tactic

/-!
# The journal over whole runs

Every number taken for a command is in one of three conditions, which the
labels of the run decide together with the worker that took it: the worker
still holds it, it was submitted once and by this worker, or it was abandoned,
because the client did not take the report that the command could not be
spawned.  `run_ledger` proves this for every run, together with the meaning of
the transcript queue: it reflects the submissions.

`journalComplete_iff` reads the law of the journal off it: the journal is
complete exactly in the runs that abandon nothing.
-/

namespace Rexec

open Machine

/-- The worker `c` took the number `seq`. -/
def TakenBy (es : List Label) (c seq : Nat) : Prop :=
  ∃ time, Label.worker c (.fetchAdd seq time) ∈ es

/-- The label accepts a request and takes its number. -/
def Label.isTake : Label → Bool
  | .worker _ (.fetchAdd _ _) => true
  | _ => false

/-- The submission a label makes under `seq`, with its worker. -/
def Label.submission (seq : Nat) : Label → Option (Nat × TranscriptRecord)
  | .worker c (.submit s entry raw) =>
      if s = seq then some (c, ⟨entry, raw⟩) else none
  | _ => none

/-- The submissions under `seq`, in the order they were made. -/
def submissions (es : List Label) (seq : Nat) : List (Nat × TranscriptRecord) :=
  es.filterMap (Label.submission seq)

/-- What was submitted under `seq`, if anything was. -/
def submitted (es : List Label) (seq : Nat) : Option TranscriptRecord :=
  (submissions es seq).getLast?.map (·.2)

/-- The report of a failed spawn could not be written. -/
def Abandoned (es : List Label) (seq : Nat) : Prop :=
  ∃ c err,
    Label.worker c (.writeResponse (some seq) (spawnFailedResponse err) false) ∈ es

/-- The condition of a number that `c` took. -/
inductive Condition (es : List Label) (h : Host) (c seq : Nat) : Prop where
  | held (hheld : (h.workers c).held = some seq)
      (hnone : submissions es seq = []) (hno : ¬ Abandoned es seq)
  | submitted (hheld : (h.workers c).held ≠ some seq)
      (record : TranscriptRecord) (hone : submissions es seq = [(c, record)])
      (hno : ¬ Abandoned es seq)
  | abandoned (hheld : (h.workers c).held ≠ some seq)
      (hnone : submissions es seq = []) (hyes : Abandoned es seq)

/-- The numbers of a run and what became of them. -/
structure Ledger (es : List Label) (h : Host) : Prop where
  sound : ∀ c, (h.workers c).Sound
  count : es.countP Label.isTake = h.nextSeq
  bounded : ∀ c seq, TakenBy es c seq → seq < h.nextSeq
  taken : ∀ seq, seq < h.nextSeq → ∃ c, TakenBy es c seq
  unique : ∀ c c' seq, TakenBy es c seq → TakenBy es c' seq → c = c'
  holder : ∀ c seq, (h.workers c).held = some seq → TakenBy es c seq
  condition : ∀ c seq, TakenBy es c seq → Condition es h c seq
  known : ∀ seq, submissions es seq ≠ [] ∨ Abandoned es seq → seq < h.nextSeq
  reflects : TranscriptQueue.Reflects (submitted es) h.transcript

/-! ## One more label -/

section Labels

variable {es : List Label} {l : Label}

theorem takenBy_concat {c seq : Nat} :
    TakenBy (es ++ [l]) c seq ↔
      TakenBy es c seq ∨ ∃ time, l = .worker c (.fetchAdd seq time) := by
  unfold TakenBy
  simp only [List.mem_append, List.mem_singleton, exists_or]
  simp only [eq_comm]

theorem submissions_concat {seq : Nat} :
    submissions (es ++ [l]) seq =
      submissions es seq ++ (Label.submission seq l).toList := by
  unfold submissions
  rw [List.filterMap_append]
  cases h : Label.submission seq l <;> simp [h]

theorem abandoned_concat {seq : Nat} :
    Abandoned (es ++ [l]) seq ↔
      Abandoned es seq ∨ ∃ c err, l =
        .worker c (.writeResponse (some seq) (spawnFailedResponse err) false) := by
  unfold Abandoned
  simp only [List.mem_append, List.mem_singleton, exists_or]
  simp only [eq_comm]

/-- A label that touches no number. -/
structure Label.Neutral (l : Label) : Prop where
  take : ∀ c seq time, l ≠ .worker c (.fetchAdd seq time)
  submit : ∀ c seq entry raw, l ≠ .worker c (.submit seq entry raw)
  abandon : ∀ c seq err,
    l ≠ .worker c (.writeResponse (some seq) (spawnFailedResponse err) false)

theorem Label.Neutral.isTake (hl : l.Neutral) : l.isTake = false := by
  cases l with
  | worker c e =>
      cases e with
      | fetchAdd seq time => exact absurd rfl (hl.take c seq time)
      | _ => rfl
  | _ => rfl

theorem Label.Neutral.takenBy (hl : l.Neutral) {c seq : Nat} :
    TakenBy (es ++ [l]) c seq ↔ TakenBy es c seq := by
  rw [takenBy_concat]
  exact or_iff_left fun ⟨time, h⟩ => hl.take c seq time h

theorem submission_eq_none {seq : Nat}
    (h : ∀ c entry raw, l ≠ .worker c (.submit seq entry raw)) :
    Label.submission seq l = none := by
  cases l with
  | worker c e =>
      cases e with
      | submit s entry raw =>
          have hs : s ≠ seq := by
            rintro rfl
            exact h c entry raw rfl
          exact if_neg hs
      | _ => rfl
  | _ => rfl

theorem Label.Neutral.submissions (hl : l.Neutral) (seq : Nat) :
    submissions (es ++ [l]) seq = submissions es seq := by
  rw [submissions_concat,
    submission_eq_none fun c entry raw => hl.submit c seq entry raw]
  simp

theorem Label.Neutral.submitted (hl : l.Neutral) :
    submitted (es ++ [l]) = submitted es := by
  funext seq
  rw [Rexec.submitted, hl.submissions, Rexec.submitted]

theorem Label.Neutral.abandoned (hl : l.Neutral) {seq : Nat} :
    Abandoned (es ++ [l]) seq ↔ Abandoned es seq := by
  rw [abandoned_concat]
  exact or_iff_left fun ⟨c, err, h⟩ => hl.abandon c seq err h

end Labels
/-! ## The ledger of a run -/

section Steps

variable {cfg : Config} {es : List Label} {h h' : Host} {l : Label}

theorem ledger_nil : Ledger [] Host.init where
  sound := fun _ => trivial
  count := rfl
  bounded := by
    rintro c seq ⟨time, hmem⟩
    cases hmem
  taken := by
    intro seq hlt
    simp [Host.init] at hlt
  unique := by
    rintro c c' seq ⟨time, hmem⟩
    cases hmem
  holder := by
    intro c seq hheld
    cases hheld
  condition := by
    rintro c seq ⟨time, hmem⟩
    cases hmem
  known := by
    rintro seq (hsub | ⟨c, err, hmem⟩)
    · exact absurd rfl hsub
    · cases hmem
  reflects := TranscriptQueue.new_reflects

/-- A condition stays when nothing happens to its number. -/
theorem Condition.lift {c seq : Nat} (hc : Condition es h c seq)
    (hsub : submissions (es ++ [l]) seq = submissions es seq)
    (hab : Abandoned (es ++ [l]) seq ↔ Abandoned es seq)
    (hheld : (h'.workers c).held = some seq ↔ (h.workers c).held = some seq) :
    Condition (es ++ [l]) h' c seq := by
  cases hc with
  | held hh hnone hno =>
      exact .held (hheld.mpr hh) (by rw [hsub, hnone]) (by rwa [hab])
  | submitted hh record hone hno =>
      exact .submitted (by rwa [Ne, hheld]) record (by rw [hsub, hone]) (by rwa [hab])
  | abandoned hh hnone hyes =>
      exact .abandoned (by rwa [Ne, hheld]) (by rw [hsub, hnone]) (by rwa [hab])

/-- A label that touches no number keeps the ledger. -/
theorem Ledger.neutral (hL : Ledger es h) (hl : l.Neutral) (hq : h.Quiet h')
    (hsound : ∀ c, (h'.workers c).Sound)
    (hheld : ∀ c, (h'.workers c).held = (h.workers c).held) :
    Ledger (es ++ [l]) h' where
  sound := hsound
  count := by
    rw [List.countP_append, List.countP_singleton, hl.isTake, hq.nextSeq, hL.count]
    rfl
  bounded := by
    intro c seq ht
    rw [hq.nextSeq]
    exact hL.bounded c seq (hl.takenBy.mp ht)
  taken := by
    intro seq hlt
    rw [hq.nextSeq] at hlt
    obtain ⟨c, ht⟩ := hL.taken seq hlt
    exact ⟨c, hl.takenBy.mpr ht⟩
  unique := fun c c' seq ht ht' =>
    hL.unique c c' seq (hl.takenBy.mp ht) (hl.takenBy.mp ht')
  holder := by
    intro c seq hc
    rw [hheld] at hc
    exact hl.takenBy.mpr (hL.holder c seq hc)
  condition := by
    intro c seq ht
    exact (hL.condition c seq (hl.takenBy.mp ht)).lift (hl.submissions seq)
      hl.abandoned (by rw [hheld])
  known := by
    intro seq hk
    rw [hl.submissions, hl.abandoned] at hk
    rw [hq.nextSeq]
    exact hL.known seq hk
  reflects := by
    rw [hl.submitted]
    exact hq.reflects _ hL.reflects

/-- Of two workers at most one holds a number. -/
theorem Ledger.holder_unique (hL : Ledger es h) {c c' seq : Nat}
    (hc : (h.workers c).held = some seq) (ht : TakenBy es c' seq) : c' = c :=
  hL.unique c' c seq ht (hL.holder c seq hc)

/-- `fetch_add` hands out the next number. -/
theorem Ledger.take (hL : Ledger es h) {c : Nat} {w : Worker} {time : String}
    (hw : (h.workers c).held = none) (hw' : w.held = some h.nextSeq)
    (hs : w.Sound) :
    Ledger (es ++ [.worker c (.fetchAdd h.nextSeq time)])
      { h with
        nextSeq := h.nextSeq + 1, workers := Function.update h.workers c w } := by
  have hsub : ∀ s, submissions (es ++ [.worker c (.fetchAdd h.nextSeq time)]) s =
      submissions es s := by
    intro s
    rw [submissions_concat]
    simp [Label.submission]
  have hab : ∀ s, Abandoned (es ++ [.worker c (.fetchAdd h.nextSeq time)]) s ↔
      Abandoned es s := by
    intro s
    rw [abandoned_concat]
    simp
  have htake : ∀ c' s, TakenBy (es ++ [.worker c (.fetchAdd h.nextSeq time)]) c' s ↔
      TakenBy es c' s ∨ (c' = c ∧ s = h.nextSeq) := by
    intro c' s
    rw [takenBy_concat]
    simp only [Label.worker.injEq, Event.fetchAdd.injEq, eq_comm, exists_and_left]
    simp
  have hnone : submissions es h.nextSeq = [] := by
    by_contra hne
    exact Nat.lt_irrefl _ (hL.known _ (.inl hne))
  have hno : ¬ Abandoned es h.nextSeq := fun hyes =>
    Nat.lt_irrefl _ (hL.known _ (.inr hyes))
  refine ⟨?_, ?_, ?_, ?_, ?_, ?_, ?_, ?_, ?_⟩
  · exact forall_update (P := fun _ w => Worker.Sound w) hL.sound hs
  · rw [List.countP_append, List.countP_singleton, hL.count]
    rfl
  · intro c' s ht
    rcases (htake c' s).mp ht with old | ⟨-, rfl⟩
    · exact Nat.lt_succ_of_lt (hL.bounded c' s old)
    · exact Nat.lt_succ_self _
  · intro s hlt
    rcases Nat.lt_succ_iff_lt_or_eq.mp hlt with hlt | rfl
    · obtain ⟨c', ht⟩ := hL.taken s hlt
      exact ⟨c', (htake c' s).mpr (.inl ht)⟩
    · exact ⟨c, (htake c _).mpr (.inr ⟨rfl, rfl⟩)⟩
  · intro c1 c2 s h1 h2
    rcases (htake c1 s).mp h1 with old1 | ⟨rfl, rfl⟩
    · rcases (htake c2 s).mp h2 with old2 | ⟨rfl, rfl⟩
      · exact hL.unique c1 c2 s old1 old2
      · exact absurd (hL.bounded c1 _ old1) (Nat.lt_irrefl _)
    · rcases (htake c2 _).mp h2 with old2 | ⟨rfl, -⟩
      · exact absurd (hL.bounded c2 _ old2) (Nat.lt_irrefl _)
      · rfl
  · intro c' s hheld
    rw [htake]
    by_cases hc : c' = c
    · subst hc
      simp only [Function.update_self, hw', Option.some.injEq] at hheld
      exact .inr ⟨rfl, hheld.symm⟩
    · simp only [Function.update_of_ne hc] at hheld
      exact .inl (hL.holder c' s hheld)
  · intro c' s ht
    rcases (htake c' s).mp ht with old | ⟨rfl, rfl⟩
    · refine (hL.condition c' s old).lift (hsub s) (hab s) ?_
      by_cases hc : c' = c
      · subst hc
        have hlt := hL.bounded c' s old
        simp only [Function.update_self, hw', hw, Option.some.injEq, reduceCtorEq,
          iff_false]
        omega
      · simp only [Function.update_of_ne hc]
    · refine .held ?_ (by rw [hsub, hnone]) (by rwa [hab])
      simp only [Function.update_self, hw']
  · intro s hk
    rw [hsub, hab] at hk
    exact Nat.lt_succ_of_lt (hL.known s hk)
  · have : submitted (es ++ [.worker c (.fetchAdd h.nextSeq time)]) = submitted es := by
      funext s
      rw [submitted, hsub, submitted]
    rw [this]
    exact hL.reflects

/--
Giving a number up.  The step is a submission (`news` is the record) or the
failed report of a failed spawn (`news` is empty and the number is abandoned).
-/
theorem Ledger.release (hL : Ledger es h) {c seq : Nat} {w : Worker}
    {transcript : TranscriptQueue} {news : List (Nat × TranscriptRecord)}
    (hw : (h.workers c).held = some seq) (hw' : w.held = none) (hs : w.Sound)
    (hcount : l.isTake = false)
    (htake : ∀ c' s, TakenBy (es ++ [l]) c' s ↔ TakenBy es c' s)
    (hsub : submissions (es ++ [l]) seq = submissions es seq ++ news)
    (hothers : ∀ s, s ≠ seq → submissions (es ++ [l]) s = submissions es s ∧
      (Abandoned (es ++ [l]) s ↔ Abandoned es s))
    (hnews : (∃ record, news = [(c, record)] ∧
        (Abandoned (es ++ [l]) seq ↔ Abandoned es seq)) ∨
      (news = [] ∧ Abandoned (es ++ [l]) seq))
    (hrefl : TranscriptQueue.Reflects (submitted (es ++ [l])) transcript) :
    Ledger (es ++ [l])
      { h with transcript, workers := Function.update h.workers c w } := by
  refine ⟨?_, ?_, ?_, ?_, ?_, ?_, ?_, ?_, hrefl⟩
  · exact forall_update (P := fun _ w => Worker.Sound w) hL.sound hs
  · rw [List.countP_append, List.countP_singleton, hcount, hL.count]
    rfl
  · intro c' s ht
    exact hL.bounded c' s ((htake c' s).mp ht)
  · intro s hlt
    obtain ⟨c', ht⟩ := hL.taken s hlt
    exact ⟨c', (htake c' s).mpr ht⟩
  · intro c1 c2 s h1 h2
    exact hL.unique c1 c2 s ((htake c1 s).mp h1) ((htake c2 s).mp h2)
  · intro c' s hheld
    rw [htake]
    by_cases hc : c' = c
    · subst hc
      simp only [Function.update_self, hw', reduceCtorEq] at hheld
    · simp only [Function.update_of_ne hc] at hheld
      exact hL.holder c' s hheld
  · intro c' s ht
    have old := (htake c' s).mp ht
    by_cases hseq : s = seq
    · subst hseq
      obtain rfl : c' = c := hL.holder_unique hw old
      have hheld : (Function.update h.workers c' w c').held ≠ some s := by
        rw [Function.update_self, hw']
        simp
      cases hL.condition c' s old with
      | held hh hnone hno =>
          rcases hnews with ⟨record, rfl, hab⟩ | ⟨rfl, hyes⟩
          · exact .submitted hheld record (by rw [hsub, hnone]; rfl) (by rwa [hab])
          · exact .abandoned hheld (by rw [hsub, hnone]; rfl) hyes
      | submitted hh record hone hno => exact absurd hw hh
      | abandoned hh hnone hyes => exact absurd hw hh
    · obtain ⟨hs', hab'⟩ := hothers s hseq
      refine (hL.condition c' s old).lift hs' hab' ?_
      by_cases hc : c' = c
      · subst hc
        simp only [Function.update_self, hw', hw, Option.some.injEq, reduceCtorEq,
          false_iff]
        exact Ne.symm hseq
      · simp only [Function.update_of_ne hc]
  · intro s hk
    by_cases hseq : s = seq
    · subst hseq
      exact hL.bounded c s (hL.holder c s hw)
    · obtain ⟨hs', hab'⟩ := hothers s hseq
      rw [hs', hab'] at hk
      exact hL.known s hk

/-- A number held has no submission yet. -/
theorem Ledger.submitted_held (hL : Ledger es h) {c seq : Nat}
    (hw : (h.workers c).held = some seq) :
    submitted es seq = none := by
  cases hL.condition c seq (hL.holder c seq hw) with
  | held hh hnone hno => rw [submitted, hnone]; rfl
  | submitted hh record hone hno => exact absurd hw hh
  | abandoned hh hnone hyes => exact absurd hw hh

theorem Ledger.submit (hL : Ledger es h) {c seq : Nat} {entry : TranscriptEntry}
    {raw : String} (hw : h.workers c = .submitting seq entry raw) :
    Ledger (es ++ [.worker c (.submit seq entry raw)])
      { h with
        transcript := h.transcript.submit seq entry raw
        workers := Function.update h.workers c (.lineLoop false) } := by
  have hheld : (h.workers c).held = some seq := by
    rw [hw]
    rfl
  have hab : ∀ s, Abandoned (es ++ [.worker c (.submit seq entry raw)]) s ↔
      Abandoned es s := by
    intro s
    rw [abandoned_concat]
    simp
  have hsubmitted : submitted (es ++ [.worker c (.submit seq entry raw)]) =
      Function.update (submitted es) seq (some ⟨entry, raw⟩) := by
    funext s
    by_cases hs : s = seq
    · subst hs
      simp [submitted, submissions_concat, Label.submission]
    · simp [submitted, submissions_concat, Label.submission, Ne.symm hs, hs]
  refine hL.release hheld rfl trivial rfl ?_ ?_ ?_ (.inl ⟨⟨entry, raw⟩, rfl, hab seq⟩) ?_
  · intro c' s
    rw [takenBy_concat]
    simp
  · rw [submissions_concat]
    simp [Label.submission]
  · intro s hs
    refine ⟨?_, hab s⟩
    rw [submissions_concat]
    simp [Label.submission, Ne.symm hs]
  · rw [hsubmitted]
    exact TranscriptQueue.submit_reflects hL.reflects (hL.submitted_held hheld)

theorem Ledger.abandon (hL : Ledger es h) {c seq : Nat} {err : SpawnError}
    (hw : (h.workers c).held = some seq) :
    Ledger (es ++
        [.worker c (.writeResponse (some seq) (spawnFailedResponse err) false)])
      { h with workers := Function.update h.workers c .exited } := by
  have hsub : ∀ s, submissions (es ++
      [.worker c (.writeResponse (some seq) (spawnFailedResponse err) false)]) s =
      submissions es s := by
    intro s
    rw [submissions_concat]
    simp [Label.submission]
  refine hL.release hw rfl trivial rfl ?_ (by rw [hsub, List.append_nil]) ?_
    (.inr ⟨rfl, abandoned_concat.mpr (.inr ⟨c, err, rfl⟩)⟩) ?_
  · intro c' s
    rw [takenBy_concat]
    simp
  · intro s hs
    refine ⟨hsub s, ?_⟩
    rw [abandoned_concat]
    simp [Ne.symm hs]
  · have : submitted (es ++
        [.worker c (.writeResponse (some seq) (spawnFailedResponse err) false)]) =
        submitted es := by
      funext s
      rw [submitted, hsub, submitted]
    rw [this]
    exact hL.reflects

/-- Every step of the host keeps the ledger. -/
theorem Ledger.step (hL : Ledger es h) (hstep : h.step cfg l = some h') :
    Ledger (es ++ [l]) h' := by
  by_cases hl : ∃ c e, l = .worker c e
  · obtain ⟨c, e, rfl⟩ := hl
    obtain ⟨hs, w, hshare, hw, rfl⟩ := Host.step_worker hstep
    have hsound := hw.sound (hL.sound c)
    cases hw.holding (hL.sound c) with
    | taken seq time he hheld hheld' =>
        subst he
        obtain ⟨rfl, rfl⟩ := Host.share_fetchAdd hshare
        exact hL.take hheld hheld' hsound
    | submitted seq entry raw he hsubmitting hdone =>
        subst he hdone
        cases hshare
        exact hL.submit hsubmitting
    | abandoned seq err he hheld hdone =>
        subst he hdone
        cases hshare
        exact hL.abandon hheld
    | kept hheld htake hsubmit habandon =>
        refine hL.neutral ⟨?_, ?_, ?_⟩ ?_ ?_ ?_
        · rintro c' seq time ⟨⟩
          exact htake seq time rfl
        · rintro c' seq entry raw ⟨⟩
          exact hsubmit seq entry raw rfl
        · rintro c' seq err ⟨⟩
          exact habandon seq err rfl
        · have hq := Host.share_quiet htake hsubmit hshare
          exact ⟨hq.nextSeq, hq.reflects⟩
        · exact forall_update (P := fun _ w => Worker.Sound w) hL.sound hsound
        · exact forall_update (P := fun c w => Worker.held w = (h.workers c).held)
            (fun _ => rfl) hheld
  · have hmain : ∀ c e, l ≠ .worker c e := fun c e hc => hl ⟨c, e, hc⟩
    obtain ⟨hq, hworkers⟩ := Host.step_main hmain hstep
    refine hL.neutral ⟨?_, ?_, ?_⟩ hq ?_ ?_
    · exact fun c seq time => hmain c _
    · exact fun c seq entry raw => hmain c _
    · exact fun c seq err => hmain c _
    · rw [hworkers]
      exact hL.sound
    · intro c
      rw [hworkers]

/-- The ledger of every run. -/
theorem run_ledger (hrun : run (Host.step cfg) Host.init es = some h) :
    Ledger es h :=
  run_induction ledger_nil (fun _ _ _ _ _ hL hstep => hL.step hstep) hrun

end Steps
/-! ## Completeness -/

/--
The journal is complete: every number a worker took and no longer holds was
submitted once, by this worker; and when no worker holds a number, the journal
has one entry for each accepted request, in the order of the numbers, and
nothing is pending.
-/
structure JournalComplete (es : List Label) (h : Host) : Prop where
  once : ∀ c seq, TakenBy es c seq → (h.workers c).held ≠ some seq →
    ∃ record, submissions es seq = [(c, record)]
  ordered : (∀ c, (h.workers c).held = none) →
    h.transcript.appended.length = es.countP Label.isTake ∧
    (∀ seq, seq < h.nextSeq → ∃ c record, TakenBy es c seq ∧
      submissions es seq = [(c, record)] ∧
      h.transcript.appended[seq]? = some record.entry) ∧
    h.transcript.pending = ∅

section Laws

variable {cfg : Config} {es : List Label} {h : Host}

/-- Without abandonment a number that is not held was submitted once. -/
theorem Ledger.once (hL : Ledger es h) (hno : ∀ seq, ¬ Abandoned es seq)
    {c seq : Nat} (ht : TakenBy es c seq) (hheld : (h.workers c).held ≠ some seq) :
    ∃ record, submissions es seq = [(c, record)] := by
  cases hL.condition c seq ht with
  | held hh hnone hno => exact absurd hh hheld
  | submitted hh record hone hno => exact ⟨record, hone⟩
  | abandoned hh hnone hyes => exact absurd hyes (hno seq)

theorem submitted_of_once {c seq : Nat} {record : TranscriptRecord}
    (hone : submissions es seq = [(c, record)]) :
    submitted es seq = some record := by
  rw [submitted, hone]
  rfl

theorem submitted_eq_none_iff {seq : Nat} :
    submitted es seq = none ↔ submissions es seq = [] := by
  simp [submitted]

/-- When all is submitted, the queue has let everything go. -/
theorem Ledger.ordered (hL : Ledger es h) (hno : ∀ seq, ¬ Abandoned es seq)
    (hidle : ∀ c, (h.workers c).held = none) :
    h.transcript.appended.length = h.nextSeq ∧
      (∀ seq, seq < h.nextSeq → ∃ c record, TakenBy es c seq ∧
        submissions es seq = [(c, record)] ∧
        h.transcript.appended[seq]? = some record.entry) ∧
      h.transcript.pending = ∅ := by
  have hone : ∀ seq, seq < h.nextSeq → ∃ c record, TakenBy es c seq ∧
      submissions es seq = [(c, record)] := by
    intro seq hlt
    obtain ⟨c, ht⟩ := hL.taken seq hlt
    obtain ⟨record, hone⟩ := hL.once hno ht (by rw [hidle c]; simp)
    exact ⟨c, record, ht, hone⟩
  have hall : ∀ seq, submitted es seq ≠ none ↔ seq < h.nextSeq := by
    intro seq
    constructor
    · intro hne
      exact hL.known seq (.inl fun hnil => hne (submitted_eq_none_iff.mpr hnil))
    · intro hlt hnone
      obtain ⟨c, record, -, hsub⟩ := hone seq hlt
      rw [submitted_of_once hsub] at hnone
      cases hnone
  obtain ⟨out, hrep, happ⟩ := hL.reflects
  obtain ⟨-, hlen, hout, hpending⟩ := Reorder.represents_complete hrep hall
  refine ⟨by rw [happ, List.length_map, hlen], ?_, hpending⟩
  intro seq hlt
  obtain ⟨c, record, ht, hsub⟩ := hone seq hlt
  refine ⟨c, record, ht, hsub, ?_⟩
  rw [happ, List.getElem?_map, hout seq hlt, submitted_of_once hsub]
  rfl

/--
The journal is complete exactly as long as no report of a failed spawn was lost:
then, and only then, every number is submitted.
-/
theorem journalComplete_iff
    (hrun : run (Host.step cfg) Host.init es = some h) :
    JournalComplete es h ↔ ∀ seq, ¬ Abandoned es seq := by
  have hL := run_ledger hrun
  constructor
  · intro hcomplete seq hyes
    obtain ⟨c, ht⟩ := hL.taken seq (hL.known seq (.inr hyes))
    cases hL.condition c seq ht with
    | held hh hnone hno => exact hno hyes
    | submitted hh record hone hno => exact hno hyes
    | abandoned hh hnone _ =>
        obtain ⟨record, hone⟩ := hcomplete.once c seq ht hh
        rw [hnone] at hone
        cases hone
  · intro hno
    refine ⟨fun c seq ht hheld => hL.once hno ht hheld, fun hidle => ?_⟩
    rw [hL.count]
    exact hL.ordered hno hidle

end Laws

/-- The report of command 0 is lost; command 1 fails too, and is submitted. -/
def lostReport : List Label :=
  failedCommand 0 0 false ++ failedCommand 1 1 true ++ [.worker 1 (failedSubmit 1)]

/-- After the lost report: nobody holds number 0. -/
def lostHost : Host :=
  { Host.init with
    nextSeq := 1, accepted := 1
    workers := Function.update Host.init.workers 0 .exited }

/-- Where `lostReport` ends: entry 1 waits for entry 0. -/
def stalledHost : Host :=
  { lostHost with
    nextSeq := 2, accepted := 2
    workers := Function.update lostHost.workers 1 (.lineLoop false)
    transcript :=
      TranscriptQueue.new.submit 1 (spawnFailedEntry sampleRequest "t" sampleError)
        (spawnFailedMessage sampleError) }

theorem run_lostReport :
    run (Host.step (.compact true)) Host.init lostReport = some stalledHost := by
  have hfirst : run (Host.step (.compact true)) Host.init (failedCommand 0 0 false) =
      some lostHost :=
    run_failedCommand false rfl rfl rfl
  have hsecond := @run_failedCommand true lostHost true rfl rfl rfl
  have haccepted : lostHost.accepted = 1 := rfl
  have hnext : lostHost.nextSeq = 1 := rfl
  have hmain : lostHost.main = .loopTop := rfl
  have htranscript : lostHost.transcript = .new := rfl
  rw [haccepted, hnext] at hsecond
  rw [lostReport, run_append, run_append, hfirst, Option.bind_some, hsecond]
  simp [run_cons, failedSubmit, Host.step, Host.share, Worker.step, stalledHost,
    hmain, htranscript]

theorem journalComplete_lostReport :
    JournalComplete lostReport stalledHost ↔ ∀ seq, ¬ Abandoned lostReport seq :=
  journalComplete_iff run_lostReport

/-- After a lost report the journal stays empty, although every worker is idle. -/
theorem journal_stalls :
    ∃ h, run (Host.step (.compact true)) Host.init lostReport = some h ∧
      (∀ c, (h.workers c).held = none) ∧ lostReport.countP Label.isTake = 2 ∧
      h.transcript.appended = [] ∧ ¬ JournalComplete lostReport h := by
  have hidle : ∀ c, (stalledHost.workers c).held = none := by
    intro c
    rcases c with _ | _ | c <;> rfl
  refine ⟨stalledHost, run_lostReport, hidle, by decide, by decide, ?_⟩
  intro hcomplete
  have htaken : TakenBy lostReport 0 0 :=
    ⟨"t", by simp [lostReport, failedCommand, sampleCommand]⟩
  obtain ⟨record, hone⟩ := hcomplete.once 0 0 htaken (by rw [hidle]; simp)
  cases hone

end Rexec
