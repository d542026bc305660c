import Rexec.Session
import Rexec.Stages
import Mathlib.Tactic

/-!
# What a conforming client can rely on

Over the invariant of a session: why a watcher kills, what a run records about
the history variables, and that the host can always go on to answer everything
it was asked.  `session_law` puts these together for every run, and
`openingPing_counts_not` shows why the opening Ping must not count as the Ping
of the first Request.
-/

namespace Rexec

open Machine

namespace Session

/-- The watcher of the current command has a reason to kill. -/
def Justified (s : Session) : Prop :=
  s.cause = some (.abort (some s.reads)) ∨
    (s.cause = some .eof ∧ s.client.connected = false)

structure Reasoned (s : Session) : Prop where
  tidy : s.worker.Tidy
  justified : s.worker.Aborting → Justified s

theorem init_reasoned (mark : Nat) : Reasoned (init mark) where
  tidy := trivial
  justified := fun h => by cases h

section Steps

variable {cfg : Config} {s s' : Session}

/-- What the client does takes no reason away. -/
theorem Reasoned.client_step (h : Reasoned s) {l : Label} (hl : ∀ e, l ≠ .host e)
    (hstep : s.step cfg l = some s') :
    Reasoned s' := by
  have hsame : s'.worker = s.worker ∧ s'.cause = s.cause ∧ s'.reads = s.reads ∧
      (s.client.connected = false → s'.client.connected = false) := by
    cases step_cases hstep with
    | @send _ kind client _ hsend =>
        refine ⟨rfl, rfl, rfl, fun hc => ?_⟩
        cases kind <;> simp [Client.send, hc] at hsend
    | disconnect => exact ⟨rfl, rfl, rfl, fun _ => rfl⟩
    | @receive r => exact ⟨rfl, rfl, rfl, fun hc => by cases r <;> exact hc⟩
    | host => exact absurd rfl (hl _)
  obtain ⟨hworker, hcause, hreads, hconn⟩ := hsame
  refine ⟨by rw [hworker]; exact h.tidy, ?_⟩
  intro hab
  rw [hworker] at hab
  rcases h.justified hab with hj | ⟨hj, hgone⟩
  · exact .inl (by rw [hcause, hreads, hj])
  · exact .inr ⟨by rw [hcause, hj], hconn hgone⟩

theorem effect_keeps {m : Session} {e : Event} (hread : ∀ r, e ≠ .readLine r)
    (hwatch : ∀ r, e ≠ .watcherRead r) (hspawn : ∀ r x, e ≠ .spawn r x)
    (hm : s.effect e = some m) :
    m.client = s.client ∧ m.inbox = s.inbox ∧ m.reads = s.reads ∧
      m.cause = s.cause := by
  cases e with
  | readLine r => exact absurd rfl (hread r)
  | watcherRead r => exact absurd rfl (hwatch r)
  | spawn r x => exact absurd rfl (hspawn r x)
  | tryClone ok =>
      simp only [effect] at hm
      split at hm
      · cases hm
        exact ⟨rfl, rfl, rfl, rfl⟩
      · cases hm
  | writePong ok =>
      obtain ⟨-, rfl⟩ := write_eq hm
      exact ⟨rfl, rfl, rfl, rfl⟩
  | writeResponse seq resp ok =>
      obtain ⟨-, rfl⟩ := write_eq hm
      exact ⟨rfl, rfl, rfl, rfl⟩
  | _ =>
      cases hm
      exact ⟨rfl, rfl, rfl, rfl⟩

/-- What the watcher reads, unless it is nothing, is a reason to kill. -/
theorem Live.watch_justified (hL : Live cfg s) (hrole : s.worker.role = .serving)
    {m : Session} {r : ReadLine} (hm : s.effect (.watcherRead r) = some m) :
    (r = .timeout ∧ m = s) ∨ Justified m := by
  obtain ⟨haborts, hreads⟩ := hL.inbox_serving hrole
  rcases effect_watcherRead hm with ⟨l, rest, rfl, hin, rfl⟩ | ⟨rfl, hgone, rfl⟩ | hnothing
  · obtain ⟨hkind, htag⟩ := haborts l (by simp [hin])
    right
    left
    simp [hkind, htag, hreads]
  · exact .inr (.inr ⟨rfl, hgone⟩)
  · exact .inl hnothing

/-- What the host does leaves the watcher justified. -/
theorem Reasoned.host_step (h : Reasoned s) (hL : Live cfg s) {e : Event}
    (hstep : s.step cfg (.host e) = some s') :
    Reasoned s' := by
  obtain ⟨m, w, hm, hw, rfl⟩ := step_host hstep
  refine ⟨hw.tidy h.tidy, ?_⟩
  intro hab
  change Justified m
  by_cases hwatch : ∃ r, e = .watcherRead r
  · obtain ⟨r, rfl⟩ := hwatch
    have hrole : s.worker.role = .serving := by
      generalize s.worker = w₀ at hw
      cases hw with
      | foreground h => cases h
      | background h => rfl
    rcases hL.watch_justified hrole hm with ⟨rfl, rfl⟩ | hj
    · rcases hw.aborting hab with hab | ⟨r, hr, hterm⟩
      · exact h.justified hab
      · cases hr
        cases hterm
    · exact hj
  · rcases hw.aborting hab with hold | ⟨r, rfl, -⟩
    · have hnot : (∀ r, e ≠ .readLine r) ∧ ∀ r x, e ≠ .spawn r x := by
        clear hab hstep
        generalize s.worker = w₀ at hw hold
        cases hw with
        | foreground h => cases h <;> simp
        | background h => cases h <;> simp
        | _ => cases hold
      obtain ⟨hclient, -, hreads, hcause⟩ :=
        effect_keeps hnot.1 (fun r hr => hwatch ⟨r, hr⟩) hnot.2 hm
      rw [Justified, hclient, hreads, hcause]
      exact h.justified hold
    · exact absurd ⟨r, rfl⟩ hwatch

theorem Reasoned.step (h : Reasoned s) (hO : Orderly cfg s) {l : Label}
    (hstep : s.step cfg l = some s') :
    Reasoned s' := by
  by_cases hl : ∃ e, l = .host e
  · obtain ⟨e, rfl⟩ := hl
    rcases hO with hO | hL
    · obtain ⟨m, w, -, hw, -⟩ := step_host hstep
      rw [hO.worker] at hw
      cases hw
    · exact h.host_step hL hstep
  · exact h.client_step (fun e he => hl ⟨e, he⟩) hstep

/-! ## What the labels record -/

/-- The client sends a Request. -/
def Label.isRequest (cfg : Config) : Label → Bool
  | .send text => cfg.kindOf text = some .request
  | _ => false

/-- The worker reads a Request. -/
def Label.isRequestRead (cfg : Config) : Label → Bool
  | .host (.readLine (.line text)) => cfg.kindOf text = some .request
  | _ => false

/-- The client sent an Abort while its `k`-th Request was outstanding. -/
def AbortSent (cfg : Config) (es : List Label) (k : Nat) : Prop :=
  ∃ pre text post, es = pre ++ .send text :: post ∧
    cfg.kindOf text = some .abort ∧ pre.countP (Label.isRequest cfg) = k ∧
    ∃ t, run (Session.step cfg) (init 1) pre = some t ∧ t.client.outstanding = true

structure Recorded (cfg : Config) (es : List Label) (s : Session) : Prop where
  requests : s.client.requests = es.countP (Label.isRequest cfg)
  reads : s.reads = es.countP (Label.isRequestRead cfg)
  inbox : ∀ l ∈ s.inbox, l.kind = .abort → ∀ k, l.tag = some k → AbortSent cfg es k
  cause : ∀ k, s.cause = some (.abort (some k)) → AbortSent cfg es k
  gone : s.client.connected = false → Label.disconnect ∈ es

theorem AbortSent.concat {es : List Label} {l : Label} {k : Nat}
    (h : AbortSent cfg es k) : AbortSent cfg (es ++ [l]) k := by
  obtain ⟨pre, text, post, rfl, hkind, hcount, hout⟩ := h
  exact ⟨pre, text, post ++ [l], by simp, hkind, hcount, hout⟩

theorem init_recorded (mark : Nat) : Recorded cfg [] (init mark) where
  requests := rfl
  reads := rfl
  inbox := fun l hl => by cases hl
  cause := fun k hk => by cases hk
  gone := fun h => by cases h

/-- The record after a step that sends no line and reads none. -/
theorem Recorded.keep {es : List Label} (h : Recorded cfg es s) {l : Label}
    (hrequest : Label.isRequest cfg l = false)
    (hread : Label.isRequestRead cfg l = false)
    (hrequests : s'.client.requests = s.client.requests) (hreads : s'.reads = s.reads)
    (hinbox : ∀ m ∈ s'.inbox, m ∈ s.inbox)
    (hcause : ∀ k, s'.cause = some (.abort (some k)) → s.cause = some (.abort (some k)))
    (hgone : s'.client.connected = false →
      s.client.connected = false ∨ l = .disconnect) :
    Recorded cfg (es ++ [l]) s' where
  requests := by
    rw [hrequests, h.requests, List.countP_append, List.countP_singleton, hrequest]
    rfl
  reads := by
    rw [hreads, h.reads, List.countP_append, List.countP_singleton, hread]
    rfl
  inbox := fun m hm hkind k hk => (h.inbox m (hinbox m hm) hkind k hk).concat
  cause := fun k hk => (h.cause k (hcause k hk)).concat
  gone := by
    intro hc
    rcases hgone hc with hc | rfl
    · exact List.mem_append_left _ (h.gone hc)
    · simp

theorem Recorded.send {es : List Label} (h : Recorded cfg es s)
    (hrun : run (Session.step cfg) (init 1) es = some s) {text : String} {kind : Kind}
    {client : Client} (hkind : cfg.kindOf text = some kind)
    (hsend : s.client.send kind = some client) :
    Recorded cfg (es ++ [.send text]) { s with
      client
      inbox := s.inbox ++ [⟨kind, text, client.current⟩]
      asked := if kind = .abort then s.asked else s.asked ++ [kind] } := by
  have hclient : client.requests =
      s.client.requests + (if kind = .request then 1 else 0) ∧
      client.connected = s.client.connected := by
    cases kind <;> simp only [Client.send] at hsend <;> split at hsend <;>
      cases hsend <;> exact ⟨rfl, rfl⟩
  have hcount : (es ++ [Label.send text]).countP (Label.isRequest cfg) =
      es.countP (Label.isRequest cfg) + (if kind = .request then 1 else 0) := by
    rw [List.countP_append, List.countP_singleton]
    simp [Label.isRequest, hkind]
  refine ⟨?_, ?_, ?_, fun k hk => (h.cause k hk).concat, ?_⟩
  · rw [hcount, hclient.1, h.requests]
  · rw [List.countP_append, List.countP_singleton]
    simpa [Label.isRequestRead] using h.reads
  · intro l hl habort k hk
    rcases List.mem_append.mp hl with hl | hl
    · exact (h.inbox l hl habort k hk).concat
    · obtain rfl := List.mem_singleton.mp hl
      obtain rfl : kind = .abort := habort
      obtain rfl : s.client = client := by
        simp only [Client.send] at hsend
        split at hsend <;> cases hsend
        rfl
      obtain ⟨hout, hrequests⟩ := Client.current_eq_some hk
      exact ⟨es, text, [], rfl, hkind, by rw [← h.requests, hrequests], s, hrun, hout⟩
  · intro hc
    rw [show client.connected = s.client.connected from hclient.2] at hc
    exact List.mem_append_left _ (h.gone hc)

theorem Recorded.host {es : List Label} (h : Recorded cfg es s) (hL : Live cfg s)
    {e : Event} (hstep : s.step cfg (.host e) = some s') :
    Recorded cfg (es ++ [.host e]) s' := by
  obtain ⟨m, w, hm, hw, rfl⟩ := step_host hstep
  by_cases hread : ∃ r, e = .readLine r
  · obtain ⟨r, rfl⟩ := hread
    rcases effect_readLine hm with ⟨l, rest, rfl, hin, rfl⟩ | ⟨rfl, hgone, rfl⟩
    · have htext := hL.texts l (by simp [hin])
      have hcount : (es ++ [Label.host (.readLine (.line l.text))]).countP
          (Label.isRequestRead cfg) =
          es.countP (Label.isRequestRead cfg) + if l.kind = .request then 1 else 0 := by
        rw [List.countP_append, List.countP_singleton]
        simp [Label.isRequestRead, htext]
      refine ⟨?_, ?_, ?_, fun k hk => (h.cause k hk).concat, fun hc => ?_⟩
      · rw [List.countP_append, List.countP_singleton]
        simpa [Label.isRequest] using h.requests
      · rw [hcount, ← h.reads]
        simp only
        split <;> rfl
      · exact fun x hx hkind k hk =>
          (h.inbox x (by simp [hin, show x ∈ rest from hx]) hkind k hk).concat
      · exact List.mem_append_left _ (h.gone hc)
    · exact h.keep rfl rfl rfl rfl (fun _ hx => hx) (fun _ hk => hk) .inl
  · by_cases hwatch : ∃ r, e = .watcherRead r
    · obtain ⟨r, rfl⟩ := hwatch
      rcases effect_watcherRead hm with
        ⟨l, rest, rfl, hin, rfl⟩ | ⟨rfl, hgone, rfl⟩ | ⟨rfl, rfl⟩
      · refine ⟨?_, ?_, ?_, ?_, fun hc => List.mem_append_left _ (h.gone hc)⟩
        · rw [List.countP_append, List.countP_singleton]
          simpa [Label.isRequest] using h.requests
        · rw [List.countP_append, List.countP_singleton]
          simpa [Label.isRequestRead] using h.reads
        · exact fun x hx hkind k hk =>
            (h.inbox x (by simp [hin, show x ∈ rest from hx]) hkind k hk).concat
        · intro k hk
          simp only at hk
          split at hk
          · rename_i hkind
            rw [Option.some.injEq, Cause.abort.injEq] at hk
            exact (h.inbox l (by simp [hin]) hkind k hk).concat
          · exact (h.cause k hk).concat
      · exact h.keep rfl rfl rfl rfl (fun _ hx => hx) (fun _ hk => by cases hk) .inl
      · exact h.keep rfl rfl rfl rfl (fun _ hx => hx) (fun _ hk => hk) .inl
    · have hl : Label.isRequestRead cfg (.host e) = false := by
        cases e with
        | readLine r => exact absurd ⟨r, rfl⟩ hread
        | _ => rfl
      by_cases hspawn : ∃ r x, e = .spawn r x
      · obtain ⟨r, x, rfl⟩ := hspawn
        cases hm
        exact h.keep rfl hl rfl rfl (fun _ hx => hx) (fun _ hk => by cases hk) .inl
      · obtain ⟨hclient, hinbox, hreads, hcause⟩ :=
          effect_keeps (fun r hr => hread ⟨r, hr⟩) (fun r hr => hwatch ⟨r, hr⟩)
            (fun r x hx => hspawn ⟨r, x, hx⟩) hm
        refine h.keep rfl hl ?_ hreads ?_ ?_ ?_
        · simp only [hclient]
        · simp only [hinbox]
          exact fun _ hx => hx
        · simp only [hcause]
          exact fun _ hk => hk
        · simp only [hclient]
          exact .inl

theorem Recorded.step {es : List Label} (h : Recorded cfg es s) (hO : Orderly cfg s)
    (hrun : run (Session.step cfg) (init 1) es = some s) {l : Label}
    (hstep : s.step cfg l = some s') :
    Recorded cfg (es ++ [l]) s' := by
  cases l with
  | send text =>
      cases step_cases hstep with
      | send hkind hsend => exact h.send hrun hkind hsend
  | disconnect =>
      cases step_cases hstep with
      | disconnect =>
          exact h.keep rfl rfl rfl rfl (fun _ hx => hx) (fun _ hk => hk) (fun _ => .inr rfl)
  | receive =>
      cases step_cases hstep with
      | @receive r =>
          refine h.keep rfl rfl ?_ rfl (fun _ hx => hx) (fun _ hk => hk) ?_
          · cases r <;> rfl
          · cases r <;> exact .inl
  | host e =>
      rcases hO with hO | hL
      · obtain ⟨m, w, -, hw, -⟩ := step_host hstep
        rw [hO.worker] at hw
        cases hw
      · exact h.host hL hstep

/-- The three invariants together, for every run. -/
theorem run_invariants {es : List Label}
    (h : run (Session.step cfg) (init 1) es = some s) :
    Orderly cfg s ∧ Reasoned s ∧ Recorded cfg es s :=
  run_induction (P := fun es s => Orderly cfg s ∧ Reasoned s ∧ Recorded cfg es s)
    ⟨.inr (init_live cfg), init_reasoned 1, init_recorded 1⟩
    (fun _ _ _ _ hrun hI hstep =>
      ⟨hI.1.step hstep, hI.2.1.step hI.1 hstep, hI.2.2.step hI.1 hrun hstep⟩) h

end Steps
/-! ## The host can always answer -/

def timerRank : Timer → Nat
  | .waiting => 3
  | .term => 2
  | .kill => 1
  | _ => 0

def watcherRank : Watcher → Nat
  | .term => 3
  | .kill => 2
  | .reading => 2
  | .check => 1
  | .done _ => 0

def stageRank : Stage → Nat
  | .joinReader => 8
  | .storeFinished => 7
  | .cancelTimer => 6
  | .joinTimer => 5
  | .joinWatcher _ => 4
  | .waitChild _ _ => 3
  | .readErrno _ _ _ => 2
  | .respond _ _ _ => 1

/-- How far a worker is from its next read, at most 20 steps. -/
def workerRank : Worker → Nat
  | .start => 1
  | .openingPong => 1
  | .pong => 1
  | .reject _ => 1
  | .accepted _ => 4
  | .spawning _ _ _ => 3
  | .spawnFailed _ _ _ _ => 2
  | .running cmd stage =>
      1 + stageRank stage + timerRank cmd.timer + watcherRank cmd.watcher +
        (if cmd.readerDone then 0 else 1)
  | .submitting _ _ _ => 1
  | _ => 0

def size (s : Session) : Nat :=
  20 * s.inbox.length + workerRank s.worker

def Label.isHost : Label → Prop
  | .host _ => True
  | _ => False

/-- The event can always happen, and moves no line towards the host. -/
def Free (e : Event) : Prop :=
  ∀ s : Session, ∃ m, s.effect e = some m ∧ m.inbox = s.inbox ∧
    m.client = s.client ∧ m.asked = s.asked

theorem free_of_effect {e : Event} (h : ∀ s : Session, s.effect e = some s) : Free e :=
  fun s => ⟨s, h s, rfl, rfl, rfl⟩

theorem write_true (s : Session) (r : Reply) :
    s.write r true =
      some { s with answered := s.answered ++ [r], outbox := s.outbox ++ [r] } := by
  simp [write]

theorem free_writePong : Free (.writePong true) :=
  fun s => ⟨_, write_true s .pong, rfl, rfl, rfl⟩

theorem free_writeResponse (seq : Option Nat) (resp : Response) :
    Free (.writeResponse seq resp true) :=
  fun s => ⟨_, write_true s (.response resp), rfl, rfl, rfl⟩

/-- A command gets nearer to its response. -/
theorem command_progress (cfg : Config) {cmd : Command} {stage : Stage}
    (htidy : (Worker.running cmd stage).Tidy) :
    ∃ e w, (Worker.running cmd stage).Step cfg e w ∧ Free e ∧
      workerRank w < workerRank (.running cmd stage) := by
  have hquiet : ∀ {e : Event} {w : Worker}, (Worker.running cmd stage).Step cfg e w →
      (∀ s : Session, s.effect e = some s) →
      workerRank w < workerRank (.running cmd stage) →
      ∃ e w, (Worker.running cmd stage).Step cfg e w ∧ Free e ∧
        workerRank w < workerRank (.running cmd stage) :=
    fun hstep heffect hrank => ⟨_, _, hstep, free_of_effect heffect, hrank⟩
  cases stage with
  | joinReader =>
      cases hreader : cmd.readerDone with
      | false =>
          refine hquiet (.background (.ptyEof hreader)) (fun _ => rfl) ?_
          simp [workerRank, hreader]
      | true =>
          refine hquiet (.foreground (.joinReader hreader)) (fun _ => rfl) ?_
          simp [workerRank, stageRank]
  | storeFinished =>
      refine hquiet (.foreground .storeFinished) (fun _ => rfl) ?_
      simp [workerRank, stageRank]
  | cancelTimer =>
      by_cases htimer : cmd.timer = .absent
      · refine hquiet (.foreground (.noTimer htimer)) (fun _ => rfl) ?_
        simp [workerRank, stageRank]
      · refine hquiet (.foreground (.cancelTimer htimer)) (fun _ => rfl) ?_
        simp [workerRank, stageRank]
  | joinTimer =>
      obtain ⟨-, hcancelled, habsent⟩ := htidy
      cases htimer : cmd.timer with
      | absent => exact absurd htimer habsent
      | waiting =>
          refine hquiet (.background (.timerCancelled htimer hcancelled)) (fun _ => rfl) ?_
          simp [workerRank, timerRank, htimer]
      | term =>
          refine hquiet (.background (.timerTerm htimer)) (fun _ => rfl) ?_
          simp [workerRank, timerRank, htimer]
      | kill =>
          refine hquiet (.background (.timerKill htimer)) (fun _ => rfl) ?_
          simp [workerRank, timerRank, htimer]
      | done timedOut =>
          refine hquiet (.foreground (.joinTimer htimer)) (fun _ => rfl) ?_
          simp [workerRank, stageRank]
  | joinWatcher timedOut =>
      cases hwatcher : cmd.watcher with
      | check =>
          refine hquiet (.background (.watcherCheck hwatcher)) (fun _ => rfl) ?_
          simp [workerRank, watcherRank, hwatcher, show cmd.commandFinished = true from htidy]
      | reading =>
          refine hquiet (.background (.watcherRead (r := .timeout) hwatcher))
            (fun _ => rfl) ?_
          simp [workerRank, watcherRank, hwatcher, Config.onWatched]
      | term =>
          refine hquiet (.background (.watcherTerm hwatcher)) (fun _ => rfl) ?_
          simp [workerRank, watcherRank, hwatcher]
      | kill =>
          refine hquiet (.background (.watcherKill hwatcher)) (fun _ => rfl) ?_
          simp [workerRank, watcherRank, hwatcher]
      | done aborted =>
          refine hquiet (.foreground (.joinWatcher hwatcher)) (fun _ => rfl) ?_
          simp [workerRank, stageRank]
  | waitChild timedOut aborted =>
      refine hquiet (.foreground (.waited (r := .exited 0) rfl)) (fun _ => rfl) ?_
      simp [workerRank, stageRank]
  | readErrno timedOut aborted code =>
      refine hquiet (e := .readErrno none) (.foreground .readErrno) (fun _ => rfl) ?_
      simp [workerRank, stageRank, Command.outcome]
  | respond response entry raw =>
      refine ⟨.writeResponse (some cmd.seq) response true, _, .foreground .respond,
        free_writeResponse _ _, ?_⟩
      simp only [workerRank, stageRank]
      omega

/-- A worker that is not about to read gets nearer to its next read. -/
theorem worker_progress (cfg : Config) {w₀ : Worker} (hrole : w₀.role ≠ .foreign)
    (htidy : w₀.Tidy) :
    w₀ = .handshake ∨ (∃ p, w₀ = .lineLoop p) ∨
      ∃ e w, w₀.Step cfg e w ∧ Free e ∧ workerRank w < workerRank w₀ := by
  cases w₀ with
  | start =>
      exact .inr (.inr ⟨_, _, .cloned, free_of_effect fun _ => rfl, Nat.one_pos⟩)
  | handshake => exact .inl rfl
  | openingPong => exact .inr (.inr ⟨_, _, .opened, free_writePong, Nat.one_pos⟩)
  | lineLoop p => exact .inr (.inl ⟨p, rfl⟩)
  | pong => exact .inr (.inr ⟨_, _, .ponged, free_writePong, Nat.one_pos⟩)
  | reject resp =>
      exact .inr (.inr ⟨_, _, .rejected, free_writeResponse _ _, Nat.one_pos⟩)
  | accepted request =>
      exact .inr (.inr ⟨.fetchAdd 0 "", _, .fetchAdd, free_of_effect fun _ => rfl,
        Nat.lt_succ_self _⟩)
  | spawning seq request time =>
      refine .inr (.inr ⟨.spawn request (.error (.nulByte "")), _, .spawnFailed, ?_,
        Nat.lt_succ_self _⟩)
      exact fun s => ⟨_, rfl, rfl, rfl, rfl⟩
  | spawnFailed seq request time err =>
      exact .inr (.inr ⟨_, _, .failureReported, free_writeResponse _ _,
        Nat.lt_succ_self _⟩)
  | running cmd stage => exact .inr (.inr (command_progress cfg htidy))
  | submitting seq entry raw =>
      exact .inr (.inr ⟨_, _, .submit, free_of_effect fun _ => rfl, Nat.one_pos⟩)
  | _ => exact absurd rfl hrole

/-- A read costs one line and leaves the worker a bounded way from the next. -/
theorem workerRank_read (cfg : Config) (p : Bool) (r : ReadLine) :
    workerRank (cfg.onLine p r) ≤ 4 ∧ workerRank (cfg.onOpening r) ≤ 4 := by
  constructor
  · refine cfg.onLine_elim p r ?_ ?_ ?_ ?_ ?_ ?_ <;> intros <;> simp [workerRank]
  · exact cfg.onOpening_elim r (by simp [workerRank]) (by simp [workerRank])

/-- Everything asked so far is answered. -/
def Settled (s : Session) : Prop :=
  s.answered.map Reply.answers = s.asked

section Progress

variable {cfg : Config} {s : Session}

theorem step_of_Step {e : Event} {m : Session} {w : Worker}
    (hm : s.effect e = some m) (hw : s.worker.Step cfg e w) :
    s.step cfg (.host e) = some { m with worker := w } := by
  simp only [Session.step, hm, Worker.step_iff.mpr hw]

theorem Live.role_ne_foreign (h : Live cfg s) : s.worker.role ≠ .foreign := by
  cases h.phase with
  | opening hrole => rw [hrole]; simp
  | idle flag hrole => rw [hrole]; simp
  | sent hrole => rw [hrole]; simp
  | serving hrole => rw [hrole]; simp
  | answered hrole => rw [hrole]; simp

/-- A worker at its read that finds no line has answered everything. -/
theorem Live.settled_of_empty (h : Live cfg s) (hin : s.inbox = [])
    (hworker : s.worker = .handshake ∨ ∃ p, s.worker = .lineLoop p) :
    Settled s := by
  have hnone : s.worker.pendingKind = [] := by
    rcases hworker with hworker | ⟨p, hworker⟩ <;> rw [hworker] <;> rfl
  rw [Settled, h.flow, hnone, hin]
  simp

/-- The host can make a step towards answering everything. -/
theorem Live.progress (h : Live cfg s) (hr : Reasoned s) (hs : ¬ Settled s) :
    ∃ e s', s.step cfg (.host e) = some s' ∧ s'.client = s.client ∧
      s'.asked = s.asked ∧ size s' < size s := by
  have hline : s.worker = .handshake ∨ (∃ p, s.worker = .lineLoop p) →
      ∃ l rest, s.inbox = l :: rest := by
    intro hworker
    cases hin : s.inbox with
    | nil => exact absurd (h.settled_of_empty hin hworker) hs
    | cons l rest => exact ⟨l, rest, rfl⟩
  rcases worker_progress cfg h.role_ne_foreign hr.tidy with
    hworker | ⟨p, hworker⟩ | ⟨e, w, hw, hfree, hrank⟩
  · obtain ⟨l, rest, hin⟩ := hline (.inl hworker)
    have hstep : s.worker.Step cfg (.readLine (.line l.text))
        (cfg.onOpening (.line l.text)) := by
      rw [hworker]
      exact .opening
    refine ⟨_, _, step_of_Step (m := { s with
      inbox := rest, reads := if l.kind = .request then s.reads + 1 else s.reads })
      (by simp [effect, hin]) hstep, rfl, rfl, ?_⟩
    have hle := (workerRank_read cfg false (.line l.text)).2
    simp only [size, hin, List.length_cons]
    omega
  · obtain ⟨l, rest, hin⟩ := hline (.inr ⟨p, hworker⟩)
    have hstep : s.worker.Step cfg (.readLine (.line l.text))
        (cfg.onLine p (.line l.text)) := by
      rw [hworker]
      exact .line
    refine ⟨_, _, step_of_Step (m := { s with
      inbox := rest, reads := if l.kind = .request then s.reads + 1 else s.reads })
      (by simp [effect, hin]) hstep, rfl, rfl, ?_⟩
    have hle := (workerRank_read cfg p (.line l.text)).1
    simp only [size, hin, List.length_cons]
    omega
  · obtain ⟨m, hm, hinbox, hclient, hasked⟩ := hfree s
    refine ⟨e, _, step_of_Step hm hw, hclient, hasked, ?_⟩
    simp only [size, hinbox]
    omega

/-- From every state of a connected session the host alone can answer everything. -/
theorem answers_all (hO : Orderly cfg s) (hr : Reasoned s)
    (hconn : s.client.connected = true) :
    ∃ fs t, (∀ l ∈ fs, Label.isHost l) ∧ run (Session.step cfg) s fs = some t ∧
      t.asked = s.asked ∧ Settled t := by
  let I : Session → Prop := fun t =>
    (Orderly cfg t ∧ Reasoned t) ∧ t.client = s.client ∧ t.asked = s.asked
  have hstep : ∀ t, I t → ¬ Settled t → ∃ l t', Label.isHost l ∧
      t.step cfg l = some t' ∧ I t' ∧ size t' < size t := by
    rintro t ⟨⟨hOt, hrt⟩, hclient, hasked⟩ hgoal
    rcases hOt with hOver | hLt
    · have hgone := hOver.client
      rw [hclient, hconn] at hgone
      cases hgone
    · obtain ⟨e, t', hstep, hclient', hasked', hsize⟩ := hLt.progress hrt hgoal
      refine ⟨.host e, t', trivial, hstep, ⟨⟨?_, ?_⟩, ?_, ?_⟩, hsize⟩
      · exact Orderly.step (.inr hLt) hstep
      · exact hrt.step (.inr hLt) hstep
      · rw [hclient', hclient]
      · rw [hasked', hasked]
  have hreach : ∃ fs t, (∀ l ∈ fs, Label.isHost l) ∧
      run (Session.step cfg) s fs = some t ∧ I t ∧ Settled t :=
    exists_run_of_measure size hstep s ⟨⟨hO, hr⟩, rfl, rfl⟩
  obtain ⟨fs, t, hhost, hrun, hI, hgoal⟩ := hreach
  exact ⟨fs, t, hhost, hrun, hI.2.2, hgoal⟩

end Progress

/-! ## The law -/

/-- Stages after the join of the watcher, from the reaping of the child on. -/
def reaping : Stage → Prop
  | .waitChild _ _ => True
  | .readErrno _ _ _ => True
  | .respond _ _ _ => True
  | _ => False

/-- An Abort sent while the Request being served was outstanding, or the end. -/
def Provoked (cfg : Config) (es : List Label) (s : Session) : Prop :=
  (s.cause = some (.abort (some s.reads)) ∧ AbortSent cfg es s.reads) ∨
    (s.cause = some .eof ∧ Label.disconnect ∈ es)

/--
What holds after any run with a conforming client.

* `inOrder`: the replies answer the Pings and Requests one by one, in order.
* `alive`, `answers`: while the client is connected the worker serves it, and the
  host alone can go on to answer everything asked.
* `reads`: Requests are numbered as sent; `s.reads` is the one read last.
* `watcher`: the watcher reads only Aborts, and only those sent while the Request
  being served was outstanding.
* `signals`: the watcher signals the child of the current command only, before it
  is reaped, and with a reason of this command.
* `tagged`: a response is tagged `aborted` only with such a reason.
-/
structure Law (cfg : Config) (es : List Label) (s : Session) : Prop where
  inOrder : s.answered.map Reply.answers <+: s.asked
  alive : s.client.connected = true → s.worker ≠ .exited
  answers : s.client.connected = true →
    ∃ fs t, (∀ l ∈ fs, Label.isHost l) ∧ run (Session.step cfg) s fs = some t ∧
      t.asked = s.asked ∧ Settled t
  reads : s.reads = es.countP (Label.isRequestRead cfg)
  watcher : ∀ text s', s.step cfg (.host (.watcherRead (.line text))) = some s' →
    cfg.kindOf text = some .abort ∧
      ∃ l rest, s.inbox = l :: rest ∧ l.text = text ∧ l.tag = some s.reads ∧
        AbortSent cfg es s.reads
  signals : ∀ child s',
    s.step cfg (.host (.watcherTerm child)) = some s' ∨
      s.step cfg (.host (.watcherKill child)) = some s' →
    ∃ cmd stage, s.worker = .running cmd stage ∧ child = cmd.child ∧
      ¬ reaping stage ∧ Provoked cfg es s
  tagged : ∀ seq resp ok s',
    s.step cfg (.host (.writeResponse seq resp ok)) = some s' →
    resp.error = some errorAborted → Provoked cfg es s

section Law

variable {cfg : Config} {es : List Label} {s : Session}

theorem provoked (hr : Reasoned s) (hR : Recorded cfg es s) (hab : s.worker.Aborting) :
    Provoked cfg es s := by
  rcases hr.justified hab with hcause | ⟨hcause, hgone⟩
  · exact .inl ⟨hcause, hR.cause s.reads hcause⟩
  · exact .inr ⟨hcause, hR.gone hgone⟩

/-- A watcher about to signal belongs to a child that is not reaped. -/
theorem not_reaping {cmd : Command} {stage : Stage}
    (htidy : (Worker.running cmd stage).Tidy)
    (hwatcher : ∀ aborted, cmd.watcher ≠ .done aborted) :
    ¬ reaping stage := by
  intro hreaping
  cases stage with
  | waitChild timedOut aborted =>
      obtain ⟨b, hb⟩ := htidy
      exact hwatcher b hb
  | readErrno timedOut aborted code =>
      obtain ⟨b, hb⟩ := htidy
      exact hwatcher b hb
  | respond response entry raw =>
      obtain ⟨b, hb⟩ := htidy
      exact hwatcher b hb
  | _ => exact hreaping

theorem signals_provoked (hr : Reasoned s) (hR : Recorded cfg es s) {child : Nat}
    {s' : Session}
    (h : s.step cfg (.host (.watcherTerm child)) = some s' ∨
      s.step cfg (.host (.watcherKill child)) = some s') :
    ∃ cmd stage, s.worker = .running cmd stage ∧ child = cmd.child ∧
      ¬ reaping stage ∧ Provoked cfg es s := by
  have htidy := hr.tidy
  have hprovoked := provoked hr hR
  rcases h with h | h
  · obtain ⟨m, w, -, hw, -⟩ := step_host h
    generalize s.worker = w₀ at hw htidy hprovoked
    cases hw with
    | foreground h => cases h
    | background h =>
        cases h with
        | watcherTerm hwatcher =>
            exact ⟨_, _, rfl, rfl, not_reaping htidy (by simp [hwatcher]),
              hprovoked (.inl hwatcher)⟩
  · obtain ⟨m, w, -, hw, -⟩ := step_host h
    generalize s.worker = w₀ at hw htidy hprovoked
    cases hw with
    | foreground h => cases h
    | background h =>
        cases h with
        | watcherKill hwatcher =>
            exact ⟨_, _, rfl, rfl, not_reaping htidy (by simp [hwatcher]),
              hprovoked (.inr (.inl hwatcher))⟩

/-- A response with the tag `aborted` comes from a command that was aborted. -/
theorem aborting_of_tagged {w w' : Worker} {seq : Option Nat} {resp : Response}
    {ok : Bool} (h : w.Step cfg (.writeResponse seq resp ok) w')
    (htidy : w.Tidy) (htag : resp.error = some errorAborted) :
    w.Aborting := by
  cases h with
  | rejected => exact absurd htag htidy
  | notRejected => exact absurd htag htidy
  | failureReported => simp [spawnFailedResponse, errorAborted] at htag
  | abandoned => simp [spawnFailedResponse, errorAborted] at htag
  | foreground h =>
      cases h with
      | respond => exact .inr (.inr (.inr htag))
  | background h => cases h

theorem watcher_reads_aborts (hO : Orderly cfg s) (hR : Recorded cfg es s)
    {text : String} {s' : Session}
    (h : s.step cfg (.host (.watcherRead (.line text))) = some s') :
    cfg.kindOf text = some .abort ∧
      ∃ l rest, s.inbox = l :: rest ∧ l.text = text ∧ l.tag = some s.reads ∧
        AbortSent cfg es s.reads := by
  obtain ⟨m, w, hm, hw, -⟩ := step_host h
  have hL : Live cfg s := by
    rcases hO with hO | hL
    · rw [hO.worker] at hw
      cases hw
    · exact hL
  have hrole : s.worker.role = .serving := by
    generalize s.worker = w₀ at hw
    cases hw with
    | foreground h => cases h
    | background h => rfl
  obtain ⟨haborts, hreads⟩ := hL.inbox_serving hrole
  rcases effect_watcherRead hm with ⟨l, rest, hr, hin, -⟩ | ⟨hr, -⟩ | ⟨hr, -⟩
  · cases hr
    have hmem : l ∈ s.inbox := by simp [hin]
    obtain ⟨hkind, htag⟩ := haborts l hmem
    refine ⟨by rw [hL.texts l hmem, hkind], l, rest, hin, rfl, by rw [htag, hreads], ?_⟩
    rw [hreads]
    exact hR.inbox l hmem hkind _ htag
  · cases hr
  · cases hr

/-- The law of a session with a conforming client, over every run. -/
theorem session_law (h : run (Session.step cfg) (init 1) es = some s) :
    Law cfg es s := by
  obtain ⟨hO, hr, hR⟩ := run_invariants h
  refine ⟨?_, ?_, fun hconn => answers_all hO hr hconn, hR.reads,
    fun _ _ => watcher_reads_aborts hO hR, fun _ _ => signals_provoked hr hR, ?_⟩
  · rcases hO with hO | hL
    · exact hO.inOrder
    · exact hL.prefix_asked
  · intro hconn hexit
    rcases hO with hO | hL
    · rw [hO.client] at hconn
      cases hconn
    · have := hL.role_ne_foreign
      rw [hexit] at this
      exact this rfl
  · intro seq resp ok s' hstep htag
    obtain ⟨m, w, -, hw, -⟩ := step_host hstep
    exact provoked hr hR (aborting_of_tagged hw hr.tidy htag)

end Law

section Samples

variable {J : JsonText} {message : String → String} {silent : Bool}

theorem kindOf_ping_line (hJ : J.Lawful) :
    (Config.ofJson J message silent).kindOf (J.line ClientAction.ping.toJson) =
      some .ping := by
  have hblank : (trimEnd (J.line ClientAction.ping.toJson)).isEmpty = false :=
    Message.line_not_blank hJ (.clientAction .ping)
  simp only [Config.kindOf, hblank, Config.ofJson_action hJ, Bool.false_eq_true,
    if_false]

theorem kindOf_request_line (hJ : J.Lawful) (r : Request) :
    (Config.ofJson J message silent).kindOf (J.line r.toJson) = some .request := by
  have hblank : (trimEnd (J.line r.toJson)).isEmpty = false :=
    Message.line_not_blank hJ (.request r)
  simp only [Config.kindOf, hblank, Config.ofJson_request hJ r, Bool.false_eq_true,
    if_false]

theorem kindOf_abort_line (hJ : J.Lawful) :
    (Config.ofJson J message silent).kindOf (J.line ClientAction.abort.toJson) =
      some .abort := by
  have hblank : (trimEnd (J.line ClientAction.abort.toJson)).isEmpty = false :=
    Message.line_not_blank hJ (.clientAction .abort)
  simp only [Config.kindOf, hblank, Config.ofJson_action hJ, Bool.false_eq_true,
    if_false]

theorem kindOf_sampleAbort : (Config.compact silent).kindOf sampleAbort = some .abort :=
  kindOf_abort_line Json.compact_lawful

theorem onLine_sampleAbort (p : Bool) :
    (Config.compact silent).onLine p (.line sampleAbort) = .lineLoop p :=
  Config.onLine_abort p (Config.kindOf_abort kindOf_sampleAbort)

theorem kindOf_samplePing : (Config.compact silent).kindOf samplePing = some .ping :=
  kindOf_ping_line Json.compact_lawful

theorem kindOf_sampleRequestLine :
    (Config.compact silent).kindOf sampleRequestLine = some .request :=
  kindOf_request_line Json.compact_lawful sampleRequest

/-- The opening exchange. -/
def sampleHandshake : List Label :=
  [.send samplePing, .host (.tryClone true), .host (.readLine (.line samplePing)),
    .host (.writePong true), .receive]

/-- After the opening exchange, when `mark` Pings do not count. -/
def shaken (mark : Nat) : Session :=
  { init mark with
    client :=
      { connected := true, pings := 1, pongs := 1, mark, requests := 0
        outstanding := false }
    worker := .lineLoop false, asked := [.ping], answered := [.pong] }

theorem run_sampleHandshake (mark : Nat) :
    run (Session.step (.compact silent)) (init mark) sampleHandshake =
      some (shaken mark) := by
  simp [sampleHandshake, run_cons, Session.step, kindOf_samplePing, Client.send, init,
    effect, Worker.step, write, Client.receive, shaken]

/-- An idle Abort, the Ping of a command, and the command, up to its spawn. -/
def sampleCommand : List Label :=
  [.send sampleAbort, .send samplePing, .host (.readLine (.line sampleAbort)),
    .host (.readLine (.line samplePing)), .host (.writePong true), .receive,
    .send sampleRequestLine, .host (.readLine (.line sampleRequestLine)),
    .host (.fetchAdd 0 "t"), .host (.spawn sampleRequest (.ok 7))]

/-- The client aborts the command, and the watcher kills it. -/
def sampleKill : List Label :=
  [.send sampleAbort, .host .watcherCheck, .host (.watcherRead (.line sampleAbort)),
    .host (.watcherTerm 7), .host (.watcherKill 7), .host .ptyEof, .host .joinReader,
    .host .storeFinished, .host .cancelTimer, .host .joinWatcher,
    .host (.waitpid (.signaled 15)), .host (.readErrno none)]

def sampleAborted : Response :=
  { exit := 143, output := "", error := some errorAborted }

/-- The client is told so. -/
def sampleTold : List Label :=
  [.host (.writeResponse (some 0) sampleAborted true),
    .host (.submit 0 (sampleRequest.entry "t" 143 "" (some errorAborted)) ""), .receive]

/-- Another command of it runs to its end. -/
def sampleAgain : List Label :=
  [.send samplePing, .host (.readLine (.line samplePing)), .host (.writePong true), .receive,
    .send sampleRequestLine, .host (.readLine (.line sampleRequestLine)),
    .host (.fetchAdd 1 "t"), .host (.spawn sampleRequest (.ok 8))]

def sampleEnd : List Label :=
  [.host .ptyEof, .host .joinReader, .host .storeFinished, .host .cancelTimer,
    .host .watcherCheck, .host .joinWatcher, .host (.waitpid (.exited 0)),
    .host (.readErrno none),
    .host (.writeResponse (some 1) { exit := 0, output := "", error := none } true), .receive]

def sampleSession : List Label :=
  sampleHandshake ++ sampleCommand ++ sampleKill

/-- The first command runs. -/
def sampleRunning : Session :=
  { shaken 1 with
    client :=
      { connected := true, pings := 2, pongs := 2, mark := 1, requests := 1
        outstanding := true }
    worker := .running (.spawned true 0 sampleRequest "t" 7) .joinReader
    asked := [.ping, .ping, .request], answered := [.pong, .pong], reads := 1 }

theorem run_sampleCommand :
    run (Session.step (.compact true)) (shaken 1) sampleCommand = some sampleRunning := by
  simp [sampleCommand, run_cons, Session.step, kindOf_samplePing, kindOf_sampleAbort,
    kindOf_sampleRequestLine, onLine_sampleAbort, Client.send, Client.current, shaken, init,
    effect, Worker.step, write, Client.receive, sampleRunning]

/-- The first command is killed, and its response is about to be written. -/
theorem run_sampleKill :
    ∃ cmd, cmd.seq = 0 ∧ run (Session.step (.compact true)) sampleRunning sampleKill =
      some { sampleRunning with
        worker := .running cmd
          (.respond sampleAborted (sampleRequest.entry "t" 143 "" (some errorAborted)) "")
        cause := some (.abort (some 1)) } := by
  have htimeout : sampleRequest.timeout = 0 := rfl
  have hoff : fromUtf8Lossy (PtyBuffer.new true).setEof.filteredTotal = "" := rfl
  have hraw : fromUtf8Lossy (PtyBuffer.new true).setEof.rawTotal = "" := rfl
  have htag : classify none false true 143 = (some errorAborted, 143) := rfl
  simp [sampleKill, sampleRunning, run_cons, Session.step, kindOf_sampleAbort, Client.send,
    Client.current, shaken, init, effect, Worker.step, Command.spawned, Command.foreground,
    Command.background, Command.outcome, waitForChild, htimeout, hoff, hraw, htag,
    sampleAborted]

/-- The client has the response of the first command. -/
def sampleIdle : Session :=
  { sampleRunning with
    client :=
      { connected := true, pings := 2, pongs := 2, mark := 2, requests := 1
        outstanding := false }
    worker := .lineLoop false, answered := [.pong, .pong, .response sampleAborted]
    cause := some (.abort (some 1)) }

theorem run_sampleTold {cmd : Command} (hseq : cmd.seq = 0) :
    run (Session.step (.compact true)) { sampleRunning with
        worker := .running cmd
          (.respond sampleAborted (sampleRequest.entry "t" 143 "" (some errorAborted)) "")
        cause := some (.abort (some 1)) } sampleTold = some sampleIdle := by
  simp [sampleTold, sampleRunning, sampleIdle, run_cons, Session.step, Client.receive, shaken,
    init, effect, write, Worker.step, Command.foreground, hseq]

/-- The second command runs. -/
def sampleResumed : Session :=
  { sampleIdle with
    client :=
      { connected := true, pings := 3, pongs := 3, mark := 2, requests := 2
        outstanding := true }
    worker := .running (.spawned true 1 sampleRequest "t" 8) .joinReader
    asked := [.ping, .ping, .request, .ping, .request]
    answered := [.pong, .pong, .response sampleAborted, .pong], reads := 2, cause := none }

theorem run_sampleAgain :
    run (Session.step (.compact true)) sampleIdle sampleAgain = some sampleResumed := by
  simp [sampleAgain, sampleIdle, sampleResumed, sampleRunning, run_cons, Session.step,
    kindOf_samplePing, kindOf_sampleRequestLine, Client.send, Client.current, Client.receive,
    shaken, init, effect, write, Worker.step]

/-- The replies of the host to all of it. -/
def sampleReplies : List Reply :=
  [.pong, .pong, .response sampleAborted, .pong,
    .response { exit := 0, output := "", error := none }]

theorem run_sampleEnd :
    ∃ t, run (Session.step (.compact true)) sampleResumed sampleEnd = some t ∧
      t.answered = sampleReplies := by
  have htimeout : sampleRequest.timeout = 0 := rfl
  have hoff : fromUtf8Lossy (PtyBuffer.new true).setEof.filteredTotal = "" := rfl
  have htag : classify none false false 0 = (none, 0) := rfl
  have hempty : sampleIdle.outbox = [] := rfl
  simp [sampleEnd, sampleResumed, hempty, run_cons, Session.step, Client.receive, effect, write,
    Worker.step, Command.spawned, Command.foreground, Command.background, Command.outcome,
    waitForChild, htimeout, hoff, htag, sampleReplies]

/-- A client with an idle Abort, a command that it aborts, and a command that runs to its
end: the `aborted` response was asked for, and everything is answered. -/
theorem session_law_sample :
    ∃ s t, run (Session.step (.compact true)) (init 1) sampleSession = some s ∧
      Provoked (.compact true) sampleSession s ∧
      run (Session.step (.compact true)) (init 1)
        (sampleSession ++ (sampleTold ++ (sampleAgain ++ sampleEnd))) = some t ∧
      t.answered = sampleReplies ∧
      Law (.compact true) (sampleSession ++ (sampleTold ++ (sampleAgain ++ sampleEnd))) t := by
  obtain ⟨cmd, hseq, hkill⟩ := run_sampleKill
  obtain ⟨t, hend, hanswered⟩ := run_sampleEnd
  have hsession := run_of_append _ (run_of_append _ (run_sampleHandshake 1) run_sampleCommand)
    hkill
  have hall := run_of_append _ hsession
    (run_of_append _ (run_sampleTold hseq) (run_of_append _ run_sampleAgain hend))
  have htold := run_sampleTold hseq
  rw [sampleTold, run_cons, Option.bind_eq_some_iff] at htold
  obtain ⟨s', hstep, -⟩ := htold
  exact ⟨_, t, hsession, (session_law hsession).tagged (some 0) sampleAborted true s' hstep rfl,
    hall, hanswered, session_law hall⟩

/-- If the opening Ping counted, a Request after it would end the connection. -/
theorem openingPing_counts_not :
    ∃ s, run (Session.step (.compact true)) (init 0)
        (sampleHandshake ++ [.send sampleRequestLine,
          .host (.readLine (.line sampleRequestLine))]) = some s ∧
      s.client.connected = true ∧ s.worker = .exited ∧
      s.asked = [.ping, .request] ∧ s.answered = [.pong] := by
  refine ⟨{ shaken 0 with
    client := { (shaken 0).client with requests := 1, outstanding := true }
    worker := .exited, reads := 1, asked := [.ping, .request] },
    ?_, rfl, rfl, rfl, rfl⟩
  rw [run_append, run_sampleHandshake, Option.bind_some]
  simp [run_cons, Session.step, kindOf_sampleRequestLine, Client.send, shaken, init,
    effect, Worker.step]

end Samples

end Session
end Rexec
