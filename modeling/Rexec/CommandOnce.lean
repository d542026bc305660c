import Rexec.PoolAnswers
import Rexec.Lib.Machine
import Mathlib.Tactic

/-!
# A command is sent at most once

A call of `exec` retries connections and pings, but starts `send_request` at most
once.  `Thread.Sent` says for each point of the call how often it has been started;
the points before and after it are disjoint, and only the first ones acquire
connections.

`RequestLines` carries this over to the lines on the connections, of all callers
together, and `command_sent_once` is the law for whole runs.
-/

namespace Rexec

open Machine

/-! ## Sending -/

namespace Pool

/-- `send_request` is started for the caller, whether its write succeeds or not. -/
def Label.sends (n : Nat) : Label → Bool
  | .io (.caller m) (.send _) => m == n
  | _ => false

/-- A step of the caller in `acquire`. -/
def Label.acquires (n : Nat) : Label → Bool
  | .lookup m _ => m == n
  | .attempted m _ => m == n
  | .connect (.caller m) => m == n
  | .io (.caller m) (.hello _) => m == n
  | .io (.caller m) (.greeted _ _) => m == n
  | _ => false

/-- How often `send_request` was started for the caller. -/
def sends (n : Nat) (es : List Label) : Nat :=
  es.countP (Label.sends n)

section Labels

variable {p : Pool} {n : Nat} {l : Label}

theorem sends_concat (n : Nat) (es : List Label) (l : Label) :
    sends n (es ++ [l]) = sends n es + (l.sends n).toNat := by
  cases hl : l.sends n <;> simp [sends, hl]

theorem by_of_sends (hl : l.sends n = true) : l.by p n := by
  unfold Label.sends at hl
  split at hl
  · obtain rfl := eq_of_beq hl
    exact rfl
  · cases hl

theorem by_of_acquires (hl : l.acquires n = true) : l.by p n := by
  unfold Label.acquires at hl
  split at hl
  case h_6 => cases hl
  all_goals
    obtain rfl := eq_of_beq hl
    exact rfl

end Labels

end Pool

/-! ## One call -/

/-- A call that reports HOST NOT FOUND has sent nothing. -/
def Outcome.Sent (outcome : Outcome) (k : Nat) : Prop :=
  k ≤ 1 ∧ (outcome = .hostNotFound → k = 0)

/-- The thread of a call of `exec` that has started `send_request` `k` times. -/
def Thread.Sent (request : Request) (k : Nat) : Thread → Prop
  | .attempt t _ => t = some (.exec request) ∧ k = 0
  | .top t => t = .exec request ∧ k = 0
  | .lookup t => t = .exec request ∧ k = 0
  | .waiting t => t = .exec request ∧ k = 0
  | .got t _ => t = .exec request ∧ k = 0
  | .pinging t _ guard => guard = true ∧ t = .exec request ∧ k = 0
  | .ready t _ => (t = .exec request ∧ k = 0) ∨ (t.ops = [] ∧ k = 1)
  | .requested t _ _ => t.ops = [] ∧ k = 1
  | .dropping _ _ (.retry t) => t = .exec request ∧ k = 0
  | .dropping _ _ (.over outcome) => outcome.Sent k
  | .over outcome => outcome.Sent k
  | _ => False

namespace Thread

section Sent

variable {request : Request} {k n : Nat} {p : Pool} {l : Pool.Label} {th th' : Thread}

theorem Acquires.sent (h : Acquires (.exec request) th) : th.Sent request 0 := by
  cases h with
  | lease c => exact ⟨rfl, rfl⟩
  | notFound => exact ⟨Nat.zero_le 1, fun _ => rfl⟩
  | connect => exact ⟨rfl, rfl⟩
  | wait => exact ⟨rfl, rfl⟩

/-- At every point of a call `send_request` was started once at most. -/
theorem Sent.le_one (hs : th.Sent request k) : k ≤ 1 := by
  unfold Sent at hs
  split at hs
  all_goals first | exact hs.1 | omega | exact hs.elim

theorem Goes.sent {x : Inner} (hx : Goes th x th') (hs : th.Sent request k) :
    th'.Sent request k := by
  have hle := hs.le_one
  cases hx with
  | expired => exact ⟨hle, fun _ => hs.2⟩
  | begin => exact hs
  | connectFailed => exact hs
  | wake => exact hs
  | workerWake => exact hs
  | expire => exact ⟨hle, fun _ => hs.2⟩
  | unwindWorker hth =>
      cases th with
      | attempt t a =>
          obtain ⟨rfl, -⟩ := hs
          cases hth
      | scan => exact hs
      | pause => exact hs
      | _ => cases hth
  | _ => exact ⟨hle, nofun⟩

/-- The operation a thread is about to do when it sends. -/
theorem Exchange.of_send {o : Owner} {h h' : HostConnection} {w : WriteResult}
    (hx : Exchange o h th (.send w) h' th') :
    ∃ t c r ops, th = .ready t c ∧ t.ops = .execute r :: ops := by
  cases hx with
  | sent ho hops hopen => exact ⟨_, _, _, _, rfl, hops⟩
  | notSent ho hops hs => exact ⟨_, _, _, _, rfl, hops⟩

/-- A call that is about to send has not sent yet. -/
theorem Sent.before {t : Task} {c : Nat} {r : Request} {ops : List Op}
    (hs : (Thread.ready t c).Sent request k) (hops : t.ops = .execute r :: ops) :
    t = .exec request ∧ r = request ∧ ops = [] ∧ k = 0 := by
  rcases hs with ⟨rfl, rfl⟩ | ⟨hnil, -⟩
  · obtain ⟨hr, hops⟩ : request = r ∧ [] = ops := by simpa [Task.exec] using hops
    exact ⟨rfl, hr.symm, hops.symm, rfl⟩
  · rw [hnil] at hops
    cases hops

theorem Exchange.sent_count {h h' : HostConnection} {x : Io}
    (hx : Exchange (.caller n) h th x h' th') (hs : th.Sent request k) :
    th'.Sent request (k + ((Pool.Label.io (.caller n) x).sends n).toNat) := by
  cases hx with
  | helloSent hopen => exact hs
  | helloFailed hspoilt => exact hs
  | greeted hpong => exact hs
  | notGreeted hspoilt => exact hs
  | guardSent hopen => exact ⟨rfl, hs⟩
  | guardFailed hspoilt => exact hs
  | pingSent hops hopen =>
      -- a call of `exec` makes no ping of its own
      rcases hs with ⟨rfl, -⟩ | ⟨hnil, -⟩
      · cases hops
      · rw [hnil] at hops
        cases hops
  | pingFailed hops hspoilt =>
      rcases hs with ⟨rfl, -⟩ | ⟨hnil, -⟩
      · cases hops
      · rw [hnil] at hops
        cases hops
  | pong hpong => exact .inl hs.2
  | noPong hspoilt =>
      obtain ⟨rfl, hs⟩ := hs
      exact hs
  | sent ho hops hopen =>
      obtain ⟨-, -, hnil, rfl⟩ := Sent.before hs hops
      exact ⟨hnil, by simp [Pool.Label.sends]⟩
  | notSent ho hops hspoilt =>
      obtain ⟨-, -, -, rfl⟩ := Sent.before hs hops
      exact ⟨by simp [Pool.Label.sends], nofun⟩
  | received hreply => exact .inr hs
  | notReceived hspoilt => exact ⟨Nat.le_of_eq hs.2, nofun⟩

/-- A step of the call keeps the count. -/
theorem Moves.sent (hm : Moves p n l th th') (hcall : ∀ t, l = .call t → n ≠ p.calls)
    (hs : th.Sent request k) :
    th'.Sent request (k + (l.sends n).toNat) := by
  cases hm with
  | stay hl =>
      have hsends : l.sends n = false := by
        by_contra hsends
        exact hl (Pool.by_of_sends (by simpa using hsends))
      rw [hsends]
      exact hs
  | call hn => exact absurd hn (hcall _ rfl)
  | io hc hx => exact hx.sent_count hs
  | inner hx => exact hx.sent hs
  | lookup h =>
      obtain ⟨rfl, rfl⟩ := hs
      exact h.sent
  | connect => exact hs
  | attempted h =>
      obtain ⟨heq, rfl⟩ := hs
      cases heq
      exact h.sent
  | drop =>
      rename_i next
      cases next <;> exact hs

/-- Connections are acquired before anything is sent. -/
theorem Moves.sent_of_acquires (hm : Moves p n l th th') (hl : l.acquires n = true)
    (hs : th.Sent request k) :
    k = 0 := by
  cases hm with
  | stay hstay => exact absurd (Pool.by_of_acquires hl) hstay
  | call => cases hl
  | inner => cases hl
  | drop => cases hl
  | lookup => exact hs.2
  | connect => exact hs.2
  | attempted => exact hs.2
  | io hc hx =>
      cases hx with
      | helloSent => exact hs.2
      | helloFailed => exact hs.2
      | greeted => exact hs.2
      | notGreeted => exact hs.2
      | _ => cases hl

end Sent

end Thread

/-! ## All calls -/

namespace Pool

section Runs

variable {p q : Pool} {es : List Label} {l : Label} {n : Nat}

/-- How often each call of a run has sent. -/
structure Sending (es : List Label) (p : Pool) : Prop where
  called : ∀ n request, (callsOf es)[n]? = some (.exec request) →
    (p.threads (.caller n)).Sent request (sends n es)
  uncalled : ∀ n, p.calls ≤ n → sends n es = 0

theorem sending_init : Sending [] Pool.init :=
  ⟨nofun, fun _ _ => rfl⟩

/-- A caller that is not there sends nothing. -/
theorem Called.not_sends (h : Called es p) (hstep : p.step l = some q) (hn : p.calls ≤ n) :
    l.sends n = false := by
  by_contra hl
  have hsends : l.sends n = true := by simpa using hl
  have hm := step_moves hstep n
  rw [h.absent n hn] at hm
  generalize q.threads (.caller n) = th at hm
  cases hm with
  | stay hstay => exact hstay (by_of_sends hsends)
  | call => cases hsends
  | io hc => cases hc
  | inner => cases hsends

theorem Sending.step (h : Sending es p) (hcalled : Called es p) (hstep : p.step l = some q) :
    Sending (es ++ [l]) q := by
  have hcalls := hcalled.calls
  have hold : ∀ n request, (callsOf es)[n]? = some (.exec request) →
      (q.threads (.caller n)).Sent request (sends n (es ++ [l])) := by
    intro n request hn
    have hlt := lt_length_of_getElem? hn
    rw [sends_concat]
    exact (step_moves hstep n).sent (fun _ _ => by omega) (h.called n request hn)
  have hquiet : ∀ n, p.calls ≤ n → sends n (es ++ [l]) = 0 := by
    intro n hn
    rw [sends_concat, h.uncalled n hn, hcalled.not_sends hstep hn]
    rfl
  rcases step_calls hstep with ⟨t, rfl, hq⟩ | ⟨hl, hq⟩
  · refine ⟨?_, fun n hn => hquiet n (by omega)⟩
    intro n request hn
    rw [callsOf_concat_call, getElem?_concat] at hn
    rcases hn with hn | ⟨rfl, rfl⟩
    · exact hold n request hn
    · rw [hquiet _ (Nat.le_of_eq hcalls)]
      have hm := step_moves hstep (callsOf es).length
      generalize p.threads _ = th, q.threads _ = th' at hm ⊢
      cases hm with
      | stay hl => exact absurd hcalls hl
      | call => exact ⟨rfl, rfl⟩
  · refine ⟨?_, fun n hn => hquiet n (by omega)⟩
    intro n request hn
    rw [callsOf_concat_of_ne es hl] at hn
    exact hold n request hn

theorem sending_run (hrun : run Pool.step Pool.init es = some p) : Sending es p :=
  run_induction (P := Sending) sending_init
    (fun _ _ _ _ hrun h hstep => h.step (called_run hrun) hstep) hrun

/-- The lines of one caller on all connections. -/
structure RequestLines (es : List Label) (p : Pool) (n : Nat) : Prop where
  none : sends n es = 0 → ∀ (c i : Nat) (r : Request), (p.conns c).sent[i]? ≠ some (.request n r)
  unique : sends n es ≤ 1 → ∀ (c c' i i' : Nat) (r r' : Request),
    (p.conns c).sent[i]? = some (.request n r) →
    (p.conns c').sent[i']? = some (.request n r') → c = c' ∧ i = i'
  own : ∀ request, (callsOf es)[n]? = some (.exec request) →
    ∀ (c i : Nat) (r : Request), (p.conns c).sent[i]? = some (.request n r) → r = request

/-- A Request is on a connection already, or it is the one that is sent now. -/
theorem request_line_step (hstep : p.step l = some q) {c i : Nat} {r : Request}
    (hline : (q.conns c).sent[i]? = some (.request n r)) :
    (p.conns c).sent[i]? = some (.request n r) ∨
      (l.sends n = true ∧ (p.threads (.caller n)).conn = some c ∧
        i = (p.conns c).sent.length ∧
        ∃ t d ops, p.threads (.caller n) = .ready t d ∧ t.ops = .execute r :: ops) := by
  have hevolves := step_evolves hstep c
  generalize q.conns c = k at hevolves hline
  cases hevolves with
  | same => exact .inl hline
  | close => exact .inl hline
  | reply r => exact .inl hline
  | opened hc => cases hline
  | io hl hc hx =>
      rcases hx.lines with ⟨m, hsent, -, hm⟩ | ⟨hsent, -⟩
      · rw [hsent, getElem?_concat] at hline
        rcases hline with hline | ⟨hi, rfl⟩
        · exact .inl hline
        · rcases hm with hm | ⟨m, t, d, request, ops, heq, rfl, rfl, hth, hops⟩
          · cases hm
          · cases heq
            exact .inr ⟨by simp [hl, Label.sends], hc, hi, t, d, ops, hth, hops⟩
      · rw [hsent] at hline
        exact .inl hline

theorem RequestLines.step (h : RequestLines es p n) (hcalled : Called es p)
    (hsending : Sending es p) (hstep : p.step l = some q) :
    RequestLines (es ++ [l]) q n := by
  have hsends := sends_concat n es l
  refine ⟨?_, ?_, ?_⟩
  · intro hzero c i r hline
    rcases request_line_step hstep hline with hold | ⟨hl, -⟩
    · exact h.none (by omega) c i r hold
    · rw [hl, Bool.toNat_true] at hsends
      omega
  · intro hle c c' i i' r r' hline hline'
    rcases request_line_step hstep hline with hold | ⟨hl, hc, hi, -⟩ <;>
      rcases request_line_step hstep hline' with hold' | ⟨hl', hc', hi', -⟩
    · exact h.unique (by omega) c c' i i' r r' hold hold'
    · rw [hl', Bool.toNat_true] at hsends
      exact absurd hold (h.none (by omega) c i r)
    · rw [hl, Bool.toNat_true] at hsends
      exact absurd hold' (h.none (by omega) c' i' r')
    · rw [hc] at hc'
      cases hc'
      exact ⟨rfl, hi.trans hi'.symm⟩
  · intro request hn c i r hline
    rcases request_line_step hstep hline with hold | ⟨hl, -, -, t, d, ops, hth, hops⟩
    · by_cases hlt : n < p.calls
      · rw [hcalled.calls] at hlt
        rw [callsOf_append_left [l] hlt] at hn
        exact h.own request hn c i r hold
      · -- a caller that is not there has no lines
        exact absurd hold (h.none (hsending.uncalled n (by omega)) c i r)
    · have hne : ∀ t, l ≠ .call t := by
        rintro t rfl
        cases hl
      rw [callsOf_concat_of_ne es hne] at hn
      have hsent := hsending.called n request hn
      rw [hth] at hsent
      exact (hsent.before hops).2.1

theorem request_lines_init (n : Nat) : RequestLines [] Pool.init n := by
  have hnone : ∀ (c i : Nat) (m : SentLine), (Pool.init.conns c).sent[i]? ≠ some m := by
    intro c i m hm
    cases hm
  exact ⟨fun _ c i r => hnone c i _, fun _ c _ i _ r _ h => absurd h (hnone c i _),
    fun _ _ c i _ h => absurd h (hnone c i _)⟩

theorem request_lines_run (hrun : run Pool.step Pool.init es = some p) (n : Nat) :
    RequestLines es p n :=
  run_induction (P := fun es p => RequestLines es p n) (request_lines_init n)
    (fun _ _ _ _ hrun h hstep => h.step (called_run hrun) (sending_run hrun) hstep) hrun

/-! ## The law -/

/-- A caller that sends was called before. -/
theorem called_of_sends (hrun : run Pool.step Pool.init es = some p)
    (hstep : p.step l = some q) (hl : l.sends n = true) :
    n < (callsOf es).length := by
  have hcalled := called_run hrun
  by_contra hge
  rw [← hcalled.calls] at hge
  rw [hcalled.not_sends hstep (Nat.le_of_not_lt hge)] at hl
  cases hl

/-- Where a call stands when it sends: it has a connection just pinged. -/
theorem ready_of_send {w : WriteResult} {request : Request}
    (hrun : run Pool.step Pool.init es = some p)
    (hn : (callsOf es)[n]? = some (.exec request))
    (hstep : p.step (.io (.caller n) (.send w)) = some q) :
    ∃ c, p.threads (.caller n) = .ready (.exec request) c ∧ (p.conns c).InFrame ∧
      (p.conns c).Pinged := by
  have howned := owned_run hrun
  cases step_cases hstep with
  | @io _ _ c _ _ hc hx =>
      obtain ⟨t, d, r, ops, hth, hops⟩ := hx.of_send
      have hframed := howned.framed _ c hc
      have hsent := (sending_run hrun).called n request hn
      rw [hth] at hc hframed hsent
      cases hc
      obtain ⟨rfl, -⟩ := hsent.before hops
      exact ⟨c, hth, hframed.1.inFrame (howned.conforms c), hframed.2 rfl rfl⟩

/-- A call of `exec` sends its Request at most once, right after a Ping and its Pong;
it acquires nothing afterwards, and has sent nothing if it reports HOST NOT FOUND. -/
theorem command_sent_once {request : Request}
    (hrun : run Pool.step Pool.init es = some p)
    (hn : (callsOf es)[n]? = some (.exec request)) :
    sends n es ≤ 1 ∧
      (∀ (c i : Nat) (r : Request), (p.conns c).sent[i]? = some (.request n r) →
        r = request ∧ ∀ (c' i' : Nat) (r' : Request),
          (p.conns c').sent[i']? = some (.request n r') → c' = c ∧ i' = i) ∧
      (p.threads (.caller n) = .over .hostNotFound →
        sends n es = 0 ∧
          ∀ (c i : Nat) (r : Request), (p.conns c).sent[i]? ≠ some (.request n r)) ∧
      ∀ pre w post, es = pre ++ .io (.caller n) (.send w) :: post →
        (∃ q c, run Pool.step Pool.init pre = some q ∧
          q.threads (.caller n) = .ready (.exec request) c ∧
          (q.conns c).InFrame ∧ (q.conns c).Pinged) ∧
        ∀ l ∈ post, l.acquires n = false := by
  have hsent := (sending_run hrun).called n request hn
  have hlines := request_lines_run hrun n
  have hle := hsent.le_one
  refine ⟨hle, ?_, ?_, ?_⟩
  · intro c i r hline
    refine ⟨hlines.own request hn c i r hline, fun c' i' r' hline' => ?_⟩
    exact hlines.unique hle c' c i' i r' r hline' hline
  · intro hover
    rw [hover] at hsent
    have hzero := hsent.2 rfl
    exact ⟨hzero, hlines.none hzero⟩
  · rintro pre w post rfl
    have hsends : (Label.io (.caller n) (.send w)).sends n = true := beq_self_eq_true n
    obtain ⟨q, q', hpre, hstep⟩ := exists_step_of_run Pool.step hrun
    have hlt := called_of_sends hpre hstep hsends
    rw [callsOf_append_left _ hlt] at hn
    refine ⟨?_, ?_⟩
    · obtain ⟨c, hc⟩ := ready_of_send hpre hn hstep
      exact ⟨q, c, hpre, hc⟩
    · intro l hl
      obtain ⟨fs, gs, rfl⟩ := List.append_of_mem hl
      by_contra hacquires
      -- the count at the step that acquires is zero, but the Request was sent before
      have hmid : pre ++ .io (.caller n) (.send w) :: (fs ++ l :: gs) =
          (pre ++ .io (.caller n) (.send w) :: fs) ++ l :: gs := by simp
      rw [hmid] at hrun
      obtain ⟨m, m', hrun', hstep'⟩ := exists_step_of_run Pool.step hrun
      rw [← callsOf_append_left (.io (.caller n) (.send w) :: fs) hlt] at hn
      have hsent' := (sending_run hrun').called n request hn
      have hzero := (step_moves hstep' n).sent_of_acquires (by simpa using hacquires) hsent'
      simp [sends, hsends] at hzero

theorem command_sent_once_sampleCalls :
    ∃ p q c, run Pool.step Pool.init sampleCalls = some p ∧ sends 0 sampleCalls ≤ 1 ∧
      run Pool.step Pool.init sampleRetry = some q ∧
      q.threads (.caller 0) = .ready (.exec sampleRequest) c ∧ (q.conns c).InFrame ∧
      (q.conns c).Pinged ∧ ∀ l ∈ sampleSecondCall, l.acquires 0 = false := by
  obtain ⟨p, hrun, -⟩ := sampleCalls_over
  obtain ⟨hle, -, -, hsend⟩ :=
    command_sent_once hrun (show (callsOf sampleCalls)[0]? = some (.exec sampleRequest) from rfl)
  obtain ⟨⟨q, c, hretry, hready, hframe, hpinged⟩, hafter⟩ :=
    hsend sampleRetry .written sampleSecondCall rfl
  exact ⟨p, q, c, hrun, hle, hretry, hready, hframe, hpinged, hafter⟩

end Runs

end Pool

end Rexec
