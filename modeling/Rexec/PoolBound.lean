import Rexec.PoolCalls
import Rexec.Lib.Machine
import Mathlib.Tactic

/-!
# How many connections the pool makes

A caller, and the reconnect worker, opens a connection without the lock of the
pool, because there was none when it looked; when it is done there may be some.
What is opened too much stays in the pool, so the question is how much that can
be.

* `Pool.total` adds up a weight over the callers; `Thread.leased`, `Thread.held`
  and `Thread.outstanding` are the three weights.
* `Accounted` is the invariant behind `active`.
* `step_connections`: a step that adds a connection leaves no idle one, so there
  is at most one for each caller then, and one of the worker.
-/

namespace Rexec

open Machine

/-! ## What a thread counts for -/

namespace Thread

/-- The leases of a thread. -/
def leased : Thread → Nat
  | .got _ _ | .ready _ _ | .pinging _ _ _ | .requested _ _ _ | .dropping _ _ _ => 1
  | _ => 0

/-- The connections a thread holds or is about to establish. -/
def held : Thread → Nat
  | .attempt _ (.finished none) => 0
  | .attempt _ _ => 1
  | th => th.leased

/-- A thread in a call of `acquire`, or with a lease. -/
def outstanding : Thread → Nat
  | .lookup _ | .attempt _ _ | .waiting _ => 1
  | th => th.leased

theorem held_le_outstanding (th : Thread) : th.held ≤ th.outstanding := by
  cases th with
  | attempt t a =>
      cases a with
      | finished result => cases result <;> simp [held, outstanding]
      | _ => simp [held, outstanding]
  | _ => simp [held, leased, outstanding]

theorem held_le_one (th : Thread) : th.held ≤ 1 := by
  refine th.held_le_outstanding.trans ?_
  cases th <;> simp [outstanding, leased]

theorem acquired_leased (t : Task) (c : Nat) : (acquired t c).leased = 1 := by
  unfold acquired
  split <;> rfl

theorem acquired_held (t : Task) (c : Nat) : (acquired t c).held = 1 := by
  unfold acquired
  split <;> rfl

/-- An exchange keeps the lease, and makes no connection. -/
theorem Exchange.counts {o : Owner} {h h' : HostConnection} {th th' : Thread} {x : Io}
    (hx : Exchange o h th x h' th') :
    th'.leased = th.leased ∧ th'.held ≤ th.held := by
  cases hx <;> first | exact ⟨rfl, Nat.le_refl 1⟩ | exact ⟨rfl, Nat.zero_le _⟩

theorem Goes.counts {th th' : Thread} {x : Inner} (hx : Goes th x th') :
    th'.leased = th.leased ∧ th'.held ≤ th.held := by
  cases hx with
  | unwindCalling hth =>
      cases th <;> first | exact ⟨rfl, Nat.zero_le _⟩ | cases hth
  | unwindWorker hth =>
      cases th <;> first | exact ⟨rfl, Nat.zero_le _⟩ | cases hth
  | _ => first | exact ⟨rfl, Nat.le_refl _⟩ | exact ⟨rfl, Nat.zero_le _⟩

/-- A thread that moves is there. -/
theorem Goes.ne_absent {th th' : Thread} {x : Inner} (hx : Goes th x th') :
    th ≠ .absent := by
  rintro rfl
  cases hx with
  | unwindCalling hth => cases hth
  | unwindWorker hth => cases hth

end Thread

namespace Pool

/-- A weight, added up over the callers. -/
def total (weight : Thread → Nat) (p : Pool) : Nat :=
  ∑ n ∈ Finset.range p.calls, weight (p.threads (.caller n))

/-- The leases that exist. -/
def leases (p : Pool) : Nat :=
  p.total Thread.leased

/-- The calls of `acquire` and the leases that are outstanding. -/
def outstanding (p : Pool) : Nat :=
  p.total Thread.outstanding

/-- The connections that are idle, leased, or being established. -/
def connections (p : Pool) : Nat :=
  p.idle.length + p.total Thread.held + (p.threads .worker).held

section Totals

variable {p : Pool}

theorem total_move_caller (weight : Thread → Nat) {n : Nat} (hn : n < p.calls) (th : Thread) :
    (p.move (.caller n) th).total weight + weight (p.threads (.caller n)) =
      p.total weight + weight th := by
  have hmem : n ∈ Finset.range p.calls := Finset.mem_range.mpr hn
  have hother : ∀ m ∈ (Finset.range p.calls).erase n,
      weight ((p.move (.caller n) th).threads (.caller m)) =
        weight (p.threads (.caller m)) := by
    intro m hm
    rw [move_ne th (by simpa using Finset.ne_of_mem_erase hm)]
  have hsame : (p.move (.caller n) th).threads (.caller n) = th := move_self _ _
  rw [total, total, show (p.move (.caller n) th).calls = p.calls from rfl,
    ← Finset.sum_erase_add _ _ hmem, ← Finset.sum_erase_add (Finset.range p.calls) _ hmem,
    Finset.sum_congr rfl hother, hsame]
  omega

theorem total_move_worker (weight : Thread → Nat) (th : Thread) :
    (p.move .worker th).total weight = p.total weight := by
  refine Finset.sum_congr rfl fun n _ => ?_
  rw [move_ne th (by simp)]

theorem total_held_le (p : Pool) : p.total Thread.held ≤ p.outstanding :=
  Finset.sum_le_sum fun _ _ => Thread.held_le_outstanding _

end Totals

/-! ## One step -/

/-- Behind the calls made there is no caller, and `active` counts the leases. -/
structure Accounted (p : Pool) : Prop where
  absent : ∀ n, p.calls ≤ n → p.threads (.caller n) = .absent
  active : p.active = p.leases

theorem accounted_init : Pool.init.Accounted :=
  ⟨fun _ _ => rfl, rfl⟩

section Steps

variable {p q : Pool}

theorem Accounted.lt_calls (h : p.Accounted) {n : Nat}
    (hne : p.threads (.caller n) ≠ .absent) : n < p.calls := by
  by_contra hge
  exact hne (h.absent n (by omega))

/-- A lease that exists is counted in `active`. -/
theorem Accounted.active_pos (h : p.Accounted) {n : Nat}
    (hlease : (p.threads (.caller n)).leased = 1) : 0 < p.active := by
  have hne : p.threads (.caller n) ≠ .absent := by
    intro habsent
    rw [habsent] at hlease
    cases hlease
  rw [h.active, leases, total]
  refine Finset.sum_pos' (fun _ _ => Nat.zero_le _) ⟨n, ?_, by omega⟩
  exact Finset.mem_range.mpr (h.lt_calls hne)

/-- Nothing that counts has changed. -/
theorem Accounted.congr (h : p.Accounted) (hthreads : q.threads = p.threads)
    (hcalls : q.calls = p.calls) (hactive : q.active = p.active) : q.Accounted := by
  refine ⟨?_, ?_⟩
  · rw [hthreads, hcalls]
    exact h.absent
  · rw [hactive, h.active, leases, leases, total, total, hthreads, hcalls]

theorem connections_congr (hthreads : q.threads = p.threads) (hcalls : q.calls = p.calls)
    (hidle : q.idle = p.idle) : q.connections = p.connections := by
  rw [connections, connections, total, total, hthreads, hcalls, hidle]

/-- A thread goes on, and `active` follows its lease. -/
theorem Accounted.move (h : p.Accounted) {o : Owner} {th : Thread}
    (hne : p.threads o ≠ .absent) (hthreads : q.threads = (p.move o th).threads)
    (hcalls : q.calls = p.calls)
    (hactive : ∀ n, o = .caller n → q.active + (p.threads o).leased = p.active + th.leased)
    (hworker : o = .worker → q.active = p.active) : q.Accounted := by
  refine ⟨?_, ?_⟩
  · intro n hn
    rw [hcalls] at hn
    have habsent := h.absent n hn
    rw [hthreads, move_ne th]
    · exact habsent
    · rintro rfl
      exact hne habsent
  · have hleases : q.leases = (p.move o th).total Thread.leased := by
      rw [leases, total, total, hthreads, hcalls]
      rfl
    rw [hleases]
    cases o with
    | worker => rw [total_move_worker, hworker rfl, h.active, leases]
    | caller n =>
        have htotal := total_move_caller Thread.leased (h.lt_calls hne) th
        have hlease := hactive n rfl
        have hall := h.active
        rw [leases] at hall
        omega

/-- What the connections become when a thread goes on and the idle ones change. -/
theorem Accounted.connections_move (h : p.Accounted) {o : Owner} {th : Thread}
    (hne : p.threads o ≠ .absent) (hthreads : q.threads = (p.move o th).threads)
    (hcalls : q.calls = p.calls) :
    q.connections + p.idle.length + (p.threads o).held =
      p.connections + q.idle.length + th.held := by
  have htotal : q.total Thread.held = (p.move o th).total Thread.held := by
    rw [total, total, hthreads, hcalls]
    rfl
  rw [connections, connections, htotal, hthreads]
  cases o with
  | worker =>
      rw [total_move_worker, move_self]
      omega
  | caller n =>
      have hsum := total_move_caller Thread.held (h.lt_calls hne) th
      rw [move_ne th (by simp)]
      omega

/-- The idle connections and the one of the thread that goes on are not more than before. -/
theorem Accounted.connections_le (h : p.Accounted) {o : Owner} {th : Thread}
    (hne : p.threads o ≠ .absent) (hthreads : q.threads = (p.move o th).threads)
    (hcalls : q.calls = p.calls)
    (hheld : q.idle.length + th.held ≤ p.idle.length + (p.threads o).held) :
    q.connections ≤ p.connections := by
  have hsum := h.connections_move hne hthreads hcalls
  omega

/-- A thread goes on without opening a connection or ending a lease. -/
theorem Accounted.go (h : p.Accounted) {o : Owner} {th : Thread}
    (hne : p.threads o ≠ .absent) (hlease : th.leased = (p.threads o).leased)
    (hheld : th.held ≤ (p.threads o).held) (hthreads : q.threads = (p.move o th).threads)
    (hcalls : q.calls = p.calls) (hidle : q.idle = p.idle) (hactive : q.active = p.active) :
    q.Accounted ∧ (q.connections ≤ p.connections ∨ q.connections ≤ 1 + q.outstanding) := by
  refine ⟨h.move hne hthreads hcalls (fun _ _ => by rw [hlease, hactive]) fun _ => hactive,
    .inl (h.connections_le hne hthreads hcalls ?_)⟩
  rw [hidle]
  omega

/-- At most one connection for each caller, and one of the worker, when none is idle. -/
theorem connections_le_of_idle (h : q.idle = []) : q.connections ≤ 1 + q.outstanding := by
  have hheld := total_held_le q
  have hworker := (q.threads .worker).held_le_one
  rw [connections, h, List.length_nil]
  omega

/-- `acquire` takes a connection out of the pool, or finds none in it. -/
theorem Accounted.take (h : p.Accounted) {n : Nat} {t : Task} {expired : Bool}
    (hne : p.threads (.caller n) ≠ .absent) (hlease : (p.threads (.caller n)).leased = 0)
    (hheld : (p.threads (.caller n)).held = 0) :
    (p.take n t expired).Accounted ∧
      ((p.take n t expired).connections ≤ p.connections ∨
        (p.take n t expired).connections ≤ 1 + (p.take n t expired).outstanding) := by
  unfold Pool.take
  split
  · rename_i c rest hidle
    have hlength : rest.length + 1 ≤ p.idle.length := by
      have hle := (List.dropWhile_sublist p.down (l := p.idle)).length_le
      rw [hidle, List.length_cons] at hle
      exact hle
    refine ⟨h.move hne rfl rfl (fun m _ => ?_) (fun hworker => by cases hworker),
      .inl (h.connections_le hne rfl rfl ?_)⟩
    · rw [hlease, Thread.acquired_leased]
    · rw [hheld, Thread.acquired_held]
      exact hlength
  · have hnone : (if expired then Thread.over .hostNotFound
        else .attempt (some t) .connecting).leased = 0 := by
      split <;> rfl
    refine ⟨h.move hne rfl rfl (fun m _ => ?_) (fun hworker => by cases hworker),
      .inr (connections_le_of_idle rfl)⟩
    rw [hlease, hnone]
    rfl

theorem Accounted.call (h : p.Accounted) {th : Thread} (hlease : th.leased = 0)
    (hheld : th.held = 0) :
    Accounted { p.move (.caller p.calls) th with calls := p.calls + 1 } ∧
      connections { p.move (.caller p.calls) th with calls := p.calls + 1 } =
        p.connections := by
  have hother : ∀ o, o ≠ .caller p.calls → (p.move (.caller p.calls) th).threads o =
      p.threads o := fun o ho => move_ne th ho
  have hself : (p.move (.caller p.calls) th).threads (.caller p.calls) = th := move_self _ _
  have htotal : ∀ weight : Thread → Nat, weight th = 0 →
      ∑ n ∈ Finset.range (p.calls + 1),
        weight ((p.move (.caller p.calls) th).threads (.caller n)) = p.total weight := by
    intro weight hzero
    rw [Finset.sum_range_succ, hself, hzero, Nat.add_zero, total]
    refine Finset.sum_congr rfl fun n hn => ?_
    have hlt := Finset.mem_range.mp hn
    rw [hother _ (by simp; omega)]
  refine ⟨⟨?_, ?_⟩, ?_⟩
  · intro n hn
    change p.calls + 1 ≤ n at hn
    show (p.move (.caller p.calls) th).threads (.caller n) = .absent
    rw [hother _ (by simp; omega)]
    exact h.absent n (by omega)
  · exact h.active.trans (htotal Thread.leased hlease).symm
  · show p.idle.length + _ + ((p.move (.caller p.calls) th).threads .worker).held = _
    rw [hother _ (by simp), connections]
    exact congrArg (p.idle.length + · + _) (htotal Thread.held hheld)

/-- A step keeps the accounts; if it adds a connection, there is at most one for each
outstanding call or lease then, and one more. -/
theorem Accounted.step {l : Label} (h : p.Accounted) (hstep : p.step l = some q) :
    q.Accounted ∧ (q.connections ≤ p.connections ∨ q.connections ≤ 1 + q.outstanding) := by
  cases step_cases hstep with
  | @call t =>
      have hth : (if t.forCommand then Thread.top t else .lookup t).leased = 0 ∧
          (if t.forCommand then Thread.top t else .lookup t).held = 0 := by
        split <;> exact ⟨rfl, rfl⟩
      have hcall := h.call hth.1 hth.2
      exact ⟨hcall.1, .inl hcall.2.le⟩
  | @io o _ _ _ _ hc hx =>
      obtain ⟨hlease, hheld⟩ := hx.counts
      have hne : p.threads o ≠ .absent := by
        intro habsent
        rw [habsent] at hc
        cases hc
      exact h.go hne hlease hheld rfl rfl rfl rfl
  | inner hx =>
      obtain ⟨hlease, hheld⟩ := hx.counts
      exact h.go hx.ne_absent hlease hheld rfl rfl rfl rfl
  | lookup hth => exact h.take (by simp [hth]) (by rw [hth]; rfl) (by rw [hth]; rfl)
  | @connect o t hth =>
      have hcounts : Thread.leased (.attempt t (.writing p.opened)) = (p.threads o).leased ∧
          Thread.held (.attempt t (.writing p.opened)) ≤ (p.threads o).held := by
        rw [hth]
        exact ⟨rfl, Nat.le_refl 1⟩
      exact h.go (by simp [hth]) hcounts.1 hcounts.2 rfl rfl rfl rfl
  | @lease n t c expired hth =>
      have hne : p.threads (.caller n) ≠ .absent := by simp [hth]
      refine ⟨h.move hne rfl rfl (fun _ _ => ?_) (fun hworker => by cases hworker),
        .inl (h.connections_le hne rfl rfl ?_)⟩
      · rw [hth, Thread.acquired_leased]
        rfl
      · rw [hth, Thread.acquired_held]
        exact Nat.le_refl _
  | again hth => exact h.take (by simp [hth]) (by rw [hth]; rfl) (by rw [hth]; rfl)
  | wait hth =>
      refine h.go (by simp [hth]) ?_ ?_ rfl rfl rfl rfl <;> rw [hth] <;> split <;> rfl
  | @drop n c reusable next hth =>
      have hne : p.threads (.caller n) ≠ .absent := by simp [hth]
      have hnext : next.thread.leased = 0 ∧ next.thread.held = 0 := by
        cases next <;> exact ⟨rfl, rfl⟩
      have hactive := h.active_pos (n := n) (by rw [hth]; rfl)
      have hidle : (if reusable then c :: p.idle else p.idle).length ≤ p.idle.length + 1 := by
        split
        · exact Nat.le_refl _
        · omega
      refine ⟨h.move hne rfl rfl (fun _ _ => ?_) (fun hworker => by cases hworker),
        .inl (h.connections_le hne rfl rfl ?_)⟩
      · rw [hth, hnext.1]
        change p.active - 1 + 1 = p.active
        omega
      · rw [hth, hnext.2]
        exact hidle
  | scan hth =>
      have hne : p.threads .worker ≠ .absent := by simp [hth]
      refine ⟨h.move hne rfl rfl (fun _ ho => by cases ho) (fun _ => rfl), ?_⟩
      by_cases hidle : (p.idle.filter fun c => !p.down c) = []
      · exact .inr (connections_le_of_idle hidle)
      · refine .inl (h.connections_le hne rfl rfl ?_)
        rw [if_pos (.inl hidle), hth]
        exact List.length_filter_le _ _
  | joined hth =>
      have hne : p.threads .worker ≠ .absent := by simp [hth]
      refine ⟨h.move hne rfl rfl (fun _ ho => by cases ho) (fun _ => rfl),
        .inl (h.connections_le hne rfl rfl ?_)⟩
      rw [hth]
      exact Nat.le_refl _
  | notJoined hth =>
      refine h.go (by simp [hth]) ?_ ?_ rfl rfl rfl rfl <;> rw [hth] <;> rfl
  | reply => exact ⟨h.congr rfl rfl rfl, .inl (connections_congr rfl rfl rfl).le⟩
  | close => exact ⟨h.congr rfl rfl rfl, .inl (connections_congr rfl rfl rfl).le⟩

theorem Accounted.drop (h : p.Accounted) {n : Nat} (hstep : p.step (.drop n) = some q) :
    0 < p.active ∧ q.active + 1 = p.active := by
  cases step_cases hstep with
  | drop hth =>
      have hactive := h.active_pos (n := n) (by rw [hth]; rfl)
      refine ⟨hactive, ?_⟩
      change p.active - 1 + 1 = p.active
      omega

end Steps

/-! ## Every run -/

/--
After every run: `active` is the number of leases; the drop of a lease finds it
positive and takes one off; the connections, those being established included,
are at most one more than the calls of `acquire` and the leases outstanding at
some time of the run.
-/
theorem pool_accounts {es : List Label} {p : Pool} (h : run Pool.step Pool.init es = some p) :
    p.active = p.leases ∧
    (∀ n q, p.step (.drop n) = some q → 0 < p.active ∧ q.active + 1 = p.active) ∧
    p.connections ≤ 1 + peak Pool.step Pool.outstanding Pool.init es := by
  obtain ⟨haccounted, hle⟩ := run_le_peak (I := Accounted) Pool.outstanding
    connections accounted_init (Nat.zero_le _) (fun _ _ _ hI hstep => hI.step hstep) h
  exact ⟨haccounted.active, fun n q hdrop => haccounted.drop hdrop, hle⟩

/-- A caller and the worker find the pool empty at the same time; the caller takes a lease
on its connection. -/
def sampleRace : List Label :=
  [.call .checkHost, .lookup 0 false, .scan, .connect (.caller 0), .connect .worker,
    .io (.caller 0) (.hello .written), .reply 0 .pong, .io (.caller 0) (.greeted .line true),
    .attempted 0 false, .inner (.caller 0) .finish]

theorem pool_accounts_sampleRace :
    ∃ p q, run Pool.step Pool.init sampleRace = some p ∧ p.active = 1 ∧ p.leases = 1 ∧
      p.step (.drop 0) = some q ∧ q.active = 0 ∧ q.leases = 0 ∧
      p.connections ≤ 1 + peak Pool.step Pool.outstanding Pool.init sampleRace := by
  obtain ⟨p, hrun, hactive, q, hdrop⟩ : ∃ p, run Pool.step Pool.init sampleRace = some p ∧
      p.active = 1 ∧ ∃ q, p.step (.drop 0) = some q := ⟨_, rfl, rfl, _, rfl⟩
  obtain ⟨hleases, hdrops, hbound⟩ := pool_accounts hrun
  have hover : q.active = 0 := by
    have hoff := (hdrops 0 q hdrop).2
    omega
  obtain ⟨hleases', -, -⟩ := pool_accounts ((run_concat Pool.step).mpr ⟨p, hrun, hdrop⟩)
  exact ⟨p, q, hrun, hactive, hleases ▸ hactive, hdrop, hover, hleases' ▸ hover, hbound⟩

/-- The bound is met there. -/
example : ∃ p, run Pool.step Pool.init sampleRace = some p ∧ p.connections = 2 ∧
    peak Pool.step Pool.outstanding Pool.init sampleRace = 1 :=
  ⟨_, rfl, by decide, by decide⟩

end Pool

end Rexec
