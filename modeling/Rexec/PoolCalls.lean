import Rexec.PoolFrame
import Rexec.Lib.Machine
import Mathlib.Tactic

/-!
# The calls of the pool

`Thread.Moves` lists how a step of the pool can move the thread of one caller,
`Evolves` what it can do to one connection.  Over the first, `Called` follows the
calls of a run: a caller does the operations of its task in their order and
nothing else (`Thread.Serves`).
-/

namespace Rexec

open Machine

/-- The Requests of a task, in order. -/
def Task.requests (t : Task) : List Request :=
  t.ops.filterMap fun
    | .ping => none
    | .execute request => some request

namespace Pool

/-- The label is an action of the caller. -/
def Label.by (p : Pool) (n : Nat) : Label → Prop
  | .call _ => p.calls = n
  | .io o _ => o = .caller n
  | .inner o _ => o = .caller n
  | .lookup m _ => m = n
  | .connect o => o = .caller n
  | .attempted m _ => m = n
  | .drop m => m = n
  | _ => False

/-- The calls made in a run, in order. -/
def callsOf (es : List Label) : List Task :=
  es.filterMap fun
    | .call t => some t
    | _ => none

end Pool

namespace Thread

/-- How a section under the lock of the pool leaves `acquire`, or goes on in it. -/
inductive Acquires (t : Task) : Thread → Prop where
  | lease (c : Nat) : Acquires t (acquired t c)
  | notFound : Acquires t (.over .hostNotFound)
  | connect : Acquires t (.attempt (some t) .connecting)
  | wait : Acquires t (.waiting t)

/-- How a step moves the thread of the caller `n`. -/
inductive Moves (p : Pool) (n : Nat) : Pool.Label → Thread → Thread → Prop where
  | stay {l : Pool.Label} {th : Thread} (hl : ¬ l.by p n) : Moves p n l th th
  | call {t : Task} {th : Thread} (hn : n = p.calls) (ht : t.answers = []) :
      Moves p n (.call t) th (if t.forCommand then .top t else .lookup t)
  | io {x : Io} {c : Nat} {k : HostConnection} {th th' : Thread} (hc : th.conn = some c)
      (hx : Exchange (.caller n) (p.conns c) th x k th') :
      Moves p n (.io (.caller n) x) th th'
  | inner {x : Inner} {th th' : Thread} (hx : Goes th x th') :
      Moves p n (.inner (.caller n) x) th th'
  | lookup {t : Task} {expired : Bool} {th' : Thread} (h : Acquires t th') :
      Moves p n (.lookup n expired) (.lookup t) th'
  | connect {t : Option Task} {c : Nat} :
      Moves p n (.connect (.caller n)) (.attempt t .connecting) (.attempt t (.writing c))
  | attempted {t : Task} {result : Option Nat} {expired : Bool} {th' : Thread}
      (h : Acquires t th') :
      Moves p n (.attempted n expired) (.attempt (some t) (.finished result)) th'
  | drop {c : Nat} {reusable : Bool} {next : After} :
      Moves p n (.drop n) (.dropping c reusable next) next.thread

end Thread

namespace Pool

section Moves

variable {p q : Pool}

theorem take_threads (n : Nat) (t : Task) (expired : Bool) :
    ∃ th, Thread.Acquires t th ∧
      (p.take n t expired).threads = Function.update p.threads (.caller n) th := by
  unfold Pool.take
  split
  · exact ⟨_, .lease _, rfl⟩
  · refine ⟨if expired then .over .hostNotFound else .attempt (some t) .connecting, ?_, rfl⟩
    split
    · exact .notFound
    · exact .connect

/-- `acquire` opens no connection and makes no call under the lock. -/
theorem take_rest (n : Nat) (t : Task) (expired : Bool) :
    (p.take n t expired).conns = p.conns ∧ (p.take n t expired).calls = p.calls := by
  unfold Pool.take
  split <;> exact ⟨rfl, rfl⟩

theorem step_moves {l : Label} (hstep : p.step l = some q) (n : Nat) :
    Thread.Moves p n l (p.threads (.caller n)) (q.threads (.caller n)) := by
  -- a step that updates the thread of one owner only
  have hone : ∀ {o : Owner} {th : Thread}, q.threads = Function.update p.threads o th →
      (l.by p n → o = .caller n) →
      (o = .caller n → Thread.Moves p n l (p.threads (.caller n)) th) →
      Thread.Moves p n l (p.threads (.caller n)) (q.threads (.caller n)) := by
    intro o th hq hby hmoves
    by_cases ho : o = .caller n
    · subst ho
      rw [hq, Function.update_self]
      exact hmoves rfl
    · rw [hq, Function.update_of_ne (Ne.symm ho)]
      exact .stay fun hl => ho (hby hl)
  -- the same, of a caller with another number or with this one
  have hcaller : ∀ {m : Nat} {th : Thread}, q.threads = Function.update p.threads (.caller m) th →
      (l.by p n → m = n) →
      (m = n → Thread.Moves p n l (p.threads (.caller n)) th) →
      Thread.Moves p n l (p.threads (.caller n)) (q.threads (.caller n)) := by
    intro m th hq hby hmoves
    exact hone hq (fun hl => by rw [hby hl]) fun ho => hmoves (by simpa using ho)
  cases step_cases hstep with
  | call ht =>
      refine hcaller rfl id ?_
      rintro rfl
      exact .call rfl ht
  | io hc hx =>
      refine hone rfl id ?_
      rintro rfl
      exact .io hc hx
  | inner hx =>
      refine hone rfl id ?_
      rintro rfl
      exact .inner hx
  | @lookup m t expired hth =>
      obtain ⟨th, hacquires, hthreads⟩ := take_threads (p := p) m t expired
      refine hcaller hthreads id ?_
      rintro rfl
      rw [hth]
      exact .lookup hacquires
  | connect hth =>
      refine hone rfl id ?_
      rintro rfl
      rw [hth]
      exact .connect
  | @lease m t c expired hth =>
      refine hcaller rfl id ?_
      rintro rfl
      rw [hth]
      exact .attempted (.lease c)
  | @again m t expired hth =>
      obtain ⟨th, hacquires, hthreads⟩ := take_threads (p := p) m t expired
      refine hcaller hthreads id ?_
      rintro rfl
      rw [hth]
      exact .attempted hacquires
  | wait hth =>
      refine hcaller rfl id ?_
      rintro rfl
      rw [hth]
      refine .attempted ?_
      split
      · exact .notFound
      · exact .wait
  | drop hth =>
      refine hcaller rfl id ?_
      rintro rfl
      rw [hth]
      exact .drop
  | scan => exact hone rfl False.elim fun ho => by cases ho
  | joined => exact hone rfl False.elim fun ho => by cases ho
  | notJoined => exact hone rfl False.elim fun ho => by cases ho
  | reply => exact .stay id
  | close => exact .stay id

/-- What a step can do to the connection `c`. -/
inductive Evolves (p : Pool) (l : Label) (c : Nat) : HostConnection → Prop where
  | same : Evolves p l c (p.conns c)
  | io {o : Owner} {x : Thread.Io} {h : HostConnection} {th : Thread} (hl : l = .io o x)
      (hc : (p.threads o).conn = some c)
      (hx : Thread.Exchange o (p.conns c) (p.threads o) x h th) : Evolves p l c h
  | opened (hc : c = p.opened) : Evolves p l c .new
  | reply (r : HostReply) : Evolves p l c ((p.conns c).reply r)
  | close : Evolves p l c (p.conns c).close

theorem step_evolves {l : Label} (hstep : p.step l = some q) (c : Nat) :
    Evolves p l c (q.conns c) := by
  -- a step on one connection only
  have hone : ∀ {d : Nat} {h : HostConnection}, q.conns = Function.update p.conns d h →
      (c = d → Evolves p l c h) → Evolves p l c (q.conns c) := by
    intro d h hq hd
    by_cases hcd : c = d
    · subst hcd
      rw [hq, Function.update_self]
      exact hd rfl
    · rw [hq, Function.update_of_ne hcd]
      exact .same
  have hnone : q.conns = p.conns → Evolves p l c (q.conns c) := by
    intro hq
    rw [hq]
    exact .same
  cases step_cases hstep with
  | io hc hx =>
      refine hone rfl ?_
      rintro rfl
      exact .io rfl hc hx
  | connect => exact hone rfl .opened
  | @reply d r =>
      refine hone rfl ?_
      rintro rfl
      exact .reply r
  | close =>
      refine hone rfl ?_
      rintro rfl
      exact .close
  | lookup => exact hnone (take_rest ..).1
  | again => exact hnone (take_rest ..).1
  | _ => exact hnone rfl

/-- The lines and replies of every connection only grow. -/
def Grows (p q : Pool) : Prop :=
  ∀ c, (p.conns c).sent <+: (q.conns c).sent ∧ (p.conns c).replies <+: (q.conns c).replies

theorem Owned.grows {l : Label} (h : p.Owned) (hstep : p.step l = some q) : p.Grows q := by
  intro c
  have hkept : (p.conns c).sent <+: (p.conns c).sent ∧
      (p.conns c).replies <+: (p.conns c).replies :=
    ⟨List.prefix_refl _, List.prefix_refl _⟩
  have hevolves := step_evolves hstep c
  generalize q.conns c = k at hevolves ⊢
  cases hevolves with
  | same => exact hkept
  | close => exact hkept
  | reply r => exact ⟨List.prefix_refl _, List.prefix_append _ _⟩
  | opened hc =>
      -- nothing was on it
      have hsent := h.unopened c (Nat.le_of_eq hc.symm)
      have hle := (h.conforms c).replies_le
      rw [hsent, List.length_nil] at hle
      rw [hsent, List.eq_nil_of_length_eq_zero (Nat.le_zero.mp hle)]
      exact ⟨List.nil_prefix, List.nil_prefix⟩
  | io hl hc hx =>
      rcases hx.lines with ⟨m, hsent, hreplies, -⟩ | ⟨hsent, hreplies⟩
      · rw [hsent, hreplies]
        exact ⟨List.prefix_append _ _, List.prefix_refl _⟩
      · rw [hsent, hreplies]
        exact hkept

/-- Only a call changes the number of calls. -/
theorem step_calls {l : Label} (hstep : p.step l = some q) :
    (∃ t, l = .call t ∧ q.calls = p.calls + 1) ∨
      ((∀ t, l ≠ .call t) ∧ q.calls = p.calls) := by
  cases step_cases hstep with
  | @call t => exact .inl ⟨t, rfl, rfl⟩
  | lookup => exact .inr ⟨by simp, (take_rest ..).2⟩
  | again => exact .inr ⟨by simp, (take_rest ..).2⟩
  | _ => exact .inr ⟨by simp, rfl⟩

end Moves

end Pool

/-! ## The task of a call -/

/-- What is left of a task after some of its operations. -/
def Task.Leaves (t₀ t : Task) (next : List Request) : Prop :=
  t.forCommand = t₀.forCommand ∧ t₀.requests = t.answers.map Prod.fst ++ next ++ t.requests

/-- A task that ends with answers has an answer to each of its Requests. -/
def Outcome.Ends (t₀ : Task) (outcome : Outcome) : Prop :=
  ∀ rs, outcome = .answers rs → rs.map Prod.fst = t₀.requests

/-- The thread of a caller serves the task it was called with. -/
def Thread.Serves (t₀ : Task) : Thread → Prop
  | .top t => t = t₀
  | .lookup t => t = t₀
  | .waiting t => t = t₀
  | .attempt (some t) _ => t = t₀
  | .got t _ => t = t₀
  | .pinging t _ true => t = t₀
  | .pinging t _ false => t₀.Leaves t []
  | .ready t _ => t₀.Leaves t []
  | .requested t _ request => t₀.Leaves t [request]
  | .dropping _ _ (.retry t) => t = t₀
  | .dropping _ _ (.over outcome) => outcome.Ends t₀
  | .over outcome => outcome.Ends t₀
  | _ => False

section Serves

variable {t₀ : Task}

theorem Task.leaves_self (h : t₀.answers = []) : t₀.Leaves t₀ [] := by
  simp [Task.Leaves, h]

/-- A caller is not the reconnect worker. -/
theorem Thread.not_serves_worker {th : Thread} (hth : th.isWorker = true) :
    ¬ th.Serves t₀ := by
  cases th with
  | attempt t a => cases t with
    | none => exact id
    | some t => cases hth
  | scan => exact id
  | pause => exact id
  | _ => cases hth

/-- `Serves` survives the moves of a caller, if it starts without answers. -/
theorem Thread.Moves.serves {p : Pool} {n : Nat} {l : Pool.Label} {th th' : Thread}
    (hm : Moves p n l th th') (ht₀ : t₀.answers = []) (hcall : ∀ t, l = .call t → n ≠ p.calls)
    (hs : th.Serves t₀) :
    th'.Serves t₀ := by
  have hacquires : ∀ {t : Task} {th' : Thread}, t = t₀ → Acquires t th' → th'.Serves t₀ := by
    rintro t th' rfl h
    cases h with
    | lease c =>
        unfold acquired
        split
        · exact rfl
        · exact Task.leaves_self ht₀
    | notFound => exact nofun
    | connect => exact rfl
    | wait => exact rfl
  cases hm with
  | stay => exact hs
  | call hn => exact absurd hn (hcall _ rfl)
  | inner hx =>
      cases hx with
      | expired => exact nofun
      | begin => exact hs
      | connectFailed =>
          rename_i t
          cases t <;> exact hs
      | wake => exact hs
      | workerWake => exact hs
      | expire => exact nofun
      | finish hops =>
          rintro rs ⟨⟩
          obtain ⟨-, hall⟩ := hs
          simpa [Task.requests, hops] using hall.symm
      | unwindWorker hth => exact absurd hs (Thread.not_serves_worker hth)
      | _ => exact nofun
  | lookup h => exact hacquires hs h
  | attempted h => exact hacquires hs h
  | @connect t c =>
      cases t with
      | none => exact hs
      | some t => exact hs
  | @drop c reusable next =>
      rcases next with t | outcome
      · exact hs
      · exact hs
  | io hc hx =>
      cases hx with
      | @helloSent t => cases t <;> exact hs
      | @helloFailed t => cases t <;> exact hs
      | @greeted t => cases t <;> exact hs
      | @notGreeted t => cases t <;> exact hs
      | guardSent hopen => exact hs
      | guardFailed hspoilt => exact hs
      | @pingSent t c ops hops hopen =>
          refine ⟨hs.1, ?_⟩
          simpa [Task.requests, hops] using hs.2
      | pingFailed hops hspoilt => exact nofun
      | @pong t c guard hpong =>
          cases guard with
          | true =>
              obtain rfl : t = t₀ := hs
              exact Task.leaves_self ht₀
          | false => exact hs
      | @noPong t c guard =>
          cases guard with
          | true => exact hs
          | false => exact nofun
      | @sent t c m request ops ho hops hopen =>
          refine ⟨hs.1, ?_⟩
          simpa [Task.requests, hops] using hs.2
      | notSent ho hops hspoilt => exact nofun
      | @received t c request response hreply =>
          refine ⟨hs.1, ?_⟩
          simpa [Task.requests] using hs.2
      | notReceived hspoilt => exact nofun

end Serves

/-- A thread that is not there stays away until a call is made. -/
theorem Thread.Moves.absent {p : Pool} {n : Nat} {l : Pool.Label} {th' : Thread}
    (hm : Moves p n l .absent th') (hcall : ∀ t, l = .call t → n ≠ p.calls) :
    th' = .absent := by
  cases hm with
  | stay => rfl
  | call hn => exact absurd hn (hcall _ rfl)
  | io hc => cases hc
  | inner hx =>
      cases hx with
      | unwindCalling hth => cases hth
      | unwindWorker hth => cases hth

namespace Pool

/-- What a run says about the callers. -/
structure Called (es : List Label) (p : Pool) : Prop where
  calls : p.calls = (callsOf es).length
  starts : ∀ (n : Nat) (t₀ : Task), (callsOf es)[n]? = some t₀ → t₀.answers = []
  serves : ∀ (n : Nat) (t₀ : Task), (callsOf es)[n]? = some t₀ →
    (p.threads (.caller n)).Serves t₀
  absent : ∀ n, p.calls ≤ n → p.threads (.caller n) = .absent

theorem call_step {p q : Pool} {t : Task} (hstep : p.step (.call t) = some q) :
    t.answers = [] ∧ (q.threads (.caller p.calls)).Serves t := by
  cases step_cases hstep with
  | call ht =>
      refine ⟨ht, ?_⟩
      change ((p.move _ _).threads _).Serves t
      rw [move_self]
      split <;> exact rfl

/-- Later steps leave the calls made before as they are. -/
theorem callsOf_append_left {es : List Label} {n : Nat} (fs : List Label)
    (hn : n < (callsOf es).length) :
    (callsOf (es ++ fs))[n]? = (callsOf es)[n]? := by
  rw [callsOf, List.filterMap_append, ← callsOf, List.getElem?_append_left hn]

theorem callsOf_concat_call (es : List Label) (t : Task) :
    callsOf (es ++ [.call t]) = callsOf es ++ [t] := by
  simp [callsOf]

theorem callsOf_concat_of_ne {l : Label} (es : List Label) (hl : ∀ t, l ≠ .call t) :
    callsOf (es ++ [l]) = callsOf es := by
  cases l with
  | call t => exact absurd rfl (hl t)
  | _ => simp [callsOf]

theorem called_init : Called [] Pool.init :=
  ⟨rfl, nofun, nofun, fun _ _ => rfl⟩

theorem Called.step {p q : Pool} {es : List Label} {l : Label} (h : Called es p)
    (hstep : p.step l = some q) :
    Called (es ++ [l]) q := by
  have hmoves := step_moves hstep
  have hcalls := h.calls
  -- the calls made before go on as they did
  have hserves : ∀ n t₀, (callsOf es)[n]? = some t₀ → (q.threads (.caller n)).Serves t₀ := by
    intro n t₀ hn
    have hlt := lt_length_of_getElem? hn
    exact (hmoves n).serves (h.starts n t₀ hn) (fun _ _ => by omega) (h.serves n t₀ hn)
  have habsent : ∀ n, p.calls ≤ n → (∀ t, l = .call t → n ≠ p.calls) →
      q.threads (.caller n) = .absent := by
    intro n hle hne
    have hm := hmoves n
    rw [h.absent n hle] at hm
    exact hm.absent hne
  rcases step_calls hstep with ⟨t, rfl, hq⟩ | ⟨hl, hq⟩
  · obtain ⟨ht, hnew⟩ := call_step hstep
    refine ⟨?_, ?_, ?_, fun n hle => habsent n (by omega) fun _ _ => by omega⟩
    · rw [callsOf_concat_call, List.length_append, List.length_singleton, hq, hcalls]
    · intro n t₀ hn
      rw [callsOf_concat_call, getElem?_concat] at hn
      rcases hn with hn | ⟨-, rfl⟩
      · exact h.starts n t₀ hn
      · exact ht
    · intro n t₀ hn
      rw [callsOf_concat_call, getElem?_concat] at hn
      rcases hn with hn | ⟨rfl, rfl⟩
      · exact hserves n t₀ hn
      · rwa [← hcalls]
  · rw [← callsOf_concat_of_ne es hl] at hcalls hserves
    refine ⟨hq.trans hcalls, ?_, hserves,
      fun n hle => habsent n (by omega) fun t ht => absurd ht (hl t)⟩
    intro n t₀ hn
    rw [callsOf_concat_of_ne es hl] at hn
    exact h.starts n t₀ hn

theorem called_run {es : List Label} {p : Pool} (hrun : run Pool.step Pool.init es = some p) :
    Called es p :=
  run_induction (P := Called) called_init (fun _ _ _ _ _ h hstep => h.step hstep) hrun

end Pool

end Rexec
