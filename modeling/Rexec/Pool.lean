import Rexec.Protocol
import Rexec.Lib.Machine
import Mathlib.Tactic

/-!
# The connection pool of the MCP server

`HostConnector` keeps a pool of connections to the host.  A call takes a lease on
one of them, or opens a new one, pings on it, sends its Request and reads the
Response; when the lease is dropped the connection goes back to the pool if the
lease is `reusable`.  A reconnect worker opens a connection when there is none.

The machine has three layers.

* `HostConnection`: the lines sent on one socket, the replies of the host and
  how many of them were read.
* `Thread.exchange` and `Thread.inner`: what one thread does on the connection it
  holds, and what it does with itself alone.
* `Pool.step`: the sections under the lock of the pool, and the host, which
  answers each line of each connection in order, possibly late, or disconnects.

A label carries what the outside decides: the outcome of a write or a read,
whether a deadline has passed, whether a thread unwinds.  Each section under the
lock is one step, and so is each drop of a lease.  A caller is any code that
takes a lease, makes any pings and requests on it, and drops it after the last
or after the first that fails; `Task.exec` and `Task.checkHost` are the two
callers of the server.
-/

namespace Rexec

open Machine

/-! ## One connection -/

/-- A line sent on a connection; a Request carries the call it was sent for. -/
inductive SentLine where
  | ping
  | request (call : Nat) (request : Request)
deriving DecidableEq

inductive HostReply where
  | pong
  | response (response : Response)
deriving DecidableEq

/-- A Pong is the reply to a Ping, a Response the reply to a Request. -/
def HostReply.answers : HostReply → SentLine → Bool
  | .pong, .ping => true
  | .response _, .request _ _ => true
  | _, _ => false

/-- How a write ends. -/
inductive WriteResult where
  | written
  /-- it fails; `cut` if a part of the line was written -/
  | failed (cut : Bool)
deriving DecidableEq

/-- How a read ends. -/
inductive ReadResult where
  | line
  /-- it fails or times out; `cut` if a part of a reply was consumed -/
  | failed (cut : Bool)
deriving DecidableEq

structure HostConnection where
  sent : List SentLine
  /-- what the host has written; the reply at a place answers the line there -/
  replies : List HostReply
  /-- the number of replies read -/
  read : Nat
  /-- a line was written, or a reply read, in part only -/
  torn : Bool
  /-- the host has disconnected -/
  closed : Bool

namespace HostConnection

def new : HostConnection :=
  { sent := [], replies := [], read := 0, torn := false, closed := false }

/-- `write_all` and `flush` of one line; to a closed socket it fails. -/
def write (c : HostConnection) (m : SentLine) : WriteResult → Option HostConnection
  | .written =>
      if c.closed then none else some { c with sent := c.sent ++ [m] }
  | .failed cut => some { c with torn := c.torn || cut }

/-- The reply that `read_line` returns, if there is one to read. -/
def readLine (c : HostConnection) :
    ReadResult → Option (Option HostReply × HostConnection)
  | .line =>
      match c.replies[c.read]? with
      | some r => some (some r, { c with read := c.read + 1 })
      | none => none
  | .failed cut => some (none, { c with torn := c.torn || cut })

/-- The host writes a reply. -/
def reply (c : HostConnection) (r : HostReply) : HostConnection :=
  { c with replies := c.replies ++ [r] }

/-- The host disconnects. -/
def close (c : HostConnection) : HostConnection :=
  { c with closed := true }

/-- `is_disconnected`: the socket is closed and there is nothing to read. -/
def isDisconnected (c : HostConnection) : Bool :=
  c.closed && c.read == c.replies.length

end HostConnection

/-! ## The threads -/

/-- What a caller does on a lease. -/
inductive Op where
  | ping
  | execute (request : Request)
deriving DecidableEq

structure Task where
  /-- it starts with `acquire_for_command`, not with `acquire` -/
  forCommand : Bool
  ops : List Op
  /-- the Requests answered so far, with their Responses -/
  answers : List (Request × Response)
deriving DecidableEq

/-- `Handler::exec`, its arguments checked. -/
def Task.exec (request : Request) : Task :=
  { forCommand := true, ops := [.execute request], answers := [] }

/-- `Handler::check_host`. -/
def Task.checkHost : Task :=
  { forCommand := false, ops := [], answers := [] }

inductive Outcome where
  | answers (rs : List (Request × Response))
  | hostNotFound
  /-- an I/O error of a ping or a request made on the lease -/
  | failed
  | panicked
deriving DecidableEq

/-- What follows the drop of a lease. -/
inductive After where
  | retry (t : Task)
  | over (outcome : Outcome)
deriving DecidableEq

/-- Where `connect_with_timeout` stands. -/
inductive Attempt where
  | connecting
  | writing (c : Nat)
  | reading (c : Nat)
  | finished (result : Option Nat)
deriving DecidableEq

inductive Thread where
  | absent
  /-- the reconnect worker at the top of its loop -/
  | scan
  /-- the reconnect worker in `wait_for_change` or asleep after a failed attempt -/
  | pause
  /-- an attempt to connect, of a caller or of the worker -/
  | attempt (t : Option Task) (a : Attempt)
  /-- at the top of the loop of `acquire_for_command` -/
  | top (t : Task)
  /-- in `acquire`, about to take a connection out of the pool -/
  | lookup (t : Task)
  /-- in `acquire`, in `wait_for_change` -/
  | waiting (t : Task)
  /-- `acquire` has returned a lease to `acquire_for_command` -/
  | got (t : Task) (c : Nat)
  /-- a reusable lease, about to do the next of its operations -/
  | ready (t : Task) (c : Nat)
  /-- a Ping was sent; `guard` if it is the one of `acquire_for_command` -/
  | pinging (t : Task) (c : Nat) (guard : Bool)
  | requested (t : Task) (c : Nat) (request : Request)
  | dropping (c : Nat) (reusable : Bool) (next : After)
  | over (outcome : Outcome)
deriving DecidableEq

/-- The reconnect worker, or the caller with a number. -/
inductive Owner where
  | worker
  | caller (n : Nat)
deriving DecidableEq

namespace Thread

/-- The connection a thread holds. -/
def conn : Thread → Option Nat
  | .attempt _ (.writing c) => some c
  | .attempt _ (.reading c) => some c
  | .attempt _ (.finished result) => result
  | .got _ c => some c
  | .ready _ c => some c
  | .pinging _ c _ => some c
  | .requested _ c _ => some c
  | .dropping c _ _ => some c
  | _ => none

/-- What a thread does on its connection. -/
inductive Io where
  | hello (w : WriteResult)
  /-- `cleared`: the timeouts could be taken off the socket afterwards -/
  | greeted (r : ReadResult) (cleared : Bool)
  | ping (w : WriteResult)
  | pong (r : ReadResult) (cleared : Bool)
  | send (w : WriteResult)
  | receive (r : ReadResult)
deriving DecidableEq

/-- A write, and the two places it leads to. -/
def writeThen (h : HostConnection) (m : SentLine) (w : WriteResult)
    (sent failed : Thread) : Option (HostConnection × Thread) :=
  (h.write m w).map fun h' => (h', if w = .written then sent else failed)

/-- A read of a Pong, and the two places it leads to. -/
def readPongThen (h : HostConnection) (r : ReadResult) (cleared : Bool)
    (ok failed : Thread) : Option (HostConnection × Thread) :=
  (h.readLine r).map fun p =>
    (p.2, if p.1 = some .pong ∧ cleared = true then ok else failed)

/-- The place a ping leads to when it fails. -/
def pingFailed (t : Task) (c : Nat) (guard : Bool) : Thread :=
  .dropping c false (if guard then .retry t else .over .failed)

/-- `exchange_ping`, `send_request` and `read_response` on the connection held. -/
def exchange (o : Owner) (h : HostConnection) :
    Thread → Io → Option (HostConnection × Thread)
  | .attempt t (.writing c), .hello w =>
      writeThen h .ping w (.attempt t (.reading c)) (.attempt t (.finished none))
  | .attempt t (.reading c), .greeted r cleared =>
      readPongThen h r cleared (.attempt t (.finished (some c)))
        (.attempt t (.finished none))
  | .got t c, .ping w =>
      writeThen h .ping w (.pinging t c true) (pingFailed t c true)
  | .ready t c, .ping w =>
      match t.ops with
      | .ping :: ops =>
          writeThen h .ping w (.pinging { t with ops } c false) (pingFailed t c false)
      | _ => none
  | .pinging t c guard, .pong r cleared =>
      readPongThen h r cleared (.ready t c) (pingFailed t c guard)
  | .ready t c, .send w =>
      match o, t.ops with
      | .caller n, .execute request :: ops =>
          writeThen h (.request n request) w (.requested { t with ops } c request)
            (.dropping c false (.over .failed))
      | _, _ => none
  | .requested t c request, .receive r =>
      (h.readLine r).map fun p =>
        (p.2,
          match p.1 with
          | some (.response response) =>
              .ready { t with answers := t.answers ++ [(request, response)] } c
          | _ => .dropping c false (.over .failed))
  | _, _ => none

/-- What a thread does with itself alone. -/
inductive Inner where
  /-- the deadline check at the top of `acquire_for_command` -/
  | begin (expired : Bool)
  | connectFailed
  | wake
  /-- `acquire_for_command` finds its deadline passed and drops the lease -/
  | expire
  | finish
  /-- a panic; `kept` if the lease is still reusable -/
  | unwind (kept : Bool)
deriving DecidableEq

def inner : Thread → Inner → Option Thread
  | .top t, .begin expired =>
      some (if expired then .over .hostNotFound else .lookup t)
  | .attempt t .connecting, .connectFailed => some (.attempt t (.finished none))
  | .waiting t, .wake => some (.lookup t)
  | .pause, .wake => some .scan
  | .got _ c, .expire => some (.dropping c true (.over .hostNotFound))
  | .ready t c, .finish =>
      if t.ops = [] then some (.dropping c true (.over (.answers t.answers))) else none
  | .got _ c, .unwind kept => some (.dropping c kept (.over .panicked))
  | .ready _ c, .unwind kept => some (.dropping c kept (.over .panicked))
  | .pinging _ c _, .unwind false => some (.dropping c false (.over .panicked))
  | .requested _ c _, .unwind false => some (.dropping c false (.over .panicked))
  | .attempt (some _) _, .unwind _ => some (.over .panicked)
  | .attempt none _, .unwind _ => some .absent
  | .top _, .unwind _ => some (.over .panicked)
  | .lookup _, .unwind _ => some (.over .panicked)
  | .waiting _, .unwind _ => some (.over .panicked)
  | .scan, .unwind _ => some .absent
  | .pause, .unwind _ => some .absent
  | _, _ => none

/-- Where `acquire` returns to with a lease. -/
def acquired (t : Task) (c : Nat) : Thread :=
  if t.forCommand then .got t c else .ready t c

end Thread

def After.thread : After → Thread
  | .retry t => .top t
  | .over outcome => .over outcome

/-! ## The pool -/

structure Pool where
  conns : Nat → HostConnection
  /-- the connections opened so far are those below -/
  opened : Nat
  /-- the idle connections, the one returned last first -/
  idle : List Nat
  active : Nat
  threads : Owner → Thread
  /-- the calls made so far are those below -/
  calls : Nat

namespace Pool

def init : Pool :=
  { conns := fun _ => HostConnection.new
    opened := 0
    idle := []
    active := 0
    threads := fun o => if o = .worker then .scan else .absent
    calls := 0 }

inductive Label where
  | call (t : Task)
  | io (o : Owner) (x : Thread.Io)
  | inner (o : Owner) (x : Thread.Inner)
  | lookup (n : Nat) (expired : Bool)
  | connect (o : Owner)
  | attempted (n : Nat) (expired : Bool)
  | drop (n : Nat)
  | scan
  | joined
  | reply (c : Nat) (r : HostReply)
  | close (c : Nat)

/-- A thread goes on by itself. -/
def move (p : Pool) (o : Owner) (th : Thread) : Pool :=
  { p with threads := Function.update p.threads o th }

/-- Something happens on a connection. -/
def setConn (p : Pool) (c : Nat) (h : HostConnection) : Pool :=
  { p with conns := Function.update p.conns c h }

/-- A connection is found closed. -/
def down (p : Pool) (c : Nat) : Bool :=
  (p.conns c).isDisconnected

/-- `acquire`, from the loop over the idle connections to the next release of the lock. -/
def take (p : Pool) (n : Nat) (t : Task) (expired : Bool) : Pool :=
  match p.idle.dropWhile p.down with
  | c :: rest =>
      { p.move (.caller n) (.acquired t c) with
        idle := rest, active := p.active + 1 }
  | [] =>
      { p.move (.caller n)
          (if expired then .over .hostNotFound else .attempt (some t) .connecting) with
        idle := [] }

def step (p : Pool) : Label → Option Pool
  | .call t =>
      if t.answers = [] then
        some { p.move (.caller p.calls) (if t.forCommand then .top t else .lookup t) with
          calls := p.calls + 1 }
      else none
  | .io o x =>
      match (p.threads o).conn with
      | some c =>
          ((p.threads o).exchange o (p.conns c) x).map fun r =>
            (p.move o r.2).setConn c r.1
      | none => none
  | .inner o x => ((p.threads o).inner x).map fun th => p.move o th
  | .lookup n expired =>
      match p.threads (.caller n) with
      | .lookup t => some (p.take n t expired)
      | _ => none
  | .connect o =>
      match p.threads o with
      | .attempt t .connecting =>
          some { (p.move o (.attempt t (.writing p.opened))).setConn p.opened .new with
            opened := p.opened + 1 }
      | _ => none
  | .attempted n expired =>
      match p.threads (.caller n) with
      | .attempt (some t) (.finished (some c)) =>
          some { p.move (.caller n) (.acquired t c) with active := p.active + 1 }
      | .attempt (some t) (.finished none) =>
          if p.idle ≠ [] then some (p.take n t expired)
          else
            some (p.move (.caller n) (if expired then .over .hostNotFound else .waiting t))
      | _ => none
  | .drop n =>
      match p.threads (.caller n) with
      | .dropping c reusable next =>
          some { p.move (.caller n) next.thread with
            active := p.active - 1
            idle := if reusable then c :: p.idle else p.idle }
      | _ => none
  | .scan =>
      if p.threads .worker = .scan then
        let idle := p.idle.filter fun c => !p.down c
        some { p.move .worker
            (if idle ≠ [] ∨ p.active ≠ 0 then .pause else .attempt none .connecting) with
          idle }
      else none
  | .joined =>
      match p.threads .worker with
      | .attempt none (.finished (some c)) =>
          some { p.move .worker .scan with idle := c :: p.idle }
      | .attempt none (.finished none) => some (p.move .worker .pause)
      | _ => none
  | .reply c r =>
      match (p.conns c).sent[(p.conns c).replies.length]? with
      | some m =>
          if (p.conns c).closed = false ∧ r.answers m = true then
            some (p.setConn c ((p.conns c).reply r))
          else none
      | none => none
  | .close c => some (p.setConn c (p.conns c).close)

end Pool

/-! ## What an exchange can do -/

namespace HostConnection

/-- A line was written. -/
def sentLine (h : HostConnection) (m : SentLine) : HostConnection :=
  { h with sent := h.sent ++ [m] }

/-- A reply was read. -/
def readOne (h : HostConnection) : HostConnection :=
  { h with read := h.read + 1 }

/-- What a failed write or read may leave behind. -/
inductive Spoilt (h : HostConnection) : HostConnection → Prop where
  | torn (cut : Bool) : Spoilt h { h with torn := h.torn || cut }
  | read {r : HostReply} (hr : h.replies[h.read]? = some r) : Spoilt h h.readOne

end HostConnection

namespace Thread

inductive Exchange (o : Owner) (h : HostConnection) :
    Thread → Io → HostConnection → Thread → Prop where
  | helloSent {t : Option Task} {c : Nat} (hopen : h.closed = false) :
      Exchange o h (.attempt t (.writing c)) (.hello .written) (h.sentLine .ping)
        (.attempt t (.reading c))
  | helloFailed {t : Option Task} {c : Nat} {cut : Bool} {h' : HostConnection}
      (hspoilt : h.Spoilt h') :
      Exchange o h (.attempt t (.writing c)) (.hello (.failed cut)) h'
        (.attempt t (.finished none))
  | greeted {t : Option Task} {c : Nat} (hpong : h.replies[h.read]? = some .pong) :
      Exchange o h (.attempt t (.reading c)) (.greeted .line true) h.readOne
        (.attempt t (.finished (some c)))
  | notGreeted {t : Option Task} {c : Nat} {r : ReadResult} {cleared : Bool}
      {h' : HostConnection} (hspoilt : h.Spoilt h') :
      Exchange o h (.attempt t (.reading c)) (.greeted r cleared) h'
        (.attempt t (.finished none))
  | guardSent {t : Task} {c : Nat} (hopen : h.closed = false) :
      Exchange o h (.got t c) (.ping .written) (h.sentLine .ping) (.pinging t c true)
  | guardFailed {t : Task} {c : Nat} {cut : Bool} {h' : HostConnection}
      (hspoilt : h.Spoilt h') :
      Exchange o h (.got t c) (.ping (.failed cut)) h' (pingFailed t c true)
  | pingSent {t : Task} {c : Nat} {ops : List Op} (hops : t.ops = .ping :: ops)
      (hopen : h.closed = false) :
      Exchange o h (.ready t c) (.ping .written) (h.sentLine .ping)
        (.pinging { t with ops } c false)
  | pingFailed {t : Task} {c : Nat} {ops : List Op} {cut : Bool} {h' : HostConnection}
      (hops : t.ops = .ping :: ops) (hspoilt : h.Spoilt h') :
      Exchange o h (.ready t c) (.ping (.failed cut)) h' (pingFailed t c false)
  | pong {t : Task} {c : Nat} {guard : Bool} (hpong : h.replies[h.read]? = some .pong) :
      Exchange o h (.pinging t c guard) (.pong .line true) h.readOne (.ready t c)
  | noPong {t : Task} {c : Nat} {guard : Bool} {r : ReadResult} {cleared : Bool}
      {h' : HostConnection} (hspoilt : h.Spoilt h') :
      Exchange o h (.pinging t c guard) (.pong r cleared) h' (Thread.pingFailed t c guard)
  | sent {t : Task} {c n : Nat} {request : Request} {ops : List Op}
      (ho : o = .caller n) (hops : t.ops = .execute request :: ops)
      (hopen : h.closed = false) :
      Exchange o h (.ready t c) (.send .written) (h.sentLine (.request n request))
        (.requested { t with ops } c request)
  | notSent {t : Task} {c n : Nat} {request : Request} {ops : List Op} {cut : Bool}
      {h' : HostConnection}
      (ho : o = .caller n) (hops : t.ops = .execute request :: ops)
      (hspoilt : h.Spoilt h') :
      Exchange o h (.ready t c) (.send (.failed cut)) h'
        (.dropping c false (.over .failed))
  | received {t : Task} {c : Nat} {request : Request} {response : Response}
      (hreply : h.replies[h.read]? = some (.response response)) :
      Exchange o h (.requested t c request) (.receive .line) h.readOne
        (.ready { t with answers := t.answers ++ [(request, response)] } c)
  | notReceived {t : Task} {c : Nat} {request : Request} {r : ReadResult}
      {h' : HostConnection} (hspoilt : h.Spoilt h') :
      Exchange o h (.requested t c request) (.receive r) h'
        (.dropping c false (.over .failed))

section Cases

variable {o : Owner} {h h' : HostConnection}

theorem writeThen_cases {m : SentLine} {w : WriteResult} {a b th : Thread}
    (hw : writeThen h m w a b = some (h', th)) :
    (w = .written ∧ h.closed = false ∧ h' = h.sentLine m ∧ th = a) ∨
      (∃ cut, w = .failed cut ∧ h.Spoilt h' ∧ th = b) := by
  cases w with
  | written =>
      simp only [writeThen, HostConnection.write] at hw
      by_cases hclosed : h.closed = true
      · rw [if_pos hclosed] at hw
        cases hw
      · rw [if_neg hclosed] at hw
        cases hw
        exact .inl ⟨rfl, by simpa using hclosed, rfl, rfl⟩
  | failed cut =>
      cases hw
      exact .inr ⟨cut, rfl, .torn cut, rfl⟩

theorem readLine_cases {r : ReadResult} {reply : Option HostReply}
    (hr : h.readLine r = some (reply, h')) :
    h.Spoilt h' ∧
      (reply = none ∨
        (r = .line ∧ h' = h.readOne ∧ h.replies[h.read]? = reply)) := by
  cases r with
  | line =>
      simp only [HostConnection.readLine] at hr
      split at hr
      · rename_i hreply
        cases hr
        exact ⟨.read hreply, .inr ⟨rfl, rfl, hreply⟩⟩
      · cases hr
  | failed cut =>
      cases hr
      exact ⟨.torn cut, .inl rfl⟩

theorem readPongThen_cases {r : ReadResult} {cleared : Bool} {a b th : Thread}
    (hr : readPongThen h r cleared a b = some (h', th)) :
    (r = .line ∧ cleared = true ∧ h.replies[h.read]? = some .pong ∧ h' = h.readOne ∧
        th = a) ∨
      (h.Spoilt h' ∧ th = b) := by
  simp only [readPongThen, Option.map_eq_some_iff] at hr
  obtain ⟨⟨reply, h''⟩, hread, heq⟩ := hr
  obtain ⟨hspoilt, hcases⟩ := readLine_cases hread
  simp only [Prod.mk.injEq] at heq
  obtain ⟨rfl, hth⟩ := heq
  split at hth
  · rename_i hc
    obtain ⟨rfl, rfl⟩ := hc
    rcases hcases with hnone | ⟨rfl, hh, hreply⟩
    · cases hnone
    · exact .inl ⟨rfl, rfl, hreply, hh, hth.symm⟩
  · exact .inr ⟨hspoilt, hth.symm⟩

theorem exchange_cases {th th' : Thread} {x : Io}
    (hx : th.exchange o h x = some (h', th')) :
    Exchange o h th x h' th' := by
  unfold exchange at hx
  split at hx
  · rcases writeThen_cases hx with ⟨rfl, hopen, rfl, rfl⟩ | ⟨cut, rfl, hspoilt, rfl⟩
    · exact .helloSent hopen
    · exact .helloFailed hspoilt
  · rcases readPongThen_cases hx with ⟨rfl, rfl, hpong, rfl, rfl⟩ | ⟨hspoilt, rfl⟩
    · exact .greeted hpong
    · exact .notGreeted hspoilt
  · rcases writeThen_cases hx with ⟨rfl, hopen, rfl, rfl⟩ | ⟨cut, rfl, hspoilt, rfl⟩
    · exact .guardSent hopen
    · exact .guardFailed hspoilt
  · split at hx
    · rename_i hops
      rcases writeThen_cases hx with ⟨rfl, hopen, rfl, rfl⟩ | ⟨cut, rfl, hspoilt, rfl⟩
      · exact .pingSent hops hopen
      · exact .pingFailed hops hspoilt
    · cases hx
  · rcases readPongThen_cases hx with ⟨rfl, rfl, hpong, rfl, rfl⟩ | ⟨hspoilt, rfl⟩
    · exact .pong hpong
    · exact .noPong hspoilt
  · split at hx
    · rename_i hops
      rcases writeThen_cases hx with ⟨rfl, hopen, rfl, rfl⟩ | ⟨cut, rfl, hspoilt, rfl⟩
      · exact .sent rfl hops hopen
      · exact .notSent rfl hops hspoilt
    · cases hx
  · rw [Option.map_eq_some_iff] at hx
    obtain ⟨⟨reply, h''⟩, hread, heq⟩ := hx
    obtain ⟨hspoilt, hcases⟩ := readLine_cases hread
    simp only [Prod.mk.injEq] at heq
    obtain ⟨rfl, hth⟩ := heq
    split at hth
    · subst hth
      rcases hcases with hnone | ⟨rfl, rfl, hreply⟩
      · cases hnone
      · exact .received hreply
    · subst hth
      exact .notReceived hspoilt
  · cases hx

/-- A thread keeps its connection through an exchange or gives it up. -/
theorem Exchange.conn {th th' : Thread} {x : Io} (hx : Exchange o h th x h' th') :
    th'.conn = th.conn ∨ th'.conn = none := by
  cases hx <;> first | exact .inl rfl | exact .inr rfl

/-- The line that is sent next, if it is not a Ping. -/
def Asks (o : Owner) (th : Thread) (x : Io) (m : SentLine) : Prop :=
  ∃ n t c request ops, m = .request n request ∧ o = .caller n ∧ x = .send .written ∧
    th = .ready t c ∧ t.ops = .execute request :: ops

/-- An exchange sends one line, or none. -/
theorem Exchange.lines {th th' : Thread} {x : Io} (hx : Exchange o h th x h' th') :
    (∃ m, h'.sent = h.sent ++ [m] ∧ h'.replies = h.replies ∧ (m = .ping ∨ Asks o th x m)) ∨
      (h'.sent = h.sent ∧ h'.replies = h.replies) := by
  have hspoilt : ∀ {h'}, h.Spoilt h' → h'.sent = h.sent ∧ h'.replies = h.replies := by
    rintro h' (cut | hr) <;> exact ⟨rfl, rfl⟩
  cases hx with
  | helloSent hopen => exact .inl ⟨_, rfl, rfl, .inl rfl⟩
  | guardSent hopen => exact .inl ⟨_, rfl, rfl, .inl rfl⟩
  | pingSent hops hopen => exact .inl ⟨_, rfl, rfl, .inl rfl⟩
  | sent ho hops hopen =>
      exact .inl ⟨_, rfl, rfl, .inr ⟨_, _, _, _, _, rfl, ho, rfl, rfl, hops⟩⟩
  | greeted hpong => exact .inr ⟨rfl, rfl⟩
  | pong hpong => exact .inr ⟨rfl, rfl⟩
  | received hreply => exact .inr ⟨rfl, rfl⟩
  | helloFailed hs => exact .inr (hspoilt hs)
  | notGreeted hs => exact .inr (hspoilt hs)
  | guardFailed hs => exact .inr (hspoilt hs)
  | pingFailed hops hs => exact .inr (hspoilt hs)
  | noPong hs => exact .inr (hspoilt hs)
  | notSent ho hops hs => exact .inr (hspoilt hs)
  | notReceived hs => exact .inr (hspoilt hs)

end Cases

/-! ## What a thread can do by itself -/

/-- A caller that holds no lease yet. -/
def isCalling : Thread → Bool
  | .attempt (some _) _ | .top _ | .lookup _ | .waiting _ => true
  | _ => false

/-- The reconnect worker. -/
def isWorker : Thread → Bool
  | .attempt none _ | .scan | .pause => true
  | _ => false

inductive Goes : Thread → Inner → Thread → Prop where
  | expired {t : Task} : Goes (.top t) (.begin true) (.over .hostNotFound)
  | begin {t : Task} : Goes (.top t) (.begin false) (.lookup t)
  | connectFailed {t : Option Task} :
      Goes (.attempt t .connecting) .connectFailed (.attempt t (.finished none))
  | wake {t : Task} : Goes (.waiting t) .wake (.lookup t)
  | workerWake : Goes .pause .wake .scan
  | expire {t : Task} {c : Nat} :
      Goes (.got t c) .expire (.dropping c true (.over .hostNotFound))
  | finish {t : Task} {c : Nat} (hops : t.ops = []) :
      Goes (.ready t c) .finish (.dropping c true (.over (.answers t.answers)))
  | unwindGot {t : Task} {c : Nat} {kept : Bool} :
      Goes (.got t c) (.unwind kept) (.dropping c kept (.over .panicked))
  | unwindReady {t : Task} {c : Nat} {kept : Bool} :
      Goes (.ready t c) (.unwind kept) (.dropping c kept (.over .panicked))
  | unwindPinging {t : Task} {c : Nat} {guard : Bool} :
      Goes (.pinging t c guard) (.unwind false) (.dropping c false (.over .panicked))
  | unwindRequested {t : Task} {c : Nat} {request : Request} :
      Goes (.requested t c request) (.unwind false) (.dropping c false (.over .panicked))
  | unwindCalling {th : Thread} {kept : Bool} (hth : th.isCalling = true) :
      Goes th (.unwind kept) (.over .panicked)
  | unwindWorker {th : Thread} {kept : Bool} (hth : th.isWorker = true) :
      Goes th (.unwind kept) .absent

theorem inner_cases {th th' : Thread} {x : Inner} (hx : th.inner x = some th') :
    Goes th x th' := by
  unfold inner at hx
  split at hx
  case h_1 t expired =>
    cases expired <;> cases hx
    · exact .begin
    · exact .expired
  case h_6 =>
    split at hx
    · rename_i hops
      cases hx
      exact .finish hops
    · cases hx
  case h_2 => cases hx; exact .connectFailed
  case h_3 => cases hx; exact .wake
  case h_4 => cases hx; exact .workerWake
  case h_5 => cases hx; exact .expire
  case h_7 => cases hx; exact .unwindGot
  case h_8 => cases hx; exact .unwindReady
  case h_9 => cases hx; exact .unwindPinging
  case h_10 => cases hx; exact .unwindRequested
  case h_12 => cases hx; exact .unwindWorker rfl
  case h_16 => cases hx; exact .unwindWorker rfl
  case h_17 => cases hx; exact .unwindWorker rfl
  case h_18 => cases hx
  all_goals
    cases hx
    exact .unwindCalling rfl

/-- A thread that goes on by itself takes no connection. -/
theorem Goes.conn {th th' : Thread} {x : Inner} (hx : Goes th x th') {c : Nat}
    (hc : th'.conn = some c) :
    th.conn = some c := by
  cases hx <;> first | exact hc | cases hc

end Thread

/-! ## What a step can do -/

namespace Pool

inductive Step (p : Pool) : Label → Pool → Prop where
  | call {t : Task} (ht : t.answers = []) :
      Step p (.call t)
        { p.move (.caller p.calls) (if t.forCommand then .top t else .lookup t) with
          calls := p.calls + 1 }
  | io {o : Owner} {x : Thread.Io} {c : Nat} {k : HostConnection} {th : Thread}
      (hc : (p.threads o).conn = some c)
      (hx : Thread.Exchange o (p.conns c) (p.threads o) x k th) :
      Step p (.io o x) ((p.move o th).setConn c k)
  | inner {o : Owner} {x : Thread.Inner} {th : Thread} (hx : Thread.Goes (p.threads o) x th) :
      Step p (.inner o x) (p.move o th)
  | lookup {n : Nat} {t : Task} {expired : Bool} (hth : p.threads (.caller n) = .lookup t) :
      Step p (.lookup n expired) (p.take n t expired)
  | connect {o : Owner} {t : Option Task} (hth : p.threads o = .attempt t .connecting) :
      Step p (.connect o)
        { (p.move o (.attempt t (.writing p.opened))).setConn p.opened .new with
          opened := p.opened + 1 }
  | lease {n : Nat} {t : Task} {c : Nat} {expired : Bool}
      (hth : p.threads (.caller n) = .attempt (some t) (.finished (some c))) :
      Step p (.attempted n expired)
        { p.move (.caller n) (.acquired t c) with active := p.active + 1 }
  | again {n : Nat} {t : Task} {expired : Bool}
      (hth : p.threads (.caller n) = .attempt (some t) (.finished none)) :
      Step p (.attempted n expired) (p.take n t expired)
  | wait {n : Nat} {t : Task} {expired : Bool}
      (hth : p.threads (.caller n) = .attempt (some t) (.finished none)) :
      Step p (.attempted n expired)
        (p.move (.caller n) (if expired then .over .hostNotFound else .waiting t))
  | drop {n c : Nat} {reusable : Bool} {next : After}
      (hth : p.threads (.caller n) = .dropping c reusable next) :
      Step p (.drop n)
        { p.move (.caller n) next.thread with
          active := p.active - 1
          idle := if reusable then c :: p.idle else p.idle }
  | scan (hth : p.threads .worker = .scan) :
      Step p .scan
        { p.move .worker
            (if (p.idle.filter fun c => !p.down c) ≠ [] ∨ p.active ≠ 0 then .pause
              else .attempt none .connecting) with
          idle := p.idle.filter fun c => !p.down c }
  | joined {c : Nat} (hth : p.threads .worker = .attempt none (.finished (some c))) :
      Step p .joined { p.move .worker .scan with idle := c :: p.idle }
  | notJoined (hth : p.threads .worker = .attempt none (.finished none)) :
      Step p .joined (p.move .worker .pause)
  | reply {c : Nat} {r : HostReply} {m : SentLine}
      (hm : (p.conns c).sent[(p.conns c).replies.length]? = some m)
      (hr : r.answers m = true) :
      Step p (.reply c r) (p.setConn c ((p.conns c).reply r))
  | close {c : Nat} : Step p (.close c) (p.setConn c (p.conns c).close)

theorem step_cases {p q : Pool} {l : Label} (h : p.step l = some q) : p.Step l q := by
  cases l <;> simp only [Pool.step] at h
  case call t =>
    split at h
    · rename_i ht
      cases h
      exact .call ht
    · cases h
  case io o x =>
    split at h
    · rename_i c hc
      rw [Option.map_eq_some_iff] at h
      obtain ⟨⟨k, th⟩, hx, rfl⟩ := h
      exact .io hc (Thread.exchange_cases hx)
    · cases h
  case inner o x =>
    rw [Option.map_eq_some_iff] at h
    obtain ⟨th, hx, rfl⟩ := h
    exact .inner (Thread.inner_cases hx)
  case lookup n expired =>
    split at h
    · rename_i t hth
      cases h
      exact .lookup hth
    · cases h
  case connect o =>
    split at h
    · rename_i t hth
      cases h
      exact .connect hth
    · cases h
  case attempted n expired =>
    split at h
    · rename_i t c hth
      cases h
      exact .lease hth
    · rename_i t hth
      split at h
      · cases h
        exact .again hth
      · cases h
        exact .wait hth
    · cases h
  case drop n =>
    split at h
    · rename_i c reusable next hth
      cases h
      exact .drop hth
    · cases h
  case scan =>
    split at h
    · rename_i hth
      cases h
      exact .scan hth
    · cases h
  case joined =>
    split at h
    · rename_i c hth
      cases h
      exact .joined hth
    · rename_i hth
      cases h
      exact .notJoined hth
    · cases h
  case reply c r =>
    split at h
    · rename_i m hm
      split at h
      · rename_i hc
        cases h
        exact .reply hm hc.2
      · cases h
    · cases h
  case close c =>
    cases h
    exact .close

end Pool

end Rexec
