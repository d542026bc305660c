import Rexec.Pool
import Rexec.Lib.Machine
import Mathlib.Tactic

/-!
# Pooled connections stay in frame

`Owned` is the invariant of the pool: every connection has at most one owner (the
idle pool, or one thread), the connections in the pool have completed their
handshake and have nothing outstanding and nothing unread, and a thread finds its
connection as the point it stands at says (`Thread.Framed`).

Each step of the pool is put together from a few moves: a thread goes on with its
connection or without (`Owned.move`), takes a free one (`Owned.attach`), or puts
it into the pool (`Owned.push`); `owned_run` carries the invariant along whole runs.
-/

namespace Rexec

open Machine

namespace HostConnection

/-- The host has answered the first lines, each with a reply of its kind. -/
structure Conforms (h : HostConnection) : Prop where
  read_le : h.read ≤ h.replies.length
  replies_le : h.replies.length ≤ h.sent.length
  answers : ∀ (i : Nat) (m : SentLine) (r : HostReply), h.sent[i]? = some m →
    h.replies[i]? = some r → r.answers m = true

/-- The handshake is done, every line sent is answered and every reply read. -/
structure Clean (h : HostConnection) : Prop where
  greeted : h.sent.head? = some .ping
  read_all : h.read = h.sent.length
  whole : h.torn = false

/-- The last line sent is the only one whose reply was not read. -/
def Awaits (h : HostConnection) (m : SentLine) : Prop :=
  ∃ before, h.sent = before ++ [m] ∧ h.read = before.length ∧ h.torn = false ∧
    h.sent.head? = some .ping

/-- Nothing was sent yet. -/
structure Blank (h : HostConnection) : Prop where
  sent_nil : h.sent = []
  read_zero : h.read = 0
  whole : h.torn = false

/-- The last exchange was a Ping and its Pong. -/
def Pinged (h : HostConnection) : Prop :=
  h.sent.getLast? = some .ping ∧ h.replies.getLast? = some .pong

section Lines

variable {h h' : HostConnection}

theorem conforms_new : HostConnection.new.Conforms :=
  ⟨Nat.le_refl 0, Nat.le_refl 0, fun _ _ _ h => by cases h⟩

/-- A clean connection has no line unanswered and no reply unread. -/
theorem Clean.replies_length (h₁ : h.Clean) (h₂ : h.Conforms) :
    h.replies.length = h.sent.length := by
  have hle := h₂.replies_le
  have hread := h₂.read_le
  have hall := h₁.read_all
  omega

theorem Conforms.sentLine (hc : h.Conforms) (m : SentLine) : (h.sentLine m).Conforms := by
  refine ⟨hc.read_le, ?_, ?_⟩
  · have hle := hc.replies_le
    simp only [HostConnection.sentLine, List.length_append, List.length_singleton]
    omega
  · intro i m' r hm hr
    rcases getElem?_concat.mp hm with hm | ⟨rfl, -⟩
    · exact hc.answers i m' r hm hr
    · -- the new line has no reply
      have hlt := lt_length_of_getElem? (show h.replies[h.sent.length]? = some r from hr)
      have hle := hc.replies_le
      omega

theorem Conforms.spoilt (hc : h.Conforms) (hs : h.Spoilt h') : h'.Conforms := by
  cases hs with
  | torn cut => exact ⟨hc.read_le, hc.replies_le, hc.answers⟩
  | read hr => exact ⟨lt_length_of_getElem? hr, hc.replies_le, hc.answers⟩

theorem Conforms.reply (hc : h.Conforms) {m : SentLine} {r : HostReply}
    (hm : h.sent[h.replies.length]? = some m) (hr : r.answers m = true) :
    (h.reply r).Conforms := by
  have hlt := lt_length_of_getElem? hm
  refine ⟨?_, ?_, ?_⟩
  · have hle := hc.read_le
    simp only [HostConnection.reply, List.length_append, List.length_singleton]
    omega
  · simp only [HostConnection.reply, List.length_append, List.length_singleton]
    omega
  · intro i m' r' hm' hr'
    rcases getElem?_concat.mp hr' with hr' | ⟨rfl, rfl⟩
    · exact hc.answers i m' r' hm' hr'
    · rw [show h.sent[h.replies.length]? = some m' from hm'] at hm
      cases hm
      exact hr

theorem Conforms.close (hc : h.Conforms) : h.close.Conforms :=
  ⟨hc.read_le, hc.replies_le, hc.answers⟩

theorem Blank.hello (hb : h.Blank) : (h.sentLine .ping).Awaits .ping :=
  ⟨[], by simp [HostConnection.sentLine, hb.sent_nil], hb.read_zero, hb.whole,
    by simp [HostConnection.sentLine, hb.sent_nil]⟩

theorem Clean.sentLine (hc : h.Clean) (m : SentLine) : (h.sentLine m).Awaits m := by
  refine ⟨h.sent, rfl, hc.read_all, hc.whole, ?_⟩
  have hgreeted := hc.greeted
  simp [HostConnection.sentLine, hgreeted]

/-- The reply the connection waits for is read. -/
theorem Awaits.readOne {m : SentLine} (ha : h.Awaits m) : h.readOne.Clean := by
  obtain ⟨before, hsent, hread, htorn, hgreeted⟩ := ha
  refine ⟨hgreeted, ?_, htorn⟩
  simp only [HostConnection.readOne, hsent, hread, List.length_append,
    List.length_singleton]

theorem Awaits.pinged (ha : h.Awaits .ping) (hc : h.Conforms)
    (hpong : h.replies[h.read]? = some .pong) :
    h.readOne.Pinged := by
  obtain ⟨before, hsent, hread, -, -⟩ := ha
  refine ⟨by simp [HostConnection.readOne, hsent], ?_⟩
  have hlt := lt_length_of_getElem? hpong
  have hle := hc.replies_le
  rw [hsent, List.length_append, List.length_singleton] at hle
  have hlast : h.read = h.replies.length - 1 := by omega
  rw [HostConnection.readOne, List.getLast?_eq_getElem?, ← hlast, hpong]

/-- What the host does leaves the client's side as it is. -/
theorem Clean.reply (hc : h.Clean) (r : HostReply) : (h.reply r).Clean :=
  ⟨hc.greeted, hc.read_all, hc.whole⟩

theorem Clean.close (hc : h.Clean) : h.close.Clean :=
  ⟨hc.greeted, hc.read_all, hc.whole⟩

end Lines

end HostConnection

/-! ## Where a thread finds its connection -/

namespace Thread

/-- The connection of a thread, as the point it stands at says. -/
def Framed (o : Owner) (h : HostConnection) : Thread → Prop
  | .attempt _ (.writing _) => h.Blank
  | .attempt _ (.reading _) => h.Awaits .ping
  | .attempt _ (.finished (some _)) => h.Clean
  | .got _ _ => h.Clean
  | .ready t _ => h.Clean ∧ (t.forCommand = true → t.answers = [] → h.Pinged)
  | .pinging _ _ _ => h.Awaits .ping
  | .requested _ _ request => ∃ n, o = .caller n ∧ h.Awaits (.request n request)
  | .dropping _ reusable _ => reusable = true → h.Clean
  | _ => True

section Framed

variable {o : Owner} {h h' : HostConnection} {th th' : Thread}

theorem Exchange.conforms {x : Io} (hx : Exchange o h th x h' th') (hc : h.Conforms) :
    h'.Conforms := by
  cases hx with
  | helloSent hopen => exact hc.sentLine .ping
  | guardSent hopen => exact hc.sentLine .ping
  | pingSent hops hopen => exact hc.sentLine .ping
  | sent ho hops hopen => exact hc.sentLine _
  | greeted hpong => exact hc.spoilt (.read hpong)
  | pong hpong => exact hc.spoilt (.read hpong)
  | received hreply => exact hc.spoilt (.read hreply)
  | helloFailed hs => exact hc.spoilt hs
  | notGreeted hs => exact hc.spoilt hs
  | guardFailed hs => exact hc.spoilt hs
  | pingFailed hops hs => exact hc.spoilt hs
  | noPong hs => exact hc.spoilt hs
  | notSent ho hops hs => exact hc.spoilt hs
  | notReceived hs => exact hc.spoilt hs

/-- An exchange leads from one frame to the next. -/
theorem Exchange.framed {x : Io} (hx : Exchange o h th x h' th') (hc : h.Conforms)
    (hf : th.Framed o h) :
    th'.Framed o h' := by
  cases hx with
  | helloSent hopen => exact hf.hello
  | helloFailed hs => trivial
  | greeted hpong => exact hf.readOne
  | notGreeted hs => trivial
  | guardSent hopen => exact hf.sentLine .ping
  | guardFailed hs => exact nofun
  | pingSent hops hopen => exact hf.1.sentLine .ping
  | pingFailed hops hs => exact nofun
  | pong hpong => exact ⟨hf.readOne, fun _ _ => hf.pinged hc hpong⟩
  | noPong hs => exact nofun
  | sent ho hops hopen => exact ⟨_, ho, hf.1.sentLine _⟩
  | notSent ho hops hs => exact nofun
  | received hreply =>
      obtain ⟨n, -, ha⟩ := hf
      exact ⟨ha.readOne, fun _ hnil => by simp at hnil⟩
  | notReceived hs => exact nofun

/-- A thread that goes on by itself is still in frame. -/
theorem Goes.framed {x : Inner} (hx : Goes th x th') (hf : th.Framed o h) :
    th'.Framed o h := by
  cases hx with
  | expire => exact fun _ => hf
  | finish hops => exact fun _ => hf.1
  | unwindGot => exact fun _ => hf
  | unwindReady => exact fun _ => hf.1
  | unwindPinging => exact nofun
  | unwindRequested => exact nofun
  | _ => trivial

/-- The host answers only where a thread waits for it. -/
theorem Framed.reply (hf : th.Framed o h) (hc : h.Conforms) {m : SentLine}
    (hm : h.sent[h.replies.length]? = some m) (r : HostReply) :
    th.Framed o (h.reply r) := by
  have hclean : h.Clean → False := by
    intro hclean
    have hlt := lt_length_of_getElem? hm
    have hall := hclean.replies_length hc
    omega
  cases th with
  | attempt t a =>
      cases a with
      | writing c => exact ⟨hf.sent_nil, hf.read_zero, hf.whole⟩
      | reading c => exact hf
      | finished result =>
          cases result with
          | none => trivial
          | some c => exact (hclean hf).elim
      | connecting => trivial
  | got t c => exact (hclean hf).elim
  | ready t c => exact (hclean hf.1).elim
  | pinging t c guard => exact hf
  | requested t c request => exact hf
  | dropping c reusable next => exact fun hr => (hclean (hf hr)).elim
  | _ => trivial

theorem Framed.close (hf : th.Framed o h) : th.Framed o h.close := by
  cases th with
  | attempt t a =>
      cases a with
      | writing c => exact ⟨hf.sent_nil, hf.read_zero, hf.whole⟩
      | reading c => exact hf
      | finished result =>
          cases result with
          | none => trivial
          | some c => exact HostConnection.Clean.close hf
      | connecting => trivial
  | got t c => exact HostConnection.Clean.close hf
  | ready t c => exact ⟨hf.1.close, hf.2⟩
  | pinging t c guard => exact hf
  | requested t c request => exact hf
  | dropping c reusable next => exact fun hr => (hf hr).close
  | _ => trivial

end Framed

end Thread

/-! ## Owners -/

namespace Pool

/-- Every connection has at most one owner, who finds it in frame. -/
structure Owned (p : Pool) : Prop where
  conforms : ∀ c, (p.conns c).Conforms
  unopened : ∀ c, p.opened ≤ c → (p.conns c).sent = []
  framed : ∀ o c, (p.threads o).conn = some c → (p.threads o).Framed o (p.conns c)
  idle_clean : ∀ c ∈ p.idle, (p.conns c).Clean
  idle_nodup : p.idle.Nodup
  idle_opened : ∀ c ∈ p.idle, c < p.opened
  held_opened : ∀ o c, (p.threads o).conn = some c → c < p.opened
  held_not_idle : ∀ o c, (p.threads o).conn = some c → c ∉ p.idle
  unique : ∀ o o' c, (p.threads o).conn = some c → (p.threads o').conn = some c → o = o'

/-- A connection that nobody owns. -/
structure Free (p : Pool) (c : Nat) : Prop where
  opened : c < p.opened
  not_idle : c ∉ p.idle
  not_held : ∀ o, (p.threads o).conn ≠ some c

section Moves

variable {p : Pool}

theorem move_self (o : Owner) (th : Thread) : (p.move o th).threads o = th := by
  simp [Pool.move]

theorem move_ne {o o' : Owner} (th : Thread) (h : o' ≠ o) :
    (p.move o th).threads o' = p.threads o' := by
  simp [Pool.move, h]

/-- A thread goes on, with the connection it holds or without one. -/
theorem Owned.move (h : p.Owned) {o : Owner} {th : Thread}
    (hth : ∀ c, th.conn = some c →
      (p.threads o).conn = some c ∧ th.Framed o (p.conns c)) :
    (p.move o th).Owned := by
  have hheld : ∀ o' c, ((p.move o th).threads o').conn = some c →
      (p.threads o').conn = some c := by
    intro o' c hc
    by_cases ho : o' = o
    · subst ho
      rw [move_self] at hc
      exact (hth c hc).1
    · rwa [move_ne th ho] at hc
  refine ⟨h.conforms, h.unopened, ?_, h.idle_clean, h.idle_nodup, h.idle_opened, ?_, ?_, ?_⟩
  · intro o' c hc
    by_cases ho : o' = o
    · subst ho
      rw [move_self] at hc ⊢
      exact (hth c hc).2
    · rw [move_ne th ho] at hc ⊢
      exact h.framed o' c hc
  · exact fun o' c hc => h.held_opened o' c (hheld o' c hc)
  · exact fun o' c hc => h.held_not_idle o' c (hheld o' c hc)
  · exact fun o' o'' c hc hc' => h.unique o' o'' c (hheld o' c hc) (hheld o'' c hc')

/-- A thread goes on without a connection. -/
theorem Owned.release (h : p.Owned) {o : Owner} {th : Thread} (hth : th.conn = none) :
    (p.move o th).Owned :=
  h.move fun c hc => by rw [hth] at hc; cases hc

/-- The connection a thread gives up is free. -/
theorem Owned.free_of_release (h : p.Owned) {o : Owner} {th : Thread} {c : Nat}
    (hc : (p.threads o).conn = some c) (hth : th.conn = none) :
    (p.move o th).Free c := by
  refine ⟨h.held_opened o c hc, h.held_not_idle o c hc, ?_⟩
  intro o' hc'
  by_cases ho : o' = o
  · subst ho
    rw [move_self, hth] at hc'
    cases hc'
  · rw [move_ne th ho] at hc'
    exact ho (h.unique o' o c hc' hc)

/-- A thread takes a free connection. -/
theorem Owned.attach (h : p.Owned) {o : Owner} {th : Thread} {c : Nat} (hfree : p.Free c)
    (hth : th.conn = some c) (hframed : th.Framed o (p.conns c)) :
    (p.move o th).Owned := by
  have hheld : ∀ o' d, ((p.move o th).threads o').conn = some d →
      (o' = o ∧ d = c) ∨ (o' ≠ o ∧ (p.threads o').conn = some d) := by
    intro o' d hd
    by_cases ho : o' = o
    · subst ho
      rw [move_self, hth] at hd
      cases hd
      exact .inl ⟨rfl, rfl⟩
    · rw [move_ne th ho] at hd
      exact .inr ⟨ho, hd⟩
  refine ⟨h.conforms, h.unopened, ?_, h.idle_clean, h.idle_nodup, h.idle_opened, ?_, ?_, ?_⟩
  · intro o' d hd
    rcases hheld o' d hd with ⟨rfl, rfl⟩ | ⟨ho, hd'⟩
    · rw [move_self]
      exact hframed
    · rw [move_ne th ho]
      exact h.framed o' d hd'
  · intro o' d hd
    rcases hheld o' d hd with ⟨-, rfl⟩ | ⟨-, hd'⟩
    · exact hfree.opened
    · exact h.held_opened o' d hd'
  · intro o' d hd
    rcases hheld o' d hd with ⟨-, rfl⟩ | ⟨-, hd'⟩
    · exact hfree.not_idle
    · exact h.held_not_idle o' d hd'
  · intro o' o'' d hd hd'
    rcases hheld o' d hd with ⟨rfl, rfl⟩ | ⟨-, h'⟩ <;>
      rcases hheld o'' d hd' with ⟨rfl, heq⟩ | ⟨-, h''⟩
    · rfl
    · exact absurd h'' (hfree.not_held o'')
    · subst heq
      exact absurd h' (hfree.not_held o')
    · exact h.unique o' o'' d h' h''

/-- Something happens on a connection, and its owner can tell what. -/
theorem Owned.setConn (h : p.Owned) {c : Nat} {k : HostConnection} (hconforms : k.Conforms)
    (hunopened : p.opened ≤ c → k.sent = [])
    (hframed : ∀ o, (p.threads o).conn = some c → (p.threads o).Framed o k)
    (hidle : c ∈ p.idle → k.Clean) :
    (p.setConn c k).Owned := by
  have hconn : ∀ d, (d = c ∧ (p.setConn c k).conns d = k) ∨
      (d ≠ c ∧ (p.setConn c k).conns d = p.conns d) := by
    intro d
    by_cases hd : d = c
    · subst hd
      exact .inl ⟨rfl, by simp [Pool.setConn]⟩
    · exact .inr ⟨hd, by simp [Pool.setConn, hd]⟩
  refine ⟨?_, ?_, ?_, ?_, h.idle_nodup, h.idle_opened, h.held_opened, h.held_not_idle,
    h.unique⟩
  · intro d
    rcases hconn d with ⟨-, hk⟩ | ⟨-, hk⟩ <;> rw [hk]
    · exact hconforms
    · exact h.conforms d
  · intro d hd
    rcases hconn d with ⟨rfl, hk⟩ | ⟨-, hk⟩ <;> rw [hk]
    · exact hunopened hd
    · exact h.unopened d hd
  · intro o d hd
    rcases hconn d with ⟨rfl, hk⟩ | ⟨-, hk⟩ <;> rw [hk]
    · exact hframed o hd
    · exact h.framed o d hd
  · intro d hd
    rcases hconn d with ⟨rfl, hk⟩ | ⟨-, hk⟩ <;> rw [hk]
    · exact hidle hd
    · exact h.idle_clean d hd

/-- Something happens on a free connection. -/
theorem Owned.setFree (h : p.Owned) {c : Nat} {k : HostConnection} (hfree : p.Free c)
    (hconforms : k.Conforms) :
    (p.setConn c k).Owned := by
  refine h.setConn hconforms (fun hle => ?_) (fun o ho => absurd ho (hfree.not_held o))
    (fun hc => absurd hc hfree.not_idle)
  have hlt := hfree.opened
  omega

/-- Idle connections are dropped. -/
theorem Owned.shrink (h : p.Owned) {idle : List Nat} (hidle : idle.Sublist p.idle) :
    Owned { p with idle } :=
  ⟨h.conforms, h.unopened, h.framed, fun c hc => h.idle_clean c (hidle.subset hc),
    h.idle_nodup.sublist hidle, fun c hc => h.idle_opened c (hidle.subset hc),
    h.held_opened, fun o c hc hm => h.held_not_idle o c hc (hidle.subset hm), h.unique⟩

/-- A free connection that is clean goes into the pool. -/
theorem Owned.push (h : p.Owned) {c : Nat} (hfree : p.Free c) (hclean : (p.conns c).Clean) :
    Owned { p with idle := c :: p.idle } := by
  refine ⟨h.conforms, h.unopened, h.framed, ?_, ?_, ?_, h.held_opened, ?_, h.unique⟩
  · intro d hd
    rcases List.mem_cons.mp hd with rfl | hd
    · exact hclean
    · exact h.idle_clean d hd
  · exact List.nodup_cons.mpr ⟨hfree.not_idle, h.idle_nodup⟩
  · intro d hd
    rcases List.mem_cons.mp hd with rfl | hd
    · exact hfree.opened
    · exact h.idle_opened d hd
  · intro o d hd hm
    rcases List.mem_cons.mp hm with rfl | hm
    · exact hfree.not_held o hd
    · exact h.held_not_idle o d hd hm

/-- The connection on top of the pool is taken out. -/
theorem Owned.pop (h : p.Owned) {c : Nat} {rest : List Nat} (hidle : p.idle = c :: rest) :
    Owned { p with idle := rest } ∧ Free { p with idle := rest } c := by
  refine ⟨h.shrink (by rw [hidle]; exact List.sublist_cons_self c rest), ?_, ?_, ?_⟩
  · exact h.idle_opened c (by simp [hidle])
  · have hnodup := h.idle_nodup
    rw [hidle] at hnodup
    exact (List.nodup_cons.mp hnodup).1
  · exact fun o ho => h.held_not_idle o c ho (by simp [hidle])

/-- A new connection is opened. -/
theorem Owned.openNew (h : p.Owned) :
    Owned { p.setConn p.opened .new with opened := p.opened + 1 } ∧
      Free { p.setConn p.opened .new with opened := p.opened + 1 } p.opened := by
  have hidle : p.opened ∉ p.idle := by
    intro hm
    have hlt := h.idle_opened _ hm
    omega
  have hheld : ∀ o, (p.threads o).conn ≠ some p.opened := by
    intro o ho
    have hlt := h.held_opened o _ ho
    omega
  have hset : (p.setConn p.opened .new).Owned :=
    h.setConn HostConnection.conforms_new (fun _ => rfl)
      (fun o ho => absurd ho (hheld o)) (fun hm => absurd hm hidle)
  refine ⟨⟨hset.conforms, ?_, hset.framed, hset.idle_clean, hset.idle_nodup, ?_, ?_,
    hset.held_not_idle, hset.unique⟩, ?_, hidle, hheld⟩
  · intro c hc
    exact hset.unopened c (Nat.le_of_succ_le hc)
  · intro c hc
    exact Nat.lt_succ_of_lt (hset.idle_opened c hc)
  · intro o c hc
    exact Nat.lt_succ_of_lt (hset.held_opened o c hc)
  · exact Nat.lt_succ_self p.opened

/-- The counters say nothing about owners. -/
theorem Owned.counters (h : p.Owned) (active calls : Nat) :
    Owned { p with active, calls } :=
  ⟨h.conforms, h.unopened, h.framed, h.idle_clean, h.idle_nodup, h.idle_opened,
    h.held_opened, h.held_not_idle, h.unique⟩

/-! ## Every step -/

/-- An exchange: the thread gives its connection up and takes it again, if it does. -/
theorem Owned.io (h : p.Owned) {o : Owner} {c : Nat} {x : Thread.Io} {k : HostConnection}
    {th : Thread} (hc : (p.threads o).conn = some c)
    (hx : Thread.Exchange o (p.conns c) (p.threads o) x k th) :
    ((p.move o th).setConn c k).Owned := by
  have hfree := h.free_of_release hc (show Thread.absent.conn = none from rfl)
  have hset : ((p.move o .absent).setConn c k).Owned :=
    (h.release rfl).setFree hfree (hx.conforms (h.conforms c))
  have hsplit : (p.move o th).setConn c k = ((p.move o .absent).setConn c k).move o th := by
    simp [Pool.move, Pool.setConn]
  rw [hsplit]
  rcases hx.conn with hkeep | hdrop
  · refine hset.attach ⟨hfree.opened, hfree.not_idle, hfree.not_held⟩
      (hkeep.trans hc) ?_
    have hframed := hx.framed (h.conforms c) (h.framed o c hc)
    simpa [Pool.setConn] using hframed
  · exact hset.release hdrop

theorem acquired_conn (t : Task) (c : Nat) : (Thread.acquired t c).conn = some c := by
  unfold Thread.acquired
  split <;> rfl

/-- A clean connection is what `acquire` promises, and nothing was asked on it yet. -/
theorem acquired_framed {o : Owner} {k : HostConnection} (t : Task) (c : Nat)
    (hk : k.Clean) :
    (Thread.acquired t c).Framed o k := by
  unfold Thread.acquired
  split
  · exact hk
  · rename_i hcommand
    exact ⟨hk, fun h => absurd h hcommand⟩

theorem Owned.take (h : p.Owned) (n : Nat) (t : Task) (expired : Bool) :
    (p.take n t expired).Owned := by
  have hsub : (p.idle.dropWhile p.down).Sublist p.idle := List.dropWhile_sublist p.down
  unfold Pool.take
  split
  · rename_i c rest hdrop
    rw [hdrop] at hsub
    have hshrunk : Owned { p with idle := c :: rest } := h.shrink hsub
    obtain ⟨hpop, hfree⟩ := hshrunk.pop rfl
    have hclean := h.idle_clean c (hsub.subset (by simp))
    have hattach := hpop.attach (o := .caller n) hfree (acquired_conn t c)
      (acquired_framed t c hclean)
    exact hattach.counters (p.active + 1) p.calls
  · have hempty : Owned { p with idle := [] } := h.shrink (List.nil_sublist _)
    refine hempty.release (o := .caller n) ?_
    split <;> rfl

theorem Owned.step {q : Pool} {l : Label} (h : p.Owned) (hstep : p.step l = some q) :
    q.Owned := by
  cases step_cases hstep with
  | @call t ht =>
      have hmove : (p.move (.caller p.calls)
          (if t.forCommand then .top t else .lookup t)).Owned :=
        h.release (by split <;> rfl)
      exact hmove.counters p.active (p.calls + 1)
  | io hc hx => exact h.io hc hx
  | @inner o x th hx =>
      refine h.move fun c hc => ?_
      have hheld := hx.conn hc
      exact ⟨hheld, hx.framed (h.framed o c hheld)⟩
  | @lookup n _ expired => exact h.take n _ expired
  | @connect o t hth =>
      obtain ⟨hopen, hfree⟩ := h.openNew
      have hconn : (p.setConn p.opened .new).conns p.opened = .new := by
        simp [Pool.setConn]
      have hblank : ((p.setConn p.opened .new).conns p.opened).Blank := by
        rw [hconn]
        exact ⟨rfl, rfl, rfl⟩
      have hwriting : Thread.Framed o ((p.setConn p.opened .new).conns p.opened)
          (.attempt t (.writing p.opened)) := hblank
      exact hopen.attach (o := o) hfree rfl hwriting
  | @lease n t c expired hth =>
      have hc : (p.threads (.caller n)).conn = some c := by rw [hth]; rfl
      have hclean : (p.conns c).Clean := by
        have hframed := h.framed _ c hc
        rwa [hth] at hframed
      have hmove : (p.move (.caller n) (.acquired t c)).Owned := by
        refine h.move fun d hd => ?_
        rw [acquired_conn] at hd
        cases hd
        exact ⟨hc, acquired_framed t c hclean⟩
      exact hmove.counters (p.active + 1) p.calls
  | @again n _ expired => exact h.take n _ expired
  | wait => exact h.release (by split <;> rfl)
  | @drop n c reusable next hth =>
      have hc : (p.threads (.caller n)).conn = some c := by rw [hth]; rfl
      have hnext : next.thread.conn = none := by cases next <;> rfl
      have hrelease : (p.move (.caller n) next.thread).Owned := h.release hnext
      cases reusable with
      | false => exact hrelease.counters (p.active - 1) p.calls
      | true =>
          have hframed := h.framed _ c hc
          rw [hth] at hframed
          have hpush := hrelease.push (h.free_of_release hc hnext) (hframed rfl)
          exact hpush.counters (p.active - 1) p.calls
  | scan =>
      have hshrunk : Owned { p with idle := p.idle.filter fun c => !p.down c } :=
        h.shrink List.filter_sublist
      refine hshrunk.release (o := .worker) ?_
      split <;> rfl
  | @joined c hth =>
      have hc : (p.threads .worker).conn = some c := by rw [hth]; rfl
      have hframed := h.framed _ c hc
      rw [hth] at hframed
      exact (h.release rfl).push (h.free_of_release hc rfl) hframed
  | notJoined => exact h.release rfl
  | @reply c r m hm hr =>
      have hconforms := h.conforms c
      refine h.setConn (hconforms.reply hm hr) (h.unopened c) ?_ ?_
      · intro o ho
        exact (h.framed o c ho).reply hconforms hm r
      · intro hidle
        exact (h.idle_clean c hidle).reply r
  | @close c =>
      refine h.setConn (h.conforms c).close (h.unopened c) ?_ ?_
      · intro o ho
        exact (h.framed o c ho).close
      · intro hidle
        exact (h.idle_clean c hidle).close

theorem owned_init : Pool.init.Owned := by
  have hnone : ∀ o, (Pool.init.threads o).conn = none := by
    intro o
    cases o <;> rfl
  refine ⟨fun _ => HostConnection.conforms_new, fun _ _ => rfl, ?_, nofun, List.nodup_nil,
    nofun, ?_, ?_, ?_⟩
  · intro o c hc
    rw [hnone] at hc
    cases hc
  · intro o c hc
    rw [hnone] at hc
    cases hc
  · intro o c hc
    rw [hnone] at hc
    cases hc
  · intro o o' c hc
    rw [hnone] at hc
    cases hc

theorem owned_run {es : List Label} (hrun : run Pool.step Pool.init es = some p) :
    p.Owned :=
  run_invariant (fun _ _ _ h hstep => h.step hstep) owned_init hrun

end Moves

end Pool

end Rexec
