import Rexec.Lib.Machine
import Mathlib.Tactic

/-!
# One host for each socket path

A host binds the socket path, and takes a stale socket file over: if the path is
in use and nobody accepts a connection there, it removes the file and binds again.
On exit it removes the file by its name.

The machine has any number of hosts and one step for each system call.
`bind_with_stale_takeover` is the part from `binding` to `starting`, where `bound`
stands between the `bind(2)` and the `listen(2)` of `UnixListener::bind`;
`run_with_path_options` goes on from there.

The calls of one host are not one step, and this is where the law fails: a host
that is about to remove the file may find another host's socket there.
`Careful` rules the schedules out in which this happens.  `one_host_per_path`
says that it is enough, and that no more can be allowed: from a step that is not
careful the law can be broken.
-/

namespace Rexec

open Machine

namespace Takeover

/-! ## The machine -/

/-- How `run_with_path_options` ends. -/
inductive Exit where
  | done
  /-- the path is in use -/
  | refused (message : String)
  | failed
  | killed
deriving DecidableEq

/-- The message of a refused start; `verified` if the other host confirmed the ping. -/
def refusal (verified : Bool) : String :=
  if verified then "another rexec host is already running"
  else "another listener owns the rexec socket but did not confirm pong"

/-- Where a host stands; the number is the one of its socket. -/
inductive HostAt where
  | off
  /-- about to bind; `second` if it has removed a file before -/
  | binding (second : Bool)
  | bound (i : Nat)
  | connecting
  | pinging
  /-- the connect has failed -/
  | removing
  /-- `bind_with_stale_takeover` has returned -/
  | starting (i : Nat)
  | accepting (i : Nat)
  /-- out of the accept loop, the listener is still open -/
  | leaving (i : Nat)
  /-- the listener is closed -/
  | unlinking
  | over (exit : Exit)
deriving DecidableEq

namespace HostAt

/-- The socket a host holds. -/
def socket : HostAt → Option Nat
  | .bound i => some i
  | .starting i => some i
  | .accepting i => some i
  | .leaving i => some i
  | _ => none

/-- The listener of a host past `bind_with_stale_takeover`. -/
def serves : HostAt → Option Nat
  | .starting i => some i
  | .accepting i => some i
  | .leaving i => some i
  | _ => none

/-- The host is about to remove the socket file. -/
def unlinks : HostAt → Bool
  | .removing => true
  | .unlinking => true
  | _ => false

end HostAt

inductive SocketState where
  | bound
  | listening
  | closed
deriving DecidableEq

structure World where
  /-- the socket whose file is at the path -/
  path : Option Nat
  sockets : Nat → SocketState
  /-- the sockets made so far are those below -/
  made : Nat
  hosts : Nat → HostAt

/-- The result of a call is part of the action where the world does not decide it. -/
inductive Action where
  | start
  | bind
  /-- the bind fails for another reason than a path in use -/
  | bindFails
  | listen (ok : Bool)
  | connect (ok : Bool)
  | pong (verified : Bool)
  | remove (ok : Bool)
  /-- what is between the bind and the accept loop -/
  | setup (ok : Bool)
  | stop
  | close
  | unlink (ok : Bool)
  | kill
deriving DecidableEq

structure Label where
  host : Nat
  action : Action
deriving DecidableEq

namespace World

/-- No host was started; the path is absent, or names the socket of a host long gone. -/
def init (stale : Bool) : World :=
  { path := if stale then some 0 else none
    sockets := fun _ => .closed
    made := 1
    hosts := fun _ => .off }

def go (w : World) (h : Nat) (s : HostAt) : World :=
  { w with hosts := Function.update w.hosts h s }

def setSocket (w : World) (i : Nat) (s : SocketState) : World :=
  { w with sockets := Function.update w.sockets i s }

/-- The path names a socket that takes connections. -/
def answers (w : World) : Bool :=
  match w.path with
  | some i => w.sockets i == .listening
  | none => false

/-- A host ends, and its socket is closed. -/
def drop (w : World) (h : Nat) (s : HostAt) : World :=
  match (w.hosts h).socket with
  | some i => (w.go h s).setSocket i .closed
  | none => w.go h s

def act (w : World) (h : Nat) : HostAt → Action → Option World
  | .off, .start => some (w.go h (.binding false))
  | .binding second, .bind =>
      match w.path with
      | none =>
          some { (w.go h (.bound w.made)).setSocket w.made .bound with
            path := some w.made, made := w.made + 1 }
      | some _ => some (w.go h (if second then .over .failed else .connecting))
  | .binding _, .bindFails => some (w.go h (.over .failed))
  | .bound i, .listen ok =>
      some (if ok then (w.go h (.starting i)).setSocket i .listening
        else w.drop h (.over .failed))
  | .connecting, .connect ok =>
      if ok = true then if w.answers = true then some (w.go h .pinging) else none
      else some (w.go h .removing)
  | .pinging, .pong verified =>
      some (w.go h (.over (.refused (refusal verified))))
  | .removing, .remove ok =>
      some (if ok = true ∧ w.path ≠ none then { w.go h (.binding true) with path := none }
        else w.go h (.over .failed))
  | .starting i, .setup ok =>
      some (if ok then w.go h (.accepting i) else w.drop h (.over .failed))
  | .accepting i, .stop => some (w.go h (.leaving i))
  | .leaving _, .close => some (w.drop h .unlinking)
  | .unlinking, .unlink ok =>
      some (if ok then { w.go h (.over .done) with path := none } else w.go h (.over .done))
  | .off, .kill => none
  | .over _, .kill => none
  | _, .kill => some (w.drop h (.over .killed))
  | _, _ => none

def step (w : World) (l : Label) : Option World :=
  w.act l.host (w.hosts l.host) l.action

/-! ## What a step can do -/

/-- The effect of a step of the host `h` on the path and the sockets. -/
inductive Effect (w : World) (h : Nat) (a : Action) : World → Prop where
  | quiet {s : HostAt} (hsocket : s.socket = (w.hosts h).socket)
      (hserves : s.serves = (w.hosts h).serves)
      (hwindow : s.unlinks = true → a = .connect false) : Effect w h a (w.go h s)
  | create (hat : (w.hosts h).socket = none) (ha : a = .bind) (hpath : w.path = none) :
      Effect w h a { (w.go h (.bound w.made)).setSocket w.made .bound with
        path := some w.made, made := w.made + 1 }
  | listen {i : Nat} (hat : w.hosts h = .bound i) :
      Effect w h a ((w.go h (.starting i)).setSocket i .listening)
  | close {i : Nat} {s : HostAt} (hi : (w.hosts h).socket = some i) (hs : s.socket = none) :
      Effect w h a ((w.go h s).setSocket i .closed)
  | unlink {s : HostAt} (hat : (w.hosts h).unlinks = true) (hs : s.socket = none) :
      Effect w h a { w.go h s with path := none }

section Effects

variable {w : World} {h : Nat} {a : Action} {s : HostAt}

theorem serves_eq_none (hs : s.socket = none) : s.serves = none := by
  cases s <;> first | rfl | cases hs

theorem go_effect (hs : s.socket = none) (hat : (w.hosts h).socket = none)
    (hwindow : s.unlinks = true → a = .connect false) :
    w.Effect h a (w.go h s) := by
  refine .quiet (hs.trans hat.symm) ?_ hwindow
  rw [serves_eq_none hs, serves_eq_none hat]

theorem drop_effect (hs : s.socket = none)
    (hwindow : s.unlinks = true → (w.hosts h).socket ≠ none) :
    w.Effect h a (w.drop h s) := by
  unfold World.drop
  split
  · rename_i i hi
    exact .close hi hs
  · rename_i hnone
    exact go_effect hs hnone fun hu => absurd hnone (hwindow hu)

theorem act_effect {w' : World} (hact : w.act h (w.hosts h) a = some w') :
    w.Effect h a w' := by
  have hdrop : ∀ {exit : Exit}, w.Effect h a (w.drop h (.over exit)) :=
    drop_effect rfl nofun
  unfold World.act at hact
  split at hact
  case h_1 hat =>
    cases hact
    exact go_effect rfl (by rw [hat]; rfl) nofun
  case h_2 second hat =>
    split at hact
    · rename_i hpath
      cases hact
      exact .create (by rw [hat]; rfl) rfl hpath
    · cases hact
      have hnone : (w.hosts h).socket = none := by rw [hat]; rfl
      cases second
      · exact go_effect rfl hnone nofun
      · exact go_effect rfl hnone nofun
  case h_3 hat =>
    cases hact
    exact go_effect rfl (by rw [hat]; rfl) nofun
  case h_4 i ok hat =>
    cases ok <;> cases hact
    · exact hdrop
    · exact .listen hat
  case h_5 ok hat =>
    have hnone : (w.hosts h).socket = none := by rw [hat]; rfl
    cases ok
    · cases hact
      exact go_effect rfl hnone fun _ => rfl
    · simp only [↓reduceIte] at hact
      split at hact
      · cases hact
        exact go_effect rfl hnone nofun
      · cases hact
  case h_6 hat =>
    cases hact
    exact go_effect rfl (by rw [hat]; rfl) nofun
  case h_7 ok hat =>
    cases hact
    split
    · exact .unlink (by rw [hat]; rfl) rfl
    · exact go_effect rfl (by rw [hat]; rfl) nofun
  case h_8 i ok hat =>
    cases ok <;> cases hact
    · exact hdrop
    · exact .quiet (by rw [hat]; rfl) (by rw [hat]; rfl) nofun
  case h_9 i hat =>
    cases hact
    exact .quiet (by rw [hat]; rfl) (by rw [hat]; rfl) nofun
  case h_10 i hat =>
    cases hact
    refine drop_effect rfl fun _ => ?_
    rw [hat]
    exact nofun
  case h_11 ok hat =>
    cases ok <;> cases hact
    · exact go_effect rfl (by rw [hat]; rfl) nofun
    · exact .unlink (by rw [hat]; rfl) rfl
  case h_12 => cases hact
  case h_13 => cases hact
  case h_14 =>
    cases hact
    exact hdrop
  case h_15 => cases hact

end Effects

/-! ## Sockets and their hosts -/

/-- An open socket has one host, and a host's socket is open. -/
structure Held (w : World) : Prop where
  made : ∀ h i, (w.hosts h).socket = some i → i < w.made
  unique : ∀ h h' i, (w.hosts h).socket = some i → (w.hosts h').socket = some i → h = h'
  opened : ∀ h i, (w.hosts h).socket = some i → w.sockets i ≠ .closed
  owner : ∀ i, w.sockets i ≠ .closed → ∃ h, (w.hosts h).socket = some i

section Held

variable {w w' : World} {h : Nat} {a : Action} {s : HostAt}

theorem go_self (w : World) (h : Nat) (s : HostAt) : (w.go h s).hosts h = s := by
  simp [World.go]

theorem go_ne {h' : Nat} (w : World) (s : HostAt) (hne : h' ≠ h) :
    (w.go h s).hosts h' = w.hosts h' := by
  simp [World.go, hne]

/-- The sockets held after a host has gone on. -/
theorem socket_go {h' i : Nat} :
    ((w.go h s).hosts h').socket = some i ↔
      (h' = h ∧ s.socket = some i) ∨ (h' ≠ h ∧ (w.hosts h').socket = some i) := by
  by_cases hh : h' = h
  · subst hh
    simp [go_self]
  · simp [go_ne w s hh, hh]

theorem setSocket_self (w : World) (i : Nat) (s : SocketState) :
    (w.setSocket i s).sockets i = s := by
  simp [World.setSocket]

theorem setSocket_ne {i j : Nat} (w : World) (s : SocketState) (hne : j ≠ i) :
    (w.setSocket i s).sockets j = w.sockets j := by
  simp [World.setSocket, hne]

/-- A host that goes on with the socket it had, or without one. -/
theorem socket_go_same (hs : s.socket = (w.hosts h).socket) (h' : Nat) :
    ((w.go h s).hosts h').socket = (w.hosts h').socket := by
  by_cases hh : h' = h
  · subst hh
    rw [go_self, hs]
  · rw [go_ne w s hh]

theorem Held.go (hw : w.Held) (hs : s.socket = (w.hosts h).socket) : (w.go h s).Held := by
  refine ⟨?_, ?_, ?_, ?_⟩ <;> simp only [socket_go_same hs]
  · exact hw.made
  · exact hw.unique
  · exact hw.opened
  · exact hw.owner

theorem Held.create (hw : w.Held) {path : Option Nat} (hnone : (w.hosts h).socket = none) :
    Held { (w.go h (.bound w.made)).setSocket w.made .bound with
      path, made := w.made + 1 } := by
  have hsocket : ∀ {h' i : Nat}, ((w.go h (.bound w.made)).hosts h').socket = some i →
      (h' = h ∧ i = w.made) ∨ (h' ≠ h ∧ i ≠ w.made ∧ (w.hosts h').socket = some i) := by
    intro h' i hi
    rcases socket_go.mp hi with ⟨rfl, hmade⟩ | ⟨hne, hi⟩
    · exact .inl ⟨rfl, (Option.some.inj hmade).symm⟩
    · exact .inr ⟨hne, Nat.ne_of_lt (hw.made h' i hi), hi⟩
  refine ⟨?_, ?_, ?_, ?_⟩
  · intro h' i hi
    rcases hsocket hi with ⟨-, rfl⟩ | ⟨-, -, hi⟩
    · exact Nat.lt_succ_self _
    · exact Nat.lt_succ_of_lt (hw.made h' i hi)
  · intro h' h'' i hi hi'
    rcases hsocket hi with ⟨rfl, rfl⟩ | ⟨-, hne, hi⟩ <;>
      rcases hsocket hi' with ⟨rfl, heq⟩ | ⟨-, hne', hi'⟩
    · rfl
    · exact absurd rfl hne'
    · exact absurd heq hne
    · exact hw.unique h' h'' i hi hi'
  · intro h' i hi
    change ((w.go h (.bound w.made)).setSocket w.made .bound).sockets i ≠ _
    rcases hsocket hi with ⟨-, rfl⟩ | ⟨-, hne, hi⟩
    · rw [setSocket_self]
      exact nofun
    · rw [setSocket_ne _ _ hne]
      exact hw.opened h' i hi
  · intro i hi
    change ((w.go h (.bound w.made)).setSocket w.made .bound).sockets i ≠ _ at hi
    by_cases hne : i = w.made
    · subst hne
      exact ⟨h, socket_go.mpr (.inl ⟨rfl, rfl⟩)⟩
    · rw [setSocket_ne _ _ hne] at hi
      obtain ⟨h', hh'⟩ := hw.owner i hi
      refine ⟨h', socket_go.mpr (.inr ⟨?_, hh'⟩)⟩
      rintro rfl
      rw [hnone] at hh'
      cases hh'

theorem Held.close (hw : w.Held) {i : Nat} (hi : (w.hosts h).socket = some i)
    (hs : s.socket = none) :
    Held ((w.go h s).setSocket i .closed) := by
  have hsocket : ∀ {h' j : Nat}, ((w.go h s).hosts h').socket = some j →
      j ≠ i ∧ (w.hosts h').socket = some j := by
    intro h' j hj
    rcases socket_go.mp hj with ⟨-, hj⟩ | ⟨hne, hj⟩
    · rw [hs] at hj
      cases hj
    · refine ⟨?_, hj⟩
      rintro rfl
      exact hne (hw.unique h' h j hj hi)
  refine ⟨?_, ?_, ?_, ?_⟩
  · exact fun h' j hj => hw.made h' j (hsocket hj).2
  · exact fun h' h'' j hj hj' => hw.unique h' h'' j (hsocket hj).2 (hsocket hj').2
  · intro h' j hj
    obtain ⟨hne, hj⟩ := hsocket hj
    rw [setSocket_ne _ _ hne]
    exact hw.opened h' j hj
  · intro j hj
    by_cases hne : j = i
    · subst hne
      rw [setSocket_self] at hj
      exact absurd rfl hj
    · rw [setSocket_ne _ _ hne] at hj
      obtain ⟨h', hh'⟩ := hw.owner j hj
      refine ⟨h', socket_go.mpr (.inr ⟨?_, hh'⟩)⟩
      rintro rfl
      rw [hi] at hh'
      cases hh'
      exact hne rfl

theorem Held.listen (hw : w.Held) {i : Nat} (hi : (w.hosts h).socket = some i) :
    Held (w.setSocket i .listening) := by
  refine ⟨hw.made, hw.unique, ?_, ?_⟩
  · intro h' j hj
    by_cases hne : j = i
    · subst hne
      rw [setSocket_self]
      exact nofun
    · rw [setSocket_ne _ _ hne]
      exact hw.opened h' j hj
  · intro j hj
    by_cases hne : j = i
    · subst hne
      exact ⟨h, hi⟩
    · rw [setSocket_ne _ _ hne] at hj
      exact hw.owner j hj

/-- A host that is about to remove the file holds no socket. -/
theorem unlinks_socket (hs : s.unlinks = true) : s.socket = none := by
  cases s <;> first | rfl | cases hs

theorem Held.step (hw : w.Held) {l : Label} (hstep : w.step l = some w') : w'.Held := by
  cases act_effect hstep with
  | quiet hsocket hserves hwindow => exact hw.go hsocket
  | create hat ha hpath => exact hw.create hat
  | listen hat =>
      rename_i i
      have hi : (w.hosts l.host).socket = some i := by rw [hat]; rfl
      have hgo : (w.go l.host (.starting i)).Held := hw.go hi.symm
      exact hgo.listen (socket_go.mpr (.inl ⟨rfl, rfl⟩))
  | close hi hs => exact hw.close hi hs
  | unlink hat hs =>
      have hgo := hw.go (hs.trans (unlinks_socket hat).symm)
      exact ⟨hgo.made, hgo.unique, hgo.opened, hgo.owner⟩

theorem held_init (stale : Bool) : (World.init stale).Held :=
  ⟨nofun, nofun, nofun, fun _ hi => absurd rfl hi⟩

theorem held_run {stale : Bool} {es : List Label}
    (hrun : run World.step (World.init stale) es = some w) : w.Held :=
  run_invariant (fun _ _ _ h hstep => h.step hstep) (held_init stale) hrun

end Held

/-! ## The law -/

/-- One host at most serves, and the path names its listener. -/
structure OneHost (w : World) : Prop where
  sole : ∀ h h' i i', (w.hosts h).serves = some i → (w.hosts h').serves = some i' → h = h'
  named : ∀ h i, (w.hosts h).serves = some i → w.path = some i

/-- No host makes the socket file while another one is about to remove it, and no
connect fails on the socket of a host that is still there. -/
def Careful (w : World) (l : Label) : Prop :=
  match l.action with
  | .bind => w.path = none → ∀ h, (w.hosts h).unlinks = false
  | .connect ok => ok = false → ∀ i, w.path = some i → w.sockets i = .closed
  | _ => True

/-- The invariant of careful runs. -/
structure Sole (w : World) : Prop where
  named : ∀ h i, (w.hosts h).socket = some i → w.path = some i
  /-- while a host is about to remove the file, no host has a socket -/
  window : ∀ h, (w.hosts h).unlinks = true → ∀ h' i, (w.hosts h').socket ≠ some i

section Law

variable {w w' : World}

theorem socket_of_serves {s : HostAt} {i : Nat} (hs : s.serves = some i) :
    s.socket = some i := by
  cases s <;> first | exact hs | cases hs

theorem Sole.oneHost (hw : w.Sole) (hheld : w.Held) : w.OneHost := by
  have hnamed : ∀ h i, (w.hosts h).serves = some i → w.path = some i :=
    fun h i hi => hw.named h i (socket_of_serves hi)
  refine ⟨?_, hnamed⟩
  intro h h' i i' hi hi'
  have hpath := hnamed h i hi
  rw [hnamed h' i' hi'] at hpath
  cases hpath
  exact hheld.unique h h' i (socket_of_serves hi) (socket_of_serves hi')

/-- A world without sockets. -/
theorem sole_of_none (hnone : ∀ h i, (w.hosts h).socket ≠ some i) : w.Sole :=
  ⟨fun h i hi => absurd hi (hnone h i), fun _ _ => hnone⟩

/-- A host goes on with its socket, if it has one, and is not about to remove the file. -/
theorem Sole.go (hw : w.Sole) {h : Nat} {s : HostAt}
    (hs : s.socket = (w.hosts h).socket)
    (hwindow : s.unlinks = true → ∀ h' i, (w.hosts h').socket ≠ some i) :
    (w.go h s).Sole := by
  refine ⟨?_, ?_⟩
  · intro h' i hi
    rw [socket_go_same hs] at hi
    exact hw.named h' i hi
  · intro k hk h' i
    rw [socket_go_same hs]
    by_cases hkh : k = h
    · subst hkh
      rw [go_self] at hk
      exact hwindow hk h' i
    · rw [go_ne w s hkh] at hk
      exact hw.window k hk h' i

theorem Sole.step (hw : w.Sole) (hheld : w.Held) {l : Label} (hcareful : w.Careful l)
    (hstep : w.step l = some w') :
    w'.Sole := by
  obtain ⟨h, a⟩ := l
  cases act_effect hstep with
  | quiet hsocket hserves hwindow =>
      refine hw.go hsocket fun hs h' i hi => ?_
      -- the connect failed, so the socket at the path is closed
      obtain rfl := hwindow hs
      exact hheld.opened h' i hi (hcareful rfl i (hw.named h' i hi))
  | create hat ha hpath =>
      subst ha
      have hquiet := hcareful hpath
      refine ⟨?_, ?_⟩
      · intro h' i hi
        rcases socket_go.mp hi with ⟨-, hmade⟩ | ⟨-, hold⟩
        · exact hmade
        · rw [hw.named h' i hold] at hpath
          cases hpath
      · intro k hk
        change ((w.go h _).hosts k).unlinks = true at hk
        by_cases hkh : k = h
        · subst hkh
          rw [go_self] at hk
          cases hk
        · rw [go_ne w _ hkh, hquiet] at hk
          cases hk
  | listen hat =>
      have hgo := hw.go (s := .starting _) (by rw [hat]; rfl) nofun
      exact ⟨hgo.named, hgo.window⟩
  | close hi hs =>
      refine sole_of_none fun h' j hj => ?_
      rcases socket_go.mp hj with ⟨-, hj⟩ | ⟨hne, hj⟩
      · rw [hs] at hj
        cases hj
      · -- the only socket was the one that is closed
        have hpath := hw.named h' j hj
        rw [hw.named h _ hi] at hpath
        cases hpath
        exact hne (hheld.unique h' h _ hj hi)
  | unlink hat hs =>
      refine sole_of_none fun h' i hi => ?_
      change ((w.go h _).hosts h').socket = some i at hi
      rw [socket_go_same (hs.trans (unlinks_socket hat).symm)] at hi
      exact hw.window h hat h' i hi

theorem sole_init (stale : Bool) : (World.init stale).Sole :=
  sole_of_none fun _ _ => nofun

/-- A careful run keeps one host. -/
theorem oneHost_of_careful {stale : Bool} {es : List Label}
    (hcareful : Along World.step Careful (World.init stale) es)
    (hrun : run World.step (World.init stale) es = some w) :
    w.OneHost := by
  have hboth : w.Held ∧ w.Sole :=
    run_invariant_along (I := fun w => w.Held ∧ w.Sole)
      (fun _ _ _ h hl hstep => ⟨h.1.step hstep, h.2.step h.1 hl hstep⟩)
      ⟨held_init stale, sole_init stale⟩ hcareful hrun
  exact hboth.2.oneHost hboth.1

/-! ### Why more cannot be allowed -/

/-- The law can be broken from here. -/
def CanBreak (w : World) : Prop :=
  ∃ es w', run World.step w es = some w' ∧ ¬ w'.OneHost

theorem CanBreak.of_step {l : Label} (hstep : w.step l = some w') (h : w'.CanBreak) :
    w.CanBreak := by
  obtain ⟨es, w'', hrun, hbroken⟩ := h
  refine ⟨l :: es, w'', ?_, hbroken⟩
  rw [run_cons, hstep]
  exact hrun

/-- A host that is about to remove the file can do so, whatever is there. -/
theorem exists_unlink {k : Nat} (hk : (w.hosts k).unlinks = true) (hpath : w.path ≠ none) :
    ∃ l s, w.step l = some { w.go k s with path := none } := by
  cases hat : w.hosts k with
  | removing =>
      refine ⟨⟨k, .remove true⟩, .binding true, ?_⟩
      simp [World.step, hat, World.act, hpath]
  | unlinking =>
      refine ⟨⟨k, .unlink true⟩, .over .done, ?_⟩
      simp only [World.step, hat, World.act]
      rfl
  | _ =>
      rw [hat] at hk
      cases hk

theorem canBreak_of_serves {h k i : Nat} (hk : (w.hosts k).unlinks = true)
    (hserves : (w.hosts h).serves = some i) (hpath : w.path ≠ none) :
    w.CanBreak := by
  have hne : h ≠ k := by
    rintro rfl
    rw [serves_eq_none (unlinks_socket hk)] at hserves
    cases hserves
  obtain ⟨l, s, hstep⟩ := exists_unlink hk hpath
  refine .of_step hstep ⟨[], _, rfl, fun hone => ?_⟩
  have hnamed := hone.named h i (by
    change ((w.go k s).hosts h).serves = some i
    rw [go_ne w s hne]
    exact hserves)
  cases hnamed

/-- While a host is about to remove the file, another one has a socket. -/
theorem canBreak_of_socket {h k i : Nat} (hk : (w.hosts k).unlinks = true)
    (hsocket : (w.hosts h).socket = some i) (hpath : w.path ≠ none) :
    w.CanBreak := by
  cases hat : w.hosts h with
  | bound j =>
      -- it gets to its listener first
      have hne : k ≠ h := by
        rintro rfl
        rw [hat] at hk
        cases hk
      have hstep : w.step ⟨h, .listen true⟩ =
          some ((w.go h (.starting j)).setSocket j .listening) := by
        simp only [World.step, hat, World.act]
        rfl
      refine .of_step hstep (canBreak_of_serves (h := h) (k := k) (i := j) ?_ ?_ hpath)
      · change ((w.go h _).hosts k).unlinks = true
        rw [go_ne w _ hne]
        exact hk
      · change ((w.go h _).hosts h).serves = some j
        rw [go_self]
        rfl
  | starting j => exact canBreak_of_serves hk (by rw [hat]; rfl) hpath
  | accepting j => exact canBreak_of_serves hk (by rw [hat]; rfl) hpath
  | leaving j => exact canBreak_of_serves hk (by rw [hat]; rfl) hpath
  | _ =>
      rw [hat] at hsocket
      cases hsocket

/-- From a step that is not careful the law can be broken. -/
theorem canBreak_of_careless (hheld : w.Held) {l : Label} (hcareless : ¬ w.Careful l)
    (hstep : w.step l = some w') :
    w'.CanBreak := by
  obtain ⟨h, a⟩ := l
  cases a with
  | bind =>
      obtain ⟨hpath, k, hk⟩ : w.path = none ∧ ∃ k, (w.hosts k).unlinks = true := by
        simpa [Careful] using hcareless
      cases hat : w.hosts h with
      | binding second =>
          have hw' : { (w.go h (.bound w.made)).setSocket w.made .bound with
              path := some w.made, made := w.made + 1 } = w' := by
            simpa [World.step, hat, World.act, hpath] using hstep
          have hne : k ≠ h := by
            rintro rfl
            rw [hat] at hk
            cases hk
          subst hw'
          refine canBreak_of_socket (h := h) (k := k) (i := w.made) ?_ ?_ nofun
          · change ((w.go h _).hosts k).unlinks = true
            rw [go_ne w _ hne]
            exact hk
          · exact socket_go.mpr (.inl ⟨rfl, rfl⟩)
      | _ => simp [World.step, hat, World.act] at hstep
  | connect ok =>
      obtain ⟨rfl, i, hpath, hopen⟩ :
          ok = false ∧ ∃ i, w.path = some i ∧ w.sockets i ≠ .closed := by
        simpa [Careful] using hcareless
      obtain ⟨k, hk⟩ := hheld.owner i hopen
      cases hat : w.hosts h with
      | connecting =>
          have hw' : w.go h .removing = w' := by
            simpa [World.step, hat, World.act] using hstep
          have hne : k ≠ h := by
            rintro rfl
            rw [hat] at hk
            cases hk
          subst hw'
          refine canBreak_of_socket (h := k) (k := h) (i := i) ?_ ?_ ?_
          · rw [go_self]
            rfl
          · exact socket_go.mpr (.inr ⟨hne, hk⟩)
          · change w.path ≠ none
            rw [hpath]
            exact nofun
      | _ => simp [World.step, hat, World.act] at hstep
  | _ => exact absurd trivial hcareless

/-- A run whose steps are all careful keeps one host, and after a step that is not
careful the law can be broken. -/
theorem one_host_per_path {stale : Bool} {es : List Label}
    (hrun : run World.step (World.init stale) es = some w) :
    (Along World.step Careful (World.init stale) es → w.OneHost) ∧
      ∀ l w', ¬ w.Careful l → w.step l = some w' → w'.CanBreak :=
  ⟨fun hcareful => oneHost_of_careful hcareful hrun,
    fun _ _ hcareless hstep => canBreak_of_careless (held_run hrun) hcareless hstep⟩

/-- A host takes a stale file over and serves; a second host finds it there and is refused. -/
def sampleTakeover : List Label :=
  [⟨0, .start⟩, ⟨0, .bind⟩, ⟨0, .connect false⟩, ⟨0, .remove true⟩, ⟨0, .bind⟩,
    ⟨0, .listen true⟩, ⟨0, .setup true⟩, ⟨1, .start⟩, ⟨1, .bind⟩, ⟨1, .connect true⟩,
    ⟨1, .pong true⟩]

/-- The file is removed before any host has bound the path again. -/
theorem careful_sampleTakeover :
    Along World.step Careful (World.init true) sampleTakeover := by
  refine along_of_cons trivial rfl (along_of_cons ?inUse rfl (along_of_cons ?stale rfl
    (along_of_cons trivial rfl (along_of_cons ?free rfl (along_of_cons trivial rfl
    (along_of_cons trivial rfl (along_of_cons trivial rfl (along_of_cons ?taken rfl
    (along_of_cons ?alive rfl (along_of_cons trivial rfl trivial))))))))))
  case inUse => exact fun hpath => by cases hpath
  case stale =>
    rintro - i hpath
    cases hpath
    rfl
  case free =>
    intro _ h
    by_cases hh : h = 0
    · subst hh
      rfl
    · simp [World.go, hh, World.init, HostAt.unlinks]
  case taken => exact fun hpath => by cases hpath
  case alive => exact fun hfailed => by cases hfailed

theorem one_host_per_path_sampleTakeover :
    ∃ w, run World.step (World.init true) sampleTakeover = some w ∧
      (w.hosts 0).serves = some 1 ∧ w.hosts 1 = .over (.refused (refusal true)) ∧
      w.path = some 1 ∧ w.OneHost :=
  ⟨_, rfl, rfl, rfl, rfl, (one_host_per_path (w := _) rfl).1 careful_sampleTakeover⟩

/-- Two starts that find the same stale file: the second removes the socket of the first. -/
def twoStarts : List Label :=
  [⟨0, .start⟩, ⟨0, .bind⟩, ⟨0, .connect false⟩,
    ⟨1, .start⟩, ⟨1, .bind⟩, ⟨1, .connect false⟩,
    ⟨0, .remove true⟩, ⟨0, .bind⟩, ⟨0, .listen true⟩, ⟨0, .setup true⟩,
    ⟨1, .remove true⟩, ⟨1, .bind⟩, ⟨1, .listen true⟩, ⟨1, .setup true⟩]

theorem two_hosts_serve :
    ¬ ∀ stale es w, run World.step (World.init stale) es = some w → w.OneHost := by
  intro hall
  have hone := hall true twoStarts _ rfl
  have hsame : (0 : Nat) = 1 := hone.sole 0 1 1 2 rfl rfl
  cases hsame

end Law

end World

end Takeover

end Rexec
