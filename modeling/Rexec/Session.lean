import Rexec.Connection
import Rexec.Lib.Machine
import Mathlib.Tactic

/-!
# One connection and its client

The worker with its command's threads on one side, a client on the other, and
between them the two directions of the socket as queues.  The client keeps to
the protocol: it starts with a Ping, it sends Pings while no Request is
outstanding, a Request only after the Pong of a Ping it sent since the last
Response, and nothing but Aborts while a Request is outstanding.  It may send an
Abort at any moment after its first Ping, and it may disconnect at any moment.

The Pong of the `n`-th Ping is the `n`-th Pong, so the client counts: `mark` is
the number of Pings it had sent when the last Response came, and it may send a
Request once it has more Pongs than that.  At the start `mark` says how many of
the first Pings do not count; the protocol asks for 1, the opening Ping.

Reads do not fail here, except for the timeouts of the watcher, and writes
succeed while the client is connected.  What the machine does not need and the
laws are about is kept in history variables: `asked`, `answered`, `reads` and
`cause`, and the tag of each line.
-/

namespace Rexec

open Machine

/-- The lines a client sends. -/
inductive Kind where
  | ping
  | request
  | abort
deriving DecidableEq

/-- What the host takes a line for; blank lines and Attach are no such line. -/
def Config.kindOf (cfg : Config) (text : String) : Option Kind :=
  if (trimEnd text).isEmpty then none
  else
    match cfg.clientAction (trimEnd text) with
    | some .ping => some .ping
    | some .abort => some .abort
    | some (.attach _) => none
    | none => some .request

/-- A line on its way to the host. -/
structure Line where
  kind : Kind
  text : String
  /-- the number of the Request that was outstanding when it was sent -/
  tag : Option Nat

/-- A line on its way to the client. -/
inductive Reply where
  | pong
  | response (resp : Response)
deriving DecidableEq

def Reply.answers : Reply → Kind
  | .pong => .ping
  | .response _ => .request

structure Client where
  connected : Bool
  /-- Pings sent -/
  pings : Nat
  /-- Pongs received -/
  pongs : Nat
  /-- Pings sent before the last Response came -/
  mark : Nat
  /-- Requests sent -/
  requests : Nat
  outstanding : Bool

/-- The number of the Request that is outstanding. -/
def Client.current (c : Client) : Option Nat :=
  if c.outstanding then some c.requests else none

theorem Client.current_eq_some {c : Client} {k : Nat} (h : c.current = some k) :
    c.outstanding = true ∧ c.requests = k := by
  unfold Client.current at h
  split at h
  · rename_i hout
    exact ⟨hout, Option.some.inj h⟩
  · cases h

/-- What the client may send, and what it then knows. -/
def Client.send (c : Client) : Kind → Option Client
  | .ping =>
      if c.connected ∧ c.outstanding = false then
        some { c with pings := c.pings + 1 }
      else none
  | .request =>
      if c.connected ∧ c.outstanding = false ∧ c.mark < c.pongs then
        some { c with requests := c.requests + 1, outstanding := true }
      else none
  | .abort => if c.connected ∧ 0 < c.pings then some c else none

def Client.receive (c : Client) : Reply → Client
  | .pong => { c with pongs := c.pongs + 1 }
  | .response _ => { c with outstanding := false, mark := c.pings }

/-- What made the watcher of the current command kill its child. -/
inductive Cause where
  | abort (tag : Option Nat)
  | eof
deriving DecidableEq

structure Session where
  client : Client
  inbox : List Line
  worker : Worker
  outbox : List Reply
  /-- the Pings and Requests sent, in order -/
  asked : List Kind
  /-- the replies the host wrote or tried to write, in order -/
  answered : List Reply
  /-- the number of request lines the worker has read -/
  reads : Nat
  cause : Option Cause

namespace Session

def init (mark : Nat) : Session :=
  { client :=
      { connected := true, pings := 0, pongs := 0, mark, requests := 0
        outstanding := false }
    inbox := [], worker := .start, outbox := [], asked := [], answered := []
    reads := 0, cause := none }

inductive Label where
  | send (text : String)
  | disconnect
  | receive
  | host (e : Event)

/-- A reply is written; this does not fail while the client is connected. -/
def write (s : Session) (r : Reply) (ok : Bool) : Option Session :=
  if s.client.connected = true ∧ ok = false then none
  else
    some { s with
      answered := s.answered ++ [r]
      outbox := if ok then s.outbox ++ [r] else s.outbox }

/-- What an event of the host does to the two queues. -/
def effect (s : Session) : Event → Option Session
  | .tryClone ok => if ok then some s else none
  | .readLine (.line text) =>
      match s.inbox with
      | [] => none
      | l :: rest =>
          if l.text = text then
            some { s with
              inbox := rest
              reads := if l.kind = .request then s.reads + 1 else s.reads }
          else none
  | .readLine .eof =>
      if s.inbox = [] ∧ s.client.connected = false then some s else none
  | .readLine _ => none
  | .watcherRead (.line text) =>
      match s.inbox with
      | [] => none
      | l :: rest =>
          if l.text = text then
            some { s with
              inbox := rest
              cause := if l.kind = .abort then some (.abort l.tag) else s.cause }
          else none
  | .watcherRead .eof =>
      if s.inbox = [] ∧ s.client.connected = false then
        some { s with cause := some .eof }
      else none
  | .watcherRead .timeout => some s
  | .watcherRead .error => none
  | .writePong ok => s.write .pong ok
  | .writeResponse _ resp ok => s.write (.response resp) ok
  | .spawn _ _ => some { s with cause := none }
  | _ => some s

def step (cfg : Config) (s : Session) : Label → Option Session
  | .send text =>
      match cfg.kindOf text with
      | none => none
      | some kind =>
          (s.client.send kind).map fun client =>
            { s with
              client
              inbox := s.inbox ++ [⟨kind, text, client.current⟩]
              asked := if kind = .abort then s.asked else s.asked ++ [kind] }
  | .disconnect =>
      if s.client.connected then
        some { s with client := { s.client with connected := false } }
      else none
  | .receive =>
      if s.client.connected then
        match s.outbox with
        | [] => none
        | r :: rest => some { s with client := s.client.receive r, outbox := rest }
      else none
  | .host e =>
      match s.effect e, s.worker.step cfg e with
      | some m, some w => some { m with worker := w }
      | _, _ => none

end Session

/-! ## Lines and workers -/

section Lines

variable {cfg : Config} {text : String}

theorem Config.kindOf_ping (h : cfg.kindOf text = some .ping) :
    (trimEnd text).isEmpty = false ∧ cfg.clientAction (trimEnd text) = some .ping := by
  unfold Config.kindOf at h
  split at h
  · cases h
  · rename_i hblank
    split at h
    · rename_i haction
      exact ⟨by simpa using hblank, haction⟩
    all_goals cases h

theorem Config.kindOf_abort (h : cfg.kindOf text = some .abort) :
    cfg.IsAbort text := by
  unfold Config.kindOf at h
  split at h
  · cases h
  · rename_i hblank
    split at h
    · cases h
    · rename_i haction
      exact ⟨by simpa using hblank, haction⟩
    all_goals cases h

theorem Config.kindOf_request (h : cfg.kindOf text = some .request) :
    cfg.IsRequestLine text := by
  unfold Config.kindOf at h
  split at h
  · cases h
  · rename_i hblank
    split at h
    · cases h
    · cases h
    · cases h
    · rename_i haction
      exact ⟨by simpa using hblank, haction⟩

theorem Config.onOpening_kind (h : cfg.kindOf text = some .ping) :
    cfg.onOpening (.line text) = .openingPong := by
  simp only [Config.onOpening, (Config.kindOf_ping h).2]

theorem Config.onLine_ping_kind (p : Bool) (h : cfg.kindOf text = some .ping) :
    cfg.onLine p (.line text) = .pong := by
  obtain ⟨hblank, haction⟩ := Config.kindOf_ping h
  simp only [Config.onLine, hblank, haction, Bool.false_eq_true, if_false]

end Lines

/-- The part a worker plays for a client that does not attach. -/
inductive Role where
  | opening
  /-- between commands; `flag` says that a request line would be served -/
  | resting (flag : Bool)
  | serving
  | foreign
deriving DecidableEq

def Worker.role : Worker → Role
  | .start => .opening
  | .handshake => .opening
  | .openingPong => .opening
  | .lineLoop p => .resting p
  | .pong => .resting true
  | .submitting _ _ _ => .resting false
  | .reject _ => .serving
  | .accepted _ => .serving
  | .spawning _ _ _ => .serving
  | .spawnFailed _ _ _ _ => .serving
  | .running _ _ => .serving
  | _ => .foreign

/-- What the worker has read and not answered yet. -/
def Worker.pendingKind : Worker → List Kind
  | .openingPong => [.ping]
  | .pong => [.ping]
  | .reject _ => [.request]
  | .accepted _ => [.request]
  | .spawning _ _ _ => [.request]
  | .spawnFailed _ _ _ _ => [.request]
  | .running _ _ => [.request]
  | _ => []

theorem Worker.pendingKind_of_serving {w : Worker} (h : w.role = .serving) :
    w.pendingKind = [.request] := by
  cases w <;> first | rfl | cases h

theorem Worker.pendingKind_of_resting {w : Worker} (h : w.role = .resting false) :
    w.pendingKind = [] := by
  cases w <;> first | rfl | cases h

namespace Session

/-- The Pings and Requests among lines. -/
def queries (lines : List Line) : List Kind :=
  (lines.map Line.kind).filter (· ≠ .abort)

/-- The number of Pongs among replies. -/
def ponged (rs : List Reply) : Nat :=
  (rs.map Reply.answers).count .ping

@[simp] theorem queries_nil : queries [] = [] := rfl

theorem queries_append (ls ms : List Line) :
    queries (ls ++ ms) = queries ls ++ queries ms := by
  simp [queries]

theorem queries_cons_abort {l : Line} {ls : List Line} (h : l.kind = .abort) :
    queries (l :: ls) = queries ls := by
  simp [queries, h]

theorem queries_cons {l : Line} {ls : List Line} (h : l.kind ≠ .abort) :
    queries (l :: ls) = l.kind :: queries ls := by
  simp [queries, h]

/-- How client, queues and worker fit together between two steps. -/
inductive Phase (s : Session) : Prop where
  | opening (hrole : s.worker.role = .opening)
      (hout : s.client.outstanding = false) (hreads : s.reads = s.client.requests)
      (hin : ∀ l ∈ s.inbox, l.kind ≠ .request)
      (hfirst : s.worker.pendingKind = [] → ∀ l, s.inbox.head? = some l → l.kind = .ping)
      (hsome : s.worker.pendingKind = [] → s.inbox = [] → s.client.pings = 0)
      (hmark : s.client.mark = 1) (hanswered : s.answered = []) (hbox : s.outbox = [])
  | idle (flag : Bool) (hrole : s.worker.role = .resting flag)
      (hout : s.client.outstanding = false) (hreads : s.reads = s.client.requests)
      (hin : ∀ l ∈ s.inbox, l.kind ≠ .request)
      (hflag : s.client.mark < ponged s.answered → flag = true)
      (hbox : ∀ r ∈ s.outbox, r = .pong)
  | sent (hrole : s.worker.role = .resting true)
      (hout : s.client.outstanding = true) (hreads : s.reads + 1 = s.client.requests)
      (before after : List Line) (l : Line) (hin : s.inbox = before ++ l :: after)
      (hbefore : ∀ m ∈ before, m.kind ≠ .request) (hl : l.kind = .request)
      (hafter : ∀ m ∈ after, m.kind = .abort ∧ m.tag = some s.client.requests)
      (hbox : ∀ r ∈ s.outbox, r = .pong)
  | serving (hrole : s.worker.role = .serving)
      (hout : s.client.outstanding = true) (hreads : s.reads = s.client.requests)
      (hin : ∀ l ∈ s.inbox, l.kind = .abort ∧ l.tag = some s.client.requests)
      (hbox : ∀ r ∈ s.outbox, r = .pong)
  | answered (hrole : s.worker.role = .resting false)
      (hout : s.client.outstanding = true) (hreads : s.reads = s.client.requests)
      (hin : ∀ l ∈ s.inbox, l.kind = .abort ∧ l.tag = some s.client.requests)
      (hbox : s.client.connected = true →
        ∃ ps resp, s.outbox = ps ++ [.response resp] ∧ ∀ r ∈ ps, r = .pong)

/-- The invariant as long as the worker serves the connection. -/
structure Live (cfg : Config) (s : Session) : Prop where
  texts : ∀ l ∈ s.inbox, cfg.kindOf l.text = some l.kind
  flow : s.asked =
    s.answered.map Reply.answers ++ s.worker.pendingKind ++ queries s.inbox
  pings : s.client.pings = s.asked.count .ping
  pongs : s.client.connected = true →
    s.client.pongs + s.outbox.count .pong = ponged s.answered
  phase : Phase s

/-- Afterwards: the worker is gone, and so is the client. -/
structure Over (s : Session) : Prop where
  worker : s.worker = .exited
  client : s.client.connected = false
  inOrder : s.answered.map Reply.answers <+: s.asked

def Orderly (cfg : Config) (s : Session) : Prop :=
  Over s ∨ Live cfg s

theorem init_live (cfg : Config) : Live cfg (init 1) where
  texts := fun l hl => by cases hl
  flow := rfl
  pings := rfl
  pongs := fun _ => rfl
  phase := .opening rfl rfl rfl (fun l hl => by cases hl) (fun _ l hl => by cases hl)
    (fun _ _ => rfl) rfl rfl rfl

section Client

variable {cfg : Config} {s : Session}

theorem no_request_concat {lines : List Line} {l : Line} (h : ∀ m ∈ lines, m.kind ≠ .request)
    (hl : l.kind ≠ .request) : ∀ m ∈ lines ++ [l], m.kind ≠ .request := by
  intro m hm
  rcases List.mem_append.mp hm with hm | hm
  · exact h m hm
  · rwa [List.mem_singleton.mp hm]

theorem Live.prefix_asked (h : Live cfg s) :
    s.answered.map Reply.answers <+: s.asked := by
  rw [h.flow, List.append_assoc]
  exact List.prefix_append _ _

/-- No more Pongs than Pings. -/
theorem Live.ponged_le (h : Live cfg s) : ponged s.answered ≤ s.client.pings := by
  rw [h.pings, ponged]
  exact h.prefix_asked.sublist.count_le _

theorem Live.send_ping (h : Live cfg s) {text : String} {tag : Option Nat}
    (hkind : cfg.kindOf text = some .ping) (hout : s.client.outstanding = false) :
    Live cfg { s with
      client := { s.client with pings := s.client.pings + 1 }
      inbox := s.inbox ++ [⟨.ping, text, tag⟩]
      asked := s.asked ++ [.ping] } where
  texts := by
    intro l hl
    rcases List.mem_append.mp hl with hl | hl
    · exact h.texts l hl
    · obtain rfl := List.mem_singleton.mp hl
      exact hkind
  flow := by
    have hnew : queries [(⟨.ping, text, tag⟩ : Line)] = [.ping] := rfl
    rw [queries_append, hnew, h.flow]
    simp
  pings := by
    rw [List.count_append, h.pings]
    rfl
  pongs := h.pongs
  phase := by
    cases h.phase with
    | opening hrole hout hreads hin hfirst hsome hmark hanswered hbox =>
        refine .opening hrole hout hreads (no_request_concat hin (by simp)) ?_ ?_ hmark
          hanswered hbox
        · intro hworker l hl
          rw [List.head?_append, Option.or_eq_some_iff] at hl
          rcases hl with hl | ⟨-, hl⟩
          · exact hfirst hworker l hl
          · cases hl
            rfl
        · intro _ hnil
          simp at hnil
    | idle flag hrole hout hreads hin hflag hbox =>
        exact .idle flag hrole hout hreads (no_request_concat hin (by simp)) hflag hbox
    | sent hrole hout' => rw [hout] at hout'; cases hout'
    | serving hrole hout' => rw [hout] at hout'; cases hout'
    | answered hrole hout' => rw [hout] at hout'; cases hout'

/-- Where a conforming client sends a Request, the worker will serve it. -/
theorem Live.send_request (h : Live cfg s) {text : String}
    (hkind : cfg.kindOf text = some .request)
    (hconn : s.client.connected = true) (hout : s.client.outstanding = false)
    (hmark : s.client.mark < s.client.pongs) :
    Live cfg { s with
      client :=
        { s.client with requests := s.client.requests + 1, outstanding := true }
      inbox := s.inbox ++ [⟨.request, text, some (s.client.requests + 1)⟩]
      asked := s.asked ++ [.request] } where
  texts := by
    intro l hl
    rcases List.mem_append.mp hl with hl | hl
    · exact h.texts l hl
    · obtain rfl := List.mem_singleton.mp hl
      exact hkind
  flow := by
    have hnew : queries [(⟨.request, text, some (s.client.requests + 1)⟩ : Line)] =
        [.request] := rfl
    rw [queries_append, hnew, h.flow]
    simp
  pings := by
    rw [List.count_append, h.pings]
    rfl
  pongs := h.pongs
  phase := by
    have hpongs := h.pongs hconn
    cases h.phase with
    | opening hrole hout hreads hin hfirst hsome hmark1 hanswered hbox =>
        have hzero : ponged s.answered = 0 := by
          rw [ponged, hanswered]
          rfl
        omega
    | idle flag hrole hout hreads hin hflag hbox =>
        obtain rfl := hflag (by omega)
        exact .sent hrole rfl (by simpa using hreads) s.inbox [] _ rfl hin rfl
          (fun m hm => by cases hm) hbox
    | sent hrole hout' => rw [hout] at hout'; cases hout'
    | serving hrole hout' => rw [hout] at hout'; cases hout'
    | answered hrole hout' => rw [hout] at hout'; cases hout'

/-- The client may send an Abort whenever it likes. -/
theorem Live.send_abort (h : Live cfg s) {text : String}
    (hkind : cfg.kindOf text = some .abort) (hpings : 0 < s.client.pings) :
    Live cfg { s with
      inbox := s.inbox ++ [⟨.abort, text, s.client.current⟩] } where
  texts := by
    intro l hl
    rcases List.mem_append.mp hl with hl | hl
    · exact h.texts l hl
    · obtain rfl := List.mem_singleton.mp hl
      exact hkind
  flow := by
    have hnew : queries [(⟨.abort, text, s.client.current⟩ : Line)] = [] := rfl
    rw [queries_append, hnew, List.append_nil]
    exact h.flow
  pings := h.pings
  pongs := h.pongs
  phase := by
    -- while a Request is outstanding, the line is an Abort for it
    have happ : s.client.outstanding = true → ∀ ls : List Line,
        (∀ l ∈ ls, l.kind = .abort ∧ l.tag = some s.client.requests) →
        ∀ l ∈ ls ++ [⟨.abort, text, s.client.current⟩],
          l.kind = .abort ∧ l.tag = some s.client.requests := by
      intro hout ls hls l hl
      rcases List.mem_append.mp hl with hl | hl
      · exact hls l hl
      · obtain rfl := List.mem_singleton.mp hl
        exact ⟨rfl, if_pos hout⟩
    cases h.phase with
    | opening hrole hout hreads hin hfirst hsome hmark hanswered hbox =>
        refine .opening hrole hout hreads (no_request_concat hin (by simp)) ?_ ?_ hmark
          hanswered hbox
        · intro hworker l hl
          rw [List.head?_append, Option.or_eq_some_iff] at hl
          rcases hl with hl | ⟨hnil, -⟩
          · exact hfirst hworker l hl
          · have hzero := hsome hworker (List.head?_eq_none_iff.mp hnil)
            omega
        · intro _ hnil
          simp at hnil
    | idle flag hrole hout hreads hin hflag hbox =>
        exact .idle flag hrole hout hreads (no_request_concat hin (by simp)) hflag hbox
    | sent hrole hout hreads before after l hin hbefore hl hafter hbox =>
        refine .sent hrole hout hreads before _ l ?_ hbefore hl (happ hout after hafter) hbox
        rw [hin]
        simp
    | serving hrole hout hreads hin hbox =>
        exact .serving hrole hout hreads (happ hout _ hin) hbox
    | answered hrole hout hreads hin hbox =>
        exact .answered hrole hout hreads (happ hout _ hin) hbox

theorem Live.disconnect (h : Live cfg s) :
    Live cfg { s with client := { s.client with connected := false } } where
  texts := h.texts
  flow := h.flow
  pings := h.pings
  pongs := fun hc => by cases hc
  phase := by
    cases h.phase with
    | opening hrole hout hreads hin hfirst hsome hmark hanswered hbox =>
        exact .opening hrole hout hreads hin hfirst hsome hmark hanswered hbox
    | idle flag hrole hout hreads hin hflag hbox =>
        exact .idle flag hrole hout hreads hin hflag hbox
    | sent hrole hout hreads before after l hin hbefore hl hafter hbox =>
        exact .sent hrole hout hreads before after l hin hbefore hl hafter hbox
    | serving hrole hout hreads hin hbox =>
        exact .serving hrole hout hreads hin hbox
    | answered hrole hout hreads hin hbox =>
        exact .answered hrole hout hreads hin (fun hc => by cases hc)

theorem Live.receive (h : Live cfg s) {r : Reply} {rest : List Reply}
    (hconn : s.client.connected = true) (hbox : s.outbox = r :: rest) :
    Live cfg { s with client := s.client.receive r, outbox := rest } := by
  have hpongs := h.pongs hconn
  rw [hbox] at hpongs
  have hmem : r ∈ s.outbox := by simp [hbox]
  have hrest : ∀ x ∈ rest, x ∈ s.outbox := fun x hx => by simp [hbox, hx]
  cases r with
  | pong =>
      refine ⟨h.texts, h.flow, h.pings, ?_, ?_⟩
      · intro _
        simp only [Client.receive, List.count_cons_self] at hpongs ⊢
        omega
      · cases h.phase with
        | opening hrole hout hreads hin hfirst hsome hmark hanswered hnil =>
            rw [hbox] at hnil
            cases hnil
        | idle flag hrole hout hreads hin hflag hall =>
            exact .idle flag hrole hout hreads hin hflag
              (fun x hx => hall x (hrest x hx))
        | sent hrole hout hreads before after l hin hbefore hl hafter hall =>
            exact .sent hrole hout hreads before after l hin hbefore hl hafter
              (fun x hx => hall x (hrest x hx))
        | serving hrole hout hreads hin hall =>
            exact .serving hrole hout hreads hin (fun x hx => hall x (hrest x hx))
        | answered hrole hout hreads hin hlast =>
            refine .answered hrole hout hreads hin fun _ => ?_
            obtain ⟨ps, resp, hps, hall⟩ := hlast hconn
            rw [hbox] at hps
            cases ps with
            | nil => cases hps
            | cons p ps =>
                simp only [List.cons_append, List.cons.injEq] at hps
                exact ⟨ps, resp, hps.2, fun x hx => hall x (by simp [hx])⟩
  | response resp =>
      have hle := h.ponged_le
      refine ⟨h.texts, h.flow, h.pings, ?_, ?_⟩
      · intro _
        simpa [Client.receive] using hpongs
      · cases h.phase with
        | opening hrole hout hreads hin hfirst hsome hmark hanswered hnil =>
            rw [hbox] at hnil
            cases hnil
        | idle flag hrole hout hreads hin hflag hall => cases hall _ hmem
        | sent hrole hout hreads before after l hin hbefore hl hafter hall =>
            cases hall _ hmem
        | serving hrole hout hreads hin hall => cases hall _ hmem
        | answered hrole hout hreads hin hlast =>
            obtain ⟨ps, resp', hps, hall⟩ := hlast hconn
            obtain rfl : ps = [] := by
              cases ps with
              | nil => rfl
              | cons p ps =>
                  have hp := hall p (by simp)
                  rw [hbox, hp] at hps
                  simp at hps
            rw [hbox] at hps
            simp only [List.nil_append, List.cons.injEq] at hps
            refine .idle false hrole rfl hreads ?_ ?_ ?_
            · intro l hl
              rw [(hin l hl).1]
              simp
            · intro hlt
              exact absurd hlt (Nat.not_lt.mpr hle)
            · intro x hx
              rw [show rest = [] from hps.2] at hx
              cases hx

end Client

section Host

variable {cfg : Config} {s : Session}

/-- What can happen in a session. -/
inductive Step (cfg : Config) (s : Session) : Label → Session → Prop where
  | send {text : String} {kind : Kind} {client : Client} (hkind : cfg.kindOf text = some kind)
      (hsend : s.client.send kind = some client) :
      Step cfg s (.send text)
        { s with
          client
          inbox := s.inbox ++ [⟨kind, text, client.current⟩]
          asked := if kind = .abort then s.asked else s.asked ++ [kind] }
  | disconnect (hconn : s.client.connected = true) :
      Step cfg s .disconnect { s with client := { s.client with connected := false } }
  | receive {r : Reply} {rest : List Reply} (hconn : s.client.connected = true)
      (hbox : s.outbox = r :: rest) :
      Step cfg s .receive { s with client := s.client.receive r, outbox := rest }
  | host {e : Event} {m : Session} {w : Worker} (hm : s.effect e = some m)
      (hw : s.worker.Step cfg e w) :
      Step cfg s (.host e) { m with worker := w }

theorem step_cases {s' : Session} {l : Label} (h : s.step cfg l = some s') :
    s.Step cfg l s' := by
  cases l with
  | send text =>
      simp only [Session.step] at h
      split at h
      · cases h
      · rename_i kind hkind
        rw [Option.map_eq_some_iff] at h
        obtain ⟨client, hsend, rfl⟩ := h
        exact .send hkind hsend
  | disconnect =>
      simp only [Session.step] at h
      split at h
      · rename_i hconn
        cases h
        exact .disconnect hconn
      · cases h
  | receive =>
      simp only [Session.step] at h
      split at h
      · rename_i hconn
        split at h
        · cases h
        · rename_i r rest hbox
          cases h
          exact .receive hconn hbox
      · cases h
  | host e =>
      simp only [Session.step] at h
      split at h
      · rename_i m w hm hw
        cases h
        exact .host hm (Worker.step_cases hw)
      · cases h

theorem step_host {s' : Session} {e : Event} (h : s.step cfg (.host e) = some s') :
    ∃ m w, s.effect e = some m ∧ s.worker.Step cfg e w ∧ s' = { m with worker := w } := by
  cases step_cases h with
  | host hm hw => exact ⟨_, _, hm, hw, rfl⟩

/-- A step the client cannot notice. -/
theorem Live.silent (h : Live cfg s) {w : Worker} (c : Option Cause)
    (hrole : w.role = s.worker.role) (hpending : w.pendingKind = s.worker.pendingKind) :
    Live cfg { s with worker := w, cause := c } where
  texts := h.texts
  flow := by
    rw [h.flow]
    simp only [hpending]
  pings := h.pings
  pongs := h.pongs
  phase := by
    cases h.phase with
    | opening hr hout hreads hin hfirst hsome hmark hanswered hbox =>
        exact .opening (hrole.trans hr) hout hreads hin (fun hw => hfirst (hpending.symm.trans hw))
          (fun hw => hsome (hpending.symm.trans hw)) hmark hanswered hbox
    | idle flag hr hout hreads hin hflag hbox =>
        exact .idle flag (hrole.trans hr) hout hreads hin hflag hbox
    | sent hr hout hreads before after l hin hbefore hl hafter hbox =>
        exact .sent (hrole.trans hr) hout hreads before after l hin hbefore hl hafter hbox
    | serving hr hout hreads hin hbox =>
        exact .serving (hrole.trans hr) hout hreads hin hbox
    | answered hr hout hreads hin hbox =>
        exact .answered (hrole.trans hr) hout hreads hin hbox

/-- The opening line of a client is a Ping. -/
theorem Live.read_opening (h : Live cfg s) {l : Line} {rest : List Line}
    (hworker : s.worker = .handshake) (hin : s.inbox = l :: rest) :
    l.kind = .ping ∧
      Live cfg { s with inbox := rest, worker := cfg.onOpening (.line l.text) } := by
  have hkind : l.kind = .ping := by
    cases h.phase with
    | opening hrole hout hreads hall hfirst =>
        exact hfirst (by rw [hworker]; rfl) l (by rw [hin]; rfl)
    | idle flag hrole => rw [hworker] at hrole; cases hrole
    | sent hrole => rw [hworker] at hrole; cases hrole
    | serving hrole => rw [hworker] at hrole; cases hrole
    | answered hrole => rw [hworker] at hrole; cases hrole
  have htext := h.texts l (by simp [hin])
  rw [hkind] at htext
  rw [Config.onOpening_kind htext]
  refine ⟨hkind, ?_, ?_, h.pings, h.pongs, ?_⟩
  · intro m hm
    exact h.texts m (by simp [hin, hm])
  · rw [h.flow, hworker, hin, queries_cons (by simp [hkind]), hkind]
    simp [Worker.pendingKind]
  · cases h.phase with
    | opening hrole hout hreads hall hfirst hsome hmark hanswered hbox =>
        exact .opening rfl hout hreads (fun m hm => hall m (by simp [hin, hm]))
          (fun hnone => by cases hnone) (fun hnone => by cases hnone) hmark hanswered hbox
    | idle flag hrole => rw [hworker] at hrole; cases hrole
    | sent hrole => rw [hworker] at hrole; cases hrole
    | serving hrole => rw [hworker] at hrole; cases hrole
    | answered hrole => rw [hworker] at hrole; cases hrole

/-- An Abort that comes between commands is dropped. -/
theorem Live.read_abort (h : Live cfg s) {p : Bool} {l : Line} {rest : List Line}
    (hworker : s.worker = .lineLoop p) (hin : s.inbox = l :: rest)
    (hkind : l.kind = .abort) :
    Live cfg { s with inbox := rest, worker := cfg.onLine p (.line l.text) } := by
  have htext := h.texts l (by simp [hin])
  rw [hkind] at htext
  have hrest : ∀ m ∈ rest, m ∈ s.inbox := fun m hm => by simp [hin, hm]
  rw [Config.onLine_abort p (Config.kindOf_abort htext)]
  refine ⟨fun m hm => h.texts m (hrest m hm), ?_, h.pings, h.pongs, ?_⟩
  · rw [h.flow, hin, queries_cons_abort hkind, hworker]
  · cases h.phase with
    | opening hrole => rw [hworker] at hrole; cases hrole
    | idle flag hrole hout hreads hall hflag hbox =>
        rw [hworker] at hrole
        exact .idle flag hrole hout hreads (fun m hm => hall m (hrest m hm)) hflag hbox
    | sent hrole hout hreads before after r hsplit hbefore hr hafter hbox =>
        rw [hworker] at hrole
        rw [hin] at hsplit
        cases before with
        | nil =>
            simp only [List.nil_append, List.cons.injEq] at hsplit
            rw [← hsplit.1, hkind] at hr
            cases hr
        | cons b before =>
            simp only [List.cons_append, List.cons.injEq] at hsplit
            exact .sent hrole hout hreads before after r hsplit.2
              (fun m hm => hbefore m (by simp [hm])) hr hafter hbox
    | serving hrole => rw [hworker] at hrole; cases hrole
    | answered hrole hout hreads hall hbox =>
        rw [hworker] at hrole
        exact .answered hrole hout hreads (fun m hm => hall m (hrest m hm)) hbox

theorem Live.read_ping (h : Live cfg s) {p : Bool} {l : Line} {rest : List Line}
    (hworker : s.worker = .lineLoop p) (hin : s.inbox = l :: rest)
    (hkind : l.kind = .ping) :
    Live cfg { s with inbox := rest, worker := cfg.onLine p (.line l.text) } := by
  have htext := h.texts l (by simp [hin])
  rw [hkind] at htext
  have hrest : ∀ m ∈ rest, m ∈ s.inbox := fun m hm => by simp [hin, hm]
  rw [Config.onLine_ping_kind p htext]
  refine ⟨fun m hm => h.texts m (hrest m hm), ?_, h.pings, h.pongs, ?_⟩
  · rw [h.flow, hin, queries_cons (by simp [hkind]), hkind, hworker]
    simp [Worker.pendingKind]
  · cases h.phase with
    | opening hrole => rw [hworker] at hrole; cases hrole
    | idle flag hrole hout hreads hall hflag hbox =>
        exact .idle true rfl hout hreads (fun m hm => hall m (hrest m hm))
          (fun _ => rfl) hbox
    | sent hrole hout hreads before after r hsplit hbefore hr hafter hbox =>
        rw [hin] at hsplit
        cases before with
        | nil =>
            simp only [List.nil_append, List.cons.injEq] at hsplit
            rw [← hsplit.1, hkind] at hr
            cases hr
        | cons b before =>
            simp only [List.cons_append, List.cons.injEq] at hsplit
            exact .sent rfl hout hreads before after r hsplit.2
              (fun m hm => hbefore m (by simp [hm])) hr hafter hbox
    | serving hrole => rw [hworker] at hrole; cases hrole
    | answered hrole hout hreads hall hbox =>
        have := (hall l (by simp [hin])).1
        rw [hkind] at this
        cases this

theorem role_onRequest (trimmed : String) :
    (cfg.onRequest trimmed).role = .serving := by
  rcases cfg.onRequest_cases trimmed with ⟨resp, h⟩ | ⟨request, -, h⟩ <;> rw [h] <;> rfl

/-- A Request finds the worker ready to serve it. -/
theorem Live.read_request (h : Live cfg s) {p : Bool} {l : Line} {rest : List Line}
    (hworker : s.worker = .lineLoop p) (hin : s.inbox = l :: rest)
    (hkind : l.kind = .request) :
    Live cfg { s with
      inbox := rest, reads := s.reads + 1, worker := cfg.onLine p (.line l.text) } := by
  have htext := h.texts l (by simp [hin])
  rw [hkind] at htext
  have hrest : ∀ m ∈ rest, m ∈ s.inbox := fun m hm => by simp [hin, hm]
  cases h.phase with
  | opening hrole => rw [hworker] at hrole; cases hrole
  | idle flag hrole hout hreads hall => exact absurd hkind (hall l (by simp [hin]))
  | sent hrole hout hreads before after r hsplit hbefore hr hafter hbox =>
      rw [hworker] at hrole
      cases hrole
      rw [hin] at hsplit
      cases before with
      | nil =>
          simp only [List.nil_append, List.cons.injEq] at hsplit
          obtain ⟨rfl, rfl⟩ := hsplit
          rw [Config.onLine_request (Config.kindOf_request htext), if_pos rfl]
          have hserving := @role_onRequest cfg (trimEnd l.text)
          refine ⟨fun m hm => h.texts m (hrest m hm), ?_, h.pings, h.pongs, ?_⟩
          · have hnone : s.worker.pendingKind = [] := by
              rw [hworker]
              rfl
            rw [h.flow, hin, queries_cons (by simp [hkind]), hkind, hnone,
              Worker.pendingKind_of_serving hserving]
            simp
          · exact .serving hserving hout hreads hafter hbox
      | cons b before =>
          simp only [List.cons_append, List.cons.injEq] at hsplit
          exact absurd hkind (hsplit.1 ▸ hbefore b (by simp))
  | serving hrole => rw [hworker] at hrole; cases hrole
  | answered hrole hout hreads hall =>
      have := (hall l (by simp [hin])).1
      rw [hkind] at this
      cases this

/-- Only Aborts of the current command are there for the watcher to read. -/
theorem Live.inbox_serving (h : Live cfg s) (hrole : s.worker.role = .serving) :
    (∀ l ∈ s.inbox, l.kind = .abort ∧ l.tag = some s.client.requests) ∧
      s.reads = s.client.requests := by
  cases h.phase with
  | opening hrole' => rw [hrole] at hrole'; cases hrole'
  | idle flag hrole' => rw [hrole] at hrole'; cases hrole'
  | sent hrole' => rw [hrole] at hrole'; cases hrole'
  | serving hrole' hout hreads hin hbox => exact ⟨hin, hreads⟩
  | answered hrole' => rw [hrole] at hrole'; cases hrole'

/-- The watcher takes a line. -/
theorem Live.watch (h : Live cfg s) {l : Line} {rest : List Line} {w : Worker}
    (hrole : s.worker.role = .serving) (hrole' : w.role = .serving)
    (hin : s.inbox = l :: rest) (c : Option Cause) :
    Live cfg { s with inbox := rest, worker := w, cause := c } := by
  have hall := (h.inbox_serving hrole).1
  have hrest : ∀ m ∈ rest, m ∈ s.inbox := fun m hm => by simp [hin, hm]
  refine ⟨fun m hm => h.texts m (hrest m hm), ?_, h.pings, h.pongs, ?_⟩
  · rw [h.flow, hin, queries_cons_abort (hall l (by simp [hin])).1,
      Worker.pendingKind_of_serving hrole, Worker.pendingKind_of_serving hrole']
  · cases h.phase with
    | serving hr hout hreads hin' hbox =>
        exact .serving hrole' hout hreads (fun m hm => hin' m (hrest m hm)) hbox
    | opening hr => rw [hrole] at hr; cases hr
    | idle flag hr => rw [hrole] at hr; cases hr
    | sent hr => rw [hrole] at hr; cases hr
    | answered hr => rw [hrole] at hr; cases hr

theorem write_eq {m : Session} {r : Reply} {ok : Bool} (h : s.write r ok = some m) :
    (s.client.connected = true → ok = true) ∧
      m = { s with
        answered := s.answered ++ [r]
        outbox := if ok then s.outbox ++ [r] else s.outbox } := by
  unfold write at h
  split at h
  · cases h
  · rename_i hfail
    cases h
    refine ⟨?_, rfl⟩
    intro hconn
    by_contra hok
    exact hfail ⟨hconn, by simpa using hok⟩

/-- The Pong of the opening Ping. -/
theorem Live.write_opening (h : Live cfg s) {m : Session} {ok : Bool}
    (hworker : s.worker = .openingPong) (hm : s.write .pong ok = some m) :
    Orderly cfg { m with worker := if ok then .lineLoop false else .exited } := by
  obtain ⟨hconn, rfl⟩ := write_eq hm
  cases ok with
  | false =>
      have hgone : s.client.connected = false := by
        by_contra hc
        simpa using hconn (by simpa using hc)
      refine .inl ⟨rfl, hgone, ?_⟩
      rw [h.flow, hworker]
      simp [Worker.pendingKind, Reply.answers]
  | true =>
      refine .inr ⟨h.texts, ?_, h.pings, ?_, ?_⟩
      · rw [h.flow, hworker]
        simp [Worker.pendingKind, Reply.answers]
      · intro hc
        have hpongs := h.pongs hc
        simp only [ponged, List.map_append, List.count_append, if_true] at hpongs ⊢
        simp only [List.map_cons, List.map_nil, Reply.answers, List.count_singleton_self]
        omega
      · cases h.phase with
        | opening hrole hout hreads hin hfirst hsome hmark hanswered hbox =>
            refine .idle false rfl hout hreads hin ?_ ?_
            · intro hlt
              rw [hmark, hanswered] at hlt
              exact absurd hlt (Nat.lt_irrefl 1)
            · rw [hbox]
              intro r hr
              simpa using hr
        | idle flag hrole => rw [hworker] at hrole; cases hrole
        | sent hrole => rw [hworker] at hrole; cases hrole
        | serving hrole => rw [hworker] at hrole; cases hrole
        | answered hrole => rw [hworker] at hrole; cases hrole

/-- The Pong of a later Ping. -/
theorem Live.write_pong (h : Live cfg s) {m : Session} {ok : Bool}
    (hworker : s.worker = .pong) (hm : s.write .pong ok = some m) :
    Orderly cfg { m with worker := if ok then .lineLoop true else .exited } := by
  obtain ⟨hconn, rfl⟩ := write_eq hm
  have hbox' : (∀ r ∈ s.outbox, r = .pong) → ∀ r ∈ s.outbox ++ [.pong], r = .pong := by
    intro hall r hr
    rcases List.mem_append.mp hr with hr | hr
    · exact hall r hr
    · exact List.mem_singleton.mp hr
  cases ok with
  | false =>
      have hgone : s.client.connected = false := by
        by_contra hc
        simpa using hconn (by simpa using hc)
      refine .inl ⟨rfl, hgone, ?_⟩
      rw [h.flow, hworker]
      simp [Worker.pendingKind, Reply.answers]
  | true =>
      refine .inr ⟨h.texts, ?_, h.pings, ?_, ?_⟩
      · rw [h.flow, hworker]
        simp [Worker.pendingKind, Reply.answers]
      · intro hc
        have hpongs := h.pongs hc
        simp only [ponged, List.map_append, List.count_append, if_true] at hpongs ⊢
        simp only [List.map_cons, List.map_nil, Reply.answers, List.count_singleton_self]
        omega
      · cases h.phase with
        | opening hrole => rw [hworker] at hrole; cases hrole
        | idle flag hrole hout hreads hin hflag hbox =>
            exact .idle true rfl hout hreads hin (fun _ => rfl) (hbox' hbox)
        | sent hrole hout hreads before after r hsplit hbefore hr hafter hbox =>
            exact .sent rfl hout hreads before after r hsplit hbefore hr hafter
              (hbox' hbox)
        | serving hrole => rw [hworker] at hrole; cases hrole
        | answered hrole => rw [hworker] at hrole; cases hrole

/-- The Response of the Request being served. -/
theorem Live.write_response (h : Live cfg s) {m : Session} {w : Worker}
    {resp : Response} {ok : Bool} (hrole : s.worker.role = .serving)
    (hm : s.write (.response resp) ok = some m)
    (hw : w.role = .resting false ∨ (w = .exited ∧ ok = false)) :
    Orderly cfg { m with worker := w } := by
  obtain ⟨hconn, rfl⟩ := write_eq hm
  have hpending := Worker.pendingKind_of_serving hrole
  rcases hw with hw | ⟨rfl, rfl⟩
  · refine .inr ⟨h.texts, ?_, h.pings, ?_, ?_⟩
    · rw [h.flow, hpending, Worker.pendingKind_of_resting hw]
      simp [Reply.answers]
    · intro hc
      have hpongs := h.pongs hc
      have hok := hconn hc
      subst hok
      simpa [ponged, Reply.answers] using hpongs
    · cases h.phase with
      | serving hrole' hout hreads hin hbox =>
          refine .answered hw hout hreads hin fun hc => ?_
          have hok := hconn hc
          subst hok
          exact ⟨s.outbox, resp, rfl, hbox⟩
      | opening hr => rw [hrole] at hr; cases hr
      | idle flag hr => rw [hrole] at hr; cases hr
      | sent hr => rw [hrole] at hr; cases hr
      | answered hr => rw [hrole] at hr; cases hr
  · have hgone : s.client.connected = false := by
      by_contra hc
      simpa using hconn (by simpa using hc)
    refine .inl ⟨rfl, hgone, ?_⟩
    rw [h.flow, hpending]
    simp [Reply.answers]

/-- The worker ends when it reads the end of the stream. -/
theorem Live.read_eof (h : Live cfg s) (hgone : s.client.connected = false) :
    Orderly cfg { s with worker := .exited } :=
  .inl ⟨rfl, hgone, h.prefix_asked⟩

theorem effect_readLine {m : Session} {r : ReadLine}
    (h : s.effect (.readLine r) = some m) :
    (∃ l rest, r = .line l.text ∧ s.inbox = l :: rest ∧
      m = { s with
        inbox := rest
        reads := if l.kind = .request then s.reads + 1 else s.reads }) ∨
      (r = .eof ∧ s.client.connected = false ∧ m = s) := by
  cases r with
  | line text =>
      simp only [effect] at h
      split at h
      · cases h
      · rename_i l rest hin
        split at h
        · rename_i htext
          cases h
          exact .inl ⟨l, rest, by rw [htext], hin, rfl⟩
        · cases h
  | eof =>
      simp only [effect] at h
      split at h
      · rename_i hgone
        cases h
        exact .inr ⟨rfl, hgone.2, rfl⟩
      · cases h
  | timeout => cases h
  | error => cases h

theorem effect_watcherRead {m : Session} {r : ReadLine}
    (h : s.effect (.watcherRead r) = some m) :
    (∃ l rest, r = .line l.text ∧ s.inbox = l :: rest ∧
      m = { s with
        inbox := rest
        cause := if l.kind = .abort then some (.abort l.tag) else s.cause }) ∨
      (r = .eof ∧ s.client.connected = false ∧ m = { s with cause := some .eof }) ∨
      (r = .timeout ∧ m = s) := by
  cases r with
  | line text =>
      simp only [effect] at h
      split at h
      · cases h
      · rename_i l rest hin
        split at h
        · rename_i htext
          cases h
          exact .inl ⟨l, rest, by rw [htext], hin, rfl⟩
        · cases h
  | eof =>
      simp only [effect] at h
      split at h
      · rename_i hgone
        cases h
        exact .inr (.inl ⟨rfl, hgone.2, rfl⟩)
      · cases h
  | timeout =>
      cases h
      exact .inr (.inr ⟨rfl, rfl⟩)
  | error => cases h

/-- The worker reads. -/
theorem Live.read (h : Live cfg s) {m : Session} {w : Worker} {r : ReadLine}
    (hm : s.effect (.readLine r) = some m) (hw : s.worker.Step cfg (.readLine r) w) :
    Orderly cfg { m with worker := w } := by
  rcases effect_readLine hm with ⟨l, rest, rfl, hin, rfl⟩ | ⟨rfl, hgone, rfl⟩
  · rcases hw.read with ⟨hworker, rfl⟩ | ⟨p, hworker, rfl⟩
    · obtain ⟨hkind, hlive⟩ := h.read_opening hworker hin
      rw [hkind]
      exact .inr hlive
    · refine .inr ?_
      cases hkind : l.kind with
      | ping => exact h.read_ping hworker hin hkind
      | request => exact h.read_request hworker hin hkind
      | abort => exact h.read_abort hworker hin hkind
  · have hend : w = .exited := by
      rcases hw.read with ⟨-, rfl⟩ | ⟨p, -, rfl⟩ <;> rfl
    subst hend
    exact h.read_eof hgone

/-- A thread of the command acts. -/
theorem Live.background (h : Live cfg s) {m : Session} {e : Event}
    {cmd cmd' : Command} {stage : Stage} (hworker : s.worker = .running cmd stage)
    (hm : s.effect e = some m) (hcmd : cmd.Background cfg e cmd') :
    Live cfg { m with worker := .running cmd' stage } := by
  have hrole : s.worker.role = .serving := by
    rw [hworker]
    rfl
  have hsilent : ∀ c, Live cfg { s with worker := .running cmd' stage, cause := c } :=
    fun c => h.silent c (by rw [hworker]; rfl) (by rw [hworker]; rfl)
  cases hcmd with
  | watcherRead hwatcher =>
      rcases effect_watcherRead hm with
        ⟨l, rest, rfl, hin, rfl⟩ | ⟨rfl, hgone, rfl⟩ | ⟨rfl, rfl⟩
      · exact h.watch hrole rfl hin _
      · exact hsilent (some .eof)
      · exact hsilent _
  | _ =>
      cases hm
      exact hsilent s.cause

/-- Every step of the host keeps the order. -/
theorem Live.host (h : Live cfg s) {m : Session} {e : Event} {w : Worker}
    (hm : s.effect e = some m) (hw : s.worker.Step cfg e w) :
    Orderly cfg { m with worker := w } := by
  generalize hworker : s.worker = w₀ at hw
  have hread : ∀ r, e = .readLine r → Orderly cfg { m with worker := w } := by
    rintro r rfl
    exact h.read hm (hworker ▸ hw)
  cases hw with
  | cloned =>
      cases hm
      exact .inr (h.silent s.cause (by rw [hworker]; rfl) (by rw [hworker]; rfl))
  | notCloned => cases hm
  | opening => exact hread _ rfl
  | opened => exact h.write_opening hworker hm
  | notOpened => exact h.write_opening hworker hm
  | line => exact hread _ rfl
  | ponged => exact h.write_pong hworker hm
  | notPonged => exact h.write_pong hworker hm
  | rejected => exact h.write_response (by rw [hworker]; rfl) hm (.inl rfl)
  | notRejected => exact h.write_response (by rw [hworker]; rfl) hm (.inr ⟨rfl, rfl⟩)
  | fetchAdd =>
      cases hm
      exact .inr (h.silent s.cause (by rw [hworker]; rfl) (by rw [hworker]; rfl))
  | spawned =>
      cases hm
      exact .inr (h.silent none (by rw [hworker]; rfl) (by rw [hworker]; rfl))
  | spawnFailed =>
      cases hm
      exact .inr (h.silent none (by rw [hworker]; rfl) (by rw [hworker]; rfl))
  | failureReported => exact h.write_response (by rw [hworker]; rfl) hm (.inl rfl)
  | abandoned => exact h.write_response (by rw [hworker]; rfl) hm (.inr ⟨rfl, rfl⟩)
  | foreground hcmd =>
      cases hcmd with
      | respond => exact h.write_response (by rw [hworker]; rfl) hm (.inl rfl)
      | _ =>
          cases hm
          have hrole : s.worker.role = .serving := by
            rw [hworker]
            rfl
          exact .inr (h.silent s.cause hrole.symm
            (Worker.pendingKind_of_serving hrole).symm)
  | background hcmd => exact .inr (h.background hworker hm hcmd)
  | submit =>
      cases hm
      exact .inr (h.silent s.cause (by rw [hworker]; rfl) (by rw [hworker]; rfl))
  | subscribe | recv | detach | sent | notSent =>
      exfalso
      cases h.phase with
      | opening hrole => rw [hworker] at hrole; cases hrole
      | idle flag hrole => rw [hworker] at hrole; cases hrole
      | sent hrole => rw [hworker] at hrole; cases hrole
      | serving hrole => rw [hworker] at hrole; cases hrole
      | answered hrole => rw [hworker] at hrole; cases hrole

theorem Live.send (h : Live cfg s) {text : String} {kind : Kind} {client : Client}
    (hkind : cfg.kindOf text = some kind) (hsend : s.client.send kind = some client) :
    Live cfg { s with
      client
      inbox := s.inbox ++ [⟨kind, text, client.current⟩]
      asked := if kind = .abort then s.asked else s.asked ++ [kind] } := by
  cases kind with
  | ping =>
      simp only [Client.send] at hsend
      split at hsend
      · rename_i hguard
        cases hsend
        exact h.send_ping hkind hguard.2
      · cases hsend
  | request =>
      simp only [Client.send] at hsend
      split at hsend
      · rename_i hguard
        cases hsend
        exact h.send_request hkind hguard.1 hguard.2.1 hguard.2.2
      · cases hsend
  | abort =>
      simp only [Client.send] at hsend
      split at hsend
      · rename_i hguard
        cases hsend
        exact h.send_abort hkind hguard.2
      · cases hsend

/-- The invariant of a session. -/
theorem Orderly.step (h : Orderly cfg s) {l : Label} {s' : Session}
    (hstep : s.step cfg l = some s') :
    Orderly cfg s' := by
  rcases h with h | h
  · -- nothing happens after the end
    exfalso
    cases step_cases hstep with
    | @send _ kind _ _ hsend => cases kind <;> simp [Client.send, h.client] at hsend
    | disconnect hconn =>
        rw [h.client] at hconn
        cases hconn
    | receive hconn =>
        rw [h.client] at hconn
        cases hconn
    | host _ hw =>
        rw [h.worker] at hw
        cases hw
  · cases step_cases hstep with
    | send hkind hsend => exact .inr (h.send hkind hsend)
    | disconnect => exact .inr h.disconnect
    | receive hconn hbox => exact .inr (h.receive hconn hbox)
    | host hm hw => exact h.host hm hw

end Host

end Session
end Rexec
