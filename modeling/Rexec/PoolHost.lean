import Rexec.Host
import Rexec.CommandOnce
import Rexec.RunClientLaw
import Mathlib.Tactic

/-!
# The pool and the host together

`Pool` takes the replies of the host as given.  Here each connection of the pool
ends at a worker of the host, `handle_connection`: it reads the lines that were
written on the connection, one after the other, and what it writes is what the
pool can read.  When it exits it closes the connection.

* `PoolHost.step` is the machine.  A label is a step of the server, an event of
  the worker of one connection, or the end of a worker whose host is killed.
* `HostEnd.take` is what an event of the worker takes from the connection,
  `HostEnd.give` what it puts on it.
* `Config.onLine_part` says what the worker makes of a part of a line.

Of a line whose write failed the host gets a part at most.  Its worker may read
it once the server has dropped the connection; nobody reads what it replies.
-/

namespace Rexec

open Machine

/-- A line as the server writes it. -/
def SentLine.text (J : JsonText) : SentLine → String
  | .ping => pingLine
  | .request _ r => J.line r.toJson

/-- The line that a failing write leaves a part of. -/
def Thread.cutLine (o : Owner) : Thread → Thread.Io → Option SentLine
  | .attempt _ (.writing _), .hello (.failed true) => some .ping
  | .got _ _, .ping (.failed true) => some .ping
  | .ready _ _, .ping (.failed true) => some .ping
  | .ready t _, .send (.failed true) =>
      match o, t.ops with
      | .caller n, .execute request :: _ => some (.request n request)
      | _, _ => none
  | _, _ => none

/-- A call of `pty_exec::spawn`, with the line the worker had read last. -/
structure SpawnCall where
  line : Option SentLine
  request : Request
  result : Except SpawnError Nat

/-- The host's end of a connection. -/
structure HostEnd where
  worker : Worker
  /-- the number of lines the worker has read -/
  taken : Nat
  /-- the line it has read last -/
  current : Option SentLine
  /-- the line of which only a part was written -/
  part : Option SentLine
  /-- its calls of `spawn`, those that failed included -/
  attempts : List SpawnCall

namespace HostEnd

def new : HostEnd :=
  { worker := .start, taken := 0, current := none, part := none, attempts := [] }

/-- The lines of a connection, the one that was cut included. -/
def lines (k : HostEnd) (h : HostConnection) : List SentLine :=
  h.sent ++ k.part.toList

/-- The text of the next line, `m`; the part of a line is read when the server has gone. -/
def Reads (J : JsonText) (h : HostConnection) (held : Bool) (k : HostEnd) (m : SentLine)
    (text : String) : Prop :=
  if k.taken < h.sent.length then text = m.text J
  else held = false ∧ text ≠ "" ∧ text ≠ m.text J ∧ text.toList <+: (m.text J).toList

instance (J : JsonText) (h : HostConnection) (held : Bool) (k : HostEnd) (m : SentLine)
    (text : String) : Decidable (k.Reads J h held m text) := by
  unfold Reads
  infer_instance

/-- What a read of the worker takes. -/
def read (J : JsonText) (h : HostConnection) (held : Bool) (k : HostEnd) :
    ReadLine → Option HostEnd
  | .line text =>
      match (k.lines h)[k.taken]? with
      | some m =>
          if k.Reads J h held m text then
            some { k with taken := k.taken + 1, current := some m }
          else none
      | none => none
  | .eof => if held = false ∧ (k.lines h).length ≤ k.taken then some k else none
  | .timeout => some k
  | .error => some k

/-- What an event of the worker takes, and its calls of `spawn`. -/
def take (J : JsonText) (h : HostConnection) (held : Bool) (k : HostEnd) (e : Event) :
    Option HostEnd :=
  match e.readResult with
  | some r => k.read J h held r
  | none =>
      match e with
      | .spawn request result =>
          some { k with attempts := k.attempts ++ [⟨k.current, request, result⟩] }
      | _ => some k

/-- What an event of the worker gives back; of a cut connection nobody reads it. -/
def give (h : HostConnection) (k : HostEnd) : Event → HostConnection
  | .writePong true => if k.part.isNone then h.reply .pong else h
  | .writeResponse _ response true => if k.part.isNone then h.reply (.response response) else h
  | _ => h

end HostEnd

/-- The worker has returned, and its socket is closed. -/
def Worker.closes (w : Worker) (h : HostConnection) : HostConnection :=
  match w with
  | .exited => h.close
  | _ => h

/-- Some thread has the connection, or it is idle. -/
def Pool.holds (p : Pool) (c : Nat) : Bool :=
  p.idle.contains c || (p.threads .worker).conn == some c ||
    (List.range p.calls).any fun n => (p.threads (.caller n)).conn == some c

/-- The replies of the host and its disconnections. -/
def Pool.Label.ofHost : Pool.Label → Bool
  | .reply _ _ => true
  | .close _ => true
  | _ => false

structure PoolHost where
  pool : Pool
  ends : Nat → HostEnd

namespace PoolHost

def init : PoolHost :=
  { pool := .init, ends := fun _ => .new }

inductive Label where
  | server (l : Pool.Label)
  | host (c : Nat) (e : Event)
  | kill (c : Nat)

/-- A write that fails in the middle of a line leaves its part on the connection. -/
def mark (s : PoolHost) : Pool.Label → Nat → HostEnd
  | .io o x =>
      match (s.pool.threads o).conn, (s.pool.threads o).cutLine o x with
      | some c, some m => Function.update s.ends c { s.ends c with part := some m }
      | _, _ => s.ends
  | _ => s.ends

/-- Something happens at the host's end of a connection. -/
def serve (s : PoolHost) (c : Nat) (h : HostConnection) (k : HostEnd) : PoolHost :=
  { pool := s.pool.setConn c (k.worker.closes h), ends := Function.update s.ends c k }

def step (J : JsonText) (cfg : Config) (s : PoolHost) : Label → Option PoolHost
  | .server l =>
      if l.ofHost then none
      else (s.pool.step l).map fun p => { pool := p, ends := s.mark l }
  | .host c e =>
      if c < s.pool.opened then
        match (s.ends c).worker.step cfg e,
          (s.ends c).take J (s.pool.conns c) (s.pool.holds c) e with
        | some w, some k =>
            some (s.serve c (k.give (s.pool.conns c) e) { k with worker := w })
        | _, _ => none
      else none
  | .kill c =>
      if c < s.pool.opened then
        some (s.serve c (s.pool.conns c) { s.ends c with worker := .exited })
      else none

/-- The steps of the server in a run. -/
def servers (es : List Label) : List Pool.Label :=
  es.filterMap fun
    | .server l => some l
    | _ => none

end PoolHost

/-! ## What a step can do -/

namespace PoolHost

inductive Step (J : JsonText) (cfg : Config) (s : PoolHost) : Label → PoolHost → Prop where
  | server {l : Pool.Label} {p : Pool} (hl : l.ofHost = false) (hp : s.pool.step l = some p) :
      Step J cfg s (.server l) { pool := p, ends := s.mark l }
  | host {c : Nat} {e : Event} {w : Worker} {k : HostEnd} (hc : c < s.pool.opened)
      (hw : (s.ends c).worker.Step cfg e w)
      (hk : (s.ends c).take J (s.pool.conns c) (s.pool.holds c) e = some k) :
      Step J cfg s (.host c e)
        (s.serve c (k.give (s.pool.conns c) e) { k with worker := w })
  | kill {c : Nat} (hc : c < s.pool.opened) :
      Step J cfg s (.kill c)
        (s.serve c (s.pool.conns c) { s.ends c with worker := .exited })

theorem step_cases {J : JsonText} {cfg : Config} {s t : PoolHost} {l : Label}
    (h : s.step J cfg l = some t) : s.Step J cfg l t := by
  cases l with
  | server l =>
      simp only [step] at h
      split at h
      · cases h
      · rename_i hl
        obtain ⟨p, hp, rfl⟩ := Option.map_eq_some_iff.mp h
        exact .server (by simpa using hl) hp
  | host c e =>
      simp only [step] at h
      split at h
      · rename_i hc
        split at h
        · rename_i w k hw hk
          cases h
          exact .host hc (Worker.step_cases hw) hk
        · cases h
      · cases h
  | kill c =>
      simp only [step] at h
      split at h
      · rename_i hc
        cases h
        exact .kill hc
      · cases h

end PoolHost

/-- What a read or a spawn does to the host's end. -/
inductive HostEnd.Takes (J : JsonText) (h : HostConnection) (k : HostEnd) :
    Event → HostEnd → Prop where
  | line {e : Event} {m : SentLine} {text : String} (he : e.readResult = some (.line text))
      (hm : (k.lines h)[k.taken]? = some m)
      (htext : if k.taken < h.sent.length then text = m.text J
        else text ≠ m.text J ∧ text.toList <+: (m.text J).toList) :
      Takes J h k e { k with taken := k.taken + 1, current := some m }
  | nothing {e : Event} (he : e.readResult = some .eof ∨ e.readResult = some .timeout ∨
      e.readResult = some .error) : Takes J h k e k
  | spawn {request : Request} {result : Except SpawnError Nat} :
      Takes J h k (.spawn request result)
        { k with attempts := k.attempts ++ [⟨k.current, request, result⟩] }
  | other {e : Event} (he : e.readResult = none) (hspawn : spawns [e] = []) : Takes J h k e k

theorem HostEnd.take_cases {J : JsonText} {h : HostConnection} {held : Bool} {k k' : HostEnd}
    {e : Event} (htake : k.take J h held e = some k') : k.Takes J h e k' := by
  unfold HostEnd.take at htake
  split at htake
  · rename_i r hr
    cases r with
    | line text =>
        simp only [HostEnd.read] at htake
        split at htake
        · rename_i m hm
          split at htake
          · rename_i hreads
            cases htake
            refine .line hr hm ?_
            unfold HostEnd.Reads at hreads
            split at hreads
            · rename_i hlt
              rw [if_pos hlt]
              exact hreads
            · rename_i hlt
              rw [if_neg hlt]
              exact hreads.2.2
          · cases htake
        · cases htake
    | eof =>
        simp only [HostEnd.read] at htake
        split at htake
        · cases htake
          exact .nothing (.inl hr)
        · cases htake
    | timeout =>
        cases htake
        exact .nothing (.inr (.inl hr))
    | error =>
        cases htake
        exact .nothing (.inr (.inr hr))
  · rename_i hr
    split at htake
    · cases htake
      exact .spawn
    · rename_i hne
      cases htake
      refine .other hr ?_
      cases e <;> first
        | rfl
        | exact absurd rfl (hne _ _)

/-! ## What the worker makes of the lines -/

theorem bytes_isPrefix {s t : String} (h : t.toList <+: s.toList) : bytes t <+: bytes s := by
  obtain ⟨rest, hrest⟩ := h
  have hs : s = t ++ String.ofList rest := String.toList_inj.mp (by simp [hrest])
  rw [hs, bytes_append]
  exact List.prefix_append _ _

section Lines

variable {J : JsonText} (hJ : J.Strict) (hping : J.line ClientAction.ping.toJson = pingLine)
  {message : String → String} {silent : Bool}

section

include hJ

theorem Config.onLine_sentRequest (p : Bool) (n : Nat) (r : Request) :
    (Config.ofJson J message silent).onLine p (.line ((SentLine.request n r).text J)) =
      if p then (if r.exec.isEmpty then .reject emptyExecResponse else .accepted r)
      else .exited := by
  have hline : (Config.ofJson J message silent).IsRequestLine (J.line r.toJson) :=
    ⟨Message.line_not_blank hJ.toLawful (.request r), (Config.ofJson_request hJ.toLawful r).1⟩
  rw [SentLine.text, Config.onLine_request hline, Config.onRequest,
    (Config.ofJson_request hJ.toLawful r).2]

/-- A part of a line is not taken for any other request. -/
theorem Config.onLine_part {m : SentLine} {text : String} (hne : text ≠ m.text J)
    (hpart : text.toList <+: (m.text J).toList) {p : Bool} {r : Request}
    (h : (Config.ofJson J message silent).onLine p (.line text) = .accepted r) :
    ∃ n, m = .request n r := by
  rw [← lineResult_bytes text] at h
  cases m with
  | ping =>
      have hcalm : Calm (bytes text) :=
        calm_pingLine.of_subset (bytes_isPrefix hpart).subset
      exact absurd h (Config.calm_not_accepted hJ hcalm)
  | request n r' =>
      have hfront : text.toList <+: (J.toString r'.toJson).toList := by
        rw [SentLine.text, JsonText.line, String.toList_append] at hpart
        rcases List.prefix_concat_iff.mp hpart with hall | hfront
        · refine absurd ?_ hne
          rw [← String.toList_inj, hall, SentLine.text, JsonText.line, String.toList_append]
          rfl
        · exact hfront
      by_cases hempty : text = ""
      · subst hempty
        have hcalm : Calm (bytes "") := fun b hb => by cases hb
        exact absurd h (Config.calm_not_accepted hJ hcalm)
      · have hbytes : bytes text ≠ [] := fun hnil => hempty (bytes_inj.mp hnil)
        have hnone : ∀ q ∈ ([] : List (List UInt8)), q <+: bytes abortLine := by simp
        rw [← List.append_nil (bytes text)] at h
        obtain ⟨rfl, -⟩ := Config.cut_request hJ (bytes_isPrefix hfront) hbytes hnone
          (List.prefix_refl []) h
        exact ⟨n, rfl⟩

end

include hJ hping

theorem Config.onLine_sentPing (p : Bool) :
    (Config.ofJson J message silent).onLine p (.line (SentLine.ping.text J)) = .pong := by
  rw [SentLine.text, ← hping]
  exact Config.onLine_ping hJ.toLawful p

theorem Config.onOpening_sentLine (m : SentLine) :
    (Config.ofJson J message silent).onOpening (.line (m.text J)) =
      if m = .ping then .openingPong else .exited := by
  cases m with
  | ping =>
      rw [SentLine.text, ← hping]
      exact Config.onOpening_ping hJ.toLawful
  | request n r =>
      simp [SentLine.text, Config.onOpening, (Config.ofJson_request hJ.toLawful r).1]

end Lines

end Rexec
