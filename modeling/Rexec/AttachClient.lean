import Rexec.Link
import Rexec.AttachFeed
import Rexec.Rendering
import Mathlib.Tactic

/-!
# A client that attaches

`client::attach` connects, sends its Attach after the Pong of the handshake and
renders every event it reads until the host closes the connection.

* `Attached.step` is the client beside the host, over their `Link`.
* `Attached.Step` lists what a step can do.
-/

namespace Rexec

open Machine TranscriptQueue

/-- How `client::attach` ends. -/
inductive AttachExit where
  | hostNotFound
  /-- its Attach could not be written -/
  | notAttached
  | invalidResponse
  | readFailed
  /-- the host closed the connection -/
  | ended
  /-- a signal killed it -/
  | killed
deriving DecidableEq

/-- The exit code of a client that returns. -/
def AttachExit.code : AttachExit → Option Int32
  | .hostNotFound => some 127
  | .notAttached => some 127
  | .invalidResponse => some 127
  | .readFailed => some 127
  | .ended => some 0
  | .killed => none

/-- What it prints on its standard error. -/
def AttachExit.report (err : String) : AttachExit → Option String
  | .hostNotFound => some "HOST NOT FOUND"
  | .notAttached => some "rexec: failed to attach to host"
  | .invalidResponse => some ("rexec: invalid attach response: " ++ err)
  | .readFailed => some ("rexec: error reading attached host: " ++ err)
  | .ended => none
  | .killed => none

/-- Where the client stands. -/
inductive AttachPoint where
  /-- in `exchange_ping`, its Ping is written -/
  | greeting
  | attaching
  /-- at the top of its loop -/
  | following
  | returned (exit : AttachExit)
deriving DecidableEq

def AttachPoint.isReturned : AttachPoint → Bool
  | .returned _ => true
  | _ => false

/-- How the host finds the client. -/
def AttachPoint.peer : AttachPoint → Peer
  | .returned .invalidResponse => .left
  | .returned .readFailed => .left
  | .returned .ended => .left
  | .returned _ => .lost
  | _ => .present

structure Attached extends Link where
  point : AttachPoint
  stdout : List UInt8

namespace Attached

variable (J : JsonText) (cfg : Config) (c : Nat) (ansi : Bool)

def init : Attached :=
  { Link.init with point := .greeting, stdout := [] }

def attachLine : String :=
  J.line (ClientAction.attach ansi).toJson

inductive Label where
  | net (l : Link.Label)
  | refused
  | greet (r : ReadLine)
  | attach (ok : Bool)
  | follow (r : ReadLine)
  | die

def step (s : Attached) : Label → Option Attached
  | .net l => (s.toLink.step J cfg c s.point.peer l).map fun k => { s with toLink := k }
  | .refused =>
      if s.point = .greeting then some { s with point := .returned .hostNotFound } else none
  | .greet r =>
      if s.point = .greeting then
        (s.toLink.takes c true r).map fun n =>
          { s with
            read := s.read + n
            point :=
              match r with
              | .line text =>
                  match J.decode ControlResponse.ofJson (trimEnd text) with
                  | some .pong => .attaching
                  | none => .returned .hostNotFound
              | _ => .returned .hostNotFound }
      else none
  | .attach ok =>
      if s.point = .attaching then
        if ok then some { s with asked := s.asked ++ [attachLine J ansi], point := .following }
        else some { s with point := .returned .notAttached }
      else none
  | .follow r =>
      if s.point = .following then
        (s.toLink.takes c false r).map fun n =>
          match r with
          | .line text =>
              match J.decode HostEvent.ofJson (trimEnd text) with
              | some (.transcript entry) =>
                  { s with
                    read := s.read + n
                    stdout := s.stdout ++ Client.renderEntryTo entry ansi }
              | none => { s with read := s.read + n, point := .returned .invalidResponse }
          | .eof => { s with point := .returned .ended }
          | _ => { s with read := s.read + n, point := .returned .readFailed }
      else none
  | .die => if s.point.isReturned then none else some { s with point := .returned .killed }

/-- The steps of the host in a run. -/
def hosts (es : List Label) : List Rexec.Label :=
  es.filterMap fun
    | .net (.host l _) => some l
    | _ => none

/-! ## What a step can do -/

/-- One step of the two. -/
inductive Step (s : Attached) : Label → Attached → Prop where
  | net {l : Link.Label} {k : Link} (h : s.toLink.Step J cfg c s.point.peer l k) :
      Step s (.net l) { s with toLink := k }
  | leave {l : Label} {exit : AttachExit} {n : Nat} (hl : hosts [l] = [])
      (hpoint : s.point.isReturned = false) (hexit : exit ≠ .ended)
      (hinvalid : exit ≠ .invalidResponse) :
      Step s l { s with read := s.read + n, point := .returned exit }
  | greeted {text : String} {n : Nat} (hpoint : s.point = .greeting)
      (htakes : s.toLink.Takes c true (.line text) n)
      (hpong : J.decode ControlResponse.ofJson (trimEnd text) = some .pong) :
      Step s (.greet (.line text)) { s with read := s.read + n, point := .attaching }
  | attach (hpoint : s.point = .attaching) :
      Step s (.attach true) { s with asked := s.asked ++ [attachLine J ansi], point := .following }
  | event {text : String} {n : Nat} {entry : TranscriptEntry} (hpoint : s.point = .following)
      (htakes : s.toLink.Takes c false (.line text) n)
      (hevent : J.decode HostEvent.ofJson (trimEnd text) = some (.transcript entry)) :
      Step s (.follow (.line text))
        { s with read := s.read + n, stdout := s.stdout ++ Client.renderEntryTo entry ansi }
  | invalid {text : String} {n : Nat} (hpoint : s.point = .following)
      (htakes : s.toLink.Takes c false (.line text) n)
      (hevent : J.decode HostEvent.ofJson (trimEnd text) = none) :
      Step s (.follow (.line text))
        { s with read := s.read + n, point := .returned .invalidResponse }
  | ended {n : Nat} (hpoint : s.point = .following) (htakes : s.toLink.Takes c false .eof n) :
      Step s (.follow .eof) { s with point := .returned .ended }

theorem step_cases {s t : Attached} {l : Label} (h : s.step J cfg c ansi l = some t) :
    s.Step J cfg c ansi l t := by
  have hnot : ∀ {p}, s.point = p → p.isReturned = false → s.point.isReturned = false :=
    fun hp hr => hp ▸ hr
  cases l with
  | net l =>
      simp only [step] at h
      obtain ⟨k, hk, rfl⟩ := Option.map_eq_some_iff.mp h
      exact .net (Link.step_cases hk)
  | refused =>
      simp only [step] at h
      split at h
      · rename_i hp
        cases h
        exact .leave (n := 0) rfl (hnot hp rfl) AttachExit.noConfusion AttachExit.noConfusion
      · cases h
  | greet r =>
      simp only [step] at h
      split at h
      · rename_i hp
        obtain ⟨n, htakes, rfl⟩ := Option.map_eq_some_iff.mp h
        have hleave : s.Step J cfg c ansi (.greet r)
            { s with read := s.read + n, point := .returned .hostNotFound } :=
          .leave rfl (hnot hp rfl) AttachExit.noConfusion AttachExit.noConfusion
        cases r with
        | line text =>
            simp only
            split
            · rename_i hpong
              exact .greeted hp (Link.takes_cases htakes) hpong
            · exact hleave
        | eof => exact hleave
        | timeout => exact hleave
        | error => exact hleave
      · cases h
  | attach ok =>
      simp only [step] at h
      split at h
      · rename_i hp
        cases ok with
        | true =>
            cases h
            exact .attach hp
        | false =>
            cases h
            exact .leave (n := 0) rfl (hnot hp rfl) AttachExit.noConfusion AttachExit.noConfusion
      · cases h
  | follow r =>
      simp only [step] at h
      split at h
      · rename_i hp
        obtain ⟨n, htakes, rfl⟩ := Option.map_eq_some_iff.mp h
        cases r with
        | line text =>
            simp only
            split
            · rename_i entry hevent
              exact .event hp (Link.takes_cases htakes) hevent
            · rename_i hevent
              exact .invalid hp (Link.takes_cases htakes) hevent
        | eof => exact .ended hp (Link.takes_cases htakes)
        | timeout => cases htakes
        | error =>
            exact .leave rfl (hnot hp rfl) AttachExit.noConfusion AttachExit.noConfusion
      · cases h
  | die =>
      simp only [step] at h
      split at h
      · cases h
      · rename_i hp
        cases h
        exact .leave (n := 0) rfl (by simpa using hp) AttachExit.noConfusion AttachExit.noConfusion

end Attached

end Rexec
