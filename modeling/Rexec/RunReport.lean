import Rexec.Link
import Rexec.Outcome
import Mathlib.Tactic

/-!
# `client::run` beside the host

The client of `run` over its `Link`, one step for each line it writes or reads:
it pings twice, writes its request, and prints what it is told.  A read or a write
of it may fail, the timeouts may stay on its socket, and a signal may kill it at
any point.  `RunClient` has the statements in between.

`Ran.step` is the client beside the host, and `Ran.Step` lists what a step can do.
-/

namespace Rexec

/-- How `client::run` ends. -/
inductive RunExit where
  | hostNotFound
  /-- the directory or the standard input is not text, or cannot be read -/
  | notPrepared (message : String)
  | requestFailed (err : String)
  | answered (response : Response)
  /-- a signal killed it -/
  | killed
deriving DecidableEq

/-- What `run` does with the result of its request. -/
def RunExit.ofResult : Except String Response → RunExit
  | .ok response => .answered response
  | .error err => .requestFailed err

/-- What it prints, and its exit code. -/
def RunExit.output (argv : List String) : RunExit → Option RunOutput
  | .hostNotFound => some { stdout := "", stderr := "HOST NOT FOUND\n", exit := 127 }
  | .notPrepared message => some { stdout := "", stderr := message ++ "\n", exit := 127 }
  | .requestFailed err => some (runOutput argv (.error err))
  | .answered response => some (runOutput argv (.ok response))
  | .killed => none

/-- Where the client stands. -/
inductive RunPoint where
  /-- its opening Ping is written -/
  | greeting
  /-- `--dir`, the environment and the standard input -/
  | preparing
  | pinging
  /-- the Ping of the command is written -/
  | awaiting
  | requesting
  /-- the request is written -/
  | receiving
  /-- the request was answered or has failed, and the guard is still armed -/
  | disarming (result : Except String Response)
  | returned (exit : RunExit)
deriving DecidableEq

namespace RunPoint

def isReturned : RunPoint → Bool
  | .returned _ => true
  | _ => false

/-- How the host finds the client. -/
def peer : RunPoint → Peer
  | .disarming (.error _) => .lost
  | .returned (.answered _) => .left
  | .returned (.notPrepared _) => .left
  | .returned _ => .lost
  | _ => .present

/-- How many lines it has written. -/
def written : RunPoint → Nat
  | .awaiting => 2
  | .requesting => 2
  | .receiving => 3
  | .disarming (.ok _) => 3
  | .returned (.answered _) => 3
  | _ => 1

end RunPoint

structure Ran extends Link where
  point : RunPoint

namespace Ran

variable (J : JsonText) (cfg : Config) (c : Nat) (request : Request)

def init : Ran :=
  { Link.init with point := .greeting }

def requestLine : String :=
  J.line request.toJson

/-- All the lines the client writes. -/
def script : List String :=
  [pingLine, pingLine, requestLine J request]

inductive Label where
  | net (l : Link.Label)
  | refused
  | greet (r : ReadLine) (cleared : Bool)
  | prepare (failed : Option String)
  | ping (failed : Option String)
  | pong (r : ReadLine) (cleared : Bool) (err : String)
  | send (failed : Option String)
  | receive (r : ReadLine) (err : String)
  | disarm
  | die

/-- The handshake; `cleared` if the timeouts could be taken off the socket afterwards. -/
def afterGreeting (r : ReadLine) (cleared : Bool) : RunPoint :=
  match r with
  | .line text =>
      match J.decode ControlResponse.ofJson (trimEnd text) with
      | some .pong => if cleared then .preparing else .returned .hostNotFound
      | none => .returned .hostNotFound
  | _ => .returned .hostNotFound

def afterPong (r : ReadLine) (cleared : Bool) (err : String) : RunPoint :=
  match r with
  | .line text =>
      match J.decode ControlResponse.ofJson (trimEnd text) with
      | some .pong => if cleared then .requesting else .disarming (.error err)
      | none => .disarming (.error ("invalid host pong: " ++ err))
  | .eof => .disarming (.error "host disconnected before pong")
  | _ => .disarming (.error err)

/-- `read_response`; at the end of the stream it parses the empty text. -/
def afterResponse (r : ReadLine) (err : String) : RunPoint :=
  match r with
  | .line text =>
      match J.decode Response.ofJson (trimEnd text) with
      | some response => .disarming (.ok response)
      | none => .disarming (.error ("parse response: " ++ err))
  | .eof => .disarming (.error ("parse response: " ++ err))
  | _ => .disarming (.error err)

def step (s : Ran) : Label → Option Ran
  | .net l => (s.toLink.step J cfg c s.point.peer l).map fun k => { s with toLink := k }
  | .refused =>
      if s.point = .greeting then some { s with point := .returned .hostNotFound } else none
  | .greet r cleared =>
      if s.point = .greeting then
        (s.toLink.takes c true r).map fun n =>
          { s with read := s.read + n, point := afterGreeting J r cleared }
      else none
  | .prepare failed =>
      if s.point = .preparing then
        match failed with
        | some message => some { s with point := .returned (.notPrepared message) }
        | none => some { s with point := .pinging }
      else none
  | .ping failed =>
      if s.point = .pinging then
        match failed with
        | some err => some { s with point := .disarming (.error err) }
        | none => some { s with asked := s.asked ++ [pingLine], point := .awaiting }
      else none
  | .pong r cleared err =>
      if s.point = .awaiting then
        (s.toLink.takes c true r).map fun n =>
          { s with read := s.read + n, point := afterPong J r cleared err }
      else none
  | .send failed =>
      if s.point = .requesting then
        match failed with
        | some err => some { s with point := .disarming (.error err) }
        | none =>
            some { s with asked := s.asked ++ [requestLine J request], point := .receiving }
      else none
  | .receive r err =>
      if s.point = .receiving then
        (s.toLink.takes c false r).map fun n =>
          { s with read := s.read + n, point := afterResponse J r err }
      else none
  | .disarm =>
      match s.point with
      | .disarming result => some { s with point := .returned (.ofResult result) }
      | _ => none
  | .die => if s.point.isReturned then none else some { s with point := .returned .killed }

/-- The steps of the host in a run. -/
def hosts (es : List Label) : List Rexec.Label :=
  es.filterMap fun
    | .net (.host l _) => some l
    | _ => none

/-! ## What a step can do -/

/-- One step of the two. -/
inductive Step (s : Ran) : Label → Ran → Prop where
  | net {l : Link.Label} {k : Link} (h : s.toLink.Step J cfg c s.point.peer l k) :
      Step s (.net l) { s with toLink := k }
  /-- the client gives up, and the host may hear anything of it -/
  | leave {l : Label} {p : RunPoint} {n : Nat} (hl : hosts [l] = []) (hlost : p.peer = .lost) :
      Step s l { s with read := s.read + n, point := p }
  | unprepared {message : String} (hpoint : s.point = .preparing) :
      Step s (.prepare (some message)) { s with point := .returned (.notPrepared message) }
  | prepared (hpoint : s.point = .preparing) : Step s (.prepare none) { s with point := .pinging }
  | ponged {l : Label} {text : String} {n : Nat} {p : RunPoint} (hl : hosts [l] = [])
      (hmove : s.point = .greeting ∧ p = .preparing ∨ s.point = .awaiting ∧ p = .requesting)
      (htakes : s.toLink.Takes c true (.line text) n)
      (hpong : J.decode ControlResponse.ofJson (trimEnd text) = some .pong) :
      Step s l { s with read := s.read + n, point := p }
  | ask {l : Label} {line : String} {p : RunPoint} (hl : hosts [l] = [])
      (hmove : s.point = .pinging ∧ line = pingLine ∧ p = .awaiting ∨
        s.point = .requesting ∧ line = requestLine J request ∧ p = .receiving) :
      Step s l { s with asked := s.asked ++ [line], point := p }
  | answered {text err : String} {n : Nat} {response : Response} (hpoint : s.point = .receiving)
      (htakes : s.toLink.Takes c false (.line text) n)
      (hresponse : J.decode Response.ofJson (trimEnd text) = some response) :
      Step s (.receive (.line text) err)
        { s with read := s.read + n, point := .disarming (.ok response) }
  | disarmed {result : Except String Response} (hpoint : s.point = .disarming result) :
      Step s .disarm { s with point := .returned (.ofResult result) }

theorem step_cases {s t : Ran} {l : Label} (h : s.step J cfg c request l = some t) :
    s.Step J cfg c request l t := by
  cases l with
  | net l =>
      simp only [step] at h
      obtain ⟨k, hk, rfl⟩ := Option.map_eq_some_iff.mp h
      exact .net (Link.step_cases hk)
  | refused =>
      simp only [step] at h
      split at h
      · cases h
        exact .leave (n := 0) rfl rfl
      · cases h
  | greet r cleared =>
      simp only [step] at h
      split at h
      · rename_i hp
        obtain ⟨n, htakes, rfl⟩ := Option.map_eq_some_iff.mp h
        cases r with
        | line text =>
            simp only [afterGreeting]
            split
            · rename_i hpong
              split
              · exact .ponged rfl (.inl ⟨hp, rfl⟩) (Link.takes_cases htakes) hpong
              · exact .leave rfl rfl
            · exact .leave rfl rfl
        | eof => exact .leave rfl rfl
        | timeout => exact .leave rfl rfl
        | error => exact .leave rfl rfl
      · cases h
  | prepare failed =>
      simp only [step] at h
      split at h
      · rename_i hp
        cases failed with
        | some message =>
            cases h
            exact .unprepared hp
        | none =>
            cases h
            exact .prepared hp
      · cases h
  | ping failed =>
      simp only [step] at h
      split at h
      · rename_i hp
        cases failed with
        | some err =>
            cases h
            exact .leave (n := 0) rfl rfl
        | none =>
            cases h
            exact .ask rfl (.inl ⟨hp, rfl, rfl⟩)
      · cases h
  | pong r cleared err =>
      simp only [step] at h
      split at h
      · rename_i hp
        obtain ⟨n, htakes, rfl⟩ := Option.map_eq_some_iff.mp h
        cases r with
        | line text =>
            simp only [afterPong]
            split
            · rename_i hpong
              split
              · exact .ponged rfl (.inr ⟨hp, rfl⟩) (Link.takes_cases htakes) hpong
              · exact .leave rfl rfl
            · exact .leave rfl rfl
        | eof => exact .leave rfl rfl
        | timeout => exact .leave rfl rfl
        | error => exact .leave rfl rfl
      · cases h
  | send failed =>
      simp only [step] at h
      split at h
      · rename_i hp
        cases failed with
        | some err =>
            cases h
            exact .leave (n := 0) rfl rfl
        | none =>
            cases h
            exact .ask rfl (.inr ⟨hp, rfl, rfl⟩)
      · cases h
  | receive r err =>
      simp only [step] at h
      split at h
      · rename_i hp
        obtain ⟨n, htakes, rfl⟩ := Option.map_eq_some_iff.mp h
        cases r with
        | line text =>
            simp only [afterResponse]
            split
            · rename_i response hresponse
              exact .answered hp (Link.takes_cases htakes) hresponse
            · exact .leave rfl rfl
        | eof => exact .leave rfl rfl
        | timeout => exact .leave rfl rfl
        | error => exact .leave rfl rfl
      · cases h
  | disarm =>
      simp only [step] at h
      split at h
      · rename_i response hp
        cases h
        exact .disarmed hp
      · cases h
  | die =>
      simp only [step] at h
      split at h
      · cases h
      · cases h
        exact .leave (n := 0) rfl rfl

end Ran

end Rexec
