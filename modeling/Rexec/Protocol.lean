import Rexec.Text
import Rexec.Lib.Json
import Mathlib.Tactic

/-!
# The wire and journal types

The messages of the socket and the records of the journal, with the JSON that
their derived serializers write and their derived deserializers accept.

A deserializer takes the value of each field it knows, refuses a field given
twice, ignores members it does not know and uses the default of an absent field
that has one; a struct may also be given as an array of its fields in order.
An internally tagged enum first takes its tag out of the members (or off the
front of the array) and gives the rest to the variant; a variant without fields
ignores members, but refuses further array items.
-/

namespace Rexec

/-- `BTreeMap<String, String>`. -/
abbrev Envs := Std.ExtTreeMap String String

structure Request where
  whoami : String
  dir : String
  envs : Envs
  clearEnv : Bool
  exec : List String
  stdin : Option String
  timeout : UInt64
deriving DecidableEq

/-- The command `true`, run in the root directory. -/
def sampleRequest : Request :=
  { whoami := "me", dir := "/", envs := ∅, clearEnv := false, exec := ["true"]
    stdin := none, timeout := 0 }

structure Response where
  exit : Int32
  output : String
  error : Option String
deriving DecidableEq

structure TranscriptEntry where
  whoami : String
  dir : String
  envs : Envs
  clearEnv : Bool
  exec : List String
  timeout : UInt64
  exit : Int32
  output : String
  error : Option String
  time : Option String
deriving DecidableEq

/-- The entry of a command `true` that printed nothing. -/
def sampleEntry : TranscriptEntry :=
  { whoami := "me", dir := "/", envs := ∅, clearEnv := false, exec := ["true"]
    timeout := 0, exit := 0, output := "", error := none, time := none }

def errorNotFound : String := "not_found"
def errorAborted : String := "aborted"
def errorTimeout : String := "timeout"

def isZero (value : UInt64) : Bool := value == 0

def isFalse (value : Bool) : Bool := !value

/-- Control messages from client to host. -/
inductive ClientAction where
  | ping
  | abort
  | attach (ansi : Bool)
deriving DecidableEq

/-- A completed transcript entry sent to an attached client. -/
inductive HostEvent where
  | transcript (entry : TranscriptEntry)
deriving DecidableEq

/-- Reply to a control-only request. -/
inductive ControlResponse where
  | pong
deriving DecidableEq

def pingLine : String := "\x7b\"action\":\"ping\"\x7d\n"
def abortLine : String := "\x7b\"action\":\"abort\"\x7d\n"

section Serialize

/-- A member left out when `skip_serializing_if` says so. -/
def memberUnless (skip : Bool) (name : String) (value : Json) :
    List (String × Json) :=
  if skip then [] else [(name, value)]

def Envs.toJson (envs : Envs) : Json :=
  .obj (envs.toList.map fun kv => (kv.1, .str kv.2))

def stringsToJson (ss : List String) : Json :=
  .arr (ss.map .str)

def optionToJson : Option String → Json
  | none => .null
  | some s => .str s

def Request.toJson (r : Request) : Json :=
  .obj ([("whoami", .str r.whoami), ("dir", .str r.dir),
      ("envs", Envs.toJson r.envs)] ++
    memberUnless (isFalse r.clearEnv) "clear_env" (.bool r.clearEnv) ++
    [("exec", stringsToJson r.exec)] ++
    memberUnless r.stdin.isNone "stdin" (optionToJson r.stdin) ++
    memberUnless (isZero r.timeout) "timeout" (.int r.timeout.toNat))

def Response.toJson (r : Response) : Json :=
  .obj ([("exit", .int r.exit.toInt), ("output", .str r.output)] ++
    memberUnless r.error.isNone "error" (optionToJson r.error))

def TranscriptEntry.toJson (e : TranscriptEntry) : Json :=
  .obj ([("whoami", .str e.whoami), ("dir", .str e.dir),
      ("envs", Envs.toJson e.envs)] ++
    memberUnless (isFalse e.clearEnv) "clear_env" (.bool e.clearEnv) ++
    [("exec", stringsToJson e.exec)] ++
    memberUnless (isZero e.timeout) "timeout" (.int e.timeout.toNat) ++
    [("exit", .int e.exit.toInt), ("output", .str e.output)] ++
    memberUnless e.error.isNone "error" (optionToJson e.error) ++
    memberUnless e.time.isNone "time" (optionToJson e.time))

def ClientAction.toJson : ClientAction → Json
  | .ping => .obj [("action", .str "ping")]
  | .abort => .obj [("action", .str "abort")]
  | .attach ansi => .obj [("action", .str "attach"), ("ansi", .bool ansi)]

def HostEvent.toJson : HostEvent → Json
  | .transcript entry =>
      .obj [("event", .str "transcript"), ("entry", entry.toJson)]

def ControlResponse.toJson : ControlResponse → Json
  | .pong => .obj [("result", .str "pong")]

end Serialize

section Deserialize

def stringOfJson : Json → Option String
  | .str s => some s
  | _ => none

def boolOfJson : Json → Option Bool
  | .bool b => some b
  | _ => none

def u64OfJson : Json → Option UInt64
  | .int n => if 0 ≤ n ∧ n < 2 ^ 64 then some (UInt64.ofNat n.toNat) else none
  | _ => none

def i32OfJson : Json → Option Int32
  | .int n => if -2 ^ 31 ≤ n ∧ n < 2 ^ 31 then some (Int32.ofInt n) else none
  | _ => none

def optionOfJson : Json → Option (Option String)
  | .null => some none
  | .str s => some (some s)
  | _ => none

def stringsOfJson : Json → Option (List String)
  | .arr vs => vs.mapM stringOfJson
  | _ => none

/-- The members are inserted in order, so the last of two equal keys stands. -/
def envsOfJson : Json → Option Envs
  | .obj ms =>
      (ms.mapM fun m => (stringOfJson m.2).map (m.1, ·)).map
        fun kvs => Std.ExtTreeMap.ofList kvs
  | _ => none

/-- The value of a known field; the outer option is the duplicate-field error. -/
def member (ms : List (String × Json)) (name : String) :
    Option (Option Json) :=
  match ms.filter fun m => m.1 = name with
  | [] => some none
  | [m] => some (some m.2)
  | _ => none

variable {α : Type}

def field (ofJson : Json → Option α) (ms : List (String × Json))
    (name : String) : Option α :=
  match member ms name with
  | some (some v) => ofJson v
  | _ => none

/-- A field with `#[serde(default)]`. -/
def fieldOr (default : α) (ofJson : Json → Option α)
    (ms : List (String × Json)) (name : String) : Option α :=
  match member ms name with
  | some none => some default
  | some (some v) => ofJson v
  | none => none

/-- A field given by its position in an array. -/
def item (ofJson : Json → Option α) (vs : List Json) (i : Nat) : Option α :=
  vs[i]?.bind ofJson

def itemOr (default : α) (ofJson : Json → Option α) (vs : List Json)
    (i : Nat) : Option α :=
  match vs[i]? with
  | none => some default
  | some v => ofJson v

def Request.ofJson : Json → Option Request
  | .obj ms => do
      let whoami ← field stringOfJson ms "whoami"
      let dir ← field stringOfJson ms "dir"
      let envs ← fieldOr ∅ envsOfJson ms "envs"
      let clearEnv ← fieldOr false boolOfJson ms "clear_env"
      let exec ← field stringsOfJson ms "exec"
      let stdin ← fieldOr none optionOfJson ms "stdin"
      let timeout ← fieldOr 0 u64OfJson ms "timeout"
      return { whoami, dir, envs, clearEnv, exec, stdin, timeout }
  | .arr vs => do
      let whoami ← item stringOfJson vs 0
      let dir ← item stringOfJson vs 1
      let envs ← itemOr ∅ envsOfJson vs 2
      let clearEnv ← itemOr false boolOfJson vs 3
      let exec ← item stringsOfJson vs 4
      let stdin ← itemOr none optionOfJson vs 5
      let timeout ← itemOr 0 u64OfJson vs 6
      if vs.length ≤ 7 then
        return { whoami, dir, envs, clearEnv, exec, stdin, timeout }
      else none
  | _ => none

def Response.ofJson : Json → Option Response
  | .obj ms => do
      let exit ← field i32OfJson ms "exit"
      let output ← field stringOfJson ms "output"
      let error ← fieldOr none optionOfJson ms "error"
      return { exit, output, error }
  | .arr vs => do
      let exit ← item i32OfJson vs 0
      let output ← item stringOfJson vs 1
      let error ← itemOr none optionOfJson vs 2
      if vs.length ≤ 3 then return { exit, output, error } else none
  | _ => none

def TranscriptEntry.ofJson : Json → Option TranscriptEntry
  | .obj ms => do
      let whoami ← field stringOfJson ms "whoami"
      let dir ← field stringOfJson ms "dir"
      let envs ← fieldOr ∅ envsOfJson ms "envs"
      let clearEnv ← fieldOr false boolOfJson ms "clear_env"
      let exec ← field stringsOfJson ms "exec"
      let timeout ← fieldOr 0 u64OfJson ms "timeout"
      let exit ← field i32OfJson ms "exit"
      let output ← field stringOfJson ms "output"
      let error ← fieldOr none optionOfJson ms "error"
      let time ← fieldOr none optionOfJson ms "time"
      return { whoami, dir, envs, clearEnv, exec, timeout, exit, output, error, time }
  | .arr vs => do
      let whoami ← item stringOfJson vs 0
      let dir ← item stringOfJson vs 1
      let envs ← itemOr ∅ envsOfJson vs 2
      let clearEnv ← itemOr false boolOfJson vs 3
      let exec ← item stringsOfJson vs 4
      let timeout ← itemOr 0 u64OfJson vs 5
      let exit ← item i32OfJson vs 6
      let output ← item stringOfJson vs 7
      let error ← itemOr none optionOfJson vs 8
      let time ← itemOr none optionOfJson vs 9
      if vs.length ≤ 10 then
        return { whoami, dir, envs, clearEnv, exec, timeout, exit, output, error, time }
      else none
  | _ => none

/-- The tag of an internally tagged enum, and the content left for its variant. -/
def tagged (tag : String) : Json → Option (String × Json)
  | .obj ms =>
      match member ms tag with
      | some (some (.str t)) => some (t, .obj (ms.filter fun m => m.1 ≠ tag))
      | _ => none
  | .arr (.str t :: vs) => some (t, .arr vs)
  | _ => none

/-- A variant without fields. -/
def unitVariant : Json → Option Unit
  | .obj _ => some ()
  | .arr [] => some ()
  | _ => none

def ClientAction.ofJson (v : Json) : Option ClientAction :=
  match tagged "action" v with
  | some ("ping", content) => (unitVariant content).map fun _ => .ping
  | some ("abort", content) => (unitVariant content).map fun _ => .abort
  | some ("attach", .obj ms) =>
      (fieldOr false boolOfJson ms "ansi").map .attach
  | some ("attach", .arr vs) =>
      if vs.length ≤ 1 then (itemOr false boolOfJson vs 0).map .attach else none
  | _ => none

def HostEvent.ofJson (v : Json) : Option HostEvent :=
  match tagged "event" v with
  | some ("transcript", .obj ms) =>
      (field TranscriptEntry.ofJson ms "entry").map .transcript
  | some ("transcript", .arr vs) =>
      if vs.length ≤ 1 then (item TranscriptEntry.ofJson vs 0).map .transcript
      else none
  | _ => none

def ControlResponse.ofJson (v : Json) : Option ControlResponse :=
  match tagged "result" v with
  | some ("pong", content) => (unitVariant content).map fun _ => .pong
  | _ => none

end Deserialize

end Rexec
