import Rexec.Protocol
import Rexec.Lib.JsonRoundTrip
import Rexec.Lib.Lines
import Mathlib.Tactic

/-!
# The wire codec

Each message is written as one line of JSON.  The module shows, type by type,
that the derived deserializer undoes the derived serializer, that no encoded
message of one kind is taken for a kind tried on the same stream, and that a
stream of lines is cut back into its messages.

Of the JSON implementation only `JsonText.Lawful` is used.
-/

namespace Rexec

/-! ## Fields -/

section Fields

@[simp] theorem envsOfJson_toJson (envs : Envs) :
    envsOfJson envs.toJson = some envs := by
  have hmap : ∀ l : List (String × String),
      (l.map fun kv => (kv.1, Json.str kv.2)).mapM
        (fun m => (stringOfJson m.2).map (m.1, ·)) = some l := by
    intro l
    induction l with
    | nil => rfl
    | cons kv l ih =>
        rw [List.map_cons, List.mapM_cons, ih]
        rfl
  have hlist : Std.ExtTreeMap.ofList envs.toList = envs := by
    apply Std.ExtTreeMap.ext_getElem?
    intro k
    cases hk : envs[k]? with
    | none =>
        apply Std.ExtTreeMap.getElem?_ofList_of_contains_eq_false
        by_contra hcon
        rw [Bool.not_eq_false, List.contains_iff_mem, List.mem_map] at hcon
        obtain ⟨⟨k', v⟩, hmem, rfl⟩ := hcon
        rw [Std.ExtTreeMap.mem_toList_iff_getElem?_eq_some, hk] at hmem
        cases hmem
    | some v =>
        exact Std.ExtTreeMap.getElem?_ofList_of_mem (k := k)
          (Std.ReflCmp.compare_self) Std.ExtTreeMap.distinct_keys_toList
          (Std.ExtTreeMap.mem_toList_iff_getElem?_eq_some.mpr hk)
  rw [Envs.toJson, envsOfJson, hmap, Option.map_some, hlist]

@[simp] theorem stringsOfJson_toJson (ss : List String) :
    stringsOfJson (stringsToJson ss) = some ss := by
  rw [stringsToJson, stringsOfJson]
  induction ss with
  | nil => rfl
  | cons s ss ih =>
      rw [List.map_cons, List.mapM_cons, ih]
      rfl

@[simp] theorem optionOfJson_toJson (o : Option String) :
    optionOfJson (optionToJson o) = some o := by
  cases o <;> rfl

@[simp] theorem u64OfJson_toNat (n : UInt64) :
    u64OfJson (.int n.toNat) = some n := by
  have hlt := n.toNat_lt
  have hrange : (0 : Int) ≤ n.toNat ∧ (n.toNat : Int) < 2 ^ 64 := by omega
  rw [u64OfJson, if_pos hrange]
  simp

@[simp] theorem i32OfJson_toInt (n : Int32) :
    i32OfJson (.int n.toInt) = some n := by
  have hrange : -2 ^ 31 ≤ n.toInt ∧ n.toInt < 2 ^ 31 :=
    ⟨Int32.le_toInt n, Int32.toInt_lt n⟩
  rw [i32OfJson, if_pos hrange, Int32.ofInt_toInt]

end Fields

/-! ## Each type is read back from its JSON -/

section RoundTrip

theorem Request.ofJson_toJson (r : Request) :
    Request.ofJson r.toJson = some r := by
  obtain ⟨whoami, dir, envs, clearEnv, exec, stdin, timeout⟩ := r
  by_cases ht : timeout = 0 <;> cases clearEnv <;> cases stdin <;>
    simp [Request.toJson, Request.ofJson, memberUnless, isFalse, isZero, ht,
      field, fieldOr, member, stringOfJson, boolOfJson, optionToJson, optionOfJson]

theorem Response.ofJson_toJson (r : Response) :
    Response.ofJson r.toJson = some r := by
  obtain ⟨exit, output, error⟩ := r
  cases error <;>
    simp [Response.toJson, Response.ofJson, memberUnless, field, fieldOr, member,
      stringOfJson, optionToJson, optionOfJson]

theorem TranscriptEntry.ofJson_toJson (e : TranscriptEntry) :
    TranscriptEntry.ofJson e.toJson = some e := by
  obtain ⟨whoami, dir, envs, clearEnv, exec, timeout, exit, output, error, time⟩ := e
  by_cases ht : timeout = 0 <;> cases clearEnv <;> cases error <;> cases time <;>
    simp [TranscriptEntry.toJson, TranscriptEntry.ofJson, memberUnless, isFalse,
      isZero, ht, field, fieldOr, member, stringOfJson, boolOfJson, optionToJson,
      optionOfJson]

theorem ClientAction.ofJson_toJson (a : ClientAction) :
    ClientAction.ofJson a.toJson = some a := by
  cases a <;>
    simp [ClientAction.toJson, ClientAction.ofJson, tagged, member, unitVariant,
      fieldOr, boolOfJson]

theorem HostEvent.ofJson_toJson (e : HostEvent) :
    HostEvent.ofJson e.toJson = some e := by
  obtain ⟨entry⟩ := e
  simp [HostEvent.toJson, HostEvent.ofJson, tagged, member, field,
    TranscriptEntry.ofJson_toJson]

theorem ControlResponse.ofJson_toJson (c : ControlResponse) :
    ControlResponse.ofJson c.toJson = some c := by
  cases c
  simp [ControlResponse.toJson, ControlResponse.ofJson, tagged, member, unitVariant]

end RoundTrip

/-! ## No message is taken for one of another kind -/

section Disjoint

/-- Members without the tag are no tagged enum. -/
theorem tagged_eq_none
    {tag : String} {ms : List (String × Json)} (h : ∀ m ∈ ms, m.1 ≠ tag) :
    tagged tag (.obj ms) = none := by
  have hfilter : ms.filter (fun m => m.1 = tag) = [] := by
    rw [List.filter_eq_nil_iff]
    intro m hm
    simpa using h m hm
  simp [tagged, member, hfilter]

theorem Request.not_clientAction (r : Request) :
    ClientAction.ofJson r.toJson = none := by
  have hnone : tagged "action" r.toJson = none := by
    apply tagged_eq_none
    intro m hm
    simp only [memberUnless, List.mem_append, List.mem_cons, List.not_mem_nil,
      or_false, List.mem_ite_nil_left] at hm
    rcases hm with
      ((((rfl | rfl | rfl) | ⟨_, rfl⟩) | rfl) | ⟨_, rfl⟩) | ⟨_, rfl⟩ <;> simp
  rw [ClientAction.ofJson, hnone]

theorem ClientAction.not_request (a : ClientAction) :
    Request.ofJson a.toJson = none := by
  cases a <;>
    simp [ClientAction.toJson, Request.ofJson, field, member]

theorem ControlResponse.not_response (c : ControlResponse) :
    Response.ofJson c.toJson = none := by
  cases c
  simp [ControlResponse.toJson, Response.ofJson, field, member]

theorem Response.not_controlResponse (r : Response) :
    ControlResponse.ofJson r.toJson = none := by
  have hnone : tagged "result" r.toJson = none := by
    apply tagged_eq_none
    intro m hm
    simp only [memberUnless, List.mem_append, List.mem_cons, List.not_mem_nil,
      or_false, List.mem_ite_nil_left] at hm
    rcases hm with (rfl | rfl) | ⟨_, rfl⟩ <;> simp
  rw [ControlResponse.ofJson, hnone]

end Disjoint

/-! ## Within the limits of a JSON reader -/

section Plain

theorem envs_plain (envs : Envs) {d : Nat} :
    Json.Plain (d + 1) envs.toJson := by
  intro m hm
  obtain ⟨kv, _, rfl⟩ := List.mem_map.mp hm
  cases d <;> trivial

theorem strings_plain (ss : List String) {d : Nat} :
    Json.Plain (d + 1) (stringsToJson ss) := by
  intro v hv
  obtain ⟨s, _, rfl⟩ := List.mem_map.mp hv
  cases d <;> trivial

theorem option_plain (o : Option String) {d : Nat} :
    Json.Plain d (optionToJson o) := by
  cases o <;> cases d <;> trivial

theorem u64_plain (n : UInt64) {d : Nat} :
    Json.Plain d (.int n.toNat) := by
  have hlt := n.toNat_lt
  cases d <;> (constructor <;> omega)

theorem i32_plain (n : Int32) {d : Nat} :
    Json.Plain d (.int n.toInt) := by
  have hlow := Int32.le_toInt n
  have hhigh := Int32.toInt_lt n
  cases d <;> (constructor <;> omega)

theorem Request.plain (r : Request) : Json.Plain 2 r.toJson := by
  intro m hm
  simp only [memberUnless, List.mem_append, List.mem_cons, List.not_mem_nil,
    or_false, List.mem_ite_nil_left] at hm
  rcases hm with
    ((((rfl | rfl | rfl) | ⟨_, rfl⟩) | rfl) | ⟨_, rfl⟩) | ⟨_, rfl⟩
  · trivial
  · trivial
  · exact envs_plain r.envs
  · trivial
  · exact strings_plain r.exec
  · exact option_plain r.stdin
  · exact u64_plain r.timeout

theorem Response.plain (r : Response) : Json.Plain 2 r.toJson := by
  intro m hm
  simp only [memberUnless, List.mem_append, List.mem_cons, List.not_mem_nil,
    or_false, List.mem_ite_nil_left] at hm
  rcases hm with (rfl | rfl) | ⟨_, rfl⟩
  · exact i32_plain r.exit
  · trivial
  · exact option_plain r.error

theorem TranscriptEntry.plain (e : TranscriptEntry) : Json.Plain 2 e.toJson := by
  intro m hm
  simp only [memberUnless, List.mem_append, List.mem_cons, List.not_mem_nil,
    or_false, List.mem_ite_nil_left] at hm
  rcases hm with
    ((((((rfl | rfl | rfl) | ⟨_, rfl⟩) | rfl) | ⟨_, rfl⟩) | rfl | rfl) |
      ⟨_, rfl⟩) | ⟨_, rfl⟩
  · trivial
  · trivial
  · exact envs_plain e.envs
  · trivial
  · exact strings_plain e.exec
  · exact u64_plain e.timeout
  · exact i32_plain e.exit
  · trivial
  · exact option_plain e.error
  · exact option_plain e.time

theorem ClientAction.plain (a : ClientAction) : Json.Plain 2 a.toJson := by
  cases a <;> simp [ClientAction.toJson, Json.Plain]

theorem HostEvent.plain (e : HostEvent) : Json.Plain 3 e.toJson := by
  obtain ⟨entry⟩ := e
  intro m hm
  simp only [List.mem_cons, List.not_mem_nil, or_false] at hm
  rcases hm with rfl | rfl
  · trivial
  · exact entry.plain

theorem ControlResponse.plain (c : ControlResponse) : Json.Plain 2 c.toJson := by
  cases c
  simp [ControlResponse.toJson, Json.Plain]

end Plain

/-! ## Lines -/

section Stream

variable (J : JsonText)

/-- `serde_json::from_str` at a type, as an option. -/
def JsonText.decode {α : Type} (ofJson : Json → Option α) (text : String) :
    Option α :=
  (J.fromStr text).bind ofJson

/-- A value written by `serde_json::to_string` and `write_all(b"\n")`. -/
def JsonText.line (v : Json) : String :=
  J.toString v ++ "\n"

/-- Any message of the socket. -/
inductive Message where
  | request (r : Request)
  | response (r : Response)
  | clientAction (a : ClientAction)
  | controlResponse (c : ControlResponse)
  | hostEvent (e : HostEvent)

def Message.toJson : Message → Json
  | .request r => r.toJson
  | .response r => r.toJson
  | .clientAction a => a.toJson
  | .controlResponse c => c.toJson
  | .hostEvent e => e.toJson

/-- Decode a text at the type of the message `m`. -/
def Message.decodeLike (m : Message) (text : String) : Option Message :=
  match m with
  | .request _ => (J.decode Request.ofJson text).map .request
  | .response _ => (J.decode Response.ofJson text).map .response
  | .clientAction _ => (J.decode ClientAction.ofJson text).map .clientAction
  | .controlResponse _ =>
      (J.decode ControlResponse.ofJson text).map .controlResponse
  | .hostEvent _ => (J.decode HostEvent.ofJson text).map .hostEvent

/-- The stream of a list of messages. -/
def writeStream (msgs : List Message) : List Char :=
  msgs.flatMap fun m => (J.line m.toJson).toList

/-- The texts a line reader takes from a stream, each after `trim_end`. -/
def readTexts (stream : List Char) : List String :=
  (Lines.split '\n' stream).map fun l => trimEnd (String.ofList l)

/-- What the host makes of a line: first an action, then a request. -/
inductive Dispatch where
  | action (a : ClientAction)
  | request (r : Request)
  | malformed
deriving DecidableEq

def dispatch (text : String) : Dispatch :=
  match J.decode ClientAction.ofJson text with
  | some a => .action a
  | none =>
      match J.decode Request.ofJson text with
      | some r => .request r
      | none => .malformed

variable {J}

theorem Message.plain (m : Message) : Json.Plain 127 m.toJson := by
  cases m with
  | request r => exact r.plain.mono (by omega)
  | response r => exact r.plain.mono (by omega)
  | clientAction a => exact a.plain.mono (by omega)
  | controlResponse c => exact c.plain.mono (by omega)
  | hostEvent e => exact e.plain.mono (by omega)

/-- Every message is encoded as a JSON object. -/
theorem Message.toJson_obj (m : Message) : ∃ ms, m.toJson = .obj ms := by
  cases m with
  | request r => exact ⟨_, rfl⟩
  | response r => exact ⟨_, rfl⟩
  | clientAction a => cases a <;> exact ⟨_, rfl⟩
  | controlResponse c => cases c; exact ⟨_, rfl⟩
  | hostEvent e => cases e; exact ⟨_, rfl⟩

theorem decode_toString
    {α : Type} (hJ : J.Lawful) {ofJson : Json → Option α} (m : Message) :
    J.decode ofJson (J.toString m.toJson) = ofJson m.toJson := by
  rw [JsonText.decode, hJ.fromStr_toString _ m.plain, Option.bind_some]

theorem ClientAction.decode_toString (hJ : J.Lawful) (a : ClientAction) :
    J.decode ClientAction.ofJson (J.toString a.toJson) = some a :=
  (Rexec.decode_toString hJ (.clientAction a)).trans a.ofJson_toJson

theorem Request.decode_toString (hJ : J.Lawful) (r : Request) :
    J.decode Request.ofJson (J.toString r.toJson) = some r :=
  (Rexec.decode_toString hJ (.request r)).trans r.ofJson_toJson

theorem Request.decode_action (hJ : J.Lawful) (r : Request) :
    J.decode ClientAction.ofJson (J.toString r.toJson) = none :=
  (Rexec.decode_toString hJ (.request r)).trans r.not_clientAction

theorem Message.decodeLike_toString
    (hJ : J.Lawful) (m : Message) :
    m.decodeLike J (J.toString m.toJson) = some m := by
  cases m with
  | request r =>
      rw [Message.decodeLike, Rexec.decode_toString hJ (.request r), Message.toJson,
        r.ofJson_toJson, Option.map_some]
  | response r =>
      rw [Message.decodeLike, Rexec.decode_toString hJ (.response r), Message.toJson,
        r.ofJson_toJson, Option.map_some]
  | clientAction a =>
      rw [Message.decodeLike, Rexec.decode_toString hJ (.clientAction a), Message.toJson,
        a.ofJson_toJson, Option.map_some]
  | controlResponse c =>
      rw [Message.decodeLike, Rexec.decode_toString hJ (.controlResponse c),
        Message.toJson, c.ofJson_toJson, Option.map_some]
  | hostEvent e =>
      rw [Message.decodeLike, Rexec.decode_toString hJ (.hostEvent e), Message.toJson,
        e.ofJson_toJson, Option.map_some]

theorem Message.line_isLine
    (hJ : J.Lawful) (m : Message) :
    Lines.IsLine '\n' (J.line m.toJson).toList := by
  refine ⟨(J.toString m.toJson).toList, hJ.noLineFeed _ m.plain, ?_⟩
  rw [JsonText.line, String.toList_append]
  rfl

theorem Message.trimEnd_line
    (hJ : J.Lawful) (m : Message) :
    trimEnd (J.line m.toJson) = J.toString m.toJson := by
  obtain ⟨ms, hms⟩ := m.toJson_obj
  obtain ⟨body, hbody⟩ := hJ.objectEnds ms
  rw [hms]
  exact trimEnd_lineFeed hbody (by decide)

theorem Message.line_not_blank
    (hJ : J.Lawful) (m : Message) :
    (trimEnd (J.line m.toJson)).isEmpty = false := by
  obtain ⟨ms, hms⟩ := m.toJson_obj
  obtain ⟨body, hbody⟩ := hJ.objectEnds ms
  rw [m.trimEnd_line hJ, hms]
  by_contra hempty
  rw [Bool.not_eq_false, String.isEmpty_iff] at hempty
  rw [hempty] at hbody
  simp at hbody

/-- A line reader takes from the stream of `msgs` exactly their texts. -/
theorem readTexts_writeStream
    (hJ : J.Lawful) (msgs : List Message) :
    readTexts (writeStream J msgs) = msgs.map fun m => J.toString m.toJson := by
  have hlines : ∀ l ∈ msgs.map (fun m => (J.line m.toJson).toList),
      Lines.IsLine '\n' l := by
    intro l hl
    obtain ⟨m, _, rfl⟩ := List.mem_map.mp hl
    exact m.line_isLine hJ
  rw [readTexts, writeStream, List.flatMap_def, Lines.split_flatten hlines,
    List.map_map]
  apply List.map_congr_left
  intro m _
  rw [Function.comp_apply, String.ofList_toList, m.trimEnd_line hJ]

/--
The wire codec is a round trip on streams of any messages, the host takes every
encoded action for that action and every encoded request for that request, and
no message is read as one of the other kind that shares its stream.
-/
theorem wireCodec_faithful
    (J : JsonText) (hJ : J.Lawful) :
    (∀ msgs : List Message,
      List.Forall₂ (fun m text => m.decodeLike J text = some m)
        msgs (readTexts (writeStream J msgs))) ∧
    (∀ a : ClientAction, dispatch J (J.toString a.toJson) = .action a) ∧
    (∀ r : Request,
      J.decode ClientAction.ofJson (J.toString r.toJson) = none ∧
      dispatch J (J.toString r.toJson) = .request r) ∧
    (∀ a : ClientAction,
      J.decode Request.ofJson (J.toString a.toJson) = none) ∧
    (∀ c : ControlResponse,
      J.decode Response.ofJson (J.toString c.toJson) = none) ∧
    (∀ r : Response,
      J.decode ControlResponse.ofJson (J.toString r.toJson) = none) := by
  refine ⟨?_, ?_, ?_, ?_, ?_, ?_⟩
  · intro msgs
    rw [readTexts_writeStream hJ, List.forall₂_map_right_iff, List.forall₂_same]
    exact fun m _ => m.decodeLike_toString hJ
  · intro a
    rw [dispatch, a.decode_toString hJ]
  · intro r
    refine ⟨r.decode_action hJ, ?_⟩
    rw [dispatch, r.decode_action hJ, r.decode_toString hJ]
  · exact fun a => (decode_toString hJ (.clientAction a)).trans a.not_request
  · exact fun c => (decode_toString hJ (.controlResponse c)).trans c.not_response
  · exact fun r => (decode_toString hJ (.response r)).trans r.not_controlResponse

/-- A request with every rare field at work, after an action and before a reply. -/
def sampleMessages : List Message :=
  [.clientAction (.attach true),
   .request
    { whoami := "", dir := "a\nb\"c"
      envs := (∅ : Envs).insert "action" "ping"
      clearEnv := true, exec := [], stdin := some "", timeout := 18446744073709551615 },
   .response { exit := -1, output := "\r\n", error := none }]

theorem wireCodec_faithful_compact :
    List.Forall₂ (fun m text => m.decodeLike Json.compact text = some m)
      sampleMessages (readTexts (writeStream Json.compact sampleMessages)) :=
  (wireCodec_faithful Json.compact Json.compact_lawful).1 sampleMessages

/-- The constants the clients write are the encoded actions. -/
theorem actionLines_encoded :
    pingLine.toList = Json.write ClientAction.ping.toJson ++ ['\n'] ∧
    abortLine.toList = Json.write ClientAction.abort.toJson ++ ['\n'] :=
  ⟨by rfl, by rfl⟩

end Stream

end Rexec
