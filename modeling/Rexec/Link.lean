import Rexec.Host
import Rexec.RunClientLaw
import Rexec.Lib.JsonNesting
import Mathlib.Tactic

/-!
# A client beside the host

The client of one connection, `c`, beside a whole host: it writes lines, which
the worker of `c` reads, and it reads the bytes that this worker has written.  A
write of the host may fail and leave a part of its line, and the host may end at
any moment, also in the middle of a line.

* `Link.step` is what the host does, as the connection sees it; `Peer` says what
  its worker can still hear of the client.
* `Link.takes` is a read of the client.
* `Link.Carries` says what is on the connection: whole lines, a part of one more
  at most, and how far the client has read.
-/

namespace Rexec

open Machine TranscriptQueue

/-- The client of a connection, as the host finds it. -/
inductive Peer where
  /-- it is there, and writes whole lines -/
  | present
  /-- it has closed the connection, its lines being whole -/
  | left
  /-- it was cut off: anything may be on the connection -/
  | lost
deriving DecidableEq

structure Link where
  host : Host
  /-- the process of the host is over -/
  gone : Bool
  /-- the lines the client has written -/
  asked : List String
  /-- how many of them the worker has read -/
  heard : Nat
  /-- the bytes the worker has written to the client, and how many of them it has read -/
  sent : List UInt8
  read : Nat

/-- The line of a message. -/
def Message.frame (J : JsonText) (m : Message) : List UInt8 :=
  bytes (J.line m.toJson)

/-- What a write of the line leaves on the connection. -/
def Message.put (J : JsonText) (m : Message) (ok : Bool) (cut : Nat) : List UInt8 :=
  if ok then m.frame J else (m.frame J).take cut

theorem Message.put_true (J : JsonText) (m : Message) (cut : Nat) :
    m.put J true cut = m.frame J := rfl

theorem Message.put_isPrefix (J : JsonText) (m : Message) (ok : Bool) (cut : Nat) :
    m.put J ok cut <+: m.frame J := by
  cases ok with
  | true => exact List.prefix_refl _
  | false => exact List.take_prefix _ _

def stream (J : JsonText) (ms : List Message) : List UInt8 :=
  ms.flatMap (Message.frame J)

/-- The message a worker writes in an event, and whether it could. -/
def Event.message : Event → Option (Message × Bool)
  | .writePong ok => some (.controlResponse .pong, ok)
  | .writeResponse _ response ok => some (.response response, ok)
  | .writeEvent entry ok => some (.hostEvent (.transcript entry), ok)
  | _ => none

/-- The message a worker is about to write. -/
def Worker.message : Worker → Option Message
  | .openingPong => some (.controlResponse .pong)
  | .pong => some (.controlResponse .pong)
  | .reject response => some (.response response)
  | .spawnFailed _ _ _ err => some (.response (spawnFailedResponse err))
  | .running _ (.respond response _ _) => some (.response response)
  | .sending _ entry => some (.hostEvent (.transcript entry))
  | _ => none

def Worker.isExited : Worker → Bool
  | .exited => true
  | _ => false

/-- `recv_timeout` finds the channel disconnected: its subscriber is gone and it is empty. -/
def Host.hungUp (h : Host) (c : Nat) : Bool :=
  match h.workers c with
  | .attached receiver =>
      h.transcript.subscribers.all (fun sub => sub.sender != receiver) &&
        (h.transcript.recv receiver).isNone
  | _ => false

namespace Link

variable (J : JsonText) (cfg : Config) (c : Nat) (peer : Peer)

/-- The client has written its opening Ping. -/
def init : Link :=
  { host := .init, gone := false, asked := [pingLine], heard := 0, sent := [], read := 0 }

/-- The worker's socket is closed. -/
def closed (s : Link) : Bool :=
  s.gone || (s.host.workers c).isExited

def unread (s : Link) : List UInt8 :=
  s.sent.drop s.read

inductive Label where
  /-- a step of the host; `cut` is what a failing write leaves -/
  | host (l : Rexec.Label) (cut : Nat)
  /-- the process of the host ends -/
  | gone (cut : Nat)

/-- What the worker of `c` may read, and the lines it has read then. -/
def hears (s : Link) : Rexec.Label → Option Nat
  | .worker c' e =>
      if c' = c ∧ peer ≠ .lost then
        match e.readResult with
        | some (.line text) => if s.asked[s.heard]? = some text then some (s.heard + 1) else none
        | some .eof => if peer = .left ∧ s.heard = s.asked.length then some s.heard else none
        | _ =>
            match e with
            | .detach => if peer = .left ∨ s.host.hungUp c then some s.heard else none
            | _ => some s.heard
      else some s.heard
  | _ => some s.heard

/-- The bytes a step of the host puts on the connection. -/
def puts : Rexec.Label → Nat → List UInt8
  | .worker c' e, cut =>
      if c' = c then
        match e.message with
        | some (m, ok) => m.put J ok cut
        | none => []
      else []
  | _, _ => []

def step (s : Link) : Label → Option Link
  | .host l cut =>
      if s.gone then none
      else
        match s.host.step cfg l, s.hears c peer l with
        | some h, some heard => some { s with host := h, heard, sent := s.sent ++ puts J c l cut }
        | _, _ => none
  | .gone cut =>
      if s.gone then none
      else
        match (s.host.workers c).message with
        | some m => some { s with gone := true, sent := s.sent ++ m.put J false cut }
        | none => some { s with gone := true }

/-- A read of the client, and the bytes it takes. -/
def takes (s : Link) (timed : Bool) : ReadLine → Option Nat
  | .timeout => if timed then some 0 else none
  | .eof => if s.closed c && s.unread.isEmpty then some 0 else none
  | .error => some s.unread.length
  | .line text =>
      match Lines.takeLine lineFeed s.unread with
      | some (l, _) => if lineResult l = .line text then some l.length else none
      | none =>
          if s.closed c && !s.unread.isEmpty && lineResult s.unread = .line text then
            some s.unread.length
          else none

/-! ## What a step can do -/

/-- One step of the host. -/
inductive Step (s : Link) : Label → Link → Prop where
  | host {l : Rexec.Label} {cut : Nat} {h : Host} {heard : Nat} (hlive : s.gone = false)
      (hstep : s.host.step cfg l = some h) (hheard : s.hears c peer l = some heard) :
      Step s (.host l cut) { s with host := h, heard, sent := s.sent ++ puts J c l cut }
  | gone {cut : Nat} {last : List UInt8} (hlive : s.gone = false)
      (hlast : last = [] ∨ ∃ m, (s.host.workers c).message = some m ∧ last <+: m.frame J) :
      Step s (.gone cut) { s with gone := true, sent := s.sent ++ last }

/-- What a read of the client takes off the connection. -/
inductive Takes (s : Link) (timed : Bool) : ReadLine → Nat → Prop where
  | line {l rest : List UInt8} {text : String} (hline : Lines.IsLine lineFeed l)
      (hunread : s.unread = l ++ rest) (htext : lineResult l = .line text) :
      Takes s timed (.line text) l.length
  | last {text : String} (hclosed : s.closed c = true) (hne : s.unread ≠ [])
      (hpart : lineFeed ∉ s.unread) (htext : lineResult s.unread = .line text) :
      Takes s timed (.line text) s.unread.length
  | eof (hclosed : s.closed c = true) (hnone : s.unread = []) : Takes s timed .eof 0
  | timeout (htimed : timed = true) : Takes s timed .timeout 0
  | error : Takes s timed .error s.unread.length

variable {J} {cfg} {c} {peer}

theorem step_cases {s t : Link} {l : Label} (h : s.step J cfg c peer l = some t) :
    s.Step J cfg c peer l t := by
  cases l with
  | host l cut =>
      simp only [step] at h
      split at h
      · cases h
      · rename_i hlive
        split at h
        · rename_i h' heard hstep hheard
          cases h
          exact .host (by simpa using hlive) hstep hheard
        · cases h
  | gone cut =>
      simp only [step] at h
      split at h
      · cases h
      · rename_i hlive
        have hlive' : s.gone = false := by simpa using hlive
        split at h
        · rename_i m hm
          cases h
          exact .gone hlive' (.inr ⟨m, hm, Message.put_isPrefix ..⟩)
        · cases h
          have hgone :
              s.Step J cfg c peer (.gone cut) { s with gone := true, sent := s.sent ++ [] } :=
            .gone hlive' (.inl rfl)
          rwa [List.append_nil] at hgone

theorem takes_cases {s : Link} {timed : Bool} {r : ReadLine} {n : Nat}
    (h : s.takes c timed r = some n) : s.Takes c timed r n := by
  cases r with
  | timeout =>
      simp only [takes] at h
      split at h
      · rename_i htimed
        cases h
        exact .timeout htimed
      · cases h
  | eof =>
      simp only [takes] at h
      split at h
      · rename_i hboth
        cases h
        rw [Bool.and_eq_true, List.isEmpty_iff] at hboth
        exact .eof hboth.1 hboth.2
      · cases h
  | error =>
      cases h
      exact .error
  | line text =>
      simp only [takes] at h
      split at h
      · rename_i l rest hline
        split at h
        · rename_i htext
          cases h
          obtain ⟨hl, hunread⟩ := Lines.takeLine_eq_some hline
          exact .line hl hunread htext
        · cases h
      · rename_i hnone
        split at h
        · rename_i hall
          cases h
          simp only [Bool.and_eq_true, Bool.not_eq_true', decide_eq_true_eq,
            List.isEmpty_eq_false_iff] at hall
          refine .last hall.1.1 hall.1.2 (fun hmem => ?_) hall.2
          obtain ⟨l, rest, hl, hsplit⟩ := Lines.exists_line_append hmem
          rw [hsplit, Lines.takeLine_line_append hl] at hnone
          cases hnone
        · cases h

/-! ## What the host hears and puts -/

section Hears

variable {s : Link} {l : Rexec.Label} {e : Event} {heard : Nat}

theorem hears_elsewhere (hl : ∀ e, l ≠ .worker c e) : s.hears c peer l = some s.heard := by
  cases l with
  | worker c' e =>
      have hc : c' ≠ c := by
        rintro rfl
        exact hl e rfl
      simp only [hears, hc, false_and, if_false]
  | _ => rfl

theorem puts_elsewhere (J : JsonText) (hl : ∀ e, l ≠ .worker c e) (cut : Nat) :
    puts J c l cut = [] := by
  cases l with
  | worker c' e =>
      have hc : c' ≠ c := by
        rintro rfl
        exact hl e rfl
      simp only [puts, hc, if_false]
  | _ => rfl

theorem puts_none (J : JsonText) (he : e.message = none) (cut : Nat) :
    puts J c (.worker c e) cut = [] := by
  simp only [puts, if_true, he]

theorem puts_some (J : JsonText) {m : Message} {ok : Bool} (he : e.message = some (m, ok))
    (cut : Nat) : puts J c (.worker c e) cut = m.put J ok cut := by
  simp only [puts, if_true, he]

/-- A line the worker reads is the next one of the client. -/
theorem hears_line (hpeer : peer ≠ .lost) {text : String}
    (he : e.readResult = some (.line text)) (h : s.hears c peer (.worker c e) = some heard) :
    s.asked[s.heard]? = some text ∧ heard = s.heard + 1 := by
  simp only [hears, he, hpeer, ne_eq, not_false_eq_true, and_self, if_true] at h
  split at h
  · rename_i htext
    exact ⟨htext, (Option.some.inj h).symm⟩
  · cases h

theorem hears_eof (hpeer : peer ≠ .lost) (he : e.readResult = some .eof)
    (h : s.hears c peer (.worker c e) = some heard) :
    peer = .left ∧ s.heard = s.asked.length ∧ heard = s.heard := by
  simp only [hears, he, hpeer, ne_eq, not_false_eq_true, and_self, if_true] at h
  split at h
  · rename_i hboth
    exact ⟨hboth.1, hboth.2, (Option.some.inj h).symm⟩
  · cases h

/-- A step that reads no line. -/
theorem hears_other (hread : ∀ text, e.readResult ≠ some (.line text))
    (h : s.hears c peer (.worker c e) = some heard) : heard = s.heard := by
  simp only [hears] at h
  split at h
  · split at h
    · rename_i text hline
      exact absurd hline (hread text)
    · split at h
      · exact (Option.some.inj h).symm
      · cases h
    · split at h
      · split at h
        · exact (Option.some.inj h).symm
        · cases h
      · exact (Option.some.inj h).symm
  · exact (Option.some.inj h).symm

theorem hears_detach (h : s.hears c .present (.worker c .detach) = some heard) :
    s.host.hungUp c = true := by
  simp only [hears, Event.readResult, ne_eq, reduceCtorEq, not_false_eq_true, and_self, if_true,
    false_or] at h
  split at h
  · assumption
  · cases h

/-- What happens elsewhere in the host leaves the worker alone. -/
theorem host_elsewhere {h h' : Host} (hstep : h.step cfg l = some h')
    (hl : ∀ e, l ≠ .worker c e) : h'.workers c = h.workers c := by
  cases l with
  | worker c' e =>
      obtain ⟨hs, w, -, -, rfl⟩ := Host.step_worker hstep
      have hc : c ≠ c' := by
        rintro rfl
        exact hl e rfl
      exact Function.update_of_ne hc ..
  | _ =>
      obtain ⟨-, hworkers⟩ := Host.step_main (fun c e h => by cases h) hstep
      rw [hworkers]

end Hears

end Link

/-! ## Lines and their parts -/

/-- What a client makes of a part of a line: it is the text of the line without its line
feed, or no JSON. -/
theorem decode_part {J : JsonText} (hJ : J.Strict) (m : Message) {p : List UInt8}
    (hp : p <+: m.frame J) (hne : p ≠ []) (hpart : lineFeed ∉ p) {text : String}
    (htext : lineResult p = .line text) :
    trimEnd text = J.toString m.toJson ∨ J.fromStr (trimEnd text) = none := by
  obtain rfl := fromUtf8_eq_some_iff.mp (fromUtf8_of_lineResult htext)
  obtain ⟨ms, hms⟩ := m.toJson_obj
  have hplain : Json.Plain 127 (.obj ms) := hms ▸ m.plain
  rw [Message.frame, hms] at hp
  rw [hms]
  have hfront : text.toList <+: (J.toString (.obj ms)).toList := by
    have hline := prefix_of_bytes hp
    rw [JsonText.line, String.toList_append] at hline
    rcases List.prefix_concat_iff.mp hline with hall | hfront
    · refine absurd ?_ hpart
      have htext : text = J.toString (.obj ms) ++ "\n" := by
        rw [← String.toList_inj, hall, String.toList_append]
        rfl
      rw [htext, bytes_append]
      exact List.mem_append_right _ (List.mem_singleton.mpr rfl)
    · exact hfront
  -- the text starts with a brace, so `trim_end` leaves something
  have hblank : (trimEnd text).toList ≠ [] := by
    obtain ⟨body, hbody, -⟩ := hJ.encloses ms hplain
    cases hchars : text.toList with
    | nil => exact absurd (by rw [bytes, hchars]; rfl) hne
    | cons ch rest =>
        rw [hchars, hbody] at hfront
        obtain ⟨rfl, -⟩ := List.cons_prefix_cons.mp hfront
        rw [trimEnd, String.toList_ofList, Ne, List.rdropWhile_eq_nil_iff]
        intro hall
        exact absurd (hall '{' (by rw [hchars]; exact List.mem_cons_self)) (by decide)
  have htrim := (trimEnd_isPrefix text).trans hfront
  by_cases hall : (trimEnd text).toList = (J.toString (.obj ms)).toList
  · exact .inl (String.toList_inj.mp hall)
  · have hcut := hJ.cut hplain (t := []) htrim hblank hall (fun s hs => hs)
    rw [List.append_nil, String.ofList_toList] at hcut
    exact .inr hcut

/-- A client that reads the line of a Pong. -/
theorem decode_pong {J : JsonText} (hJ : J.Lawful) :
    J.decode ControlResponse.ofJson (trimEnd (J.line ControlResponse.pong.toJson)) =
      some .pong := by
  have htrim : trimEnd (J.line ControlResponse.pong.toJson) =
      J.toString ControlResponse.pong.toJson := Message.trimEnd_line hJ (.controlResponse .pong)
  rw [htrim]
  exact (decode_toString hJ (.controlResponse .pong)).trans (ControlResponse.ofJson_toJson _)

/-! ## What is on the connection -/

section Carries

variable {J : JsonText}

theorem stream_cons (m : Message) (ms : List Message) :
    stream J (m :: ms) = m.frame J ++ stream J ms := rfl

theorem stream_append (ms more : List Message) :
    stream J (ms ++ more) = stream J ms ++ stream J more :=
  List.flatMap_append

theorem stream_singleton (m : Message) : stream J [m] = m.frame J :=
  List.append_nil _

namespace Link

/-- What stands behind the whole lines: nothing, or a part of the line of a message. -/
inductive Torn (J : JsonText) : Option Message → List UInt8 → Prop where
  | none : Torn J none []
  | part {m : Message} {torn : List UInt8} (hpart : torn <+: m.frame J) : Torn J (some m) torn

/-- How far the client has read: the messages it has got. -/
inductive Read (J : JsonText) (s : Link) (lines : List Message) (last : Option Message)
    (torn : List UInt8) : List Message → Prop where
  | reading {got : List Message} (todo : List Message) (hlines : got ++ todo = lines)
      (hunread : s.unread = stream J todo ++ torn) : Read J s lines last torn got
  | drained {m : Message} (hlast : last = some m) (hunread : s.unread = []) :
      Read J s lines last torn (lines ++ [m])

/-- The connection carries these lines, and behind them a part of the last message. -/
structure Carries (J : JsonText) (s : Link) (lines : List Message) (last : Option Message)
    (torn : List UInt8) (got : List Message) : Prop where
  le : s.read ≤ s.sent.length
  tail : Torn J last torn
  reads : Read J s lines last torn got

variable {c : Nat} {s t : Link} {lines got : List Message} {last : Option Message}
  {torn : List UInt8} {m : Message} {timed : Bool} {text : String} {n : Nat}

theorem carries_init : Carries J init [] none [] [] :=
  ⟨Nat.le_refl _, .none, .reading [] rfl rfl⟩

theorem Carries.keep (h : Carries J s lines last torn got) (hsent : t.sent = s.sent)
    (hread : t.read = s.read) : Carries J t lines last torn got := by
  have hunread : t.unread = s.unread := by rw [unread, unread, hsent, hread]
  refine ⟨by rw [hsent, hread]; exact h.le, h.tail, ?_⟩
  cases h.reads with
  | reading todo hlines hu => exact .reading todo hlines (hunread.trans hu)
  | drained hlast hu => exact .drained hlast (hunread.trans hu)

theorem unread_append (hle : s.read ≤ s.sent.length) {put : List UInt8}
    (hsent : t.sent = s.sent ++ put) (hread : t.read = s.read) :
    t.unread = s.unread ++ put := by
  rw [unread, unread, hsent, hread, List.drop_append_of_le_length hle]

/-- A line is put behind whole lines. -/
theorem Carries.line (h : Carries J s lines none torn got) (hsent : t.sent = s.sent ++ m.frame J)
    (hread : t.read = s.read) : Carries J t (lines ++ [m]) none [] got := by
  refine ⟨?_, .none, ?_⟩
  · rw [hsent, hread, List.length_append]
    exact Nat.le_add_right_of_le h.le
  · cases h.tail
    cases h.reads with
    | reading todo hlines hu =>
        refine .reading (todo ++ [m]) (by rw [← List.append_assoc, hlines]) ?_
        rw [unread_append h.le hsent hread, hu, stream_append, stream_singleton,
          List.append_nil, List.append_nil]
    | drained hlast => cases hlast

/-- A part of a line is put behind whole lines. -/
theorem Carries.part (h : Carries J s lines none torn got) {part : List UInt8}
    (hsent : t.sent = s.sent ++ part) (hread : t.read = s.read) (hpart : part <+: m.frame J) :
    Carries J t lines (some m) part got := by
  refine ⟨?_, .part hpart, ?_⟩
  · rw [hsent, hread, List.length_append]
    exact Nat.le_add_right_of_le h.le
  · cases h.tail
    cases h.reads with
    | reading todo hlines hu =>
        refine .reading todo hlines ?_
        rw [unread_append h.le hsent hread, hu, List.append_nil]
    | drained hlast => cases hlast

theorem Takes.le {r : ReadLine} (h : s.Takes c timed r n) : n ≤ s.unread.length := by
  cases h with
  | line hl hu =>
      rw [hu, List.length_append]
      exact Nat.le_add_right _ _
  | last => exact Nat.le_refl _
  | eof => exact Nat.zero_le _
  | timeout => exact Nat.zero_le _
  | error => exact Nat.le_refl _

theorem Takes.unread_ne_nil (h : s.Takes c timed (.line text) n) : s.unread ≠ [] := by
  cases h with
  | line hl hu =>
      rw [hu]
      exact List.append_ne_nil_of_left_ne_nil hl.ne_nil _
  | last _ hne => exact hne

/-- A client that reads where a line of the host stands. -/
theorem Takes.whole (hJ : J.Lawful) (h : s.Takes c timed (.line text) n) {more : List UInt8}
    (hunread : s.unread = m.frame J ++ more) :
    trimEnd text = J.toString m.toJson ∧ s.unread.drop n = more := by
  have hline := m.bytes_isLine hJ
  cases h with
  | line hl hu htext =>
      obtain ⟨rfl, rfl⟩ := hl.append_inj hline (hu.symm.trans hunread)
      rw [lineResult_bytes] at htext
      cases htext
      exact ⟨m.trimEnd_line hJ, by rw [hu, List.drop_left]⟩
  | last hc hne hpart =>
      rw [hunread] at hpart
      exact absurd (List.mem_append_left _ hline.terminated) hpart

/-- A client that reads where a part of a line of the host stands. -/
theorem Takes.part (hJ : J.Strict) (h : s.Takes c timed (.line text) n)
    (hpart : s.unread <+: m.frame J) :
    s.unread.drop n = [] ∧
      (trimEnd text = J.toString m.toJson ∨ J.fromStr (trimEnd text) = none) := by
  cases h with
  | @line l rest _ hl hu htext =>
      obtain ⟨behind, hbehind⟩ := hpart
      rw [hu, List.append_assoc] at hbehind
      obtain ⟨rfl, hrest⟩ := hl.append_inj (m.bytes_isLine hJ.toLawful)
        (hbehind.trans (List.append_nil _).symm)
      obtain ⟨rfl, -⟩ := List.append_eq_nil_iff.mp hrest
      rw [lineResult_bytes] at htext
      cases htext
      exact ⟨by rw [hu, List.drop_left], .inl (m.trimEnd_line hJ.toLawful)⟩
  | last hc hne hopen htext =>
      exact ⟨List.drop_length, decode_part hJ m hpart hne hopen htext⟩

/-- A line that a client reads: it is that of the message that comes next, or a part of the
last one that is no JSON. -/
inductive Gets (J : JsonText) (s : Link) (lines : List Message) (last : Option Message)
    (torn : List UInt8) (got : List Message) (text : String) (n : Nat) : Prop where
  | next (m : Message) (hm : got ++ [m] <+: lines ∨ last = some m ∧ got = lines)
      (htext : trimEnd text = J.toString m.toJson)
      (hcarries : Carries J { s with read := s.read + n } lines last torn (got ++ [m]))
  | broken (m : Message) (hlast : last = some m) (hgot : got = lines)
      (hnone : J.fromStr (trimEnd text) = none)

theorem Carries.take (hJ : J.Strict) (h : Carries J s lines last torn got)
    (htakes : s.Takes c timed (.line text) n) : Gets J s lines last torn got text n := by
  have hle : s.read + n ≤ s.sent.length := by
    have hlength : s.unread.length = s.sent.length - s.read := List.length_drop
    have hread := h.le
    have hn := htakes.le
    omega
  have hdrop : ∀ {rest}, s.unread.drop n = rest →
      unread { s with read := s.read + n } = rest := by
    intro rest hrest
    rw [← hrest, unread, unread, List.drop_drop]
  cases h.reads with
  | reading todo hlines hu =>
      cases todo with
      | cons m todo =>
          rw [stream_cons, List.append_assoc] at hu
          obtain ⟨htext, hrest⟩ := htakes.whole hJ.toLawful hu
          have hlines' : got ++ [m] ++ todo = lines := by rw [← hlines, List.append_assoc]; rfl
          exact .next m (.inl ⟨todo, hlines'⟩) htext
            ⟨hle, h.tail, .reading todo hlines' (hdrop hrest)⟩
      | nil =>
          rw [List.append_nil] at hlines
          have htorn : s.unread = torn := hu
          cases h.tail with
          | none => exact absurd htorn htakes.unread_ne_nil
          | @part m _ hpart =>
              obtain ⟨hrest, htext | hnone⟩ := htakes.part hJ (htorn ▸ hpart)
              · refine .next m (.inr ⟨rfl, hlines⟩) htext ⟨hle, h.tail, ?_⟩
                rw [hlines]
                exact .drained rfl (hdrop hrest)
              · exact .broken m rfl hlines hnone
  | drained _ hu => exact absurd hu htakes.unread_ne_nil

/-- A client that finds the connection closed has got all whole lines. -/
theorem Carries.eof (hJ : J.Lawful) (h : Carries J s lines last torn got)
    (htakes : s.Takes c timed .eof n) : s.closed c = true ∧ lines <+: got := by
  cases htakes with
  | eof hclosed hnone =>
      refine ⟨hclosed, ?_⟩
      cases h.reads with
      | reading todo hlines hu =>
          cases todo with
          | nil => rw [← hlines, List.append_nil]
          | cons m todo =>
              rw [hnone, stream_cons, List.append_assoc] at hu
              exact absurd (List.append_eq_nil_iff.mp hu.symm).1 (m.bytes_isLine hJ).ne_nil
      | drained => exact List.prefix_append _ _

/-! ## Runs of the host -/

variable {cfg : Config} {peer : Peer}

/-- A whole line can be read. -/
theorem takes_frame (hJ : J.Lawful) {rest : List UInt8} (hunread : s.unread = m.frame J ++ rest) :
    s.takes c timed (.line (J.line m.toJson)) = some (m.frame J).length := by
  rw [Message.frame] at hunread ⊢
  simp only [takes, hunread, Lines.takeLine_line_append (m.bytes_isLine hJ), lineResult_bytes,
    if_true]

theorem step_host {l : Rexec.Label} {h : Host} {heard : Nat} (hlive : s.gone = false)
    (hstep : s.host.step cfg l = some h) (hheard : s.hears c peer l = some heard) :
    s.step J cfg c peer (.host l 0) =
      some { s with host := h, heard, sent := s.sent ++ puts J c l 0 } := by
  simp only [step, hlive, Bool.false_eq_true, if_false, hstep, hheard]

/-- What the connection does not see of the host. -/
theorem run_quiet {es : List Rexec.Label} {h : Host} (hlive : s.gone = false)
    (hes : ∀ l ∈ es, (∀ k : Link, k.hears c peer l = some k.heard) ∧ puts J c l 0 = [])
    (hrun : Machine.run (Host.step cfg) s.host es = some h) :
    Machine.run (step J cfg c peer) s (es.map (.host · 0)) = some { s with host := h } := by
  induction es generalizing s with
  | nil =>
      cases hrun
      rfl
  | cons l es ih =>
      rw [run_cons, Option.bind_eq_some_iff] at hrun
      obtain ⟨k, hk, hrest⟩ := hrun
      obtain ⟨hheard, hputs⟩ := hes l (by simp)
      have hstep : s.step J cfg c peer (.host l 0) = some { s with host := k } := by
        rw [step_host hlive hk (hheard s), hputs, List.append_nil]
      rw [List.map_cons]
      exact run_of_cons _ hstep (ih (s := { s with host := k }) hlive
        (fun l hl => hes l (by simp [hl])) hrest)

/-- What the host does apart from the worker of the connection. -/
theorem run_elsewhere {es : List Rexec.Label} {h : Host} (hlive : s.gone = false)
    (hes : ∀ l ∈ es, ∀ e, l ≠ .worker c e)
    (hrun : Machine.run (Host.step cfg) s.host es = some h) :
    Machine.run (step J cfg c peer) s (es.map (.host · 0)) = some { s with host := h } :=
  run_quiet hlive
    (fun l hl => ⟨fun _ => hears_elsewhere (hes l hl), puts_elsewhere J (hes l hl) 0⟩) hrun

/-- The worker of `c` has read a line. -/
def reading (s : Link) (c : Nat) (w : Worker) : Link :=
  { s with
    host := { s.host with workers := Function.update s.host.workers c w }
    heard := s.heard + 1 }

/-- The worker of `c` has written a line. -/
def writing (J : JsonText) (s : Link) (c : Nat) (w : Worker) (m : Message) : Link :=
  { s with
    host := { s.host with workers := Function.update s.host.workers c w }
    sent := s.sent ++ m.frame J }

/-- Behind what the client has read stands the line that is written. -/
theorem unread_writing (hread : s.read = s.sent.length) (w : Worker) (m : Message) :
    (s.writing J c w m).unread = m.frame J ++ [] := by
  rw [unread, writing, hread, List.drop_left, List.append_nil]

theorem step_readLine {text : String} {w : Worker} (hlive : s.gone = false)
    (hmain : s.host.main ≠ .returned) (hc : c < s.host.accepted) (hpeer : peer ≠ .lost)
    (htext : s.asked[s.heard]? = some text)
    (hw : (s.host.workers c).step cfg (.readLine (.line text)) = some w) :
    s.step J cfg c peer (.host (.worker c (.readLine (.line text))) 0) = some (s.reading c w) := by
  simp [step, hlive, Host.step, hmain, hc, Host.share, hw, hears, Event.readResult, hpeer, htext,
    puts, Event.message, reading]

theorem step_write {e : Event} {w : Worker} (hlive : s.gone = false)
    (hmain : s.host.main ≠ .returned) (hc : c < s.host.accepted)
    (hmessage : e.message = some (m, true))
    (hshare : s.host.share (s.host.workers c) e = some s.host)
    (hw : (s.host.workers c).step cfg e = some w) :
    s.step J cfg c peer (.host (.worker c e) 0) = some (s.writing J c w m) := by
  have hheard : s.hears c peer (.worker c e) = some s.heard := by
    simp only [hears]
    split
    · cases e <;> first | rfl | cases hmessage
    · rfl
  have hstep : s.host.step cfg (.worker c e) =
      some { s.host with workers := Function.update s.host.workers c w } := by
    simp only [Host.step, hshare, hw]
    rw [if_pos ⟨hmain, hc⟩]
  rw [step_host hlive hstep hheard, puts_some J hmessage, Message.put_true, writing]

/-- The worker finds its channel disconnected. -/
theorem step_detach {receiver : Nat} (hlive : s.gone = false)
    (hmain : s.host.main ≠ .returned) (hc : c < s.host.accepted)
    (hworker : s.host.workers c = .attached receiver) (hhung : s.host.hungUp c = true) :
    s.step J cfg c peer (.host (.worker c .detach) 0) =
      some { s with
        host := { s.host with
          transcript := s.host.transcript.dropReceiver receiver
          workers := Function.update s.host.workers c .exited } } := by
  have hheard : s.hears c peer (.worker c .detach) = some s.heard := by
    simp only [hears, Event.readResult, hhung, or_true, if_true]
    split <;> rfl
  have hstep : s.host.step cfg (.worker c .detach) = some { s.host with
      transcript := s.host.transcript.dropReceiver receiver
      workers := Function.update s.host.workers c .exited } := by
    simp only [Host.step, Host.share, Worker.step, hworker]
    rw [if_pos ⟨hmain, hc⟩]
  rw [step_host hlive hstep hheard, puts_none J rfl, List.append_nil]

/-! ## A sample run -/

/-- Connection `0` is accepted. -/
def sampleConnect : List Label :=
  [.host (.poll (.ready true false)) 0, .host .dispatch 0, .host (.accept true) 0,
    .host (.worker 0 (.tryClone true)) 0]

def sampleConnected : Link :=
  { init with
    host := { Host.init with
      accepted := 1, workers := Function.update Host.init.workers 0 .handshake } }

/-- The Ping of its client is answered. -/
def sampleOpening : List Label :=
  sampleConnect ++ [.host (.worker 0 (.readLine (.line pingLine))) 0,
    .host (.worker 0 (.writePong true)) 0]

def sampleOpened : Link :=
  (sampleConnected.reading 0 .openingPong).writing Json.compact 0 (.lineLoop false)
    (.controlResponse .pong)

theorem run_sampleOpening (silent : Bool) :
    Machine.run (step Json.compact (.compact silent) 0 .present) init sampleOpening =
      some sampleOpened := by
  have hping : Json.compact.line ClientAction.ping.toJson = pingLine := rfl
  have hopening : (Config.compact silent).onOpening (.line pingLine) = .openingPong := by
    rw [← hping]
    exact Config.onOpening_ping Json.compact_lawful
  have hconnect : Machine.run (step Json.compact (.compact silent) 0 .present) init
      sampleConnect = some sampleConnected := rfl
  refine run_of_append _ hconnect ?_
  refine run_of_cons _ (step_readLine rfl (by decide) Nat.zero_lt_one (by decide) rfl
    (congrArg some hopening)) ?_
  exact run_singleton _ (step_write rfl (by decide) Nat.zero_lt_one rfl rfl rfl)

end Link

end Carries

end Rexec
