import Rexec.RunClient
import Rexec.FramingLaw
import Mathlib.Tactic

/-!
# What the host makes of a client that was stopped

The client of `RunClient` may be killed between any two bytes, with beginnings
of the abort line behind what it has sent.  At the other end stands the byte
machine of `Framing`, whose watcher may lose the part of a line it has when its
read times out.

`Awaits` says of the bytes that are still unread that no line cut off them is
taken for any request but the client's own, and that behind that one nothing is
taken for a request or a Ping.  `cut_client_runs_nothing_else` follows by
induction on the host's run: at most one command is spawned, it is the one the
client was asked to run, and its request had been written completely.
-/

namespace Rexec

open Machine

/-! ## Letters that are missing -/

theorem trimEnd_isPrefix (text : String) : (trimEnd text).toList <+: text.toList := by
  rw [trimEnd, String.toList_ofList]
  exact List.rdropWhile_prefix _ _

/-- A text behind `trim_end` does not end in a blank. -/
theorem trimEnd_last {text : String} {front : List Char} {c : Char}
    (h : (trimEnd text).toList = front ++ [c]) : isWhitespace c = false := by
  rw [trimEnd, String.toList_ofList] at h
  have hne : text.toList.rdropWhile isWhitespace ≠ [] := by simp [h]
  have hlast := List.rdropWhile_last_not isWhitespace text.toList hne
  simpa [h] using hlast

theorem isBlank_of_not_whitespace {c : Char} (h : isWhitespace c = false) :
    Json.isBlank c = false := by
  cases hblank : Json.isBlank c with
  | false => rfl
  | true =>
      simp only [Json.isBlank, Bool.or_eq_true, decide_eq_true_eq] at hblank
      rcases hblank with ((rfl | rfl) | rfl) | rfl <;> exact absurd h (by decide)

theorem fromUtf8_of_lineResult {bs : List UInt8} {text : String}
    (h : lineResult bs = .line text) : fromUtf8 bs = some text := by
  unfold lineResult at h
  split at h
  · rename_i hutf8
    cases h
    exact hutf8
  · cases h

/-- A line that is read as text has only the letters of its bytes. -/
theorem not_mem_of_lineResult {bs : List UInt8} {text : String} (h : lineResult bs = .line text)
    {c : Char} {b : UInt8} (hc : String.utf8EncodeChar c = [b]) (hsmall : b < 0x80)
    (hb : b ∉ bs) : c ∉ (trimEnd text).toList := by
  intro hmem
  refine hb ?_
  rw [fromUtf8_eq_some_iff.mp (fromUtf8_of_lineResult h)]
  exact (mem_bytes_iff hc hsmall).mpr ((trimEnd_isPrefix text).subset hmem)

/-- No `[`, backslash or `d`: such a text is no request. -/
def Calm (bs : List UInt8) : Prop :=
  ∀ b ∈ bs, b ≠ 91 ∧ b ≠ 92 ∧ b ≠ 100

/-- No `p` either: such a text is no Ping. -/
def Mute (bs : List UInt8) : Prop :=
  Calm bs ∧ 112 ∉ bs

theorem Calm.of_subset {as bs : List UInt8} (h : Calm bs) (hsub : as ⊆ bs) : Calm as :=
  fun b hb => h b (hsub hb)

theorem Mute.of_subset {as bs : List UInt8} (h : Mute bs) (hsub : as ⊆ bs) : Mute as :=
  ⟨h.1.of_subset hsub, fun hmem => h.2 (hsub hmem)⟩

theorem calm_of_all {bs : List UInt8}
    (h : (bs.all fun b => b ≠ 91 && b ≠ 92 && b ≠ 100) = true) : Calm bs := by
  simpa [Calm, List.all_eq_true, and_assoc] using h

theorem calm_pingLine : Calm (bytes pingLine) :=
  calm_of_all (by decide)

theorem mute_abortLine : Mute (bytes abortLine) :=
  ⟨calm_of_all (by decide), by decide⟩

section Aborts

variable {ps : List (List UInt8)} (h : ∀ p ∈ ps, p <+: bytes abortLine)

include h

theorem flatten_subset : ps.flatten ⊆ bytes abortLine := by
  intro b hb
  obtain ⟨p, hp, hbp⟩ := List.mem_flatten.mp hb
  exact (h p hp).subset hbp

theorem mute_flatten : Mute ps.flatten :=
  mute_abortLine.of_subset (flatten_subset h)

theorem ascii_flatten : ∀ b ∈ ps.flatten, b < 0x80 := by
  have hall : ((bytes abortLine).all fun b => decide (b < 0x80)) = true := by decide
  exact fun b hb => of_decide_eq_true (List.all_eq_true.mp hall b (flatten_subset h hb))

end Aborts

section Letters

variable {J : JsonText} (hJ : J.Strict)

include hJ

/-- A value that was read from a text without backslashes, and the member of a name. -/
theorem JsonText.Strict.member_spelled {s : String} {ms : List (String × Json)}
    (h : J.fromStr s = some (.obj ms)) (hplain : '\\' ∉ s.toList) {name : String} {v : Json}
    (hm : member ms name = some (some v)) : Json.SpelledMember s.toList (name, v) := by
  unfold member at hm
  split at hm
  · cases hm
  · rename_i m hfilter
    cases hm
    have hmem : m ∈ ms.filter (fun m => m.1 = name) := by rw [hfilter]; simp
    obtain ⟨hms, hname⟩ := List.mem_filter.mp hmem
    rw [← of_decide_eq_true hname]
    exact hJ.spelled _ _ h hplain m hms
  · cases hm

/-- A request has a member `dir`, or is an array. -/
theorem JsonText.Strict.no_request {s : String} (hbracket : '[' ∉ s.toList)
    (hplain : '\\' ∉ s.toList) (hd : 'd' ∉ s.toList) : J.decode Request.ofJson s = none := by
  unfold JsonText.decode
  cases h : J.fromStr s with
  | none => rfl
  | some v =>
      cases v with
      | arr vs => exact absurd (hJ.spelled _ _ h hplain) hbracket
      | obj ms =>
          have hdir : field stringOfJson ms "dir" = none := by
            unfold field
            split
            · rename_i v hm
              have hspelled := (hJ.member_spelled h hplain hm).1
              exact absurd (hspelled (show 'd' ∈ "dir".toList by decide)) hd
            · rfl
          simp [Request.ofJson, hdir]
      | _ => rfl

/-- A Ping has a member whose text is `ping`, or is an array. -/
theorem JsonText.Strict.no_ping {s : String} (hbracket : '[' ∉ s.toList)
    (hplain : '\\' ∉ s.toList) (hp : 'p' ∉ s.toList) :
    J.decode ClientAction.ofJson s ≠ some .ping := by
  intro hping
  obtain ⟨v, hv, hping⟩ := Option.bind_eq_some_iff.mp hping
  have htag : ∃ content, tagged "action" v = some ("ping", content) := by
    unfold ClientAction.ofJson at hping
    split at hping
    · rename_i content htag
      exact ⟨content, htag⟩
    all_goals simp [Option.map_eq_some_iff] at hping
  obtain ⟨content, htag⟩ := htag
  unfold tagged at htag
  split at htag
  · split at htag
    · rename_i t hm
      cases htag
      have hspelled := (hJ.member_spelled hv hplain hm).2 _ rfl
      exact hp (hspelled (by decide))
    · cases htag
  · exact hbracket (hJ.spelled _ _ hv hplain)
  · cases htag

end Letters

/-! ## Requests that are cut short -/

theorem abortLine_toList : abortLine.toList =
    ['{', '"', 'a', 'c', 't', 'i', 'o', 'n', '"', ':', '"', 'a', 'b', 'o', 'r', 't', '"', '}',
      '\n'] := by
  rfl

/-- A scanner that stands in an object stays in it all through the abort line. -/
theorem abortLine_stays {s : Json.Scan} (hs : 1 ≤ s.depth) :
    Json.Stays 1 s abortLine.toList := by
  obtain ⟨mode, d⟩ := s
  have hd : 1 ≤ d := hs
  have hd' : 1 ≤ d + 1 := by omega
  rw [abortLine_toList]
  cases mode <;> simp [Json.Stays, Json.Scan.next, hd, hd']

theorem take_bytes_abortLine : ∀ n < 20,
    bytes (String.ofList (abortLine.toList.take n)) = (bytes abortLine).take n := by
  decide

/-- Beginnings of the abort line, as text. -/
theorem exists_abortText {ps : List (List UInt8)} (h : ∀ p ∈ ps, p <+: bytes abortLine) :
    ∃ S : String, bytes S = ps.flatten ∧
      ∀ s : Json.Scan, 1 ≤ s.depth → Json.Stays 1 s S.toList := by
  induction ps with
  | nil => exact ⟨"", rfl, fun s hs => hs⟩
  | cons p ps ih =>
      obtain ⟨S, hS, hstays⟩ := ih fun q hq => h q (List.mem_cons_of_mem _ hq)
      have hp := h p (by simp)
      have hlen : p.length < 20 := Nat.lt_of_le_of_lt hp.length_le (by decide)
      refine ⟨String.ofList (abortLine.toList.take p.length) ++ S, ?_, fun s hs => ?_⟩
      · rw [bytes_append, take_bytes_abortLine _ hlen, ← List.prefix_iff_eq_take.mp hp, hS,
          List.flatten_cons]
      · have hpiece : Json.Stays 1 s (abortLine.toList.take p.length) :=
          (abortLine_stays hs).of_isPrefix (List.take_prefix _ _)
        rw [String.toList_append, String.toList_ofList, Json.stays_append]
        exact ⟨hpiece, hstays _ hpiece.depth⟩

/-- Text whose bytes are a beginning of other text. -/
theorem prefix_of_bytes {s t : String} (h : bytes t <+: bytes s) : t.toList <+: s.toList := by
  have hutf8 : fromUtf8 (bytes t ++ []) = some t := by
    rw [List.append_nil]
    exact fromUtf8_bytes t
  obtain ⟨a, b, htext, ha, -, hb⟩ := fromUtf8_cut h (by simp) hutf8
  have hnil : b = "" := bytes_inj.mp hb
  rw [hnil, String.append_empty] at htext
  rw [htext]
  exact ha

theorem Config.accepted_of_onLine {cfg : Config} {p : Bool} {rl : ReadLine} {r : Request}
    (h : cfg.onLine p rl = .accepted r) :
    ∃ text, rl = .line text ∧ p = true ∧ cfg.IsRequestLine text ∧
      cfg.request (trimEnd text) = .ok r := by
  rcases cfg.onLine_cases p rl with
    ⟨text, -, -, hpong⟩ | ⟨text, rfl, hline⟩ | ⟨-, hloop | ⟨ansi, hattach⟩ | hexited⟩
  · rw [hpong] at h
    cases h
  · rw [Config.onLine_request hline] at h
    cases p with
    | false => cases h
    | true =>
        rcases cfg.onRequest_cases (trimEnd text) with ⟨resp, hreject⟩ | ⟨r', hr', haccept⟩
        · rw [if_pos rfl, hreject] at h
          cases h
        · rw [if_pos rfl, haccept] at h
          cases h
          exact ⟨text, rfl, rfl, hline, hr'⟩
  · rw [hloop] at h
    cases h
  · rw [hattach] at h
    cases h
  · rw [hexited] at h
    cases h

section CutRequests

variable {J : JsonText} {message : String → String} {silent : Bool} {request : Request}

theorem Config.decode_of_accepted {p : Bool} {rl : ReadLine} {r : Request}
    (h : (Config.ofJson J message silent).onLine p rl = .accepted r) :
    ∃ text, rl = .line text ∧ (trimEnd text).isEmpty = false ∧
      J.decode Request.ofJson (trimEnd text) = some r := by
  obtain ⟨text, hrl, -, hline, hrequest⟩ := Config.accepted_of_onLine h
  refine ⟨text, hrl, hline.1, ?_⟩
  simp only [Config.ofJson] at hrequest
  split at hrequest
  · rename_i hdecode
    cases hrequest
    exact hdecode
  · cases hrequest

variable (hJ : J.Strict)

include hJ

/-- A beginning of a request's text, with beginnings of the abort line behind it, is
taken for no other request. -/
theorem Config.cut_request {front tail : List UInt8} {ps : List (List UInt8)}
    (hfront : front <+: bytes (J.toString request.toJson)) (hne : front ≠ [])
    (hps : ∀ p ∈ ps, p <+: bytes abortLine) (htail : tail <+: ps.flatten) {p : Bool}
    {r : Request}
    (h : (Config.ofJson J message silent).onLine p (lineResult (front ++ tail)) =
      .accepted r) :
    r = request ∧ front = bytes (J.toString request.toJson) := by
  obtain ⟨text, htext, hblank, hdecode⟩ := Config.decode_of_accepted h
  obtain ⟨S, hS, hstays⟩ := exists_abortText hps
  have hutf8 := fromUtf8_of_lineResult htext
  have hascii : ∀ b ∈ tail.head?, b < 0x80 := fun b hb =>
    ascii_flatten hps b (htail.subset (List.mem_of_mem_head? hb))
  obtain ⟨a, b, hab, hprefix, ha, hb⟩ := fromUtf8_cut hfront hascii hutf8
  have hbS : b.toList <+: S.toList := prefix_of_bytes (by rw [hb, hS]; exact htail)
  have htrim : (trimEnd text).toList <+: a.toList ++ b.toList := by
    rw [← String.toList_append, ← hab]
    exact trimEnd_isPrefix text
  have hsome : J.fromStr (trimEnd text) ≠ none := by
    intro hnone
    simp [JsonText.decode, hnone] at hdecode
  obtain ⟨ms, hms⟩ := Message.toJson_obj (.request request)
  have hplain : Json.Plain 127 (.obj ms) := hms ▸ Message.plain (.request request)
  have hobj : request.toJson = .obj ms := hms
  rw [hobj] at hprefix ⊢
  -- the whole text of the request, and nothing behind it
  have hwhole : a = J.toString (.obj ms) → trimEnd text = J.toString (.obj ms) →
      r = request ∧ front = bytes (J.toString (.obj ms)) := by
    intro haT htextT
    rw [htextT, ← hobj, request.decode_toString hJ.toLawful] at hdecode
    exact ⟨(Option.some.inj hdecode).symm, by rw [← ha, haT]⟩
  rcases List.prefix_or_prefix_of_prefix htrim (List.prefix_append a.toList b.toList) with
    hu | ⟨v, hv⟩
  · -- `trim_end` has removed all that is behind
    by_cases huT : (trimEnd text).toList = (J.toString (.obj ms)).toList
    · have haT : a.toList = (J.toString (.obj ms)).toList :=
        hprefix.eq_of_length_le (huT ▸ hu.length_le)
      exact hwhole (String.toList_inj.mp haT) (String.toList_inj.mp huT)
    · have hcut := hJ.cut hplain (t := []) (hu.trans hprefix)
        (by simpa [String.isEmpty_iff] using hblank) huT (fun s hs => hs)
      rw [List.append_nil, String.ofList_toList] at hcut
      exact absurd hcut hsome
  · have hvb : v <+: b.toList := by
      rw [← hv] at htrim
      exact (List.prefix_append_right_inj _).mp htrim
    by_cases haT : a.toList = (J.toString (.obj ms)).toList
    · rcases List.eq_nil_or_concat v with rfl | ⟨front, c, rfl⟩
      · rw [List.append_nil] at hv
        exact hwhole (String.toList_inj.mp haT) (String.toList_inj.mp (hv ▸ haT))
      · -- something behind the closing brace
        have hlast : (trimEnd text).toList = (a.toList ++ front) ++ [c] := by
          rw [← hv]
          simp
        have hc := trimEnd_last hlast
        have hbehind := hJ.nothingBehind ms hplain (String.ofList (front.concat c))
          ⟨c, by simp, isBlank_of_not_whitespace hc⟩
        have htext : trimEnd text = J.toString (.obj ms) ++ String.ofList (front.concat c) := by
          rw [← String.toList_inj, ← hv, String.toList_append, String.toList_ofList, haT]
        rw [← htext] at hbehind
        exact absurd hbehind hsome
    · have hane : a.toList ≠ [] := by
        intro hnil
        have ha' : a = "" := String.toList_inj.mp hnil
        rw [← ha, ha'] at hne
        exact hne rfl
      have hcut := hJ.cut hplain (t := v) hprefix hane haT fun s hs =>
        ((hstays s hs).of_isPrefix (hvb.trans hbS)).depth
      rw [hv, String.ofList_toList] at hcut
      exact absurd hcut hsome

theorem Config.calm_not_accepted {bs : List UInt8} (hcalm : Calm bs) {p : Bool} {r : Request} :
    (Config.ofJson J message silent).onLine p (lineResult bs) ≠ .accepted r := by
  intro h
  obtain ⟨text, htext, -, hdecode⟩ := Config.decode_of_accepted h
  have hnone : J.decode Request.ofJson (trimEnd text) = none :=
    hJ.no_request (not_mem_of_lineResult htext (by decide) (by decide) fun hb => (hcalm _ hb).1 rfl)
      (not_mem_of_lineResult htext (by decide) (by decide) fun hb => (hcalm _ hb).2.1 rfl)
      (not_mem_of_lineResult htext (by decide) (by decide) fun hb => (hcalm _ hb).2.2 rfl)
  rw [hnone] at hdecode
  cases hdecode

theorem Config.mute_not_ping {bs : List UInt8} (hmute : Mute bs) {text : String}
    (htext : lineResult bs = .line text) :
    ¬ (Config.ofJson J message silent).IsPing text :=
  hJ.no_ping (not_mem_of_lineResult htext (by decide) (by decide) fun hb => (hmute.1 _ hb).1 rfl)
    (not_mem_of_lineResult htext (by decide) (by decide) fun hb => (hmute.1 _ hb).2.1 rfl)
    (not_mem_of_lineResult htext (by decide) (by decide) hmute.2)

end CutRequests

/-! ## What is still unread -/

/--
The bytes hold no request but `request`, and nothing to serve behind it; `written`
is known of a stream that holds all of it.
-/
inductive Awaits (J : JsonText) (request : Request) (written : Prop) : List UInt8 → Prop where
  | calm {bs : List UInt8} (h : Calm bs) : Awaits J request written bs
  | ping {bs : List UInt8} (h : Awaits J request written bs) :
      Awaits J request written (bytes pingLine ++ bs)
  | whole {bs : List UInt8} (hwritten : written) (h : Mute bs) :
      Awaits J request written (bytes (J.line request.toJson) ++ bs)
  | cut {front : List UInt8} {ps : List (List UInt8)}
      (hfront : front <+: bytes (J.toString request.toJson)) (hne : front ≠ [])
      (hps : ∀ p ∈ ps, p <+: bytes abortLine)
      (hwritten : front = bytes (J.toString request.toJson) → written) :
      Awaits J request written (front ++ ps.flatten)

/-- What a read takes off the bytes: a line, or all there is at the end. -/
def Cut (c rest : List UInt8) : Prop :=
  Lines.IsLine lineFeed c ∨ lineFeed ∉ c ∧ rest = []

theorem Cut.line {c rest l bs : List UInt8} (h : Cut c rest) (hl : Lines.IsLine lineFeed l)
    (heq : c ++ rest = l ++ bs) : c = l ∧ rest = bs := by
  rcases h with hc | ⟨hc, rfl⟩
  · exact hc.append_inj hl heq
  · rw [List.append_nil] at heq
    exact absurd (by rw [heq]; exact List.mem_append_left _ hl.terminated) hc

theorem isLine_pingLine : Lines.IsLine lineFeed (bytes pingLine) :=
  ⟨(bytes pingLine).dropLast, by decide, by decide⟩

section Read

variable {J : JsonText} (hJ : J.Strict) {request : Request} {written : Prop}

include hJ

theorem lineFeed_not_mem_request : lineFeed ∉ bytes (J.toString request.toJson) := by
  intro hmem
  obtain ⟨c, hc, hbyte⟩ := List.mem_flatMap.mp hmem
  rw [lineFeed_mem_encode hbyte] at hc
  exact hJ.noLineFeed _ (Message.plain (.request request)) hc

theorem Awaits.read (message : String → String) (silent : Bool) {c rest : List UInt8}
    (h : Awaits J request written (c ++ rest)) (hcut : Cut c rest) :
    Awaits J request written rest ∧
      ∀ p r, (Config.ofJson J message silent).onLine p (lineResult c) = .accepted r →
        r = request ∧ Mute rest ∧ written := by
  generalize hall : c ++ rest = bs at h
  cases h with
  | calm h =>
      subst hall
      refine ⟨.calm (h.of_subset (List.subset_append_right _ _)), fun p r hr => ?_⟩
      have hc : Calm c := h.of_subset (List.subset_append_left _ _)
      exact absurd hr (Config.calm_not_accepted hJ hc)
  | ping h =>
      obtain ⟨rfl, rfl⟩ := hcut.line isLine_pingLine hall
      exact ⟨h, fun p r hr => absurd hr (Config.calm_not_accepted hJ calm_pingLine)⟩
  | whole hwritten h =>
      have hline := Message.bytes_isLine hJ.toLawful (.request request)
      obtain ⟨rfl, rfl⟩ := hcut.line hline hall
      refine ⟨.calm h.1, fun p r hr => ⟨?_, h, hwritten⟩⟩
      obtain ⟨text, htext, -, hdecode⟩ := Config.decode_of_accepted hr
      rw [lineResult_bytes] at htext
      cases htext
      rw [Message.trimEnd_line hJ.toLawful (.request request)] at hdecode
      exact (Option.some.inj (hdecode.symm.trans (request.decode_toString hJ.toLawful)))
  | @cut front ps hfront hne hps hwritten =>
      have hplain : lineFeed ∉ front := fun hmem =>
        lineFeed_not_mem_request hJ (hfront.subset hmem)
      have hsplit : ∃ tail, c = front ++ tail ∧ ps.flatten = tail ++ rest := by
        rcases List.append_eq_append_iff.mp hall with ⟨m, hm, hrest⟩ | ⟨tail, hc, htail⟩
        · rcases hcut with hline | ⟨-, rfl⟩
          · exact absurd (hm ▸ List.mem_append_left m hline.terminated) hplain
          · obtain ⟨rfl, hps⟩ := List.append_eq_nil_iff.mp hrest.symm
            exact ⟨[], by simp [hm], by simp [hps]⟩
        · exact ⟨tail, hc, htail⟩
      obtain ⟨tail, rfl, htail⟩ := hsplit
      have hmute : Mute rest :=
        (mute_flatten hps).of_subset (htail ▸ List.subset_append_right _ _)
      refine ⟨.calm hmute.1, fun p r hr => ?_⟩
      obtain ⟨hr', hfull⟩ := Config.cut_request hJ hfront hne hps
        (htail ▸ List.prefix_append tail rest) hr
      exact ⟨hr', hmute, hwritten hfull⟩

end Read

/-! ## The host's reads -/

namespace Framed

/-- Everything the client has sent, or will have sent, that no read has returned. -/
def pending (s : Framed) : List UInt8 :=
  s.line ++ (s.buffered ++ (s.socket ++ s.rest))

/-- What a step takes off the unread bytes. -/
inductive Consumes (cfg : Config) (s t : Framed) : Label → Prop where
  | moved {l : Label} (hl : acts [l] = []) (hworker : t.worker = s.worker)
      (hpending : t.pending = s.pending) : Consumes cfg s t l
  | other {e : Event} (he : e.readResult = none)
      (hw : s.worker.step cfg e = some t.worker) (hpending : t.pending = s.pending) :
      Consumes cfg s t (.act e)
  | read {e : Event} {r : ReadLine} {timed : Bool} {c : List UInt8}
      (he : e.readResult = some r) (hreading : s.worker.awaiting = some timed)
      (hw : s.worker.step cfg e = some t.worker) (hpending : s.pending = c ++ t.pending)
      (hr : r = .eof ∨ r = .timeout ∧ timed = true ∨
        r = lineResult c ∧ Cut c t.pending) : Consumes cfg s t (.act e)

theorem Step.consumes {cfg : Config} {s t : Framed} {l : Label} (h : s.Step cfg l t)
    (hline : lineFeed ∉ s.line) : lineFeed ∉ t.line ∧ s.Consumes cfg t l := by
  cases h with
  | arrive hpiece hrest =>
      exact ⟨hline, .moved rfl rfl (by simp [pending, hrest])⟩
  | recv hreading hbuffered hchunk hcap hsocket =>
      exact ⟨hline, .moved rfl rfl (by simp [pending, hbuffered, hsocket])⟩
  | scan hreading hbuffered hpart =>
      exact ⟨by simp [hline, hpart], .moved rfl rfl (by simp [pending])⟩
  | other he hw => exact ⟨hline, .other he hw rfl⟩
  | @line e w timed l after hreading hl hbuffered he hw =>
      obtain ⟨body, hbody, rfl⟩ := hl
      refine ⟨by simp, .read (c := s.line ++ (body ++ [lineFeed])) he hreading hw ?_ ?_⟩
      · simp [pending, hbuffered]
      · exact .inr (.inr ⟨rfl, .inl ⟨s.line ++ body, by simp [hline, hbody], by simp⟩⟩)
  | @idle e w timed r hreading hbuffered hsocket hidle he hw =>
      refine ⟨by simp, .read (c := s.line) he hreading hw ?_ ?_⟩
      · simp [pending, hbuffered, hsocket]
      · cases r with
        | eof => exact .inl rfl
        | timeout => exact .inr (.inl ⟨rfl, by simpa [Framed.idle] using hidle⟩)
        | line text =>
            simp only [Framed.idle, Bool.and_eq_true, decide_eq_true_eq, List.isEmpty_iff] at hidle
            exact .inr (.inr ⟨hidle.2.symm, .inr ⟨hline, by simp [pending, hsocket, hidle.1.1]⟩⟩)
        | error =>
            simp only [Framed.idle, Bool.and_eq_true, decide_eq_true_eq, List.isEmpty_iff] at hidle
            exact .inr (.inr ⟨hidle.2.symm, .inr ⟨hline, by simp [pending, hsocket, hidle.1.1]⟩⟩)

end Framed

/-! ## The stages of the host -/

/-- The requests a host spawns, or fails to spawn. -/
def spawns (es : List Event) : List Request :=
  es.filterMap fun
    | .spawn r _ => some r
    | _ => none

@[simp] theorem spawns_append (es fs : List Event) :
    spawns (es ++ fs) = spawns es ++ spawns fs :=
  List.filterMap_append

namespace Worker

/-- No request has been accepted yet. -/
def early : Worker → Bool
  | .accepted _ | .spawning _ _ _ | .spawnFailed _ _ _ _ | .running _ _
  | .submitting _ _ _ => false
  | _ => true

/-- The worker has `request`, and has not spawned it. -/
def Waiting (request : Request) (w : Worker) : Prop :=
  w = .accepted request ∨ ∃ seq time, w = .spawning seq request time

/-- The request has been spawned, and there was no Ping since. -/
def late : Worker → Bool
  | .spawnFailed _ _ _ _ | .running _ _ | .submitting _ _ _ | .lineLoop false
  | .attaching _ | .attached _ | .sending _ _ | .exited => true
  | _ => false

variable {cfg : Config} {w w' : Worker} {e : Event}

theorem Step.stays_early (h : w.Step cfg e w') (hw : w.early = true)
    (he : e.readResult = none) : w'.early = true ∧ spawns [e] = [] := by
  cases h <;> first
    | exact ⟨rfl, rfl⟩
    | (cases he; done)
    | cases hw

theorem Step.stays_late (h : w.Step cfg e w') (hw : w.late = true)
    (he : e.readResult = none) : w'.late = true ∧ spawns [e] = [] := by
  cases h with
  | foreground h =>
      cases h <;> exact ⟨rfl, rfl⟩
  | background h =>
      cases h <;> exact ⟨rfl, rfl⟩
  | _ => first
    | exact ⟨rfl, rfl⟩
    | (cases he; done)
    | cases hw

theorem Step.waiting {request : Request} (h : w.Step cfg e w') (hw : w.Waiting request) :
    e.readResult = none ∧
      (w'.Waiting request ∧ spawns [e] = [] ∨ w'.late = true ∧ spawns [e] = [request]) := by
  rcases hw with rfl | ⟨seq, time, rfl⟩
  · cases h
    exact ⟨rfl, .inl ⟨.inr ⟨_, _, rfl⟩, rfl⟩⟩
  · cases h <;> exact ⟨rfl, .inr ⟨rfl, rfl⟩⟩

theorem awaiting_early {timed : Bool} (hw : w.early = true)
    (h : w.awaiting = some timed) :
    w = .handshake ∨ timed = false ∧ ∃ p, w = .lineLoop p := by
  cases w <;> first
    | exact .inl rfl
    | (cases hw; done)
    | (cases h; done)
    | exact .inr ⟨(Option.some.inj h).symm, _, rfl⟩

theorem early_onOpening (r : ReadLine) : (cfg.onOpening r).early = true :=
  cfg.onOpening_elim r rfl rfl

theorem early_onLine (p : Bool) (r : ReadLine) :
    (cfg.onLine p r).early = true ∨ ∃ request, cfg.onLine p r = .accepted request := by
  rcases cfg.onLine_leads p r with h | h | h | ⟨ansi, h⟩ | ⟨resp, h⟩ | ⟨request, h⟩
  iterate 5 exact .inl (by rw [h]; rfl)
  exact .inr ⟨request, h⟩

/-- Without a Ping nothing but an Attach is served. -/
theorem late_onLine {r : ReadLine}
    (hping : ∀ text, r = .line text → ¬ cfg.IsPing text) :
    (cfg.onLine false r).late = true := by
  rcases cfg.onLine_cases false r with
    ⟨text, htext, h, -⟩ | ⟨text, rfl, hline⟩ | ⟨-, h | ⟨ansi, h⟩ | h⟩
  · exact absurd h (hping text htext)
  · rw [Config.onLine_request hline]
    rfl
  · rw [h]
    rfl
  · rw [h]
    rfl
  · rw [h]
    rfl

theorem Step.late_read {r : ReadLine} (h : w.Step cfg e w') (hw : w.late = true)
    (he : e.readResult = some r) (hping : ∀ text, r = .line text → ¬ cfg.IsPing text) :
    w'.late = true := by
  cases h with
  | opening => cases hw
  | @line p r' =>
      obtain rfl : r' = r := Option.some.inj he
      cases p with
      | false => exact late_onLine hping
      | true => cases hw
  | foreground h =>
      cases h <;> rfl
  | background h => rfl
  | _ => first
    | rfl
    | cases hw

/-- The two reads of a worker without a request. -/
theorem Step.early_read {r : ReadLine} {timed : Bool} (h : w.Step cfg e w')
    (hw : w.early = true) (hreading : w.awaiting = some timed) (he : e.readResult = some r) :
    w' = cfg.onOpening r ∨ timed = false ∧ ∃ p, w' = cfg.onLine p r := by
  rcases awaiting_early hw hreading with rfl | ⟨htimed, p, rfl⟩
  · cases h
    exact .inl (congrArg _ (Option.some.inj he))
  · cases h
    exact .inr ⟨htimed, p, congrArg _ (Option.some.inj he)⟩

end Worker

/-- How far the host has come with `request`, after the events `es`. -/
inductive Served (J : JsonText) (request : Request) (written : Prop) (es : List Event)
    (s : Framed) : Prop where
  | before (hnone : spawns es = []) (hworker : s.worker.early = true)
      (hpending : Awaits J request written s.pending)
  | ready (hnone : spawns es = []) (hwritten : written)
      (hworker : s.worker.Waiting request) (hpending : Mute s.pending)
  | after (hone : spawns es = [request]) (hwritten : written)
      (hworker : s.worker.late = true) (hpending : Mute s.pending)
  | ended (hnone : spawns es = []) (hworker : s.worker = .exited)

section Host

variable {J : JsonText} (hJ : J.Strict) {message : String → String} {silent : Bool}
  {request : Request} {written : Prop} {es : List Event} {s t : Framed}

include hJ

theorem Served.read (h : Served J request written es s) {e : Event} {r : ReadLine}
    {timed : Bool} {c : List UInt8} (he : e.readResult = some r)
    (hreading : s.worker.awaiting = some timed)
    (hw : s.worker.step (.ofJson J message silent) e = some t.worker)
    (hpending : s.pending = c ++ t.pending)
    (hr : r = .eof ∨ r = .timeout ∧ timed = true ∨ r = lineResult c ∧ Cut c t.pending) :
    Served J request written (es ++ [e]) t := by
  have hquiet : spawns (es ++ [e]) = spawns es := by
    have hspawn : spawns [e] = [] := by
      cases e <;> first
        | rfl
        | cases he
    rw [spawns_append, hspawn, List.append_nil]
  have hstep := Worker.step_cases hw
  cases h with
  | before hnone hearly hp =>
      rw [hpending] at hp
      have hread := fun hcut => hp.read hJ message silent hcut
      rcases hstep.early_read hearly hreading he with hworker | ⟨htimed, p, hworker⟩
      · rcases hr with rfl | ⟨rfl, -⟩ | ⟨rfl, hcut⟩
        · exact .ended (hquiet.trans hnone) hworker
        · exact .ended (hquiet.trans hnone) hworker
        · exact .before (hquiet.trans hnone) (hworker ▸ Worker.early_onOpening _)
            (hread hcut).1
      · rcases hr with rfl | ⟨-, htimed'⟩ | ⟨rfl, hcut⟩
        · exact .ended (hquiet.trans hnone) hworker
        · rw [htimed] at htimed'
          cases htimed'
        · obtain ⟨hawaits, haccepted⟩ := hread hcut
          rcases Worker.early_onLine p (lineResult c) with hearly' | ⟨request', haccept⟩
          · exact .before (hquiet.trans hnone) (hworker ▸ hearly') hawaits
          · obtain ⟨rfl, hmute, hwritten⟩ := haccepted p request' haccept
            exact .ready (hquiet.trans hnone) hwritten (.inl (hworker.trans haccept)) hmute
  | ready hnone hwritten hwait hp =>
      rw [(hstep.waiting hwait).1] at he
      cases he
  | after hone hwritten hlate hp =>
      refine .after (hquiet.trans hone) hwritten ?_
        (hp.of_subset (hpending ▸ List.subset_append_right c t.pending))
      refine hstep.late_read hlate he fun text htext => ?_
      rcases hr with rfl | ⟨rfl, -⟩ | ⟨rfl, -⟩
      · cases htext
      · cases htext
      · have hc : Mute c := hp.of_subset (hpending ▸ List.subset_append_left c t.pending)
        exact Config.mute_not_ping hJ hc htext
  | ended hnone hexited =>
      rw [hexited, Worker.step_exited] at hw
      cases hw

theorem Served.step (h : Served J request written es s) {l : Framed.Label}
    (hc : s.Consumes (.ofJson J message silent) t l) :
    Served J request written (es ++ Framed.acts [l]) t := by
  cases hc with
  | moved hl hworker hpending =>
      rw [hl, List.append_nil]
      cases h with
      | before hnone hw hp => exact .before hnone (hworker ▸ hw) (hpending ▸ hp)
      | ready hnone hwritten hw hp => exact .ready hnone hwritten (hworker ▸ hw) (hpending ▸ hp)
      | after hone hwritten hw hp => exact .after hone hwritten (hworker ▸ hw) (hpending ▸ hp)
      | ended hnone hw => exact .ended hnone (hworker.trans hw)
  | other he hw hpending =>
      rw [Framed.acts_act]
      cases h with
      | before hnone hearly hp =>
          obtain ⟨hearly', hquiet⟩ := (Worker.step_cases hw).stays_early hearly he
          exact .before (by rw [spawns_append, hnone, hquiet]; rfl) hearly' (hpending ▸ hp)
      | ready hnone hwritten hwait hp =>
          rcases ((Worker.step_cases hw).waiting hwait).2 with
            ⟨hwait', hquiet⟩ | ⟨hlate, hspawn⟩
          · exact .ready (by rw [spawns_append, hnone, hquiet]; rfl) hwritten hwait'
              (hpending ▸ hp)
          · exact .after (by rw [spawns_append, hnone, hspawn]; rfl) hwritten hlate
              (hpending ▸ hp)
      | after hone hwritten hlate hp =>
          obtain ⟨hlate', hquiet⟩ := (Worker.step_cases hw).stays_late hlate he
          exact .after (by rw [spawns_append, hone, hquiet]; rfl) hwritten hlate'
            (hpending ▸ hp)
      | ended hnone hexited =>
          rw [hexited, Worker.step_exited] at hw
          cases hw
  | read he hreading hw hpending hr =>
      rw [Framed.acts_act]
      exact h.read hJ he hreading hw hpending hr

theorem Served.run {ls : List Framed.Label} {bs : List UInt8} (hbs : Awaits J request written bs)
    (hrun : run (Framed.step (.ofJson J message silent)) (Framed.start bs) ls = some s) :
    Served J request written (Framed.acts ls) s := by
  have hall : lineFeed ∉ s.line ∧ Served J request written (Framed.acts ls) s := by
    refine run_induction (P := fun ls s => lineFeed ∉ s.line ∧
      Served J request written (Framed.acts ls) s) ?_ ?_ hrun
    · exact ⟨by simp [Framed.start], .before rfl rfl (by simpa [Framed.pending, Framed.start])⟩
    · rintro ls s l t - ⟨hline, hserved⟩ hstep
      obtain ⟨hline', hconsumes⟩ := (Framed.step_cases hstep).consumes hline
      rw [Framed.acts_append]
      exact ⟨hline', hserved.step hJ hconsumes⟩
  exact hall.2

end Host

namespace RunClient

/-- What holds in every state of the client. -/
theorem sound_run {requestLine : List UInt8} {es : List Label} {s : RunClient}
    (hrun : run (step requestLine) init es = some s) : Sound requestLine s :=
  run_invariant (fun _ _ _ h hstep => h.step hstep) sound_init hrun

/--
In every state of the client: the socket has a beginning of the two Pings and
the request, and behind it beginnings of the abort line; handlers and the guard
write on the open socket only, and not before the opening Ping is written
completely; and while the client waits for the response with no handler in
progress, the socket has the two Pings and the request, complete, and nothing
else.
-/
theorem client_sends {requestLine : List UInt8} {es : List Label} {s : RunClient}
    (hrun : run (step requestLine) init es = some s) :
    s.sent = s.script ++ s.aborts.flatten ∧
      s.script <+: bytes pingLine ++ (bytes pingLine ++ requestLine) ∧
      (∀ p ∈ s.aborts, p <+: bytes abortLine) ∧
      (s.aborts ≠ [] → bytes pingLine <+: s.script) ∧
      (s.alive = true → s.armed = true →
        s.connected = true ∧ bytes pingLine <+: s.script) ∧
      (s.alive = true → s.phase = .receiving → s.handling = [] →
        s.sent = bytes pingLine ++ (bytes pingLine ++ requestLine)) := by
  have h := sound_run hrun
  refine ⟨h.sent, h.front, h.piece, h.late, fun halive harmed => ?_,
    fun halive hphase hidle => ?_⟩
  · have hopened := RunPhase.opened_of_guarded (h.guarded halive harmed)
    exact ⟨h.linked halive (RunPhase.linked_of_opened hopened), h.opened halive hopened⟩
  · have hlive : s.phase.live = true := by rw [hphase]; rfl
    have hfollows := h.follows halive hlive
    rw [h.settled halive (by rw [hphase]; rfl), hphase] at hfollows
    rw [h.sent, h.clean halive hidle hlive, List.flatten_nil, List.append_nil]
    simpa [RunPhase.todo, whole] using hfollows

/-- A beginning of two texts, one after the other. -/
theorem prefix_append_cases {script front rest : List UInt8} (h : script <+: front ++ rest) :
    script <+: front ∨ ∃ more, script = front ++ more ∧ more <+: rest := by
  rcases List.prefix_or_prefix_of_prefix h (List.prefix_append front rest) with hp | ⟨more, rfl⟩
  · exact .inl hp
  · exact .inr ⟨more, rfl, (List.prefix_append_right_inj _).mp h⟩

/-- All of the request but its line feed is written. -/
def Wrote (J : JsonText) (request : Request) (s : RunClient) : Prop :=
  bytes pingLine ++ (bytes pingLine ++ bytes (J.toString request.toJson)) <+: s.script

/-- What a client has sent when it stops, wherever that is. -/
theorem Sound.awaits {J : JsonText} {request : Request} {s : RunClient}
    (h : Sound (bytes (J.line request.toJson)) s) :
    Awaits J request (Wrote J request s) s.sent := by
  rw [h.sent]
  have haborts : Mute s.aborts.flatten := mute_flatten h.piece
  have hcalm : ∀ {bs : List UInt8}, bs <+: bytes pingLine →
      Calm (bs ++ s.aborts.flatten) := by
    intro bs hbs b hb
    rcases List.mem_append.mp hb with hb | hb
    · exact calm_pingLine b (hbs.subset hb)
    · exact haborts.1 b hb
  have hline : bytes (J.line request.toJson) =
      bytes (J.toString request.toJson) ++ [lineFeed] := by
    rw [JsonText.line, bytes_append]
    rfl
  rcases prefix_append_cases h.front with hp | ⟨more, hmore, hp⟩
  · exact .calm (hcalm hp)
  · rw [hmore, List.append_assoc]
    refine .ping ?_
    rcases prefix_append_cases hp with hping | ⟨last, rfl, hlast⟩
    · exact .calm (hcalm hping)
    · rw [List.append_assoc]
      refine .ping ?_
      have hwrote : bytes (J.toString request.toJson) <+: last → Wrote J request s := by
        intro hfull
        rw [Wrote, hmore]
        simpa [List.prefix_append_right_inj] using hfull
      rw [hline, List.prefix_concat_iff, ← hline] at hlast
      rcases hlast with rfl | hcut
      · exact .whole (hwrote (hline ▸ List.prefix_append _ _)) haborts
      · by_cases hne : last = []
        · subst hne
          exact .calm haborts.1
        · exact .cut hcut hne h.piece fun hfull => hwrote (hfull ▸ List.prefix_refl _)

end RunClient

/--
A client that is stopped at any point, by a signal or otherwise, with or without
abort lines or parts of them behind what it has sent: in every run of the host
on its bytes, however they are cut and whichever reads time out, the host spawns
at most one command.  It is the client's request, and the client had written
all of it.
-/
theorem cut_client_runs_nothing_else {J : JsonText} (hJ : J.Strict)
    (message : String → String) (silent : Bool) {request : Request}
    {es : List RunClient.Label} {s : RunClient}
    (hclient : run (RunClient.step (bytes (J.line request.toJson))) .init es = some s)
    {ls : List Framed.Label} {f : Framed}
    (hhost : run (Framed.step (.ofJson J message silent)) (.start s.sent) ls = some f) :
    spawns (Framed.acts ls) = [] ∨
      spawns (Framed.acts ls) = [request] ∧ s.Wrote J request := by
  have hserved := Served.run hJ (RunClient.sound_run hclient).awaits hhost
  cases hserved with
  | before hnone => exact .inl hnone
  | ready hnone => exact .inl hnone
  | after hone hwrote => exact .inr ⟨hone, hwrote⟩
  | ended hnone => exact .inl hnone

/-- A client that is interrupted while it waits for the response. -/
def sampleInterrupted : List RunClient.Label :=
  [.main (.connect true), .main (.write (bytes pingLine).length), .main (.read true),
    .main (.prepare true), .main .install, .main .install, .main .install, .main .arm,
    .main (.write (bytes pingLine).length), .main (.read true),
    .main (.write (bytes sampleRequestLine).length), .signal .int,
    .abortWrite (bytes abortLine).length, .die]

theorem run_sampleInterrupted :
    ∃ s, run (RunClient.step (bytes sampleRequestLine)) .init sampleInterrupted = some s ∧
      s.sent = sampleLines.flatten := by
  have hsent : (run (RunClient.step (bytes sampleRequestLine)) .init sampleInterrupted).map
      RunClient.sent = some sampleLines.flatten := by
    decide
  obtain ⟨s, hs, hsent⟩ := Option.map_eq_some_iff.mp hsent
  exact ⟨s, hs, hsent⟩

/-- The handler has written while the client was waiting. -/
theorem client_sends_sampleInterrupted :
    ∃ s, run (RunClient.step (bytes sampleRequestLine)) .init sampleInterrupted = some s ∧
      s.sent = s.script ++ s.aborts.flatten ∧ ∀ p ∈ s.aborts, p <+: bytes abortLine := by
  obtain ⟨s, hs, -⟩ := run_sampleInterrupted
  obtain ⟨hsent, -, hpieces, -⟩ := RunClient.client_sends hs
  exact ⟨s, hs, hsent, hpieces⟩

/-- The host has the whole request and spawns it. -/
theorem cut_client_sampleInterrupted :
    ∃ s, run (RunClient.step (bytes sampleRequestLine)) .init sampleInterrupted = some s ∧
      (spawns (Framed.acts sampleServed) = [] ∨
        spawns (Framed.acts sampleServed) = [sampleRequest] ∧
          s.Wrote Json.compact sampleRequest) := by
  obtain ⟨s, hs, hsent⟩ := run_sampleInterrupted
  have hhost := @run_sampleServed false
  rw [← hsent] at hhost
  exact ⟨s, hs, cut_client_runs_nothing_else Json.compact_strict id false hs hhost⟩

end Rexec
