import Rexec.Report
import Rexec.RunReport
import Rexec.Stages
import Mathlib.Tactic

/-!
# What a user is told of a command

While the client is there, the connection carries whole lines of its worker, and
every response among them was explained by the events of the worker before it.
The client writes one request, so the command that a response reports is its own.

* `Ran.Told` says of a response that the worker of the connection has it to write,
  behind the events that `Answers` asks for.
* `run_reports`: a client that prints anything on its standard output, or exits
  with another code than 127, prints the report of its own command, which was
  spawned once.
-/

namespace Rexec

open Machine

/-! ## What the worker hears and is about to write -/

/-- The lines that the threads of a worker have read. -/
def heardLines (es : List Event) : List String :=
  es.filterMap fun e =>
    match e.readResult with
    | some (.line text) => some text
    | _ => none

theorem mem_heardLines {es : List Event} {e : Event} {text : String} (he : e ∈ es)
    (hread : e.readResult = some (.line text)) : text ∈ heardLines es :=
  List.mem_filterMap.mpr ⟨e, he, by rw [hread]⟩

/-- A write reads nothing. -/
theorem Event.message_reads {e : Event} {put : Message × Bool} (h : e.message = some put)
    (text : String) : e.readResult ≠ some (.line text) := by
  cases e with
  | readLine r => cases h
  | watcherRead r => cases h
  | _ => simp [Event.readResult]

theorem eventsOf_own {c : Nat} {es : List Rexec.Label} {e : Event} :
    eventsOf c (es ++ [.worker c e]) = eventsOf c es ++ [e] := by
  simp [eventsOf]

theorem eventsOf_elsewhere {c : Nat} {es : List Rexec.Label} {l : Rexec.Label}
    (hl : ∀ e, l ≠ .worker c e) : eventsOf c (es ++ [l]) = eventsOf c es := by
  cases l with
  | worker c' e =>
      have hc : c' ≠ c := by
        rintro rfl
        exact hl e rfl
      simp [eventsOf, hc]
  | _ => simp [eventsOf]

section Workers

variable {cfg : Config} {w w' : Worker} {es : List Event} {e : Event} {response : Response}

/-- A response the worker is about to write. -/
theorem Worker.Explained.answers (hw : w.Explained cfg es)
    (hm : w.message = some (.response response)) : ∃ seq, Answers cfg es seq response := by
  cases w with
  | reject r =>
      cases hm
      exact ⟨none, .inl ⟨rfl, hw⟩⟩
  | spawnFailed seq request time err =>
      cases hm
      obtain ⟨front, text, rfl, haccepts⟩ := hw
      exact ⟨some seq, .inr ⟨front, ⟨text, seq, time, request, .error err⟩, [], by simp, rfl,
        haccepts, .notSpawned rfl⟩⟩
  | running cmd stage =>
      cases stage with
      | respond r entry raw =>
          cases hm
          obtain ⟨front, text, during, rfl, haccepts, -, -, -, hreports, -⟩ := hw
          exact ⟨some cmd.seq, .inr ⟨front, _, during, rfl, rfl, haccepts, hreports⟩⟩
      | _ => cases hm
  | _ => cases hm

theorem HostEvent.not_response (ev : HostEvent) : Response.ofJson ev.toJson = none := by
  cases ev
  simp [HostEvent.toJson, Response.ofJson, field, member]

/-- A message the worker is about to write, if it reads as a response. -/
theorem Worker.Explained.tells {m : Message} (hw : w.Explained cfg es)
    (hm : w.message = some m) (hr : Response.ofJson m.toJson = some response) :
    ∃ seq, Answers cfg es seq response := by
  cases m with
  | response r =>
      have heq := (Response.ofJson_toJson r).symm.trans hr
      cases heq
      exact hw.answers hm
  | controlResponse r => cases (ControlResponse.not_response r).symm.trans hr
  | hostEvent ev => cases (HostEvent.not_response ev).symm.trans hr
  | request r => unfold Worker.message at hm; split at hm <;> cases hm
  | clientAction a => unfold Worker.message at hm; split at hm <;> cases hm

/-- What a worker writes is what it was about to write. -/
theorem Worker.Step.message {m : Message} {ok : Bool} (h : w.Step cfg e w')
    (he : e.message = some (m, ok)) : w.message = some m := by
  cases e with
  | writePong ok' =>
      cases he
      cases h with
      | foreground hf => cases hf
      | background hb => cases hb
      | _ => rfl
  | writeResponse seq r ok' =>
      cases he
      cases h with
      | foreground hf =>
          cases hf
          rfl
      | background hb => cases hb
      | _ => rfl
  | writeEvent entry ok' =>
      cases he
      cases h with
      | foreground hf => cases hf
      | background hb => cases hb
      | _ => rfl
  | _ => cases he

/-- After a write that fails the worker is through with the client, or has told a response. -/
theorem Worker.Step.failed {m : Message} (h : w.Step cfg e w')
    (he : e.message = some (m, false)) :
    w' = .exited ∨
      ∃ seq entry raw, w' = .submitting seq entry raw ∧ ∃ response, m = .response response := by
  cases e with
  | writePong ok =>
      cases he
      cases h with
      | foreground hf => cases hf
      | background hb => cases hb
      | _ => exact .inl rfl
  | writeResponse seq r ok =>
      cases he
      cases h with
      | foreground hf =>
          cases hf
          exact .inr ⟨_, _, _, rfl, _, rfl⟩
      | background hb => cases hb
      | _ => exact .inl rfl
  | writeEvent entry ok =>
      cases he
      cases h with
      | foreground hf => cases hf
      | background hb => cases hb
      | _ => exact .inl rfl
  | _ => cases he

/-- Behind the line of a request. -/
theorem Answers.line {seq : Option Nat} (h : Answers cfg es seq response) :
    ∃ text, .readLine (.line text) ∈ es ∧ cfg.IsRequestLine text := by
  rcases h with ⟨-, front, text, rfl, hrefuses⟩ | ⟨front, x, during, rfl, -, haccepts, -⟩
  · exact ⟨text, by simp, hrefuses.line⟩
  · exact ⟨x.text, by simp [Exec.opening], haccepts.line⟩

end Workers

/-- The worker is through with the client, or has heard all its lines and answered them. -/
def Worker.Through (heard : Nat) : Worker → Prop
  | .exited => True
  | .submitting _ _ _ => 3 ≤ heard
  | .lineLoop _ => 3 ≤ heard
  | _ => False

namespace Ran

/-! ## The invariant -/

section Invariant

variable (J : JsonText) (cfg : Config) (c : Nat) (request : Request)

/-- The worker has, or had, this response to write, behind what explains it. -/
def Told (es : List Rexec.Label) (response : Response) : Prop :=
  ∃ before after seq, eventsOf c es = before ++ after ∧
    (∀ e ∈ before, e.readResult ≠ some .eof) ∧ Answers cfg before seq response

/-- Nothing is written before the next line of the client. -/
def Silent (s : Ran) : Prop :=
  s.gone = true ∨ (s.host.workers c).Through s.heard

/-- What holds of the connection while the client is there. -/
structure Wire (es : List Rexec.Label) (s : Ran) (lines : List Message) (last : Option Message)
    (torn : List UInt8) (got : List Message) : Prop where
  carries : s.toLink.Carries J lines last torn got
  said : ∀ m, m ∈ lines ∨ last = some m →
    ∀ response, Response.ofJson m.toJson = some response → Told cfg c es response
  silent : last ≠ none → Silent c s
  noEof : ∀ e ∈ eventsOf c es, e.readResult ≠ some .eof

structure Sound (es : List Rexec.Label) (s : Ran) : Prop where
  host : Machine.run (Host.step cfg) Host.init es = some s.host
  asked : s.point.peer ≠ .lost → s.asked = (script J request).take s.point.written
  heard : s.point.peer ≠ .lost →
    heardLines (eventsOf c es) = s.asked.take s.heard ∧ s.heard ≤ s.asked.length
  wire : s.point.peer = .present → ∃ lines last torn got, Wire J cfg c es s lines last torn got
  answered : ∀ response, s.point = .disarming (.ok response) ∨
    s.point = .returned (.answered response) → Told cfg c es response

theorem sound_init : Sound J cfg c request [] init where
  host := rfl
  asked _ := rfl
  heard _ := ⟨rfl, Nat.zero_le _⟩
  wire _ := ⟨[], none, [], [], Link.carries_init, by simp, fun h => absurd rfl h,
    fun e he => by cases he⟩
  answered response h := by rcases h with h | h <;> cases h

end Invariant

section Basics

variable {J : JsonText} {cfg : Config} {c : Nat} {request : Request} {es : List Rexec.Label}
  {s : Ran} {l : Rexec.Label} {lines got : List Message} {last : Option Message}
  {torn : List UInt8} {response : Response} {text : String}

theorem Told.concat (h : Told cfg c es response) (l : Rexec.Label) :
    Told cfg c (es ++ [l]) response := by
  obtain ⟨before, after, seq, hes, heof, hanswers⟩ := h
  refine ⟨before, after ++ eventsOf c [l], seq, ?_, heof, hanswers⟩
  rw [← List.append_assoc, ← hes]
  exact List.filterMap_append

theorem length_script : (script J request).length = 3 := rfl

/-- The line of a request is the third line of the client. -/
theorem three_le {k : Nat} (hping : cfg.IsPing pingLine)
    (hmem : text ∈ (script J request).take k) (hline : cfg.IsRequestLine text) : 3 ≤ k := by
  by_contra hk
  have hpings : text ∈ [pingLine, pingLine] := by
    have htwo : (script J request).take k <+: (script J request).take 2 :=
      List.take_prefix_take_left (by omega)
    exact htwo.subset hmem
  obtain rfl : text = pingLine := by simpa using hpings
  exact absurd (hping.symm.trans hline.2) (by simp)

/-- The third line was heard. -/
theorem Sound.heard_three (hS : Sound J cfg c request es s) (hping : cfg.IsPing pingLine)
    (hpeer : s.point.peer ≠ .lost) {e : Event} (he : e ∈ eventsOf c es)
    (hread : e.readResult = some (.line text)) (hline : cfg.IsRequestLine text) :
    3 ≤ s.heard := by
  have hmem := mem_heardLines he hread
  rw [(hS.heard hpeer).1, hS.asked hpeer, List.take_take] at hmem
  have hthree := three_le hping hmem hline
  omega

theorem Sound.heard_le (hS : Sound J cfg c request es s) (hpeer : s.point.peer ≠ .lost) :
    s.asked.length ≤ 3 := by
  rw [hS.asked hpeer]
  exact (List.length_take_le' _ _).trans (Nat.le_of_eq length_script)

end Basics

/-! ## The steps of the host -/

section Host

variable {J : JsonText} {cfg : Config} {c : Nat} {request : Request} {es : List Rexec.Label}
  {s t : Ran} {l : Rexec.Label} {lines got : List Message} {last : Option Message}
  {torn : List UInt8} {h' : Host} {heard cut : Nat} {e : Event} {w : Worker}

/-- What happens elsewhere in the host. -/
theorem Sound.elsewhere (hS : Sound J cfg c request es s)
    (hstep : s.host.step cfg l = some h') (hl : ∀ e, l ≠ .worker c e) :
    Sound J cfg c request (es ++ [l]) { s with host := h' } := by
  have hevents := @eventsOf_elsewhere c es l hl
  have hworker := Link.host_elsewhere hstep hl
  refine ⟨(run_concat _).mpr ⟨_, hS.host, hstep⟩, hS.asked, ?_, fun hpeer => ?_,
    fun response hpoint => (hS.answered response hpoint).concat l⟩
  · rw [hevents]
    exact hS.heard
  · obtain ⟨lines, last, torn, got, hW⟩ := hS.wire hpeer
    refine ⟨lines, last, torn, got, hW.carries.keep rfl rfl,
      fun m hm response hr => (hW.said m hm response hr).concat l, fun hlast => ?_, ?_⟩
    · show s.gone = true ∨ (h'.workers c).Through s.heard
      rw [hworker]
      exact hW.silent hlast
    · rw [hevents]
      exact hW.noEof

/-- The lines heard, after a step of the worker. -/
theorem Sound.heard_own (hS : Sound J cfg c request es s) (hpeer : s.point.peer ≠ .lost)
    (hheard : s.hears c s.point.peer (.worker c e) = some heard) :
    heardLines (eventsOf c es ++ [e]) = s.asked.take heard ∧ heard ≤ s.asked.length := by
  obtain ⟨hlines, hle⟩ := hS.heard hpeer
  have hconcat : heardLines (eventsOf c es ++ [e]) =
      s.asked.take s.heard ++ heardLines [e] := by
    rw [← hlines]
    exact List.filterMap_append
  rw [hconcat]
  by_cases hread : ∃ text, e.readResult = some (.line text)
  · obtain ⟨text, hread⟩ := hread
    obtain ⟨htext, rfl⟩ := Link.hears_line hpeer hread hheard
    refine ⟨?_, lt_length_of_getElem? htext⟩
    rw [List.take_add_one, htext]
    simp [heardLines, hread]
  · have hnone : ∀ text, e.readResult ≠ some (.line text) := fun text h => hread ⟨text, h⟩
    obtain rfl := Link.hears_other hnone hheard
    have hnil : heardLines [e] = [] := by
      rw [heardLines, List.filterMap_cons]
      split
      · rfl
      · rename_i heq
        split at heq
        · rename_i text hr
          exact absurd hr (hnone text)
        · cases heq
    rw [hnil, List.append_nil]
    exact ⟨rfl, hle⟩

/-- A silent worker stays so. -/
theorem Silent.own (hs : Silent c s) (hlive : s.gone = false)
    (hw : (s.host.workers c).Step cfg e w) (hlen : s.asked.length ≤ 3)
    (hheard : s.hears c .present (.worker c e) = some heard) :
    e.message = none ∧ s.heard ≤ heard ∧
      (w = .exited ∨ 3 ≤ s.heard ∧ w = .lineLoop false) := by
  have hsilent := hs.resolve_left (by simp [hlive])
  generalize s.host.workers c = v at hw hsilent
  cases v with
  | exited => cases hw
  | submitting seq entry raw =>
      cases hw with
      | submit =>
          have hkeep := Link.hears_other (by simp [Event.readResult]) hheard
          exact ⟨rfl, Nat.le_of_eq hkeep.symm, .inr ⟨hsilent, rfl⟩⟩
  | lineLoop p =>
      cases hw with
      | @line _ r =>
          cases r with
          | line text =>
              obtain ⟨htext, -⟩ := Link.hears_line (by decide) rfl hheard
              have hlt := lt_length_of_getElem? htext
              have hthree : 3 ≤ s.heard := hsilent
              omega
          | eof =>
              obtain ⟨hleft, -⟩ := Link.hears_eof (by decide) rfl hheard
              cases hleft
          | timeout =>
              have hkeep := Link.hears_other (by simp [Event.readResult]) hheard
              exact ⟨rfl, Nat.le_of_eq hkeep.symm, .inl rfl⟩
          | error =>
              have hkeep := Link.hears_other (by simp [Event.readResult]) hheard
              exact ⟨rfl, Nat.le_of_eq hkeep.symm, .inl rfl⟩
  | _ => exact hsilent.elim

/-- The worker of a client that is there finds no end of its lines. -/
theorem Wire.noEof_own (hW : Wire J cfg c es s lines last torn got)
    (hheard : s.hears c .present (.worker c e) = some heard) :
    ∀ x ∈ eventsOf c (es ++ [.worker c e]), x.readResult ≠ some .eof := by
  rw [eventsOf_own]
  intro x hx heof
  rcases List.mem_append.mp hx with hx | hx
  · exact hW.noEof x hx heof
  · obtain rfl := List.mem_singleton.mp hx
    obtain ⟨hleft, -⟩ := Link.hears_eof (by decide) heof hheard
    cases hleft

theorem Wire.said_concat (hW : Wire J cfg c es s lines last torn got) (l : Rexec.Label)
    {m : Message} (hm : m ∈ lines ∨ last = some m) {response : Response}
    (hr : Response.ofJson m.toJson = some response) : Told cfg c (es ++ [l]) response :=
  (hW.said m hm response hr).concat l

/-- A message that the worker writes now. -/
theorem Wire.said_own (hW : Wire J cfg c es s lines last torn got)
    (hexplained : (s.host.workers c).Explained cfg (eventsOf c es))
    (hw : (s.host.workers c).Step cfg e w) {m : Message} {ok : Bool}
    (he : e.message = some (m, ok)) {response : Response}
    (hr : Response.ofJson m.toJson = some response) :
    Told cfg c (es ++ [.worker c e]) response := by
  obtain ⟨seq, hanswers⟩ := hexplained.tells (hw.message he) hr
  exact ⟨eventsOf c es, [e], seq, eventsOf_own, hW.noEof, hanswers⟩

/-- A step of the worker that writes nothing. -/
theorem Wire.stay (hW : Wire J cfg c es s lines last torn got)
    (hheard : s.hears c .present (.worker c e) = some heard) (he : e.message = none)
    (hsent : t.sent = s.sent ++ Link.puts J c (.worker c e) cut) (hread : t.read = s.read)
    (hsilent : last ≠ none → Silent c t) :
    Wire J cfg c (es ++ [.worker c e]) t lines last torn got := by
  rw [Link.puts_none J he, List.append_nil] at hsent
  exact ⟨hW.carries.keep hsent hread, fun m hm response hr => hW.said_concat _ hm hr, hsilent,
    hW.noEof_own hheard⟩

/-- The worker writes a line. -/
theorem Wire.line (hW : Wire J cfg c es s lines none torn got)
    (hexplained : (s.host.workers c).Explained cfg (eventsOf c es))
    (hw : (s.host.workers c).Step cfg e w)
    (hheard : s.hears c .present (.worker c e) = some heard) {m : Message}
    (he : e.message = some (m, true))
    (hsent : t.sent = s.sent ++ Link.puts J c (.worker c e) cut) (hread : t.read = s.read) :
    Wire J cfg c (es ++ [.worker c e]) t (lines ++ [m]) none [] got := by
  rw [Link.puts_some J he, Message.put_true] at hsent
  refine ⟨hW.carries.line hsent hread, ?_, fun h => absurd rfl h, hW.noEof_own hheard⟩
  rintro m' (hm' | hm') response hr
  · rcases List.mem_append.mp hm' with hm' | hm'
    · exact hW.said_concat _ (.inl hm') hr
    · rw [List.mem_singleton.mp hm'] at hr
      exact hW.said_own hexplained hw he hr
  · cases hm'

/-- The worker cannot write its line, and a part of it stays on the connection. -/
theorem Wire.part (hW : Wire J cfg c es s lines none torn got)
    (hexplained : (s.host.workers c).Explained cfg (eventsOf c es))
    (hw : (s.host.workers c).Step cfg e w)
    (hheard : s.hears c .present (.worker c e) = some heard) {m : Message}
    (he : e.message = some (m, false))
    (hsent : t.sent = s.sent ++ Link.puts J c (.worker c e) cut) (hread : t.read = s.read)
    (hsilent : Silent c t) :
    Wire J cfg c (es ++ [.worker c e]) t lines (some m) (m.put J false cut) got := by
  rw [Link.puts_some J he] at hsent
  refine ⟨hW.carries.part hsent hread (Message.put_isPrefix ..), ?_, fun _ => hsilent,
    hW.noEof_own hheard⟩
  rintro m' (hm' | hm') response hr
  · exact hW.said_concat _ (.inl hm') hr
  · cases hm'
    exact hW.said_own hexplained hw he hr

/-- After a write that fails nothing more is written. -/
theorem Sound.through (hS : Sound J cfg c request es s) (hping : cfg.IsPing pingLine)
    (hpeer : s.point.peer ≠ .lost) (hw : (s.host.workers c).Step cfg e w) {m : Message}
    (he : e.message = some (m, false)) : w.Through s.heard := by
  rcases hw.failed he with rfl | ⟨seq, entry, raw, rfl, response, rfl⟩
  · trivial
  · obtain ⟨num, hanswers⟩ :=
      (explained_run (Host.run_worker hS.host c)).answers (hw.message he)
    obtain ⟨text, hmem, hline⟩ := hanswers.line
    exact hS.heard_three hping hpeer hmem rfl hline

/-- A step of the worker of the connection. -/
theorem Sound.own (hS : Sound J cfg c request es s) (hping : cfg.IsPing pingLine)
    (hlive : s.gone = false) (hstep : s.host.step cfg (.worker c e) = some h')
    (hheard : s.hears c s.point.peer (.worker c e) = some heard) :
    Sound J cfg c request (es ++ [.worker c e])
      { s with host := h', heard, sent := s.sent ++ Link.puts J c (.worker c e) cut } := by
  obtain ⟨hs, w, -, hw, rfl⟩ := Host.step_worker hstep
  have hexplained := explained_run (Host.run_worker hS.host c)
  have hself : Function.update s.host.workers c w c = w := Function.update_self ..
  refine ⟨(run_concat _).mpr ⟨_, hS.host, hstep⟩, hS.asked, fun hpeer => ?_, fun hpeer => ?_,
    fun response hpoint => (hS.answered response hpoint).concat _⟩
  · rw [eventsOf_own]
    exact hS.heard_own hpeer hheard
  · obtain ⟨lines, last, torn, got, hW⟩ := hS.wire hpeer
    have hpresent : s.point.peer = .present := hpeer
    have hnotLost : s.point.peer ≠ .lost := by
      rw [hpresent]
      decide
    rw [hpresent] at hheard
    cases last with
    | some m =>
        obtain ⟨hnone, hgrows, hnext⟩ :=
          (hW.silent (by simp)).own hlive hw (hS.heard_le hnotLost) hheard
        refine ⟨_, _, _, _, hW.stay hheard hnone rfl rfl fun _ => .inr ?_⟩
        show (Function.update s.host.workers c w c).Through heard
        rw [hself]
        rcases hnext with rfl | ⟨hthree, rfl⟩
        · trivial
        · exact hthree.trans hgrows
    | none =>
        cases hm : e.message with
        | none => exact ⟨_, _, _, _, hW.stay hheard hm rfl rfl fun h => absurd rfl h⟩
        | some put =>
            obtain ⟨m, ok⟩ := put
            cases ok with
            | true => exact ⟨_, _, _, _, hW.line hexplained hw hheard hm rfl rfl⟩
            | false =>
                refine ⟨_, _, _, _, hW.part hexplained hw hheard hm rfl rfl (.inr ?_)⟩
                show (Function.update s.host.workers c w c).Through heard
                rw [hself, Link.hears_other (Event.message_reads hm) hheard]
                exact hS.through hping hnotLost hw hm

/-- The host ends. -/
theorem Sound.gone (hS : Sound J cfg c request es s) (hlive : s.gone = false)
    {part : List UInt8}
    (hpart : part = [] ∨ ∃ m, (s.host.workers c).message = some m ∧ part <+: m.frame J) :
    Sound J cfg c request es { s with gone := true, sent := s.sent ++ part } := by
  refine ⟨hS.host, hS.asked, hS.heard, fun hpeer => ?_, hS.answered⟩
  obtain ⟨lines, last, torn, got, hW⟩ := hS.wire hpeer
  rcases hpart with rfl | ⟨m, hm, hpart⟩
  · exact ⟨lines, last, torn, got, hW.carries.keep (List.append_nil _) rfl, hW.said,
      fun _ => .inl rfl, hW.noEof⟩
  · have hwhole : last = none := by
      by_contra hlast
      have hsilent := (hW.silent hlast).resolve_left (by simp [hlive])
      generalize s.host.workers c = v at hm hsilent
      cases v with
      | exited => cases hm
      | submitting => cases hm
      | lineLoop => cases hm
      | _ => exact hsilent.elim
    subst hwhole
    refine ⟨lines, some m, part, got, hW.carries.part rfl rfl hpart, ?_, fun _ => .inl rfl,
      hW.noEof⟩
    rintro m' (hm' | hm') response hr
    · exact hW.said m' (.inl hm') response hr
    · cases hm'
      obtain ⟨seq, hanswers⟩ := (explained_run (Host.run_worker hS.host c)).tells hm hr
      exact ⟨eventsOf c es, [], seq, (List.append_nil _).symm, hW.noEof, hanswers⟩

end Host

/-! ## The steps of the client -/

section Client

variable {J : JsonText} {cfg : Config} {c : Nat} {request : Request} {es : List Rexec.Label}
  {s : Ran} {timed : Bool} {text : String} {n : Nat} {p : RunPoint}

/-- The client gives up, and the host may hear anything of it. -/
theorem Sound.leave (hS : Sound J cfg c request es s) (hlost : p.peer = .lost) (n : Nat) :
    Sound J cfg c request es { s with read := s.read + n, point := p } := by
  refine ⟨hS.host, fun h => absurd hlost h, fun h => absurd hlost h, fun h => ?_,
    fun response h => ?_⟩
  · cases hlost.symm.trans h
  · obtain rfl | rfl : p = .disarming (.ok response) ∨ p = .returned (.answered response) := h
    · cases hlost
    · cases hlost

/-- The client goes on; `asked` are the lines it has written then. -/
theorem Sound.move (hS : Sound J cfg c request es s) {asked : List String}
    (hpeer : s.point.peer = .present) (hasked : asked = (script J request).take p.written)
    (hmore : s.asked <+: asked)
    (hnot : ∀ response, p ≠ .disarming (.ok response) ∧ p ≠ .returned (.answered response)) :
    Sound J cfg c request es { s with asked, point := p } := by
  have hnotLost : s.point.peer ≠ .lost := by
    rw [hpeer]
    decide
  refine ⟨hS.host, fun _ => hasked, fun _ => ?_, fun _ => ?_,
    fun response h => (h.elim (hnot response).1 (hnot response).2).elim⟩
  · obtain ⟨hlines, hle⟩ := hS.heard hnotLost
    obtain ⟨more, rfl⟩ := hmore
    refine ⟨?_, hle.trans (by simp)⟩
    rw [hlines]
    exact (List.take_append_of_le_length hle).symm
  · obtain ⟨lines, last, torn, got, hW⟩ := hS.wire hpeer
    exact ⟨lines, last, torn, got, hW.carries.keep rfl rfl, hW.said, hW.silent, hW.noEof⟩

theorem Sound.ponged (hJ : J.Strict) (hS : Sound J cfg c request es s)
    (hmove : s.point = .greeting ∧ p = .preparing ∨ s.point = .awaiting ∧ p = .requesting)
    (htakes : s.toLink.Takes c timed (.line text) n)
    (hpong : J.decode ControlResponse.ofJson (trimEnd text) = some .pong) :
    Sound J cfg c request es { s with read := s.read + n, point := p } := by
  have hpeer : s.point.peer = .present := by
    rcases hmove with ⟨hp, -⟩ | ⟨hp, -⟩ <;> rw [hp] <;> rfl
  have hwritten : s.point.written = p.written := by
    rcases hmove with ⟨hp, rfl⟩ | ⟨hp, rfl⟩ <;> rw [hp] <;> rfl
  have hnotLost : s.point.peer ≠ .lost := by
    rw [hpeer]
    decide
  refine ⟨hS.host, fun _ => hwritten ▸ hS.asked hnotLost, fun _ => hS.heard hnotLost, fun _ => ?_,
    fun response h => ?_⟩
  · obtain ⟨lines, last, torn, got, hW⟩ := hS.wire hpeer
    cases hW.carries.take hJ htakes with
    | next m hm htext hnext =>
        exact ⟨lines, last, torn, got ++ [m], hnext, hW.said, hW.silent, hW.noEof⟩
    | broken m _ _ hnone =>
        rw [JsonText.decode, hnone] at hpong
        cases hpong
  · rcases hmove with ⟨-, rfl⟩ | ⟨-, rfl⟩ <;> rcases h with h | h <;> cases h

/-- The client reads its response: the worker had it to write. -/
theorem Sound.receive (hJ : J.Strict) (hS : Sound J cfg c request es s) {response : Response}
    (hpoint : s.point = .receiving) (htakes : s.toLink.Takes c timed (.line text) n)
    (hresponse : J.decode Response.ofJson (trimEnd text) = some response) :
    Sound J cfg c request es
      { s with read := s.read + n, point := .disarming (.ok response) } := by
  have hpeer : s.point.peer = .present := by
    rw [hpoint]
    rfl
  have hnotLost : s.point.peer ≠ .lost := by
    rw [hpeer]
    decide
  have hasked := hS.asked hnotLost
  rw [hpoint] at hasked
  obtain ⟨lines, last, torn, got, hW⟩ := hS.wire hpeer
  cases hW.carries.take hJ htakes with
  | next m hm htext hnext =>
      refine ⟨hS.host, fun _ => hasked, fun _ => hS.heard hnotLost,
        fun _ => ⟨lines, last, torn, got ++ [m], hnext, hW.said, hW.silent, hW.noEof⟩,
        fun response' h => ?_⟩
      obtain rfl : response = response' := by
        rcases h with h | h <;> cases h
        rfl
      rw [htext, decode_toString hJ.toLawful] at hresponse
      refine hW.said m ?_ response hresponse
      rcases hm with hm | ⟨hlast, -⟩
      · exact .inl (hm.subset (by simp))
      · exact .inr hlast
  | broken m _ _ hnone =>
      rw [JsonText.decode, hnone] at hresponse
      cases hresponse

/-- The guard is disarmed, and the client prints its response. -/
theorem Sound.disarm (hS : Sound J cfg c request es s) {result : Except String Response}
    (hpoint : s.point = .disarming result) :
    Sound J cfg c request es { s with point := .returned (.ofResult result) } := by
  cases result with
  | error err => exact hS.leave rfl 0
  | ok response =>
      have hnotLost : s.point.peer ≠ .lost := by
        rw [hpoint]
        simp [RunPoint.peer]
      have hasked := hS.asked hnotLost
      rw [hpoint] at hasked
      refine ⟨hS.host, fun _ => hasked, fun _ => hS.heard hnotLost, fun h => (by cases h),
        fun response' h => ?_⟩
      obtain rfl : response = response' := by
        rcases h with h | h <;> cases h
        rfl
      exact hS.answered response (.inl hpoint)

end Client

/-! ## The run -/

section Run

variable {J : JsonText} {cfg : Config} {c : Nat} {request : Request} {s t : Ran} {l : Label}
  {ls : List Label} {es : List Rexec.Label}

theorem Sound.step (hJ : J.Strict) (hping : cfg.IsPing pingLine)
    (hS : Sound J cfg c request es s) (hstep : s.step J cfg c request l = some t) :
    Sound J cfg c request (es ++ hosts [l]) t := by
  have hnone : ∀ {t}, Sound J cfg c request es t → Sound J cfg c request (es ++ []) t :=
    fun h => (List.append_nil es).symm ▸ h
  cases step_cases J cfg c request hstep with
  | net hnet =>
      cases hnet with
      | @host l cut h' heard hlive hhost hheard =>
          by_cases hl : ∃ e, l = .worker c e
          · obtain ⟨e, rfl⟩ := hl
            exact hS.own hping hlive hhost hheard
          · have hl' : ∀ e, l ≠ .worker c e := fun e he => hl ⟨e, he⟩
            have hS' := hS.elsewhere hhost hl'
            rw [Link.hears_elsewhere hl'] at hheard
            cases hheard
            rw [Link.puts_elsewhere J hl', List.append_nil]
            exact hS'
      | gone hlive hpart => exact hnone (hS.gone hlive hpart)
  | leave hl hlost =>
      rw [hl]
      exact hnone (hS.leave hlost _)
  | unprepared hpoint =>
      have hasked := hS.asked (by rw [hpoint]; decide)
      rw [hpoint] at hasked
      exact hnone (hS.move (by rw [hpoint]; rfl) hasked (List.prefix_refl _) (by simp))
  | prepared hpoint =>
      have hasked := hS.asked (by rw [hpoint]; decide)
      rw [hpoint] at hasked
      exact hnone (hS.move (by rw [hpoint]; rfl) hasked (List.prefix_refl _) (by simp))
  | ponged hl hmove htakes hpong =>
      rw [hl]
      exact hnone (hS.ponged hJ hmove htakes hpong)
  | ask hl hmove =>
      rw [hl]
      rcases hmove with ⟨hpoint, rfl, rfl⟩ | ⟨hpoint, rfl, rfl⟩
      · have hasked := hS.asked (by rw [hpoint]; decide)
        rw [hpoint] at hasked
        exact hnone (hS.move (by rw [hpoint]; rfl) (by rw [hasked]; rfl) (List.prefix_append _ _)
          (by simp))
      · have hasked := hS.asked (by rw [hpoint]; decide)
        rw [hpoint] at hasked
        exact hnone (hS.move (by rw [hpoint]; rfl) (by rw [hasked]; rfl) (List.prefix_append _ _)
          (by simp))
  | answered hpoint htakes hresponse => exact hnone (hS.receive hJ hpoint htakes hresponse)
  | disarmed hpoint => exact hnone (hS.disarm hpoint)

theorem sound_run (hJ : J.Strict) (hping : cfg.IsPing pingLine)
    (hrun : Machine.run (step J cfg c request) init ls = some s) :
    Sound J cfg c request (hosts ls) s := by
  refine run_induction (P := fun ls s => Sound J cfg c request (hosts ls) s)
    (sound_init J cfg c request) ?_ hrun
  rintro ls s l t - hS hstep
  have hhosts : hosts (ls ++ [l]) = hosts ls ++ hosts [l] := List.filterMap_append
  rw [hhosts]
  exact hS.step hJ hping hstep

end Run

end Ran

/-! ## One command -/

/-- The worker takes a number, or spawns a command. -/
def Event.starts : Event → Bool
  | .fetchAdd _ _ => true
  | .spawn _ _ => true
  | _ => false

/-- What the events of the worker tell of a response to a request. -/
inductive Reported (cfg : Config) (request : Request) (es : List Event) (response : Response) :
    Prop where
  | empty (hexec : request.exec = []) (hresponse : response = emptyExecResponse)
      (hnone : ∀ e ∈ es, e.starts = false)
  | command {front : List Event} {x : Exec} {during after : List Event}
      (hes : es = front ++ (x.opening ++ during) ++ after) (hrequest : x.request = request)
      (hreports : x.Reports cfg during response)
      (honce : ∀ e ∈ front ++ after, e.starts = false)
      (haborted : response.error = some errorAborted → .watcherRead .error ∈ during)

section Once

variable {J : JsonText} {cfg : Config} {request : Request} {w w' : Worker}
  {es front during after : List Event} {e : Event} {text : String}

/-- A number is taken, and a command spawned, right behind a line that is accepted. -/
theorem Worker.Step.starts (h : w.Step cfg e w') (hw : w.Explained cfg es)
    (he : e.starts = true) :
    ∃ front text request rest, es = front ++ .readLine (.line text) :: rest ∧
      rest.length ≤ 1 ∧ cfg.Accepts text request := by
  cases h with
  | fetchAdd =>
      obtain ⟨front, text, rfl, haccepts⟩ := hw
      exact ⟨front, text, _, [], rfl, Nat.zero_le 1, haccepts⟩
  | @spawned seq request time child =>
      obtain ⟨front, text, rfl, haccepts⟩ := hw
      exact ⟨front, text, _, [.fetchAdd seq time], rfl, Nat.le_refl 1, haccepts⟩
  | @spawnFailed seq request time err =>
      obtain ⟨front, text, rfl, haccepts⟩ := hw
      exact ⟨front, text, _, [.fetchAdd seq time], rfl, Nat.le_refl 1, haccepts⟩
  | foreground hf => cases hf <;> cases he
  | background hb => cases hb <;> cases he
  | _ => cases he

theorem starts_of_run (hrun : run (Worker.step cfg) .start (front ++ e :: after) = some w)
    (he : e.starts = true) :
    ∃ front' text request rest, front = front' ++ .readLine (.line text) :: rest ∧
      rest.length ≤ 1 ∧ cfg.Accepts text request := by
  obtain ⟨v, v', hbefore, hstep⟩ := exists_step_of_run _ hrun
  exact (Worker.step_cases hstep).starts (explained_run hbefore) he

theorem heardLines_read (front after : List Event) (text : String) :
    heardLines (front ++ .readLine (.line text) :: after) =
      heardLines front ++ text :: heardLines after := by
  simp [heardLines, Event.readResult]

/-- Of the lines of the client only the last is a request. -/
theorem heard_request (hping : cfg.IsPing pingLine)
    (hlines : heardLines (front ++ .readLine (.line text) :: after) <+: Ran.script J request)
    (hline : cfg.IsRequestLine text) :
    (heardLines front).length = 2 ∧ heardLines after = [] ∧
      text = Ran.requestLine J request := by
  have hne : text ≠ pingLine := by
    rintro rfl
    exact absurd (hping.symm.trans hline.2) (by simp)
  rw [heardLines_read] at hlines
  obtain ⟨rest, hrest⟩ := hlines
  generalize heardLines front = xs at hrest ⊢
  generalize heardLines after = ys at hrest ⊢
  rcases xs with _ | ⟨x, _ | ⟨y, _ | ⟨z, zs⟩⟩⟩
  · simp only [Ran.script, List.nil_append, List.cons_append, List.cons.injEq] at hrest
    exact absurd hrest.1 hne
  · simp only [Ran.script, List.cons_append, List.nil_append, List.cons.injEq] at hrest
    exact absurd hrest.2.1 hne
  · simp only [Ran.script, List.cons_append, List.nil_append, List.cons.injEq,
      List.append_eq_nil_iff] at hrest
    exact ⟨rfl, hrest.2.2.2.1, hrest.2.2.1⟩
  · simp [Ran.script] at hrest

/-- A start stands right behind the line of the request. -/
theorem starts_place (hping : cfg.IsPing pingLine)
    (hrun : run (Worker.step cfg) .start (front ++ e :: after) = some w)
    (hlines : heardLines (front ++ e :: after) <+: Ran.script J request)
    (he : e.starts = true) :
    ∃ front' text r rest, front = front' ++ .readLine (.line text) :: rest ∧
      rest.length ≤ 1 ∧ cfg.Accepts text r ∧ (heardLines front').length = 2 ∧
      text = Ran.requestLine J request := by
  obtain ⟨front', text, r, rest, rfl, hshort, haccepts⟩ := starts_of_run hrun he
  rw [List.append_assoc, List.cons_append] at hlines
  obtain ⟨htwo, -, htext⟩ := heard_request hping hlines haccepts.line
  exact ⟨front', text, r, rest, rfl, hshort, haccepts, htwo, htext⟩

/-- The request is read in one place. -/
theorem read_once {front' after' : List Event} {text' : String}
    (heq : front ++ .readLine (.line text) :: after =
      front' ++ .readLine (.line text') :: after')
    (h : (heardLines front).length = 2) (h' : (heardLines front').length = 2) :
    front = front' := by
  rcases List.append_eq_append_iff.mp heq with ⟨mid, hfront, hrest⟩ | ⟨mid, hfront, hrest⟩
  · cases mid with
    | nil => rw [hfront, List.append_nil]
    | cons e mid =>
        obtain ⟨rfl, -⟩ := List.cons_eq_cons.mp hrest
        rw [hfront, heardLines_read, List.length_append, List.length_cons] at h'
        omega
  · cases mid with
    | nil => rw [hfront, List.append_nil]
    | cons e mid =>
        obtain ⟨rfl, -⟩ := List.cons_eq_cons.mp hrest
        rw [hfront, heardLines_read, List.length_append, List.length_cons] at h
        omega

/-- A command is aborted only for a read that failed, when no line is heard meanwhile. -/
theorem Exec.Reports.aborted {x : Exec} {response : Response}
    (h : x.Reports cfg during response) (hlines : heardLines during = [])
    (hnoEof : ∀ e ∈ during, e.readResult ≠ some .eof)
    (haborted : response.error = some errorAborted) : .watcherRead .error ∈ during := by
  cases h with
  | notSpawned => simp [spawnFailedResponse, errorAborted] at haborted
  | spawned hresult hcommand hwait hcode herrno htag htimedOut hexpired htimeout hkilled
      hwatched =>
      have herror := (congrArg Prod.fst htag).symm.trans haborted
      obtain ⟨r, hr, hterm⟩ := hwatched.mp (classify_aborted herror)
      cases r with
      | line text =>
          have hmem := mem_heardLines hr rfl
          rw [hlines] at hmem
          cases hmem
      | eof => exact absurd rfl (hnoEof _ hr)
      | timeout => cases hterm
      | error => exact hr

end Once

namespace Ran

section Law

variable {J : JsonText} {message : String → String} {silent : Bool} {c : Nat}
  {request : Request} {s : Ran} {ls : List Label} {es : List Rexec.Label}

theorem Sound.reported (hJ : J.Lawful) (hping : J.line ClientAction.ping.toJson = pingLine)
    (hS : Sound J (.ofJson J message silent) c request es s) {response : Response}
    (hpoint : s.point = .returned (.answered response)) :
    Reported (.ofJson J message silent) request (eventsOf c es) response := by
  have hisPing : (Config.ofJson J message silent).IsPing pingLine :=
    hping ▸ Config.ofJson_action hJ .ping
  have hnotLost : s.point.peer ≠ .lost := by
    rw [hpoint]
    simp [RunPoint.peer]
  have hlines : heardLines (eventsOf c es) <+: script J request := by
    rw [(hS.heard hnotLost).1, hS.asked hnotLost, List.take_take]
    exact List.take_prefix _ _
  have hworker := Host.run_worker hS.host c
  have hdecode : (Config.ofJson J message silent).request (trimEnd (requestLine J request)) =
      .ok request := (Config.ofJson_request hJ request).2
  -- a line that is accepted is that of the request
  have haccepted : ∀ {text r}, (Config.ofJson J message silent).Accepts text r →
      text = requestLine J request → r = request := by
    rintro text r haccepts rfl
    have hok := haccepts.read.symm.trans hdecode
    cases hok
    rfl
  obtain ⟨before, after, seq, hes, hnoEof, hanswers⟩ := hS.answered response (.inr hpoint)
  rw [hes] at hlines hworker ⊢
  rcases hanswers with ⟨-, front, text, rfl, hrefuses⟩ |
    ⟨front, x, during, rfl, -, haccepts, hreports⟩
  · rw [List.append_assoc] at hlines hworker ⊢
    obtain ⟨-, -, rfl⟩ := heard_request hisPing hlines hrefuses.line
    rcases hrefuses.cause with ⟨err, herr, -⟩ | ⟨r, hr, hexec, rfl⟩
    · cases herr.symm.trans hdecode
    · obtain rfl : r = request := by
        have hok := hr.symm.trans hdecode
        cases hok
        rfl
      refine .empty (List.isEmpty_iff.mp hexec) rfl fun e he => ?_
      by_contra hstarts
      obtain ⟨a, b, hab⟩ := List.append_of_mem he
      rw [hab] at hlines hworker
      obtain ⟨a', text', r', rest, rfl, -, haccepts, -, htext⟩ :=
        starts_place hisPing hworker hlines (by simpa using hstarts)
      obtain rfl := haccepted haccepts htext
      cases hexec.symm.trans haccepts.exec
  · have hwhole : front ++ (x.opening ++ during) ++ after = front ++ .readLine (.line x.text) ::
        (.fetchAdd x.seq x.time :: .spawn x.request x.result :: during ++ after) := by
      simp [Exec.opening]
    have hplace := hlines
    rw [hwhole] at hplace
    obtain ⟨htwo, hquiet, htext⟩ := heard_request hisPing hplace haccepts.line
    have hduring : heardLines during = [] := by
      have hsplit : heardLines (.fetchAdd x.seq x.time :: .spawn x.request x.result ::
          during ++ after) = heardLines during ++ heardLines after := by
        simp [heardLines, Event.readResult]
      exact (List.append_eq_nil_iff.mp (hsplit.symm.trans hquiet)).1
    refine .command rfl (haccepted haccepts htext) hreports (fun e he => ?_)
      (hreports.aborted hduring fun e he => hnoEof e (by simp [he]))
    by_contra hstarts
    rcases List.mem_append.mp he with he | he
    · obtain ⟨a, b, rfl⟩ := List.append_of_mem he
      rw [List.append_assoc, List.append_assoc, List.cons_append] at hworker hlines
      obtain ⟨a', text', r', rest, rfl, -, -, htwo', -⟩ :=
        starts_place hisPing hworker hlines (by simpa using hstarts)
      rw [List.append_assoc, List.cons_append] at htwo
      rw [heardLines_read, List.length_append, List.length_cons] at htwo
      omega
    · obtain ⟨a, b, rfl⟩ := List.append_of_mem he
      rw [← List.append_assoc] at hworker hlines
      obtain ⟨a', text', r', rest, hsplit, hshort, -, htwo', -⟩ :=
        starts_place hisPing hworker hlines (by simpa using hstarts)
      have heq : front ++ .readLine (.line x.text) ::
          (.fetchAdd x.seq x.time :: .spawn x.request x.result :: during ++ a) =
          a' ++ .readLine (.line text') :: rest := by
        rw [← hsplit]
        simp [Exec.opening]
      obtain rfl := read_once heq htwo htwo'
      have hlength := congrArg List.length heq
      simp only [List.length_append, List.length_cons, List.cons_append] at hlength
      omega

/--
Whatever `client::run` prints on its standard output, and every exit code of it but 127,
is the report of its own request: `exec is empty` if there is nothing to execute, and
otherwise what came of its command, which was spawned once and aborted only if a read of
the socket failed.
-/
theorem run_reports (hJ : J.Strict) (hping : J.line ClientAction.ping.toJson = pingLine)
    (hrun : Machine.run (step J (.ofJson J message silent) c request) init ls = some s)
    {exit : RunExit} (hexit : s.point = .returned exit) {out : RunOutput}
    (hout : exit.output request.exec = some out) :
    (out.stdout = "" ∧ out.exit = 127 ∧ ∀ response, exit ≠ .answered response) ∨
      ∃ response, exit = .answered response ∧ out = runOutput request.exec (.ok response) ∧
        Reported (.ofJson J message silent) request (eventsOf c (hosts ls)) response := by
  have hisPing : (Config.ofJson J message silent).IsPing pingLine :=
    hping ▸ Config.ofJson_action hJ.toLawful .ping
  have hS := sound_run hJ hisPing hrun
  cases exit with
  | answered response =>
      cases hout
      exact .inr ⟨response, rfl, rfl, hS.reported hJ.toLawful hping hexit⟩
  | killed => cases hout
  | hostNotFound =>
      cases hout
      exact .inl ⟨rfl, rfl, by simp⟩
  | notPrepared message =>
      cases hout
      exact .inl ⟨rfl, rfl, by simp⟩
  | requestFailed err =>
      cases hout
      exact .inl ⟨rfl, rfl, by simp⟩

end Law

end Ran

end Rexec
