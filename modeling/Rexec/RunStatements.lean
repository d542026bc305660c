import Rexec.RunReportLaw
import Mathlib.Tactic

/-!
# The statements of `client::run` beside the host

`RunClient` is `run` statement by statement, with its handlers and its guard.
Here it stands on a link: its reads take what is on the link, and a line that it
has written can be heard.

`ran` says where such a client stands as a `Ran`, which makes every step of it or
stays where it is (`ran_step`).  So a whole run of the statements is a run of
`Ran` with the same steps of the host (`ran_run`), and what the user is told of
is explained there as well (`statements_report`).
-/

namespace Rexec

open Machine

/-! ## The phases of `run` -/

namespace RunClient

/-- What a call of `run` does to its phase. -/
inductive Goes : Act → RunPhase → RunPhase → Prop where
  | connected : Goes (.connect true) .connecting .hello
  | notConnected : Goes (.connect false) .connecting .exited
  | writing {n : Nat} {ph : RunPhase} : Goes (.write n) ph ph
  | wrote {n : Nat} {ph next : RunPhase} (h : written ph = some next) : Goes (.write n) ph next
  | notOpened : Goes .writeFailed .hello .exited
  | notWritten {ph : RunPhase} (h : ph = .ping ∨ ph = .sending) : Goes .writeFailed ph .disarming
  | greeted : Goes (.read true) .greeting .preparing
  | notGreeted : Goes (.read false) .greeting .exited
  | ponged : Goes (.read true) .pong .sending
  | notPonged : Goes (.read false) .pong .disarming
  | received {ok : Bool} : Goes (.read ok) .receiving .disarming
  | prepared : Goes (.prepare true) .preparing (.installing [.int, .term, .hup])
  | notPrepared : Goes (.prepare false) .preparing .exited
  | install {sig : AbortSignal} {todo : List AbortSignal} :
      Goes .install (.installing (sig :: todo))
        (if todo = [] then .arming else .installing todo)
  | arm : Goes .arm .arming .ping
  | disarm : Goes .disarm .disarming .reporting
  | finish : Goes .finish .reporting .exited
  | unwinds {ph : RunPhase} (h : ph.guarded = true) (hnot : ph ≠ .unwinding ∧ ph ≠ .unwound) :
      Goes .panic ph .unwinding
  | panics {ph : RunPhase} (h : ph.guarded = false) (hnot : ph ≠ .exited) :
      Goes .panic ph .exited
  | guardWrite {n : Nat} : Goes (.guardWrite n) .unwinding .unwound
  | guardDisarm : Goes .guardDisarm .unwound .exited

variable {requestLine : List UInt8} {s t : RunClient}

theorem act_goes {a : Act} (h : s.act requestLine a = some t) :
    Goes a s.phase t.phase ∧ t.alive = s.alive ∧ t.handling = s.handling := by
  cases a with
  | connect ok =>
      simp only [act] at h
      split at h
      · rename_i hphase
        rw [hphase]
        cases ok <;> cases h
        · exact ⟨.notConnected, rfl, rfl⟩
        · exact ⟨.connected, rfl, rfl⟩
      · cases h
  | write n =>
      simp only [act] at h
      split at h
      · rename_i next hnext
        split at h
        · cases h
          split
          · exact ⟨.wrote hnext, rfl, rfl⟩
          · exact ⟨.writing, rfl, rfl⟩
        · cases h
      · cases h
  | writeFailed =>
      simp only [act] at h
      split at h
      · rename_i hwritten
        unfold RunClient.fail at h
        cases hphase : s.phase <;> rw [hphase] at h hwritten <;> cases h <;> cases hwritten
        · exact ⟨.notOpened, rfl, rfl⟩
        · exact ⟨.notWritten (.inl rfl), rfl, rfl⟩
        · exact ⟨.notWritten (.inr rfl), rfl, rfl⟩
      · cases h
  | read ok =>
      simp only [act] at h
      split at h
      · rename_i hphase
        rw [hphase]
        cases ok with
        | true =>
            cases h
            exact ⟨.greeted, rfl, rfl⟩
        | false =>
            simp only [RunClient.fail, hphase, Bool.false_eq_true, if_false] at h
            cases h
            exact ⟨.notGreeted, rfl, rfl⟩
      · rename_i hphase
        rw [hphase]
        cases ok with
        | true =>
            cases h
            exact ⟨.ponged, rfl, rfl⟩
        | false =>
            simp only [RunClient.fail, hphase, Bool.false_eq_true, if_false] at h
            cases h
            exact ⟨.notPonged, rfl, rfl⟩
      · rename_i hphase
        rw [hphase]
        cases h
        exact ⟨.received, rfl, rfl⟩
      · cases h
  | prepare ok =>
      simp only [act] at h
      split at h
      · rename_i hphase
        rw [hphase]
        cases ok <;> cases h
        · exact ⟨.notPrepared, rfl, rfl⟩
        · exact ⟨.prepared, rfl, rfl⟩
      · cases h
  | install =>
      simp only [act] at h
      split at h
      · rename_i hphase
        rw [hphase]
        cases h
        exact ⟨.install, rfl, rfl⟩
      · cases h
  | arm =>
      simp only [act] at h
      split at h
      · rename_i hphase
        rw [hphase]
        cases h
        exact ⟨.arm, rfl, rfl⟩
      · cases h
  | disarm =>
      simp only [act] at h
      split at h
      · rename_i hphase
        rw [hphase]
        cases h
        exact ⟨.disarm, rfl, rfl⟩
      · cases h
  | finish =>
      simp only [act] at h
      split at h
      · rename_i hphase
        rw [hphase]
        cases h
        exact ⟨.finish, rfl, rfl⟩
      · cases h
  | panic =>
      simp only [act] at h
      cases hphase : s.phase <;> rw [hphase] at h <;> cases h
      all_goals first
        | exact ⟨.unwinds rfl (by simp), rfl, rfl⟩
        | exact ⟨.panics rfl (by simp), rfl, rfl⟩
  | guardWrite n =>
      simp only [act] at h
      split at h
      · rename_i hphase
        rw [hphase.1]
        cases h
        exact ⟨.guardWrite, rfl, rfl⟩
      · cases h
  | guardDisarm =>
      simp only [act] at h
      split at h
      · rename_i hphase
        rw [hphase]
        cases h
        exact ⟨.guardDisarm, rfl, rfl⟩
      · cases h

/-- No signal is handled, and `run` goes on. -/
def Idle (s : RunClient) : Prop :=
  s.alive = true ∧ s.handling = []

instance (s : RunClient) : Decidable s.Idle :=
  inferInstanceAs (Decidable (s.alive = true ∧ s.handling = []))

/-- A step of the signals: `run` does not go on behind it. -/
theorem step_cases {l : Label} (h : s.step requestLine l = some t) :
    (∃ a, l = .main a ∧ s.Idle ∧ t.Idle ∧ Goes a s.phase t.phase) ∨
      (∀ a, l ≠ .main a) ∧ t.phase = s.phase ∧ ¬ t.Idle := by
  cases l with
  | main a =>
      simp only [step] at h
      split at h
      · rename_i hidle
        obtain ⟨hgoes, halive, hhandling⟩ := act_goes h
        exact .inl ⟨a, rfl, hidle, ⟨halive.trans hidle.1, hhandling.trans hidle.2⟩, hgoes⟩
      · cases h
  | signal sig =>
      simp only [step] at h
      split at h
      · cases h
        split
        · exact .inr ⟨by simp, rfl, fun hidle => by cases hidle.2⟩
        · exact .inr ⟨by simp, rfl, fun hidle => by cases hidle.1⟩
      · cases h
  | abortWrite n =>
      simp only [step] at h
      split at h
      · split at h
        · cases h
          split
          · exact .inr ⟨by simp, rfl, fun hidle => by cases hidle.2⟩
          · exact .inr ⟨by simp, rfl, fun hidle => by cases hidle.2⟩
        · cases h
      · cases h
  | die =>
      simp only [step] at h
      split at h
      · split at h
        · cases h
          exact .inr ⟨by simp, rfl, fun hidle => by cases hidle.1⟩
        · cases h
      · cases h
  | kill =>
      simp only [step] at h
      split at h
      · cases h
        exact .inr ⟨by simp, rfl, fun hidle => by cases hidle.1⟩
      · cases h

end RunClient

/-! ## `run` over its link -/

/-- `run` is through with the connection. -/
def RunPhase.settled : RunPhase → Bool
  | .reporting | .exited => true
  | _ => false

/-- Where the client stands; `result` is what came of the request, and `exit` how `run` ends. -/
def RunPhase.point (result : Except String Response) (exit : RunExit) : RunPhase → RunPoint
  | .connecting | .hello | .greeting => .greeting
  | .preparing | .installing _ | .arming => .preparing
  | .ping => .pinging
  | .pong => .awaiting
  | .sending => .requesting
  | .receiving => .receiving
  | .disarming => .disarming result
  | .unwinding | .unwound => .returned .killed
  | .reporting | .exited => .returned exit

/-- A read that lets `run` go on. -/
def RunPoint.goesOn : RunPoint → Bool
  | .returned _ => false
  | .disarming (.error _) => false
  | _ => true

/-- What came of the request, if that is known now. -/
def RunPoint.result (old : Except String Response) : RunPoint → Except String Response
  | .disarming result => result
  | _ => old

structure Running extends Link where
  client : RunClient
  result : Except String Response
  exit : RunExit

namespace Running

variable (J : JsonText) (cfg : Config) (c : Nat) (request : Request)

/-- The opening Ping is on the link from the start; the result and the exit are not read. -/
def init : Running :=
  { Link.init with client := .init, result := .error "", exit := .killed }

/-- Where the client stands for the host: a signal has cut it off, or it goes on. -/
def point (s : Running) : RunPoint :=
  if s.client.phase.settled = true ∨ s.client.Idle then
    s.client.phase.point s.result s.exit
  else .returned .killed

inductive Label where
  | net (l : Link.Label)
  /-- `err` is the text of the error, if there is one -/
  | client (l : RunClient.Label) (err : String)
  | read (r : ReadLine) (cleared : Bool) (err : String)

/-- The line that is complete when `run` gets from one phase to another. -/
def completed : RunPhase → RunPhase → List String
  | .ping, .pong => [pingLine]
  | .sending, .receiving => [Ran.requestLine J request]
  | _, _ => []

/-- What a read comes to, and whether the socket has a timeout then. -/
def afterRead (ph : RunPhase) (r : ReadLine) (cleared : Bool) (err : String) :
    Option (Bool × RunPoint) :=
  match ph with
  | .greeting => some (true, Ran.afterGreeting J r cleared)
  | .pong => some (true, Ran.afterPong J r cleared err)
  | .receiving => some (false, Ran.afterResponse J r err)
  | _ => none

/-- How `run` ends, as far as a step of the client says. -/
def exitOf (s : Running) (err : String) : RunClient.Label → RunExit
  | .main (.connect _) => .hostNotFound
  | .main .writeFailed => .hostNotFound
  | .main (.prepare _) => .notPrepared err
  | .main .disarm => .ofResult s.result
  | .main .panic => if s.client.phase = .reporting then s.exit else .killed
  | .main .guardDisarm => .killed
  | _ => s.exit

def resultOf (s : Running) (err : String) : RunClient.Label → Except String Response
  | .main .writeFailed => .error err
  | _ => s.result

def step (s : Running) : Label → Option Running
  | .net l => (s.toLink.step J cfg c s.point.peer l).map fun k => { s with toLink := k }
  | .client (.main (.read _)) _ => none
  | .client l err =>
      (s.client.step (bytes (Ran.requestLine J request)) l).map fun k =>
        { s with
          client := k, asked := s.asked ++ completed J request s.client.phase k.phase
          result := s.resultOf err l, exit := s.exitOf err l }
  | .read r cleared err =>
      match afterRead J s.client.phase r cleared err with
      | none => none
      | some (timed, p) =>
          match s.toLink.takes c timed r,
              s.client.step (bytes (Ran.requestLine J request)) (.main (.read p.goesOn)) with
          | some n, some k =>
              some { s with
                read := s.read + n, client := k, result := p.result s.result
                exit := .hostNotFound }
          | _, _ => none

/-- The steps of the host in a run. -/
def hosts (es : List Label) : List Rexec.Label :=
  es.filterMap fun
    | .net (.host l _) => some l
    | _ => none

/-- The client as `Ran` has it. -/
def ran (s : Running) : Ran :=
  { toLink := s.toLink, point := s.point }

variable {J : JsonText} {cfg : Config} {c : Nat} {request : Request} {s t : Running} {l : Label}

/-- A step of the statements is one of `Ran`, or `Ran` stays where it is. -/
def Matched (J : JsonText) (cfg : Config) (c : Nat) (request : Request) (s : Ran)
    (host : List Rexec.Label) (t : Ran) : Prop :=
  (t = s ∧ host = []) ∨ ∃ l, Ran.hosts [l] = host ∧ s.step J cfg c request l = some t

theorem point_idle (h : s.client.Idle) : s.point = s.client.phase.point s.result s.exit :=
  if_pos (.inr h)

theorem afterGreeting_cases (r : ReadLine) (cleared : Bool) :
    Ran.afterGreeting J r cleared = .preparing ∨
      Ran.afterGreeting J r cleared = .returned .hostNotFound := by
  unfold Ran.afterGreeting
  repeat' split
  all_goals first | exact .inl rfl | exact .inr rfl

theorem afterPong_cases (r : ReadLine) (cleared : Bool) (err : String) :
    Ran.afterPong J r cleared err = .requesting ∨
      ∃ text, Ran.afterPong J r cleared err = .disarming (.error text) := by
  unfold Ran.afterPong
  repeat' split
  all_goals first | exact .inl rfl | exact .inr ⟨_, rfl⟩

theorem afterResponse_cases (r : ReadLine) (err : String) :
    ∃ result, Ran.afterResponse J r err = .disarming result := by
  unfold Ran.afterResponse
  repeat' split
  all_goals exact ⟨_, rfl⟩

/-- A signal cuts the client off. -/
theorem matched_cut {k : RunClient} {asked : List String} {result : Except String Response}
    {exit : RunExit} (hasked : asked = s.asked) (hphase : k.phase = s.client.phase)
    (hidle : ¬ k.Idle) (hresult : result = s.result) (hexit : exit = s.exit) :
    Matched J cfg c request s.ran []
      (ran { s with client := k, asked, result, exit }) := by
  subst hasked hresult hexit
  cases hsettled : s.client.phase.settled with
  | true =>
      refine .inl ⟨?_, rfl⟩
      simp only [ran, point, hphase, hsettled, true_or, if_true]
  | false =>
      have ht : point { s with client := k } = .returned .killed := by
        simp [point, hphase, hsettled, hidle]
      cases hreturned : s.point.isReturned with
      | false =>
          refine .inr ⟨.die, rfl, ?_⟩
          simp only [Ran.step, ran, hreturned, ht, Bool.false_eq_true, if_false]
      | true =>
          refine .inl ⟨?_, rfl⟩
          have hs : s.point = .returned .killed := by
            unfold point at hreturned ⊢
            split
            · rename_i h
              have hback := h.resolve_left (by simp [hsettled])
              rw [if_pos h] at hreturned
              cases hph : s.client.phase <;> rw [hph] at hreturned hsettled <;>
                first | rfl | exact absurd hsettled (by decide) | cases hreturned
            · rfl
          simp only [ran, ht, hs]

/-- A call of `run` that reads nothing. -/
theorem matched_main {a : RunClient.Act} {k : RunClient} (hread : ∀ ok, a ≠ .read ok)
    (hidle : s.client.Idle) (hidle' : k.Idle)
    (hgoes : RunClient.Goes a s.client.phase k.phase) (err : String) :
    Matched J cfg c request s.ran []
      (ran { s with
        client := k, asked := s.asked ++ completed J request s.client.phase k.phase
        result := s.resultOf err (.main a), exit := s.exitOf err (.main a) }) := by
  have hs : s.ran = { toLink := s.toLink, point := s.client.phase.point s.result s.exit } := by
    rw [ran, point_idle hidle]
  have ht := @point_idle { s with
    client := k, asked := s.asked ++ completed J request s.client.phase k.phase
    result := s.resultOf err (.main a), exit := s.exitOf err (.main a) } hidle'
  rw [hs, ran, ht]
  have hexit : s.exitOf err (.main .panic) =
      if s.client.phase = .reporting then s.exit else .killed := rfl
  generalize s.client.phase = ph at hgoes hexit
  show Matched J cfg c request _ _ { toLink := { s.toLink with asked := _ }, point := _ }
  generalize k.phase = next at hgoes
  cases hgoes with
  | connected => exact .inl ⟨by simp [completed, RunPhase.point], rfl⟩
  | notConnected =>
      exact .inr ⟨.refused, rfl, by simp [Ran.step, completed, RunPhase.point, exitOf]⟩
  | writing => exact .inl ⟨by cases ph <;> simp [completed, RunPhase.point, resultOf, exitOf], rfl⟩
  | wrote h =>
      cases ph <;> cases h
      · exact .inl ⟨by simp [completed, RunPhase.point], rfl⟩
      · exact .inr ⟨.ping none, rfl, by simp [Ran.step, completed, RunPhase.point]⟩
      · exact .inr ⟨.send none, rfl, by simp [Ran.step, completed, RunPhase.point]⟩
  | notOpened => exact .inr ⟨.refused, rfl, by simp [Ran.step, completed, RunPhase.point, exitOf]⟩
  | notWritten h =>
      rcases h with rfl | rfl
      · exact .inr ⟨.ping (some err), rfl, by simp [Ran.step, completed, RunPhase.point, resultOf]⟩
      · exact .inr ⟨.send (some err), rfl, by simp [Ran.step, completed, RunPhase.point, resultOf]⟩
  | greeted => exact absurd rfl (hread _)
  | notGreeted => exact absurd rfl (hread _)
  | ponged => exact absurd rfl (hread _)
  | notPonged => exact absurd rfl (hread _)
  | received => exact absurd rfl (hread _)
  | prepared => exact .inl ⟨by simp [completed, RunPhase.point], rfl⟩
  | notPrepared =>
      exact .inr ⟨.prepare (some err), rfl, by simp [Ran.step, completed, RunPhase.point, exitOf]⟩
  | @install sig todo =>
      refine .inl ⟨?_, rfl⟩
      by_cases htodo : todo = [] <;> simp [htodo, completed, RunPhase.point]
  | arm => exact .inr ⟨.prepare none, rfl, by simp [Ran.step, completed, RunPhase.point]⟩
  | disarm => exact .inr ⟨.disarm, rfl, by simp [Ran.step, completed, RunPhase.point, exitOf]⟩
  | finish => exact .inl ⟨by simp [completed, RunPhase.point, exitOf], rfl⟩
  | unwinds h hnot =>
      refine .inr ⟨.die, rfl, ?_⟩
      cases ph with
      | unwinding => exact absurd rfl hnot.1
      | unwound => exact absurd rfl hnot.2
      | reporting => cases h
      | exited => cases h
      | _ => simp [Ran.step, completed, RunPhase.point, RunPoint.isReturned]
  | panics h hnot =>
      rw [hexit]
      cases ph with
      | reporting => exact .inl ⟨by simp [completed, RunPhase.point], rfl⟩
      | exited => exact absurd rfl hnot
      | unwinding => cases h
      | unwound => cases h
      | _ =>
          exact .inr ⟨.die, rfl,
            by simp [Ran.step, completed, RunPhase.point, RunPoint.isReturned]⟩
  | guardWrite => exact .inl ⟨by simp [completed, RunPhase.point], rfl⟩
  | guardDisarm => exact .inl ⟨by simp [completed, RunPhase.point, exitOf], rfl⟩

/-- A read of `run`. -/
theorem matched_read {r : ReadLine} {cleared : Bool} {err : String} {timed : Bool}
    {p : RunPoint} {n : Nat} {k : RunClient}
    (hafter : afterRead J s.client.phase r cleared err = some (timed, p))
    (htakes : s.toLink.takes c timed r = some n) (hidle : s.client.Idle) (hidle' : k.Idle)
    (hgoes : RunClient.Goes (.read p.goesOn) s.client.phase k.phase) :
    Matched J cfg c request s.ran []
      (ran { s with
        read := s.read + n, client := k, result := p.result s.result, exit := .hostNotFound }) := by
  have hs : s.ran = { toLink := s.toLink, point := s.client.phase.point s.result s.exit } := by
    rw [ran, point_idle hidle]
  have ht := @point_idle { s with
    read := s.read + n, client := k, result := p.result s.result, exit := .hostNotFound } hidle'
  rw [hs, ran, ht]
  generalize s.client.phase = ph at hafter hgoes
  show Matched J cfg c request _ _ { toLink := { s.toLink with read := _ }, point := _ }
  generalize k.phase = next at hgoes
  cases ph <;> cases hafter
  case greeting =>
    refine .inr ⟨.greet r cleared, rfl, ?_⟩
    simp only [Ran.step, RunPhase.point, if_true, htakes, Option.map_some]
    rcases afterGreeting_cases (J := J) r cleared with hp | hp
    all_goals
      rw [hp] at hgoes ⊢
      cases hgoes
      rfl
  case pong =>
    refine .inr ⟨.pong r cleared err, rfl, ?_⟩
    simp only [Ran.step, RunPhase.point, if_true, htakes, Option.map_some]
    rcases afterPong_cases (J := J) r cleared err with hp | ⟨text, hp⟩
    all_goals
      rw [hp] at hgoes ⊢
      cases hgoes
      rfl
  case receiving =>
    refine .inr ⟨.receive r err, rfl, ?_⟩
    simp only [Ran.step, RunPhase.point, if_true, htakes, Option.map_some]
    obtain ⟨result, hp⟩ := afterResponse_cases (J := J) r err
    rw [hp] at hgoes ⊢
    cases result with
    | ok response =>
        cases hgoes
        rfl
    | error text =>
        cases hgoes
        rfl

/-- Every step of the statements. -/
theorem ran_step (h : s.step J cfg c request l = some t) :
    Matched J cfg c request s.ran (hosts [l]) t.ran := by
  cases l with
  | net l =>
      simp only [step] at h
      obtain ⟨k, hk, rfl⟩ := Option.map_eq_some_iff.mp h
      refine .inr ⟨.net l, ?_, ?_⟩
      · cases l <;> rfl
      · simp only [Ran.step, ran, hk, Option.map_some]
        rfl
  | client l err =>
      have hread : ∀ ok, l ≠ .main (.read ok) := by
        rintro ok rfl
        cases h
      have hstep : (s.client.step (bytes (Ran.requestLine J request)) l).map (fun k =>
          { s with
            client := k, asked := s.asked ++ completed J request s.client.phase k.phase
            result := s.resultOf err l, exit := s.exitOf err l }) = some t := by
        cases l with
        | main a =>
            cases a with
            | read ok => exact absurd rfl (hread ok)
            | _ => exact h
        | _ => exact h
      obtain ⟨k, hk, rfl⟩ := Option.map_eq_some_iff.mp hstep
      rcases RunClient.step_cases hk with ⟨a, rfl, hidle, hidle', hgoes⟩ | ⟨hmain, hphase, hidle⟩
      · exact matched_main (fun ok ha => hread ok (congrArg _ ha)) hidle hidle' hgoes err
      · have hkeep : completed J request s.client.phase k.phase = [] := by
          rw [hphase]
          cases s.client.phase <;> rfl
        refine matched_cut (by rw [hkeep, List.append_nil]) hphase hidle ?_ ?_
        · cases l <;> first | exact absurd rfl (hmain _) | rfl
        · cases l <;> first | exact absurd rfl (hmain _) | rfl
  | read r cleared err =>
      simp only [step] at h
      split at h
      · cases h
      · rename_i timed p hafter
        split at h
        · rename_i n k htakes hk
          cases h
          rcases RunClient.step_cases hk with ⟨a, ha, hidle, hidle', hgoes⟩ | ⟨hmain, -, -⟩
          · cases ha
            exact matched_read hafter htakes hidle hidle' hgoes
          · exact absurd rfl (hmain _)
        · cases h

/-- Every run of the statements is one of `Ran`, with the same steps of the host. -/
theorem ran_run {ls : List Label} (hrun : Machine.run (step J cfg c request) init ls = some s) :
    ∃ ms, Ran.hosts ms = hosts ls ∧
      Machine.run (Ran.step J cfg c request) Ran.init ms = some s.ran := by
  refine run_induction (P := fun ls s => ∃ ms, Ran.hosts ms = hosts ls ∧
    Machine.run (Ran.step J cfg c request) Ran.init ms = some s.ran) ⟨[], rfl, rfl⟩ ?_ hrun
  rintro ls s l t - ⟨ms, hms, hran⟩ hstep
  have hhosts : hosts (ls ++ [l]) = hosts ls ++ hosts [l] := List.filterMap_append
  rcases ran_step hstep with ⟨hstay, hnone⟩ | ⟨m, hm, hnext⟩
  · exact ⟨ms, by rw [hhosts, hnone, List.append_nil, hms], by rw [hran, hstay]⟩
  · refine ⟨ms ++ [m], ?_, (run_concat _).mpr ⟨_, hran, hnext⟩⟩
    rw [hhosts, ← hms, ← hm]
    exact List.filterMap_append

/-! ## What the user is told of -/

/--
`run`, statement by statement, once it is through with its connection: it prints something
on its standard output, or exits with another code than 127, only for the report of its own
request.
-/
theorem statements_report {message : String → String} {silent : Bool} {ls : List Label}
    (hJ : J.Strict) (hping : J.line ClientAction.ping.toJson = pingLine)
    (hrun : Machine.run (step J (.ofJson J message silent) c request) init ls = some s)
    (hsettled : s.client.phase.settled = true) {out : RunOutput}
    (hout : s.exit.output request.exec = some out) :
    (out.stdout = "" ∧ out.exit = 127 ∧ ∀ response, s.exit ≠ .answered response) ∨
      ∃ response, s.exit = .answered response ∧
        out = runOutput request.exec (.ok response) ∧
        Reported (.ofJson J message silent) request (eventsOf c (hosts ls)) response := by
  obtain ⟨ms, hms, hran⟩ := ran_run hrun
  have hpoint : s.ran.point = .returned s.exit := by
    show s.point = _
    rw [point, if_pos (.inl hsettled)]
    cases hphase : s.client.phase <;> rw [hphase] at hsettled <;> first | rfl | cases hsettled
  rw [← hms]
  exact Ran.run_reports hJ hping hran hpoint hout

/-! ## A sample run -/

/-- What happens to the link happens to the two. -/
theorem run_net {es : List Link.Label} {k : Link}
    (hrun : Machine.run (Link.step J cfg c s.point.peer) s.toLink es = some k) :
    Machine.run (step J cfg c request) s (es.map .net) = some { s with toLink := k } := by
  refine run_map (fun k => { s with toLink := k }) Label.net (fun m _ _ hm => ?_) hrun
  have hpoint : point { s with toLink := m } = s.point := rfl
  simp only [step, hpoint, hm, Option.map_some]

theorem step_read {r : ReadLine} {timed : Bool} {p : RunPoint} {n : Nat} {k : RunClient}
    (hafter : afterRead J s.client.phase r true "" = some (timed, p))
    (htakes : s.toLink.takes c timed r = some n)
    (hclient : s.client.step (bytes (Ran.requestLine J request)) (.main (.read p.goesOn)) =
      some k) :
    s.step J cfg c request (.read r true "") =
      some { s with
        read := s.read + n, client := k, result := p.result s.result, exit := .hostNotFound } := by
  simp only [step, hafter, htakes, hclient]

theorem decode_response (hJ : J.Lawful) (response : Response) :
    J.decode Response.ofJson (trimEnd (J.line response.toJson)) = some response := by
  rw [show trimEnd (J.line response.toJson) = J.toString response.toJson
    from Message.trimEnd_line hJ (.response response)]
  exact (decode_toString hJ (.response response)).trans (Response.ofJson_toJson _)

section Sample

/-- What the sample command does up to its response. -/
def sampleCourse : List Event :=
  .ptyRead [104, 13] :: sampleJoins ++ [.waitpid (.exited 0), .readErrno none]

def sampleServe : List Rexec.Label :=
  .worker 0 (.fetchAdd 0 "t") ::
    (.spawn sampleRequest (.ok 7) :: sampleCourse).map (.worker 0)

def sampleResponse : Event :=
  .writeResponse (some 0) sampleReport true

/-- The Ping of the command is answered. -/
def samplePinged : List Link.Label :=
  [.host (.worker 0 (.readLine (.line pingLine))) 0, .host (.worker 0 (.writePong true)) 0]

/-- The request is read, and its command reported. -/
def sampleExecute : List Link.Label :=
  .host (.worker 0 (.readLine (.line sampleRequestLine))) 0 ::
    (sampleServe.map (.host · 0) ++ [.host (.worker 0 sampleResponse) 0])

/-- The client has its opening Pong. -/
def sampleGreeted : Link :=
  { Link.sampleOpened with
    read := Link.sampleOpened.read +
      (Message.frame Json.compact (.controlResponse .pong)).length }

def sampleAwaiting : Link :=
  { sampleGreeted with asked := sampleGreeted.asked ++ [pingLine] }

def samplePonged : Link :=
  (sampleAwaiting.reading 0 .pong).writing Json.compact 0 (.lineLoop true)
    (.controlResponse .pong)

def sampleReceiving : Link :=
  { samplePonged with
    read := samplePonged.read + (Message.frame Json.compact (.controlResponse .pong)).length
    asked := samplePonged.asked ++ [sampleRequestLine] }

def sampleAccepted : Link :=
  sampleReceiving.reading 0 (.accepted sampleRequest)

/-- Its command has its number. -/
def sampleSpawning : Host :=
  { sampleAccepted.host with
    nextSeq := 1
    workers := Function.update sampleAccepted.host.workers 0 (.spawning 0 sampleRequest "t") }

/-- Its report is written. -/
def sampleAnswered (h : Host) : Link :=
  { sampleAccepted with host := h }.writing Json.compact 0
    (.submitting 0 sampleReportEntry "h\r") (.response sampleReport)

def sampleTold (h : Host) : Link :=
  { sampleAnswered h with
    read := (sampleAnswered h).read + (Message.frame Json.compact (.response sampleReport)).length }

theorem run_samplePinged :
    Machine.run (Link.step Json.compact (.compact true) 0 .present) sampleAwaiting
      samplePinged = some samplePonged := by
  have hping : (Config.compact true).onLine false (.line pingLine) = .pong :=
    onLine_samplePing true false
  refine run_of_cons _ (Link.step_readLine rfl (by decide) Nat.zero_lt_one (by decide) rfl
    (congrArg some hping)) ?_
  exact run_singleton _ (Link.step_write rfl (by decide) Nat.zero_lt_one rfl rfl rfl)

/-- The client can read both Pongs and the report. -/
theorem unread_sample (h : Host) :
    Link.sampleOpened.unread = Message.frame Json.compact (.controlResponse .pong) ++ [] ∧
      samplePonged.unread = Message.frame Json.compact (.controlResponse .pong) ++ [] ∧
      (sampleAnswered h).unread = Message.frame Json.compact (.response sampleReport) ++ [] := by
  have hread : sampleReceiving.read = sampleReceiving.sent.length := by
    show _ = (sampleAwaiting.sent ++ _).length
    rw [List.length_append]
    rfl
  exact ⟨rfl, Link.unread_writing rfl _ _,
    @Link.unread_writing Json.compact 0 { sampleAccepted with host := h } hread _ _⟩

/-- The host runs the command and writes what came of it. -/
theorem run_sampleExecute :
    ∃ h, Machine.run (Link.step Json.compact (.compact true) 0 .present)
      sampleReceiving sampleExecute = some (sampleAnswered h) := by
  have hrequest : (Config.compact true).onLine true (.line sampleRequestLine) =
      .accepted sampleRequest := onLine_sampleRequestLine true true
  have hreporting : Machine.run (Worker.step (.compact true))
      (.running sampleSpawned .joinReader) (sampleCourse ++ [sampleResponse]) =
        some (.submitting 0 sampleReportEntry "h\r") := run_sampleReporting
  rw [run_append, Option.bind_eq_some_iff] at hreporting
  obtain ⟨w, hcourse, hresponse⟩ := hreporting
  rw [run_cons, Option.bind_eq_some_iff] at hresponse
  obtain ⟨w', hresponse, hnil⟩ := hresponse
  cases hnil
  have hspawn : Machine.run (Worker.step (.compact true)) (.spawning 0 sampleRequest "t")
      (.spawn sampleRequest (.ok 7) :: sampleCourse) = some w :=
    run_of_cons _ (m := .running sampleSpawned .joinReader) rfl hcourse
  have hprivate : ∀ e ∈ Event.spawn sampleRequest (.ok 7) :: sampleCourse,
      e.isPrivate = true := by decide
  have hmain : sampleSpawning.main ≠ .returned := by decide
  have hserve : Machine.run (Host.step (.compact true)) sampleAccepted.host sampleServe =
      some { sampleSpawning with workers := Function.update sampleSpawning.workers 0 w } :=
    run_of_cons _ (m := sampleSpawning) rfl
      (Host.run_private hmain Nat.zero_lt_one hprivate hspawn)
  refine ⟨{ sampleSpawning with workers := Function.update sampleSpawning.workers 0 w }, ?_⟩
  refine run_of_cons _ (m := sampleAccepted) (Link.step_readLine rfl (by decide)
    Nat.zero_lt_one (by decide) rfl (congrArg some hrequest)) ?_
  refine run_of_append _ (Link.run_quiet rfl ?_ hserve)
    (run_singleton _ (Link.step_write rfl hmain Nat.zero_lt_one rfl rfl hresponse))
  simp [sampleServe, sampleCourse, sampleJoins, Link.hears, Link.puts, Event.readResult,
    Event.message]

/-- The client behind some of its steps. -/
def sampleClient (es : List RunClient.Label) : RunClient :=
  (Machine.run (RunClient.step (bytes sampleRequestLine)) .init es).getD .init

def sampleOpen : List RunClient.Label :=
  [.main (.connect true), .main (.write (bytes pingLine).length)]

/-- From the opening Pong to the Ping of the command. -/
def samplePrepare : List RunClient.Label :=
  [.main (.prepare true), .main .install, .main .install, .main .install, .main .arm,
    .main (.write (bytes pingLine).length)]

def sampleSend : List RunClient.Label :=
  [.main (.write (bytes sampleRequestLine).length)]

/-- A client runs a command that prints a line. -/
def sampleStatements : List Label :=
  sampleOpen.map (.client · "") ++ (Link.sampleOpening.map .net ++
    .read (.line (Json.compact.line ControlResponse.pong.toJson)) true "" ::
    (samplePrepare.map (.client · "") ++ (samplePinged.map .net ++
    .read (.line (Json.compact.line ControlResponse.pong.toJson)) true "" ::
    (sampleSend.map (.client · "") ++ (sampleExecute.map .net ++
    [.read (.line (Json.compact.line sampleReport.toJson)) true "",
      .client (.main .disarm) ""])))))

def sampleBegun : Running :=
  { Link.init with client := sampleClient sampleOpen, result := .error "", exit := .hostNotFound }

def sampleGreeting : List RunClient.Label :=
  sampleOpen ++ [.main (.read true)]

def samplePrepared : List RunClient.Label :=
  sampleGreeting ++ samplePrepare

theorem run_sampleOpen :
    Machine.run (step Json.compact (.compact true) 0 sampleRequest) init
      (sampleOpen.map (.client · "")) = some sampleBegun := rfl

theorem run_samplePrepare :
    Machine.run (step Json.compact (.compact true) 0 sampleRequest)
      { sampleGreeted with
        client := sampleClient sampleGreeting, result := .error "", exit := .hostNotFound }
      (samplePrepare.map (.client · "")) =
      some { sampleAwaiting with
        client := sampleClient samplePrepared, result := .error "", exit := .notPrepared "" } := rfl

def sampleSent : List RunClient.Label :=
  samplePrepared ++ .main (.read true) :: sampleSend

theorem run_sampleSend :
    Machine.run (step Json.compact (.compact true) 0 sampleRequest)
      { samplePonged with
        read := sampleReceiving.read
        client := sampleClient (samplePrepared ++ [.main (.read true)]), result := .error ""
        exit := .hostNotFound }
      (sampleSend.map (.client · "")) =
      some { sampleReceiving with
        client := sampleClient sampleSent, result := .error "", exit := .hostNotFound } := rfl

/-- The client is about to print the report. -/
def sampleEnd (h : Host) : Running :=
  { sampleTold h with
    client := sampleClient (sampleSent ++ [.main (.read true), .main .disarm])
    result := .ok sampleReport, exit := .answered sampleReport }

theorem run_sampleStatements :
    ∃ h, Machine.run (step Json.compact (.compact true) 0 sampleRequest) init sampleStatements =
      some (sampleEnd h) := by
  obtain ⟨h, hexecute⟩ := run_sampleExecute
  obtain ⟨hpong, hponged, hanswered⟩ := unread_sample h
  have hgreeting : Ran.afterGreeting Json.compact
      (.line (Json.compact.line ControlResponse.pong.toJson)) true = .preparing := by
    simp only [Ran.afterGreeting, decode_pong Json.compact_lawful, if_true]
  have hpinged : Ran.afterPong Json.compact
      (.line (Json.compact.line ControlResponse.pong.toJson)) true "" = .requesting := by
    simp only [Ran.afterPong, decode_pong Json.compact_lawful, if_true]
  have hreport : Ran.afterResponse Json.compact
      (.line (Json.compact.line sampleReport.toJson)) "" = .disarming (.ok sampleReport) := by
    simp only [Ran.afterResponse, decode_response Json.compact_lawful]
  refine ⟨h, ?_⟩
  refine run_of_append _ run_sampleOpen ?_
  refine run_of_append _ (run_net (s := sampleBegun) (Link.run_sampleOpening true)) ?_
  refine run_of_cons _ (step_read (s := { sampleBegun with toLink := Link.sampleOpened })
    (k := sampleClient sampleGreeting) (congrArg (fun p => some (true, p)) hgreeting)
    (Link.takes_frame Json.compact_lawful hpong) rfl) ?_
  refine run_of_append _ run_samplePrepare ?_
  refine run_of_append _ (run_net run_samplePinged) ?_
  refine run_of_cons _ (step_read (k := sampleClient (samplePrepared ++ [.main (.read true)]))
    (congrArg (fun p => some (true, p)) hpinged)
    (Link.takes_frame Json.compact_lawful hponged) rfl) ?_
  refine run_of_append _ run_sampleSend ?_
  refine run_of_append _ (run_net hexecute) ?_
  refine run_of_cons _ (step_read (k := sampleClient (sampleSent ++ [.main (.read true)]))
    (congrArg (fun p => some (false, p)) hreport)
    (Link.takes_frame Json.compact_lawful hanswered) rfl) ?_
  exact run_singleton _ rfl

/-- The line that the statements print is that of the sample command. -/
theorem statements_report_sampleStatements :
    (runOutput sampleRequest.exec (.ok sampleReport)).stdout = "h\n" ∧
      Reported (.compact true) sampleRequest (eventsOf 0 (hosts sampleStatements))
        sampleReport := by
  obtain ⟨h, hrun⟩ := run_sampleStatements
  refine ⟨rfl, ?_⟩
  rcases statements_report Json.compact_strict rfl hrun rfl rfl with ⟨hempty, -, -⟩ |
    ⟨response, hanswered, -, hreported⟩
  · exact absurd hempty (by decide)
  · cases hanswered
    exact hreported

end Sample

end Running

end Rexec
