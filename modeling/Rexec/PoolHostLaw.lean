import Rexec.PoolHost
import Mathlib.Tactic

/-!
# A call runs its command once

`HostEnd.Sound` relates the host's end of a connection to what was sent and
answered on it: the worker is at the line that has no reply yet, the commands it
has tried to spawn are those of the lines it has read, in their order, and a
Response on the connection tells what came of the spawn of its Request.

Every step keeps it, and every step of the host is one that `Pool` allows, so a
run of the two is a run of the pool (`refines_pool`) and the laws of the pool
hold of it.  With them `exec_spawns_once` counts the spawns of one call on all
its connections.
-/

namespace Rexec

open Machine

/-! ## Where the worker stands -/

/-- A worker gets a request by reading its line, and spawns it in one step. -/
theorem Worker.Step.waiting_cases {cfg : Config} {e : Event} {w w' : Worker}
    (hw : w.Step cfg e w') :
    (spawns [e] = [] ∧ ∀ r, w'.Waiting r → w.Waiting r ∧ e.readResult = none ∨
        ∃ p text, e.readResult = some (.line text) ∧ cfg.onLine p (.line text) = .accepted r) ∨
      ∃ r result, e = .spawn r result ∧ w.Waiting r ∧ ∀ r', ¬ w'.Waiting r' := by
  have hno : ∀ {w : Worker}, w.early = true ∨ w.late = true → ∀ r, ¬ w.Waiting r := by
    rintro w hw r (rfl | ⟨seq, time, rfl⟩) <;> rcases hw with hw | hw <;> cases hw
  cases hw with
  | @line p rl =>
      refine .inl ⟨rfl, fun r hr => ?_⟩
      have haccept : cfg.onLine p rl = .accepted r := by
        rcases Worker.early_onLine p rl with hearly | ⟨r', hr'⟩
        · exact absurd hr (hno (.inl hearly) r)
        · rw [hr'] at hr ⊢
          rcases hr with hr | ⟨seq, time, hr⟩
          · exact hr
          · cases hr
      obtain ⟨text, rfl, -⟩ := Config.accepted_of_onLine haccept
      exact .inr ⟨p, text, rfl, haccept⟩
  | opening =>
      exact .inl ⟨rfl, fun r hr => absurd hr (hno (.inl (Worker.early_onOpening _)) r)⟩
  | fetchAdd =>
      refine .inl ⟨rfl, fun r hr => .inl ⟨?_, rfl⟩⟩
      rcases hr with hr | ⟨seq, time, hr⟩ <;> cases hr
      exact .inl rfl
  | spawned =>
      exact .inr ⟨_, _, rfl, .inr ⟨_, _, rfl⟩, hno (.inr rfl)⟩
  | spawnFailed =>
      exact .inr ⟨_, _, rfl, .inr ⟨_, _, rfl⟩, hno (.inr rfl)⟩
  | foreground hfg =>
      cases hfg <;> exact .inl ⟨rfl, fun r hr => absurd hr (hno (.inr rfl) r)⟩
  | background hbg =>
      cases hbg <;> exact .inl ⟨rfl, fun r hr => absurd hr (hno (.inr rfl) r)⟩
  | _ =>
      first
        | exact .inl ⟨rfl, fun r hr => absurd hr (hno (.inl rfl) r)⟩
        | exact .inl ⟨rfl, fun r hr => absurd hr (hno (.inr rfl) r)⟩

/-- Only a request with a command is accepted. -/
theorem Config.exec_of_onLine {cfg : Config} {p : Bool} {rl : ReadLine} {r : Request}
    (h : cfg.onLine p rl = .accepted r) : r.exec.isEmpty = false := by
  obtain ⟨text, rfl, rfl, hline, hr⟩ := Config.accepted_of_onLine h
  rw [Config.onLine_request hline, if_pos rfl, Config.onRequest, hr] at h
  cases hexec : r.exec.isEmpty with
  | false => rfl
  | true => simp [hexec] at h

namespace HostEnd

/-- The line read last is the request `r`, and it has no reply yet. -/
structure At (sent : List SentLine) (replies : List HostReply) (taken : Nat)
    (current : Option SentLine) (n : Nat) (r : Request) : Prop where
  taken : taken = replies.length + 1
  sent : sent[replies.length]? = some (.request n r)
  current : current = some (.request n r)

/-- The line the worker is at, as the point it stands at says. -/
def Stands (h : HostConnection) (k : HostEnd) : Prop :=
  match k.worker with
  | .start | .handshake => k.taken = h.replies.length
  -- a reply that could not be written is not made up for
  | .lineLoop _ | .submitting _ _ _ =>
      k.taken = h.replies.length ∨ k.taken = h.replies.length + 1
  | .openingPong | .pong =>
      k.taken = h.replies.length + 1 ∧ h.sent[h.replies.length]? = some .ping
  | .reject response =>
      response = emptyExecResponse ∧
        ∃ n r, At h.sent h.replies k.taken k.current n r ∧ r.exec.isEmpty = true
  | .accepted r | .spawning _ r _ => ∃ n, At h.sent h.replies k.taken k.current n r
  | .spawnFailed _ _ _ err =>
      ∃ n r, At h.sent h.replies k.taken k.current n r ∧
        ⟨some (.request n r), r, .error err⟩ ∈ k.attempts
  | .running cmd _ =>
      ∃ n r, At h.sent h.replies k.taken k.current n r ∧
        ⟨some (.request n r), r, .ok cmd.child⟩ ∈ k.attempts
  | .exited => True
  | _ => False

/-- The line whose request is not spawned yet. -/
def waiting (k : HostEnd) : List (Option SentLine) :=
  match k.worker with
  | .accepted _ | .spawning _ _ _ => [k.current]
  | _ => []

/-- The Response is that of a spawn of the Request, or there is nothing to execute. -/
def Accounts (k : HostEnd) (n : Nat) (r : Request) (response : Response) : Prop :=
  (∃ child, ⟨some (.request n r), r, .ok child⟩ ∈ k.attempts ∧
      response.error ≠ some "spawn_failed") ∨
    (∃ err, ⟨some (.request n r), r, .error err⟩ ∈ k.attempts ∧
      response = spawnFailedResponse err) ∨
    r.exec.isEmpty = true ∧ response = emptyExecResponse

theorem Accounts.mono {k k' : HostEnd} {n : Nat} {r : Request} {response : Response}
    (h : k.Accounts n r response) (hsub : k.attempts ⊆ k'.attempts) :
    k'.Accounts n r response := by
  rcases h with ⟨child, hmem, herror⟩ | ⟨err, hmem, heq⟩ | hempty
  · exact .inl ⟨child, hsub hmem, herror⟩
  · exact .inr (.inl ⟨err, hsub hmem, heq⟩)
  · exact .inr (.inr hempty)

/-- What holds between the host's end of a connection and what is on it. -/
structure Sound (h : HostConnection) (k : HostEnd) : Prop where
  sequential : h.sent.length ≤ h.replies.length + 1
  taken_le : k.taken ≤ (k.lines h).length
  cut : k.part ≠ none → h.torn = true
  alive : h.closed = true → k.worker = .exited
  in_order : (k.attempts.map SpawnCall.line ++ k.waiting).Sublist
    (((k.lines h).take k.taken).map some)
  own : ∀ x ∈ k.attempts,
    (∃ n, x.line = some (.request n x.request)) ∧ x.request.exec.isEmpty = false
  waits : ∀ r, k.worker.Waiting r →
    (∃ n, k.current = some (.request n r)) ∧ r.exec.isEmpty = false
  stands : k.part = none → k.Stands h
  reports : k.worker.Sound
  answered : ∀ (i n : Nat) (r : Request) (response : Response),
    h.sent[i]? = some (.request n r) → h.replies[i]? = some (.response response) →
      k.Accounts n r response

theorem sound_new : Sound .new new where
  sequential := Nat.zero_le _
  taken_le := Nat.zero_le _
  cut h := absurd rfl h
  alive h := by cases h
  in_order := List.Sublist.refl _
  own _ hx := by cases hx
  waits r h := by
    rcases h with h | ⟨seq, time, h⟩ <;> cases h
  stands _ := rfl
  reports := trivial
  answered i n r response h := by cases h

section Host

variable {J : JsonText} {cfg : Config} {h : HostConnection} {k k' : HostEnd} {w : Worker}
  {e : Event}

/-! ### The spawns -/

theorem waiting_eq_nil {w : Worker} (hw : ∀ r, ¬ w.Waiting r) (k : HostEnd) :
    waiting { k with worker := w } = [] := by
  cases w with
  | accepted r => exact absurd (.inl rfl) (hw r)
  | spawning seq r time => exact absurd (.inr ⟨_, _, rfl⟩) (hw r)
  | _ => rfl

theorem waiting_of_waiting {r : Request} (hw : k.worker.Waiting r) : k.waiting = [k.current] := by
  unfold waiting
  rcases hw with hw | ⟨seq, time, hw⟩ <;> rw [hw]


/-- The commands of the attempts and the waiting one are those of the lines read, in order. -/
theorem Sound.in_order_step (hs : Sound h k) (hw : k.worker.Step cfg e w)
    (hk : k.Takes J h e k') :
    (k'.attempts.map SpawnCall.line ++ waiting { k' with worker := w }).Sublist
      (((k'.lines h).take k'.taken).map some) := by
  have hold := (List.sublist_append_left _ _).trans hs.in_order
  cases hk with
  | @line _ m text he hm htext =>
      have hmore : ((k.lines h).take (k.taken + 1)).map some =
          ((k.lines h).take k.taken).map some ++ [some m] := by
        rw [List.take_add_one, hm]
        simp
      show List.Sublist _ (((k.lines h).take (k.taken + 1)).map some)
      rw [hmore]
      refine List.Sublist.append hold ?_
      cases w with
      | accepted r => exact List.Sublist.refl _
      | spawning seq r time => exact List.Sublist.refl _
      | _ => exact List.nil_sublist _
  | spawn =>
      rcases hw.waiting_cases with ⟨hnone, -⟩ | ⟨r, result, heq, hwait, hno⟩
      · cases hnone
      · cases heq
        have horder := hs.in_order
        rw [waiting_of_waiting hwait] at horder
        rw [waiting_eq_nil hno, List.append_nil, List.map_append]
        exact horder
  | nothing he =>
      by_cases hwait : ∃ r, w.Waiting r
      · obtain ⟨r, hr⟩ := hwait
        rcases hw.waiting_cases with ⟨-, hfrom⟩ | ⟨_, _, rfl, -⟩
        · rcases hfrom r hr with ⟨-, hnone⟩ | ⟨_, _, htext, -⟩
          · simp [hnone] at he
          · simp [htext] at he
        · simp [Event.readResult] at he
      · rw [waiting_eq_nil (by simpa using hwait), List.append_nil]
        exact hold
  | other he hquiet =>
      by_cases hwait : ∃ r, w.Waiting r
      · obtain ⟨r, hr⟩ := hwait
        rcases hw.waiting_cases with ⟨-, hfrom⟩ | ⟨_, _, rfl, -⟩
        · rcases hfrom r hr with ⟨hbefore, -⟩ | ⟨_, _, htext, -⟩
          · have horder := hs.in_order
            rw [waiting_of_waiting hbefore] at horder
            rw [waiting_of_waiting (k := { k with worker := w }) hr]
            exact horder
          · rw [htext] at he
            cases he
        · cases hquiet
      · rw [waiting_eq_nil (by simpa using hwait), List.append_nil]
        exact hold

theorem Sound.own_step (hs : Sound h k) (hw : k.worker.Step cfg e w) (hk : k.Takes J h e k') :
    ∀ x ∈ k'.attempts,
      (∃ n, x.line = some (.request n x.request)) ∧ x.request.exec.isEmpty = false := by
  cases hk with
  | spawn =>
      intro x hx
      rcases List.mem_append.mp hx with hx | hx
      · exact hs.own x hx
      · rw [List.mem_singleton.mp hx]
        rcases hw.waiting_cases with ⟨hnone, -⟩ | ⟨r, result, heq, hwait, -⟩
        · cases hnone
        · cases heq
          exact hs.waits _ hwait
  | _ => exact hs.own

/-! ### The replies -/

/-- What an event gives back on a connection that was not cut. -/
inductive Gives (k : HostEnd) : Event → HostReply → Prop where
  | pong (hw : k.worker = .openingPong ∨ k.worker = .pong) : Gives k (.writePong true) .pong
  | rejected {response : Response} {seq : Option Nat} (hw : k.worker = .reject response) :
      Gives k (.writeResponse seq response true) (.response response)
  | notSpawned {seq : Nat} {request : Request} {time : String} {err : SpawnError}
      {num : Option Nat} (hw : k.worker = .spawnFailed seq request time err) :
      Gives k (.writeResponse num (spawnFailedResponse err) true)
        (.response (spawnFailedResponse err))
  | answered {cmd : Command} {response : Response} {entry : TranscriptEntry} {raw : String}
      {num : Option Nat} (hw : k.worker = .running cmd (.respond response entry raw)) :
      Gives k (.writeResponse num response true) (.response response)

theorem give_cases (hw : k.worker.Step cfg e w) :
    k.give h e = h ∨ k.part = none ∧ ∃ rep, k.Gives e rep ∧ k.give h e = h.reply rep := by
  by_cases hpart : k.part = none
  · have hnone : k.part.isNone = true := by rw [hpart]; rfl
    cases e with
    | writePong ok =>
        cases ok with
        | false => exact .inl rfl
        | true =>
            refine .inr ⟨hpart, .pong, ?_, by simp [give, hnone]⟩
            generalize hv : k.worker = v at hw
            cases hw with
            | opened => exact .pong (.inl hv)
            | ponged => exact .pong (.inr hv)
            | foreground hfg => cases hfg
            | background hbg => cases hbg
    | writeResponse seq response ok =>
        cases ok with
        | false => exact .inl rfl
        | true =>
            refine .inr ⟨hpart, .response response, ?_, by simp [give, hnone]⟩
            generalize hv : k.worker = v at hw
            cases hw with
            | rejected => exact .rejected hv
            | failureReported => exact .notSpawned hv
            | foreground hfg =>
                cases hfg with
                | respond => exact .answered hv
            | background hbg => cases hbg
    | _ => exact .inl rfl
  · have hsome : k.part.isNone = false := by
      cases hk : k.part with
      | none => exact absurd hk hpart
      | some m => rfl
    refine .inl ?_
    unfold give
    split <;> simp [hsome]

/-- A reply answers the first line without one, and a Response accounts for it. -/
theorem Sound.gives (hs : Sound h k) (hpart : k.part = none) {rep : HostReply}
    (hg : k.Gives e rep) :
    ∃ m, h.sent[h.replies.length]? = some m ∧ rep.answers m = true ∧
      ∀ n r response, m = .request n r → rep = .response response →
        k.Accounts n r response := by
  have hstands := hs.stands hpart
  unfold Stands at hstands
  cases hg with
  | pong hw =>
      have hm : h.sent[h.replies.length]? = some .ping := by
        rcases hw with hw | hw <;> rw [hw] at hstands <;> exact hstands.2
      exact ⟨.ping, hm, rfl, fun n r response hcontra => by cases hcontra⟩
  | rejected hw =>
      rw [hw] at hstands
      obtain ⟨rfl, n, r, hat, hexec⟩ := hstands
      refine ⟨_, hat.sent, rfl, ?_⟩
      rintro n' r' response' ⟨⟩ ⟨⟩
      exact .inr (.inr ⟨hexec, rfl⟩)
  | notSpawned hw =>
      rw [hw] at hstands
      obtain ⟨n, r, hat, hattempt⟩ := hstands
      refine ⟨_, hat.sent, rfl, ?_⟩
      rintro n' r' response' ⟨⟩ ⟨⟩
      exact .inr (.inl ⟨_, hattempt, rfl⟩)
  | answered hw =>
      have hreports := hs.reports
      rw [hw] at hstands hreports
      obtain ⟨n, r, hat, hattempt⟩ := hstands
      refine ⟨_, hat.sent, rfl, ?_⟩
      rintro n' r' response' ⟨⟩ ⟨⟩
      exact .inl ⟨_, hattempt, hreports.2⟩

/-! ### The lines -/

theorem Takes.part (hk : k.Takes J h e k') : k'.part = k.part := by
  cases hk <;> rfl

/-- Reads give nothing back. -/
theorem give_read {r : ReadLine} (he : e.readResult = some r) : k.give h e = h := by
  cases e <;> first
    | rfl
    | cases he

theorem lines_of_part (hpart : k.part = none) : k.lines h = h.sent := by
  rw [lines, hpart]
  simp

/-- The line read next on a connection that was not cut. -/
theorem Sound.next_line (hs : Sound h k) (hpart : k.part = none) {m : SentLine} {text : String}
    (hm : (k.lines h)[k.taken]? = some m)
    (htext : if k.taken < h.sent.length then text = m.text J
      else text ≠ m.text J ∧ text.toList <+: (m.text J).toList) :
    h.sent[k.taken]? = some m ∧ text = m.text J ∧ k.taken ≤ h.replies.length := by
  rw [lines_of_part hpart] at hm
  have hlt := lt_length_of_getElem? hm
  rw [if_pos hlt] at htext
  have hsequential := hs.sequential
  exact ⟨hm, htext, by omega⟩

end Host

section Reads

variable {J : JsonText} (hJ : J.Strict) (hping : J.line ClientAction.ping.toJson = pingLine)
  {message : String → String} {silent : Bool} {h : HostConnection} {k k' : HostEnd} {w : Worker}
  {e : Event}

include hJ hping

/-- The worker goes on with a line it has read. -/
theorem Sound.stands_line (hs : Sound h k) (hpart : k.part = none) {m : SentLine}
    {text : String} (hw : k.worker.Step (.ofJson J message silent) e w)
    (he : e.readResult = some (.line text)) (hm : (k.lines h)[k.taken]? = some m)
    (htext : if k.taken < h.sent.length then text = m.text J
      else text ≠ m.text J ∧ text.toList <+: (m.text J).toList) :
    Stands h { k with worker := w, taken := k.taken + 1, current := some m } := by
  obtain ⟨hsent, rfl, hle⟩ := hs.next_line hpart hm htext
  have hstands := hs.stands hpart
  generalize hv : k.worker = v at hw
  rw [Stands, hv] at hstands
  cases hw with
  | opening =>
      obtain rfl := Option.some.inj he
      rw [Config.onOpening_sentLine hJ hping]
      have htaken : k.taken = h.replies.length := hstands
      rw [htaken] at hsent
      by_cases hping : m = .ping
      · subst hping
        exact ⟨by rw [htaken], hsent⟩
      · rw [if_neg hping]
        trivial
  | @line p =>
      obtain rfl := Option.some.inj he
      have htaken : k.taken = h.replies.length := by
        rcases hstands with h | h <;> omega
      rw [htaken] at hsent
      cases m with
      | ping =>
          rw [Config.onLine_sentPing hJ hping]
          exact ⟨by rw [htaken], hsent⟩
      | request n r =>
          rw [Config.onLine_sentRequest hJ]
          have hat : At h.sent h.replies (k.taken + 1) (some (.request n r)) n r :=
            ⟨by rw [htaken], hsent, rfl⟩
          cases p with
          | false => trivial
          | true =>
              by_cases hexec : r.exec.isEmpty = true
              · rw [if_pos rfl, if_pos hexec]
                exact ⟨rfl, n, r, hat, hexec⟩
              · rw [if_pos rfl, if_neg hexec]
                exact ⟨n, hat⟩
  | background hbg =>
      -- a command is running, so this line would be the second without a reply
      obtain ⟨n, r, hat, -⟩ := hstands
      have htaken := hat.taken
      omega
  | foreground hfg => cases hfg <;> cases he
  | _ => cases he

/-- A worker stands where it should after every step. -/
theorem Sound.stands_step (hs : Sound h k) (hw : k.worker.Step (.ofJson J message silent) e w)
    (hk : k.Takes J h e k') (hpart : k.part = none) :
    Stands (k'.give h e) { k' with worker := w } := by
  have hnone : k'.part.isNone = true := by rw [hk.part, hpart]; rfl
  cases hk with
  | line he hm htext =>
      rw [give_read he]
      exact hs.stands_line hJ hping hpart hw he hm htext
  | nothing he =>
      have hread : ∃ r, e.readResult = some r := by
        rcases he with he | he | he <;> exact ⟨_, he⟩
      obtain ⟨r, hr⟩ := hread
      rw [give_read hr]
      have hstands := hs.stands hpart
      generalize hv : k.worker = v at hw
      rw [Stands, hv] at hstands
      cases hw with
      | opening =>
          obtain rfl := Option.some.inj hr
          rcases he with he | he | he <;> cases he <;> trivial
      | line =>
          obtain rfl := Option.some.inj hr
          rcases he with he | he | he <;> cases he <;> trivial
      | background hbg => cases hbg <;> exact hstands
      | foreground hfg => cases hfg <;> cases hr
      | _ => cases hr
  | spawn =>
      have hstands := hs.stands hpart
      generalize hv : k.worker = v at hw
      rw [Stands, hv] at hstands
      cases hw with
      | spawned =>
          obtain ⟨n, hat⟩ := hstands
          exact ⟨n, _, hat, by rw [hat.current]; simp [Command.spawned]⟩
      | spawnFailed =>
          obtain ⟨n, hat⟩ := hstands
          exact ⟨n, _, hat, by rw [hat.current]; simp⟩
      | foreground hfg => cases hfg
      | background hbg => cases hbg
  | other he hquiet =>
      have hstands := hs.stands hpart
      generalize hv : k.worker = v at hw
      rw [Stands, hv] at hstands
      cases hw with
      | cloned => exact hstands
      | notCloned => trivial
      | opened => exact .inl (by simpa [give, hnone, HostConnection.reply] using hstands.1)
      | notOpened => trivial
      | ponged => exact .inl (by simpa [give, hnone, HostConnection.reply] using hstands.1)
      | notPonged => trivial
      | rejected =>
          obtain ⟨-, n, r, hat, -⟩ := hstands
          exact .inl (by simpa [give, hnone, HostConnection.reply] using hat.taken)
      | notRejected => trivial
      | fetchAdd => exact hstands
      | failureReported =>
          obtain ⟨n, r, hat, -⟩ := hstands
          exact .inl (by simpa [give, hnone, HostConnection.reply] using hat.taken)
      | abandoned => trivial
      | submit => exact hstands
      | background hbg => cases hbg <;> exact hstands
      | foreground hfg =>
          cases hfg with
          | @respond response entry raw ok =>
              obtain ⟨n, r, hat, -⟩ := hstands
              cases ok with
              | false => exact .inr hat.taken
              | true => exact .inl (by simpa [give, hnone, HostConnection.reply] using hat.taken)
          | _ => exact hstands
      | opening => cases he
      | line => cases he
      | spawned => cases hquiet
      | spawnFailed => cases hquiet
      | subscribe => exact hstands.elim
      | recv => exact hstands.elim
      | detach => exact hstands.elim
      | sent => exact hstands.elim
      | notSent => exact hstands.elim

/-- The line a worker has accepted is the request it has then. -/
theorem accepted_line {m : SentLine} {text : String}
    (htext : if k.taken < h.sent.length then text = m.text J
      else text ≠ m.text J ∧ text.toList <+: (m.text J).toList) {p : Bool} {r : Request}
    (haccept : (Config.ofJson J message silent).onLine p (.line text) = .accepted r) :
    ∃ n, m = .request n r := by
  split at htext
  · subst htext
    cases m with
    | ping =>
        rw [Config.onLine_sentPing hJ hping] at haccept
        cases haccept
    | request n r' =>
        rw [Config.onLine_sentRequest hJ] at haccept
        split at haccept
        · split at haccept <;> cases haccept
          exact ⟨n, rfl⟩
        · cases haccept
  · exact Config.onLine_part hJ htext.1 htext.2 haccept

theorem Sound.waits_step (hs : Sound h k) (hw : k.worker.Step (.ofJson J message silent) e w)
    (hk : k.Takes J h e k') (r : Request) (hr : w.Waiting r) :
    (∃ n, k'.current = some (.request n r)) ∧ r.exec.isEmpty = false := by
  rcases hw.waiting_cases with ⟨hquiet, hfrom⟩ | ⟨_, _, rfl, -, hno⟩
  · rcases hfrom r hr with ⟨hbefore, hnone⟩ | ⟨p, text, hread, haccept⟩
    · cases hk with
      | line he => simp [hnone] at he
      | nothing he => simp [hnone] at he
      | spawn => cases hquiet
      | other => exact hs.waits r hbefore
    · cases hk with
      | line he hm htext =>
          obtain rfl : text = _ := by simpa [hread] using he
          obtain ⟨n, rfl⟩ := accepted_line hJ hping htext haccept
          exact ⟨⟨n, rfl⟩, Config.exec_of_onLine haccept⟩
      | nothing he => simp [hread] at he
      | spawn => cases hread
      | other he => simp [hread] at he
  · exact absurd hr (hno r)

end Reads

section Frame

variable {h : HostConnection} {k : HostEnd} {w : Worker} {e : Event}

@[simp] theorem give_sent : (k.give h e).sent = h.sent := by
  unfold give
  split
  · split <;> rfl
  · split <;> rfl
  · rfl

@[simp] theorem give_torn : (k.give h e).torn = h.torn := by
  unfold give
  split
  · split <;> rfl
  · split <;> rfl
  · rfl

@[simp] theorem give_closed : (k.give h e).closed = h.closed := by
  unfold give
  split
  · split <;> rfl
  · split <;> rfl
  · rfl

theorem closes_cases (w : Worker) (h : HostConnection) :
    w = .exited ∧ w.closes h = h.close ∨ w ≠ .exited ∧ w.closes h = h := by
  cases w with
  | exited => exact .inl ⟨rfl, rfl⟩
  | _ => exact .inr ⟨nofun, rfl⟩

/-- The connection of a worker that has just returned is closed. -/
theorem Sound.closes (hs : Sound h k) : Sound (k.worker.closes h) k := by
  rcases closes_cases k.worker h with ⟨hexited, heq⟩ | ⟨-, heq⟩
  · rw [heq]
    exact ⟨hs.sequential, hs.taken_le, hs.cut, fun _ => hexited, hs.in_order, hs.own, hs.waits,
      fun _ => by rw [Stands, hexited]; trivial, hs.reports, hs.answered⟩
  · rw [heq]
    exact hs

end Frame

section Steps

variable {J : JsonText} (hJ : J.Strict) (hping : J.line ClientAction.ping.toJson = pingLine)
  {message : String → String} {silent : Bool} {h : HostConnection} {k k' : HostEnd} {w : Worker}
  {e : Event}

theorem Takes.taken_le (hk : k.Takes J h e k') (hle : k.taken ≤ (k.lines h).length) :
    k'.taken ≤ (k'.lines h).length := by
  cases hk with
  | line he hm => exact lt_length_of_getElem? hm
  | _ => exact hle

theorem Takes.attempts_subset (hk : k.Takes J h e k') : k.attempts ⊆ k'.attempts := by
  cases hk with
  | spawn => exact List.subset_append_left _ _
  | _ => exact List.Subset.refl _

/-- Before a worker makes a step its connection is open. -/
theorem Sound.not_closed {cfg : Config} (hs : Sound h k) (hw : k.worker.Step cfg e w) :
    h.closed = false := by
  by_contra hclosed
  rw [hs.alive (by simpa using hclosed)] at hw
  have hstep := Worker.step_iff.mpr hw
  rw [Worker.step_exited] at hstep
  cases hstep

/-- A Response on the connection accounts for the Request it answers. -/
theorem Sound.answered_step {cfg : Config} (hs : Sound h k) (hw : k.worker.Step cfg e w)
    (hk : k.Takes J h e k') (i n : Nat) (r : Request) (response : Response)
    (hsent : h.sent[i]? = some (.request n r))
    (hreply : (k'.give h e).replies[i]? = some (.response response)) :
    k'.Accounts n r response := by
  refine Accounts.mono (k := k) ?_ hk.attempts_subset
  have hgive : k'.give h e = k.give h e := by
    unfold give
    rw [hk.part]
  rw [hgive] at hreply
  rcases give_cases (h := h) hw with heq | ⟨hpart, rep, hg, heq⟩
  · rw [heq] at hreply
    exact hs.answered i n r response hsent hreply
  · rw [heq, HostConnection.reply, getElem?_concat] at hreply
    rcases hreply with hreply | ⟨rfl, hrep⟩
    · exact hs.answered i n r response hsent hreply
    · obtain ⟨m, hm, -, hanswer⟩ := hs.gives hpart hg
      rw [hsent] at hm
      exact hanswer n r response (Option.some.inj hm).symm hrep

include hJ hping

theorem Sound.host (hs : Sound h k) (hw : k.worker.Step (.ofJson J message silent) e w)
    (hk : k.Takes J h e k') :
    Sound (w.closes (k'.give h e)) { k' with worker := w } := by
  have hgrows : h.replies.length ≤ (k'.give h e).replies.length := by
    unfold give
    split
    · split <;> simp [HostConnection.reply]
    · split <;> simp [HostConnection.reply]
    · exact Nat.le_refl _
  have hlines : lines { k' with worker := w } (k'.give h e) = k'.lines h := by
    simp [lines]
  have horder := hs.in_order_step hw hk
  have hown := hs.own_step hw hk
  have hwaits := hs.waits_step hJ hping hw hk
  refine Sound.closes (k := { k' with worker := w })
    ⟨?_, ?_, ?_, ?_, ?_, ?_, ?_, ?_, hw.sound hs.reports, ?_⟩
  · have hsequential := hs.sequential
    rw [give_sent]
    omega
  · rw [hlines]
    exact hk.taken_le hs.taken_le
  · rw [give_torn]
    exact fun hpart => hs.cut (by rwa [← hk.part])
  · rw [give_closed, hs.not_closed hw]
    exact fun hclosed => by cases hclosed
  · rw [hlines]
    exact horder
  · exact hown
  · exact hwaits
  · exact fun hpart => hs.stands_step hJ hping hw hk (by rwa [← hk.part])
  · rw [give_sent]
    exact hs.answered_step hw hk

end Steps

/-! ### The server's end -/

section Server

variable {h h' : HostConnection} {k : HostEnd}

theorem Sound.part_none (hs : Sound h k) (htorn : h.torn = false) : k.part = none := by
  by_contra hpart
  rw [hs.cut hpart] at htorn
  cases htorn

theorem Sound.spoilt (hs : Sound h k) (hspoilt : h.Spoilt h') : Sound h' k := by
  cases hspoilt with
  | torn cut =>
      exact ⟨hs.sequential, hs.taken_le, fun hpart => by simp [hs.cut hpart], hs.alive,
        hs.in_order, hs.own, hs.waits, hs.stands, hs.reports, hs.answered⟩
  | read hr =>
      exact ⟨hs.sequential, hs.taken_le, hs.cut, hs.alive, hs.in_order, hs.own, hs.waits,
        hs.stands, hs.reports, hs.answered⟩

/-- Nothing but a prefix of the lines has been taken. -/
theorem take_lines_append {front more : List SentLine} {n : Nat} (hle : n ≤ front.length) :
    (front ++ more).take n = front.take n := by
  rw [List.take_append_of_le_length hle]

/-- A line is sent when every line before it has its reply. -/
theorem Sound.sentLine (hs : Sound h k) (htorn : h.torn = false)
    (hall : h.replies.length = h.sent.length) (m : SentLine) : Sound (h.sentLine m) k := by
  have hpart := hs.part_none htorn
  have hle := hs.taken_le
  have hlines := lines_of_part (h := h) hpart
  have hlines' := lines_of_part (h := h.sentLine m) hpart
  rw [hlines] at hle
  have hkept : ∀ {i : Nat}, i < h.replies.length →
      (h.sentLine m).sent[i]? = h.sent[i]? := by
    intro i hi
    exact List.getElem?_append_left (by omega)
  refine ⟨?_, ?_, hs.cut, hs.alive, ?_, hs.own, hs.waits, fun _ => ?_, hs.reports, ?_⟩
  · simp [HostConnection.sentLine, hall]
  · rw [hlines']
    simp only [HostConnection.sentLine, List.length_append, List.length_singleton]
    omega
  · have horder := hs.in_order
    rw [hlines] at horder
    rw [hlines']
    show List.Sublist _ (((h.sent ++ [m]).take k.taken).map some)
    rwa [take_lines_append hle]
  · -- no worker is at a line without a reply, for there is none
    have hstands := hs.stands hpart
    have hnone : ∀ {m' : SentLine}, h.sent[h.replies.length]? ≠ some m' := by
      intro m' hm'
      have hlt := lt_length_of_getElem? hm'
      omega
    have hat : ∀ {n r}, ¬ At h.sent h.replies k.taken k.current n r := fun hat => hnone hat.sent
    unfold Stands at hstands ⊢
    split at hstands <;> first
      | exact hstands
      | exact absurd hstands.2 hnone
      | exact hstands.elim
      | skip
    · obtain ⟨-, n, r, h, -⟩ := hstands
      exact absurd h hat
    · obtain ⟨n, h⟩ := hstands
      exact absurd h hat
    · obtain ⟨n, h⟩ := hstands
      exact absurd h hat
    · obtain ⟨n, r, h, -⟩ := hstands
      exact absurd h hat
    · obtain ⟨n, r, h, -⟩ := hstands
      exact absurd h hat
  · intro i n r response hsent hreply
    rw [hkept (lt_length_of_getElem? hreply)] at hsent
    exact hs.answered i n r response hsent hreply

/-- A line is cut. -/
theorem Sound.cutLine (hs : Sound h k) (htorn : h.torn = false) (m : SentLine) :
    Sound { h with torn := true } { k with part := some m } := by
  have hpart := hs.part_none htorn
  have hle := hs.taken_le
  have hlines := lines_of_part (h := h) hpart
  rw [hlines] at hle
  refine ⟨hs.sequential, ?_, fun _ => rfl, hs.alive, ?_, hs.own, hs.waits, ?_, hs.reports,
    hs.answered⟩
  · simp only [lines, List.length_append]
    omega
  · have horder := hs.in_order
    rw [hlines] at horder
    show List.Sublist _ (((h.sent ++ [m]).take k.taken).map some)
    rwa [take_lines_append hle]
  · intro hnone
    cases hnone

/-- A thread that is about to write has a connection in frame. -/
theorem cutLine_exchange {o : Owner} {th th' : Thread} {x : Thread.Io} {m : SentLine}
    (hcut : th.cutLine o x = some m) (hx : th.exchange o h x = some (h', th'))
    (hf : th.Framed o h) : h.torn = false ∧ h' = { h with torn := true } := by
  have hwrite : ∀ {m a b}, Thread.writeThen h m (.failed true) a b = some (h', th') →
      h' = { h with torn := true } := by
    intro m a b hw
    simp only [Thread.writeThen, HostConnection.write, Option.map_some, Option.some.injEq,
      Prod.mk.injEq, Bool.or_true] at hw
    exact hw.1.symm
  unfold Thread.cutLine at hcut
  split at hcut
  · exact ⟨hf.whole, hwrite hx⟩
  · exact ⟨HostConnection.Clean.whole hf, hwrite hx⟩
  · refine ⟨hf.1.whole, ?_⟩
    simp only [Thread.exchange] at hx
    split at hx
    · exact hwrite hx
    · cases hx
  · refine ⟨hf.1.whole, ?_⟩
    split at hcut
    · rename_i hops
      simp only [Thread.exchange, hops] at hx
      exact hwrite hx
    · cases hcut
  · cases hcut

theorem Sound.exchange (hs : Sound h k) (hc : h.Conforms) {o : Owner} {th th' : Thread}
    {x : Thread.Io} (hx : Thread.Exchange o h th x h' th') (hf : th.Framed o h) : Sound h' k := by
  have hclean : h.Clean → ∀ m, Sound (h.sentLine m) k := fun hclean m =>
    hs.sentLine hclean.whole (hclean.replies_length hc) m
  cases hx with
  | helloSent hopen =>
      refine hs.sentLine hf.whole ?_ .ping
      have hle := hc.replies_le
      rw [hf.sent_nil] at hle ⊢
      exact Nat.le_zero.mp hle
  | guardSent hopen => exact hclean hf _
  | pingSent hops hopen => exact hclean hf.1 _
  | sent ho hops hopen => exact hclean hf.1 _
  | greeted hpong => exact hs.spoilt (.read hpong)
  | pong hpong => exact hs.spoilt (.read hpong)
  | received hreply => exact hs.spoilt (.read hreply)
  | helloFailed hsp => exact hs.spoilt hsp
  | notGreeted hsp => exact hs.spoilt hsp
  | guardFailed hsp => exact hs.spoilt hsp
  | pingFailed hops hsp => exact hs.spoilt hsp
  | noPong hsp => exact hs.spoilt hsp
  | notSent ho hops hsp => exact hs.spoilt hsp
  | notReceived hsp => exact hs.spoilt hsp

end Server

end HostEnd

/-! ## The two together -/

namespace PoolHost

/-- Every connection is sound, and those that are not open yet are untouched. -/
structure Sound (s : PoolHost) : Prop where
  owned : s.pool.Owned
  sound : ∀ c, (s.ends c).Sound (s.pool.conns c)
  unopened : ∀ c, s.pool.opened ≤ c → s.ends c = .new

theorem sound_init : Sound init :=
  ⟨Pool.owned_init, fun _ => HostEnd.sound_new, fun _ _ => rfl⟩

section Steps

variable {J : JsonText} (hJ : J.Strict) (hping : J.line ClientAction.ping.toJson = pingLine)
  {message : String → String} {silent : Bool} {s t : PoolHost}

theorem take_opened (p : Pool) (n : Nat) (task : Task) (expired : Bool) :
    (p.take n task expired).opened = p.opened := by
  unfold Pool.take
  split <;> rfl

/-- An exchange on a connection, and the part of a line it may leave. -/
theorem Sound.exchange (h : s.Sound) {o : Owner} {x : Thread.Io} {c : Nat}
    {k : HostConnection} {th : Thread} (hc : (s.pool.threads o).conn = some c)
    (hx : (s.pool.threads o).exchange o (s.pool.conns c) x = some (k, th)) :
    ∀ d, (s.mark (.io o x) d).Sound (Function.update s.pool.conns c k d) := by
  have hframed := h.owned.framed o c hc
  intro d
  cases hcut : (s.pool.threads o).cutLine o x with
  | none =>
      have hmark : s.mark (.io o x) = s.ends := by simp [mark, hc, hcut]
      rw [hmark]
      by_cases hd : d = c
      · subst hd
        rw [Function.update_self]
        exact (h.sound d).exchange (h.owned.conforms d) (Thread.exchange_cases hx) hframed
      · rw [Function.update_of_ne hd]
        exact h.sound d
  | some m =>
      have hmark : s.mark (.io o x) =
          Function.update s.ends c { s.ends c with part := some m } := by
        simp [mark, hc, hcut]
      rw [hmark]
      by_cases hd : d = c
      · subst hd
        rw [Function.update_self, Function.update_self]
        obtain ⟨htorn, rfl⟩ := HostEnd.cutLine_exchange hcut hx hframed
        exact (h.sound d).cutLine htorn m
      · rw [Function.update_of_ne hd, Function.update_of_ne hd]
        exact h.sound d

theorem Sound.mark_unopened (h : s.Sound) (l : Pool.Label) {c : Nat} (hc : s.pool.opened ≤ c) :
    s.mark l c = .new := by
  have hnew := h.unopened c hc
  cases l with
  | io o x =>
      cases hd : (s.pool.threads o).conn with
      | none => simp [mark, hd, hnew]
      | some d =>
          have hlt := h.owned.held_opened o d hd
          have hne : c ≠ d := by omega
          cases hcut : (s.pool.threads o).cutLine o x with
          | none => simp [mark, hd, hcut, hnew]
          | some m => simp [mark, hd, hcut, hne, hnew]
  | _ => exact hnew

theorem Sound.server (h : s.Sound) {l : Pool.Label} {p : Pool} (hl : l.ofHost = false)
    (hp : s.pool.step l = some p) : Sound { pool := p, ends := s.mark l } := by
  have howned := h.owned.step hp
  -- a step on no connection
  have hquiet : s.mark l = s.ends → p.conns = s.pool.conns → p.opened = s.pool.opened →
      Sound { pool := p, ends := s.mark l } := by
    intro hmark hconns hopened
    refine ⟨howned, fun c => ?_, fun c hc => h.mark_unopened l (hopened ▸ hc)⟩
    show (s.mark l c).Sound (p.conns c)
    rw [hmark, hconns]
    exact h.sound c
  cases l with
  | io o x =>
      simp only [Pool.step] at hp
      split at hp
      · rename_i c hc
        obtain ⟨⟨k, th⟩, hx, rfl⟩ := Option.map_eq_some_iff.mp hp
        exact ⟨howned, h.exchange hc hx, fun d hd => h.mark_unopened (.io o x) hd⟩
      · cases hp
  | connect o =>
      cases Pool.step_cases hp with
      | connect hth =>
          refine ⟨howned, fun c => ?_, fun c hc => h.unopened c (Nat.le_of_succ_le hc)⟩
          show (s.ends c).Sound (Function.update s.pool.conns s.pool.opened .new c)
          by_cases hc : c = s.pool.opened
          · subst hc
            rw [Function.update_self, h.unopened _ (Nat.le_refl _)]
            exact HostEnd.sound_new
          · rw [Function.update_of_ne hc]
            exact h.sound c
  | reply c r => cases hl
  | close c => cases hl
  | lookup n expired =>
      cases Pool.step_cases hp with
      | lookup hth => exact hquiet rfl (Pool.take_rest ..).1 (take_opened ..)
  | attempted n expired =>
      cases Pool.step_cases hp with
      | again hth => exact hquiet rfl (Pool.take_rest ..).1 (take_opened ..)
      | lease hth => exact hquiet rfl rfl rfl
      | wait hth => exact hquiet rfl rfl rfl
  | _ =>
      cases Pool.step_cases hp <;> exact hquiet rfl rfl rfl

/-- What the host does is a reply, a disconnection, both or neither. -/
theorem Sound.host_path (h : s.Sound) {cfg : Config} {c : Nat} {e : Event} {w : Worker}
    (hw : (s.ends c).worker.Step cfg e w) :
    ∃ ls, (∀ l ∈ ls, Pool.Label.ofHost l = true) ∧
      run Pool.step s.pool ls =
        some (s.pool.setConn c (w.closes ((s.ends c).give (s.pool.conns c) e))) := by
  have hsame : s.pool.setConn c (s.pool.conns c) = s.pool := by
    simp [Pool.setConn]
  have hgive : ∃ ls, (∀ l ∈ ls, Pool.Label.ofHost l = true) ∧
      run Pool.step s.pool ls = some (s.pool.setConn c ((s.ends c).give (s.pool.conns c) e)) := by
    rcases HostEnd.give_cases (h := s.pool.conns c) hw with heq | ⟨hpart, rep, hg, heq⟩
    · exact ⟨[], by simp, by rw [heq, hsame]; rfl⟩
    · obtain ⟨m, hm, hanswers, -⟩ := (h.sound c).gives hpart hg
      have hopen := (h.sound c).not_closed hw
      refine ⟨[.reply c rep], by simp [Pool.Label.ofHost], ?_⟩
      rw [heq]
      refine run_singleton _ ?_
      simp [Pool.step, hm, hopen, hanswers]
  obtain ⟨ls, hls, hrun⟩ := hgive
  rcases HostEnd.closes_cases w ((s.ends c).give (s.pool.conns c) e) with
    ⟨-, heq⟩ | ⟨-, heq⟩
  · refine ⟨ls ++ [.close c], ?_, ?_⟩
    · intro l hl
      rcases List.mem_append.mp hl with hl | hl
      · exact hls l hl
      · rw [List.mem_singleton.mp hl]
        rfl
    · rw [heq, run_append, hrun, Option.bind_some]
      refine run_singleton _ ?_
      simp [Pool.step, Pool.setConn]
  · rw [heq]
    exact ⟨ls, hls, hrun⟩

theorem owned_of_run {p q : Pool} (h : p.Owned) {ls : List Pool.Label}
    (hrun : run Pool.step p ls = some q) : q.Owned :=
  run_invariant (fun _ _ _ h hstep => h.step hstep) h hrun

theorem Sound.kill (h : s.Sound) {c : Nat} (hc : c < s.pool.opened) :
    Sound (s.serve c (s.pool.conns c) { s.ends c with worker := .exited }) := by
  have hclose : run Pool.step s.pool [.close c] =
      some (s.pool.setConn c (s.pool.conns c).close) := rfl
  refine ⟨owned_of_run h.owned hclose, fun d => ?_, fun d hd => ?_⟩
  · show (Function.update s.ends c _ d).Sound (Function.update s.pool.conns c _ d)
    by_cases hd : d = c
    · subst hd
      rw [Function.update_self, Function.update_self]
      have hs := h.sound d
      have horder : ((s.ends d).attempts.map SpawnCall.line).Sublist _ :=
        (List.sublist_append_left _ _).trans hs.in_order
      have hno : ∀ r, ¬ Worker.exited.Waiting r := by
        rintro r (hr | ⟨_, _, hr⟩) <;> cases hr
      refine ⟨hs.sequential, hs.taken_le, hs.cut, fun _ => rfl, ?_, hs.own,
        fun r hr => absurd hr (hno r), fun _ => trivial, trivial, hs.answered⟩
      rw [HostEnd.waiting_eq_nil hno, List.append_nil]
      exact horder
    · rw [Function.update_of_ne hd, Function.update_of_ne hd]
      exact h.sound d
  · have hd' : s.pool.opened ≤ d := hd
    show Function.update s.ends c _ d = .new
    rw [Function.update_of_ne (by omega)]
    exact h.unopened d hd'

include hJ hping

theorem Sound.host (h : s.Sound) {c : Nat} {e : Event} {w : Worker} {k : HostEnd}
    (hc : c < s.pool.opened)
    (hw : (s.ends c).worker.Step (.ofJson J message silent) e w)
    (hk : (s.ends c).Takes J (s.pool.conns c) e k) :
    Sound (s.serve c (k.give (s.pool.conns c) e) { k with worker := w }) := by
  have hgive : k.give (s.pool.conns c) e = (s.ends c).give (s.pool.conns c) e := by
    unfold HostEnd.give
    rw [hk.part]
  obtain ⟨ls, -, hrun⟩ := h.host_path hw
  refine ⟨?_, fun d => ?_, fun d hd => ?_⟩
  · rw [serve, hgive]
    exact owned_of_run h.owned hrun
  · show (Function.update s.ends c _ d).Sound (Function.update s.pool.conns c _ d)
    by_cases hd : d = c
    · subst hd
      rw [Function.update_self, Function.update_self]
      exact (h.sound d).host hJ hping hw hk
    · rw [Function.update_of_ne hd, Function.update_of_ne hd]
      exact h.sound d
  · have hd' : s.pool.opened ≤ d := hd
    show Function.update s.ends c _ d = .new
    rw [Function.update_of_ne (by omega)]
    exact h.unopened d hd'

end Steps

/-! ### The lines of one call -/

/-- The lines of a connection, whole or cut. -/
def lines (s : PoolHost) (c : Nat) : List SentLine :=
  (s.ends c).lines (s.pool.conns c)

section Lines

variable {s t : PoolHost}

theorem exchange_sent {o : Owner} {h h' : HostConnection} {th th' : Thread} {x : Thread.Io}
    (hx : Thread.Exchange o h th x h' th') (hf : th.Framed o h) :
    (∃ m, h' = h.sentLine m ∧ h.torn = false ∧ (m = .ping ∨ Thread.Asks o th x m)) ∨
      h'.sent = h.sent := by
  have hspoilt : ∀ {h'}, h.Spoilt h' → h'.sent = h.sent := by
    rintro h' (cut | hr) <;> rfl
  cases hx with
  | helloSent hopen => exact .inl ⟨_, rfl, hf.whole, .inl rfl⟩
  | guardSent hopen => exact .inl ⟨_, rfl, HostConnection.Clean.whole hf, .inl rfl⟩
  | pingSent hops hopen => exact .inl ⟨_, rfl, hf.1.whole, .inl rfl⟩
  | sent ho hops hopen =>
      exact .inl ⟨_, rfl, hf.1.whole, .inr ⟨_, _, _, _, _, rfl, ho, rfl, rfl, hops⟩⟩
  | greeted hpong => exact .inr rfl
  | pong hpong => exact .inr rfl
  | received hreply => exact .inr rfl
  | helloFailed hs => exact .inr (hspoilt hs)
  | notGreeted hs => exact .inr (hspoilt hs)
  | guardFailed hs => exact .inr (hspoilt hs)
  | pingFailed hops hs => exact .inr (hspoilt hs)
  | noPong hs => exact .inr (hspoilt hs)
  | notSent ho hops hs => exact .inr (hspoilt hs)
  | notReceived hs => exact .inr (hspoilt hs)

/-- A cut Request is the one the caller is about to send. -/
theorem cutLine_asks {o : Owner} {th : Thread} {x : Thread.Io} {n : Nat} {r : Request}
    (hcut : th.cutLine o x = some (.request n r)) :
    o = .caller n ∧ x = .send (.failed true) ∧
      ∃ t d ops, th = .ready t d ∧ t.ops = .execute r :: ops := by
  unfold Thread.cutLine at hcut
  split at hcut
  · cases hcut
  · cases hcut
  · cases hcut
  · split at hcut
    · rename_i hops
      cases hcut
      exact ⟨rfl, rfl, _, _, _, rfl, hops⟩
    · cases hcut
  · cases hcut

/-- The caller is about to send a Request as the next line of `c`. -/
def Sends (s : PoolHost) (l : Pool.Label) (c i n : Nat) (r : Request) : Prop :=
  l.sends n = true ∧ (s.pool.threads (.caller n)).conn = some c ∧ i = (s.lines c).length ∧
    ∃ t d ops, s.pool.threads (.caller n) = .ready t d ∧ t.ops = .execute r :: ops

theorem Sound.line_exchange (h : s.Sound) {o : Owner} {x : Thread.Io} {d : Nat}
    {k : HostConnection} {th : Thread} (hd : (s.pool.threads o).conn = some d)
    (hx : (s.pool.threads o).exchange o (s.pool.conns d) x = some (k, th)) {c i n : Nat}
    {r : Request}
    (hline : ((s.mark (.io o x) c).lines (Function.update s.pool.conns d k c))[i]? =
      some (.request n r)) :
    (s.lines c)[i]? = some (.request n r) ∨ s.Sends (.io o x) c i n r := by
  have hframed := h.owned.framed o d hd
  have hexchange := Thread.exchange_cases hx
  by_cases hcd : c = d
  · subst hcd
    rw [Function.update_self] at hline
    -- one more line, whole or cut, behind the lines there are
    have hnext : ∀ {m : SentLine}, (s.pool.conns c).torn = false →
        ((s.pool.conns c).sent ++ [m])[i]? = some (.request n r) →
        (m = .request n r → o = .caller n ∧ (∃ w, x = .send w) ∧
          ∃ t d ops, s.pool.threads o = .ready t d ∧ t.ops = .execute r :: ops) →
        (s.lines c)[i]? = some (.request n r) ∨ s.Sends (.io o x) c i n r := by
      intro m htorn hm hasks
      have hlines : s.lines c = (s.pool.conns c).sent :=
        HostEnd.lines_of_part ((h.sound c).part_none htorn)
      rw [getElem?_concat] at hm
      rcases hm with hm | ⟨hi, hm⟩
      · exact .inl (hlines ▸ hm)
      · obtain ⟨rfl, ⟨w, rfl⟩, hready⟩ := hasks hm
        exact .inr ⟨by simp [Pool.Label.sends], hd, hlines ▸ hi, hready⟩
    cases hcut : (s.pool.threads o).cutLine o x with
    | some m =>
        obtain ⟨htorn, rfl⟩ := HostEnd.cutLine_exchange hcut hx hframed
        simp only [mark, hd, hcut, Function.update_self, HostEnd.lines, Option.toList_some]
          at hline
        refine hnext htorn hline ?_
        rintro rfl
        obtain ⟨ho, hsend, hready⟩ := cutLine_asks hcut
        exact ⟨ho, ⟨_, hsend⟩, hready⟩
    | none =>
        have hmark : s.mark (.io o x) c = s.ends c := by simp [mark, hd, hcut]
        rw [hmark] at hline
        rcases exchange_sent hexchange hframed with ⟨m, rfl, htorn, hm⟩ | hsame
        · rw [HostEnd.lines, (h.sound c).part_none htorn, Option.toList_none,
            List.append_nil] at hline
          refine hnext htorn hline ?_
          rintro rfl
          rcases hm with hm | ⟨n', t, d, r', ops, hm, ho, hsend, hth, hops⟩
          · cases hm
          · cases hm
            exact ⟨ho, ⟨_, hsend⟩, t, d, ops, hth, hops⟩
        · rw [HostEnd.lines, hsame] at hline
          exact .inl hline
  · have hmark : s.mark (.io o x) c = s.ends c := by
      cases hcut : (s.pool.threads o).cutLine o x <;> simp [mark, hd, hcut, hcd]
    rw [hmark, Function.update_of_ne hcd] at hline
    exact .inl hline

/-- A Request is on a connection already, or it is the one that is sent now. -/
theorem Sound.line_server (h : s.Sound) {l : Pool.Label} {p : Pool} (hl : l.ofHost = false)
    (hp : s.pool.step l = some p) {c i n : Nat} {r : Request}
    (hline : ((s.mark l c).lines (p.conns c))[i]? = some (.request n r)) :
    (s.lines c)[i]? = some (.request n r) ∨ s.Sends l c i n r := by
  cases l with
  | io o x =>
      simp only [Pool.step] at hp
      split at hp
      · rename_i d hd
        obtain ⟨⟨k, th⟩, hx, rfl⟩ := Option.map_eq_some_iff.mp hp
        exact h.line_exchange hd hx hline
      · cases hp
  | connect o =>
      cases Pool.step_cases hp with
      | connect hth =>
          have hline' : ((s.ends c).lines
              (Function.update s.pool.conns s.pool.opened .new c))[i]? =
                some (.request n r) := hline
          by_cases hc : c = s.pool.opened
          · subst hc
            rw [Function.update_self, h.unopened _ (Nat.le_refl _)] at hline'
            cases hline'
          · rw [Function.update_of_ne hc] at hline'
            exact .inl hline'
  | reply c r => cases hl
  | close c => cases hl
  | lookup n expired =>
      cases Pool.step_cases hp with
      | lookup hth =>
          rw [(Pool.take_rest ..).1] at hline
          exact .inl hline
  | attempted n expired =>
      cases Pool.step_cases hp with
      | again hth =>
          rw [(Pool.take_rest ..).1] at hline
          exact .inl hline
      | lease hth => exact .inl hline
      | wait hth => exact .inl hline
  | _ =>
      cases Pool.step_cases hp <;> exact .inl hline

/-- The Requests of one caller on all connections, whole or cut. -/
structure Once (ls : List Pool.Label) (s : PoolHost) (n : Nat) : Prop where
  none : Pool.sends n ls = 0 → ∀ (c i : Nat) (r : Request),
    (s.lines c)[i]? ≠ some (.request n r)
  unique : Pool.sends n ls ≤ 1 → ∀ (c c' i i' : Nat) (r r' : Request),
    (s.lines c)[i]? = some (.request n r) →
    (s.lines c')[i']? = some (.request n r') → c = c' ∧ i = i'
  own : ∀ request, (Pool.callsOf ls)[n]? = some (.exec request) →
    ∀ (c i : Nat) (r : Request), (s.lines c)[i]? = some (.request n r) → r = request

theorem once_init (n : Nat) : Once [] init n := by
  have hnone : ∀ (c i : Nat) (m : SentLine), (init.lines c)[i]? ≠ some m := by
    intro c i m hm
    cases hm
  exact ⟨fun _ c i r => hnone c i _, fun _ c _ i _ r _ h => absurd h (hnone c i _),
    fun _ _ c i _ h => absurd h (hnone c i _)⟩

theorem Once.server {ls : List Pool.Label} {n : Nat} (h : Once ls s n) (hs : s.Sound)
    (hrun : run Pool.step Pool.init ls = some s.pool) {l : Pool.Label} {p : Pool}
    (hl : l.ofHost = false) (hp : s.pool.step l = some p) :
    Once (ls ++ [l]) { pool := p, ends := s.mark l } n := by
  have hsends := Pool.sends_concat n ls l
  have hcalled := Pool.called_run hrun
  have hsending := Pool.sending_run hrun
  refine ⟨?_, ?_, ?_⟩
  · intro hzero c i r hline
    rcases hs.line_server hl hp hline with hold | ⟨hsend, -⟩
    · exact h.none (by omega) c i r hold
    · rw [hsend, Bool.toNat_true] at hsends
      omega
  · intro hle c c' i i' r r' hline hline'
    rcases hs.line_server hl hp hline with hold | ⟨hsend, hc, hi, -⟩ <;>
      rcases hs.line_server hl hp hline' with hold' | ⟨hsend', hc', hi', -⟩
    · exact h.unique (by omega) c c' i i' r r' hold hold'
    · rw [hsend', Bool.toNat_true] at hsends
      exact absurd hold (h.none (by omega) c i r)
    · rw [hsend, Bool.toNat_true] at hsends
      exact absurd hold' (h.none (by omega) c' i' r')
    · rw [hc] at hc'
      cases hc'
      exact ⟨rfl, hi.trans hi'.symm⟩
  · intro request hn c i r hline
    rcases hs.line_server hl hp hline with hold | ⟨hsend, -, -, t, d, ops, hth, hops⟩
    · by_cases hlt : n < s.pool.calls
      · rw [hcalled.calls] at hlt
        rw [Pool.callsOf_append_left [l] hlt] at hn
        exact h.own request hn c i r hold
      · exact absurd hold (h.none (hsending.uncalled n (by omega)) c i r)
    · have hne : ∀ t, l ≠ .call t := by
        rintro t rfl
        cases hsend
      rw [Pool.callsOf_concat_of_ne ls hne] at hn
      have hsent := hsending.called n request hn
      rw [hth] at hsent
      exact (hsent.before hops).2.1

end Lines

/-! ### Whole runs -/

section HostLabels

variable {ls : List Pool.Label}

/-- The host neither calls nor sends. -/
theorem sends_ofHost (n : Nat) (hls : ∀ l ∈ ls, Pool.Label.ofHost l = true) :
    Pool.sends n ls = 0 := by
  rw [Pool.sends, List.countP_eq_zero]
  intro l hl
  have hhost := hls l hl
  cases l with
  | reply c r => exact Bool.false_ne_true
  | close c => exact Bool.false_ne_true
  | _ => cases hhost

theorem callsOf_ofHost (hls : ∀ l ∈ ls, Pool.Label.ofHost l = true) : Pool.callsOf ls = [] := by
  rw [Pool.callsOf, List.filterMap_eq_nil_iff]
  intro l hl
  have hhost := hls l hl
  cases l with
  | reply c r => rfl
  | close c => rfl
  | _ => cases hhost

theorem filter_ofHost (hls : ∀ l ∈ ls, Pool.Label.ofHost l = true) :
    ls.filter (fun l => !l.ofHost) = [] := by
  rw [List.filter_eq_nil_iff]
  intro l hl
  simp [hls l hl]

end HostLabels

/-- The run of the pool that goes with a run of the two. -/
structure Traced (es : List Label) (s : PoolHost) (ls : List Pool.Label) : Prop where
  run : Machine.run Pool.step Pool.init ls = some s.pool
  servers : ls.filter (fun l => !l.ofHost) = servers es
  sound : s.Sound
  once : ∀ n, Once ls s n

section Runs

variable {J : JsonText} (hJ : J.Strict) (hping : J.line ClientAction.ping.toJson = pingLine)
  {message : String → String} {silent : Bool} {s t : PoolHost} {es : List Label}
  {ls : List Pool.Label}

/-- What a host does at its end changes no line. -/
theorem lines_serve (s : PoolHost) {c : Nat} {h : HostConnection} {k : HostEnd}
    (hsent : h.sent = (s.pool.conns c).sent) (hpart : k.part = (s.ends c).part) :
    (s.serve c h k).lines = s.lines := by
  funext d
  show (Function.update s.ends c k d).lines (Function.update s.pool.conns c _ d) = _
  by_cases hd : d = c
  · subst hd
    rw [Function.update_self, Function.update_self, HostEnd.lines, hpart]
    rcases HostEnd.closes_cases k.worker h with ⟨-, heq⟩ | ⟨-, heq⟩ <;> rw [heq]
    · rw [HostConnection.close, hsent]
      rfl
    · rw [hsent]
      rfl
  · rw [Function.update_of_ne hd, Function.update_of_ne hd]
    rfl

/-- The host's steps leave the calls and the lines alone. -/
theorem Traced.host (h : Traced es s ls) {more : List Pool.Label}
    (hmore : ∀ l ∈ more, Pool.Label.ofHost l = true) {l : Label}
    (hl : ∀ l', l ≠ .server l') (hrun : Machine.run Pool.step s.pool more = some t.pool)
    (ht : t.Sound) (hlines : t.lines = s.lines) : Traced (es ++ [l]) t (ls ++ more) := by
  have hsends : ∀ n, Pool.sends n (ls ++ more) = Pool.sends n ls := by
    intro n
    have hnone := sends_ofHost n hmore
    rw [Pool.sends] at hnone ⊢
    rw [List.countP_append, hnone, Nat.add_zero, Pool.sends]
  have hcalls : Pool.callsOf (ls ++ more) = Pool.callsOf ls := by
    have hnone := callsOf_ofHost hmore
    rw [Pool.callsOf] at hnone ⊢
    rw [List.filterMap_append, hnone, List.append_nil, Pool.callsOf]
  have hservers : PoolHost.servers (es ++ [l]) = PoolHost.servers es := by
    rw [PoolHost.servers, List.filterMap_append]
    cases l with
    | server l' => exact absurd rfl (hl l')
    | _ => exact List.append_nil _
  refine ⟨?_, ?_, ht, fun n => ?_⟩
  · rw [run_append, h.run]
    exact hrun
  · rw [List.filter_append, filter_ofHost hmore, List.append_nil, h.servers, hservers]
  · have honce := h.once n
    refine ⟨?_, ?_, ?_⟩
    · rw [hsends, hlines]
      exact honce.none
    · rw [hsends, hlines]
      exact honce.unique
    · rw [hcalls, hlines]
      exact honce.own

include hJ hping

theorem Traced.step (h : Traced es s ls) {l : Label}
    (hstep : s.step J (.ofJson J message silent) l = some t) :
    ∃ ls', Traced (es ++ [l]) t ls' := by
  cases step_cases hstep with
  | @server l p hl hp =>
      refine ⟨ls ++ [l], ?_, ?_, h.sound.server hl hp,
        fun n => (h.once n).server h.sound h.run hl hp⟩
      · exact (run_concat Pool.step).mpr ⟨s.pool, h.run, hp⟩
      · rw [List.filter_append, h.servers]
        simp [hl, PoolHost.servers]
  | @host c e w k hc hw hk =>
      obtain ⟨more, hmore, hrun⟩ := h.sound.host_path hw
      have htakes := HostEnd.take_cases hk
      have hgive : k.give (s.pool.conns c) e = (s.ends c).give (s.pool.conns c) e := by
        unfold HostEnd.give
        rw [htakes.part]
      refine ⟨ls ++ more, h.host hmore nofun (by rw [serve, hgive]; exact hrun)
        (h.sound.host hJ hping hc hw htakes) ?_⟩
      exact lines_serve s HostEnd.give_sent htakes.part
  | @kill c hc =>
      refine ⟨ls ++ [.close c], h.host (by simp [Pool.Label.ofHost]) nofun rfl
        (h.sound.kill hc) ?_⟩
      exact lines_serve s rfl rfl

/-- Every run of the two is one of the pool, with the same steps of the server. -/
theorem traced_run (hrun : Machine.run (step J (.ofJson J message silent)) init es = some s) :
    ∃ ls, Traced es s ls := by
  refine run_induction (P := fun es s => ∃ ls, Traced es s ls)
    ⟨[], rfl, rfl, sound_init, once_init⟩ ?_ hrun
  rintro es s l t - ⟨ls, htraced⟩ hstep
  exact htraced.step hJ hping hstep

end Runs

/-- The host's steps are none of the calls and none of the sends. -/
theorem Traced.callsOf {es : List Label} {s : PoolHost} {ls : List Pool.Label}
    (h : Traced es s ls) : Pool.callsOf ls = Pool.callsOf (PoolHost.servers es) := by
  rw [← h.servers, Pool.callsOf, Pool.callsOf, List.filterMap_filter]
  refine List.filterMap_congr fun l _ => ?_
  cases l <;> rfl

/-! ### The count of the spawns -/

/-- The line is a Request of caller `n`. -/
def ofCall (n : Nat) : Option SentLine → Bool
  | some (.request m _) => m == n
  | _ => false

/-- The calls of `spawn` for caller `n`, on all connections. -/
def attemptsOf (s : PoolHost) (n : Nat) : List SpawnCall :=
  (List.range s.pool.opened).flatMap fun c =>
    (s.ends c).attempts.filter fun x => ofCall n x.line

/-- The requests of caller `n` whose commands were spawned: the calls that succeeded. -/
def spawnsOf (s : PoolHost) (n : Nat) : List Request :=
  ((s.attemptsOf n).filter fun x => x.result.isOk).map SpawnCall.request

section Count

variable {ls : List Pool.Label} {s : PoolHost} {n : Nat} {request : Request}

/-- A list with one place for what satisfies `p` has one such element at most. -/
theorem length_filter_le_one {α : Type*} {p : α → Bool} {l : List α}
    (h : ∀ (i j : Nat) (a b : α), l[i]? = some a → l[j]? = some b → p a = true → p b = true →
      i = j) : (l.filter p).length ≤ 1 := by
  induction l with
  | nil => exact Nat.zero_le 1
  | cons a l ih =>
      have htail : (l.filter p).length ≤ 1 :=
        ih fun i j a b hi hj ha hb => Nat.succ.inj (h (i + 1) (j + 1) a b hi hj ha hb)
      by_cases ha : p a = true
      · have hnone : l.filter p = [] := by
          refine List.filter_eq_nil_iff.mpr fun b hb hpb => ?_
          obtain ⟨j, hj⟩ := List.getElem?_of_mem hb
          have hcontra := h 0 (j + 1) a b rfl hj ha hpb
          omega
        rw [List.filter_cons_of_pos ha, hnone]
        exact Nat.le_refl 1
      · rw [List.filter_cons_of_neg ha]
        exact htail

/-- Lists of which one at most is not empty, and no longer than one. -/
theorem length_flatMap_le_one {α β : Type*} {f : α → List β} {l : List α} (hl : l.Nodup)
    (hone : ∀ a, (f a).length ≤ 1)
    (h : ∀ a b, f a ≠ [] → f b ≠ [] → a = b) : (l.flatMap f).length ≤ 1 := by
  induction l with
  | nil => exact Nat.zero_le 1
  | cons a l ih =>
      have hnodup := List.nodup_cons.mp hl
      rw [List.flatMap_cons, List.length_append]
      by_cases ha : f a = []
      · rw [ha, List.length_nil, Nat.zero_add]
        exact ih hnodup.2
      · have hnone : l.flatMap f = [] := by
          refine List.flatMap_eq_nil_iff.mpr fun b hb => ?_
          by_contra hfb
          exact hnodup.1 (h a b ha hfb ▸ hb)
        rw [hnone]
        exact hone a

theorem ofCall_iff {m : Option SentLine} :
    ofCall n m = true ↔ ∃ r, m = some (.request n r) := by
  constructor
  · intro h
    match m, h with
    | some (.request _ r), h => exact ⟨r, by rw [beq_iff_eq.mp h]⟩
  · rintro ⟨r, rfl⟩
    exact beq_self_eq_true n

/-- A spawn is made for a line of its connection. -/
theorem Sound.attempt_line (h : s.Sound) {c : Nat} {m : SentLine} {x : SpawnCall}
    (hx : x ∈ (s.ends c).attempts) (hline : x.line = some m) :
    ∃ i : Nat, (s.lines c)[i]? = some m := by
  have horder := (List.sublist_append_left _ _).trans (h.sound c).in_order
  have hmem : some m ∈ (((s.ends c).lines (s.pool.conns c)).take (s.ends c).taken).map some :=
    horder.subset (List.mem_map.mpr ⟨x, hx, hline⟩)
  obtain ⟨m', hm', heq⟩ := List.mem_map.mp hmem
  cases heq
  exact List.getElem?_of_mem (List.mem_of_mem_take hm')

/-- On one connection a caller has as many spawns as lines at most. -/
theorem Sound.attempts_le (h : s.Sound) (hunique : ∀ (c c' i i' : Nat) (r r' : Request),
    (s.lines c)[i]? = some (.request n r) → (s.lines c')[i']? = some (.request n r') →
      c = c' ∧ i = i') (c : Nat) :
    ((s.ends c).attempts.filter fun x => ofCall n x.line).length ≤ 1 := by
  have horder := (List.sublist_append_left _ _).trans (h.sound c).in_order
  have hsub : (((s.ends c).attempts.map SpawnCall.line).filter (ofCall n)).Sublist
      (((s.lines c).map some).filter (ofCall n)) :=
    (horder.trans ((List.take_sublist _ _).map some)).filter _
  have hlines : (((s.lines c).map some).filter (ofCall n)).length ≤ 1 := by
    refine length_filter_le_one fun i j a b hi hj ha hb => ?_
    obtain ⟨r, rfl⟩ := ofCall_iff.mp ha
    obtain ⟨r', rfl⟩ := ofCall_iff.mp hb
    rw [List.getElem?_map, Option.map_eq_some_iff] at hi hj
    obtain ⟨_, hi, ⟨⟩⟩ := hi
    obtain ⟨_, hj, ⟨⟩⟩ := hj
    exact (hunique c c i j r r' hi hj).2
  calc ((s.ends c).attempts.filter fun x => ofCall n x.line).length
      = (((s.ends c).attempts.map SpawnCall.line).filter (ofCall n)).length := by
        rw [List.filter_map, List.length_map]
        rfl
    _ ≤ (((s.lines c).map some).filter (ofCall n)).length := hsub.length_le
    _ ≤ 1 := hlines

theorem mem_attemptsOf {x : SpawnCall} (hx : x ∈ s.attemptsOf n) :
    ∃ c r, x ∈ (s.ends c).attempts ∧ x.line = some (.request n r) := by
  obtain ⟨c, -, hc⟩ := List.mem_flatMap.mp hx
  obtain ⟨hmem, hof⟩ := List.mem_filter.mp hc
  obtain ⟨r, hline⟩ := ofCall_iff.mp hof
  exact ⟨c, r, hmem, hline⟩

theorem Sound.mem_attemptsOf_of_mem (h : s.Sound) {c : Nat} {x : SpawnCall} {r : Request}
    (hx : x ∈ (s.ends c).attempts) (hline : x.line = some (.request n r)) :
    x ∈ s.attemptsOf n := by
  have hc : c < s.pool.opened := by
    by_contra hc
    rw [h.unopened c (by omega)] at hx
    cases hx
  exact List.mem_flatMap.mpr
    ⟨c, List.mem_range.mpr hc, List.mem_filter.mpr ⟨hx, ofCall_iff.mpr ⟨r, hline⟩⟩⟩

theorem Sound.attemptsOf_le_one (h : s.Sound) (hunique : ∀ (c c' i i' : Nat) (r r' : Request),
    (s.lines c)[i]? = some (.request n r) → (s.lines c')[i']? = some (.request n r') →
      c = c' ∧ i = i') : (s.attemptsOf n).length ≤ 1 := by
  refine length_flatMap_le_one List.nodup_range (h.attempts_le hunique) fun c c' hc hc' => ?_
  have hline : ∀ {c}, ((s.ends c).attempts.filter fun x => ofCall n x.line) ≠ [] →
      ∃ (i : Nat) (r : Request), (s.lines c)[i]? = some (.request n r) := by
    intro c hc
    obtain ⟨x, hx⟩ := List.exists_mem_of_ne_nil _ hc
    obtain ⟨hmem, hof⟩ := List.mem_filter.mp hx
    obtain ⟨r, hline⟩ := ofCall_iff.mp hof
    obtain ⟨i, hi⟩ := h.attempt_line hmem hline
    exact ⟨i, r, hi⟩
  obtain ⟨i, r, hi⟩ := hline hc
  obtain ⟨i', r', hi'⟩ := hline hc'
  exact (hunique c c' i i' r r' hi hi').1

/-- For a call `spawn` is called with its own request, once at most, and for no empty
command. -/
theorem Traced.attemptsOf {es : List Label} (h : Traced es s ls)
    (hn : (Pool.callsOf ls)[n]? = some (.exec request)) :
    s.attemptsOf n = [] ∨
      ∃ x, s.attemptsOf n = [x] ∧ x.request = request ∧ request.exec.isEmpty = false := by
  have hsent := (Pool.sending_run h.run).called n request hn
  have hone := h.sound.attemptsOf_le_one ((h.once n).unique hsent.le_one)
  match hs : s.attemptsOf n, hone with
  | [], _ => exact .inl rfl
  | [x], _ =>
      obtain ⟨c, r, hx, hline⟩ := mem_attemptsOf (show x ∈ s.attemptsOf n by simp [hs])
      obtain ⟨⟨m, hm⟩, hexec⟩ := (h.sound.sound c).own _ hx
      obtain ⟨i, hi⟩ := h.sound.attempt_line hx hline
      have hown : r = request := (h.once n).own request hn c i r hi
      obtain ⟨-, hr⟩ : n = m ∧ r = x.request := by simpa [hline] using hm
      have hrequest : x.request = request := hr.symm.trans hown
      exact .inr ⟨x, rfl, hrequest, hrequest ▸ hexec⟩

end Count

/-! ### The laws -/

/-- The Response of a call that is over is the host's to its Request. -/
theorem answered_of_over {ls : List Pool.Label} {p : Pool} {n : Nat} {request : Request}
    {rs : List (Request × Response)} (hrun : Machine.run Pool.step Pool.init ls = some p)
    (hn : (Pool.callsOf ls)[n]? = some (.exec request))
    (hover : p.threads (.caller n) = .over (.answers rs)) :
    ∃ response, rs = [(request, response)] ∧ p.Answered n (request, response) := by
  have hserves := (Pool.called_run hrun).serves n _ hn
  rw [hover] at hserves
  have hrequests : rs.map Prod.fst = [request] := hserves rs rfl
  obtain ⟨⟨request', response⟩, rfl, rfl⟩ := List.map_eq_singleton_iff.mp hrequests
  refine ⟨response, rfl, Pool.allAnswered_run hrun n _ ?_⟩
  rw [hover]
  exact List.mem_singleton_self _

section Laws

variable {J : JsonText} {message : String → String} {silent : Bool} {s : PoolHost}
  {es : List Label}

/-- What the workers of the host do is what `Pool` takes the host to do: every run of the
two is a run of the pool in which the server makes the same steps. -/
theorem refines_pool (hJ : J.Strict)
    (hping : J.line ClientAction.ping.toJson = pingLine)
    (hrun : Machine.run (step J (.ofJson J message silent)) init es = some s) :
    ∃ ls, Machine.run Pool.step Pool.init ls = some s.pool ∧
      ls.filter (fun l => !l.ofHost) = servers es := by
  obtain ⟨ls, htraced⟩ := traced_run hJ hping hrun
  exact ⟨ls, htraced.run, htraced.servers⟩

/-- The host spawns the command of a call once at most, and not at all if the call reports
HOST NOT FOUND.  If the call reports a Response and there is a command, the host has
spawned it, exactly once, or the Response says that it could not. -/
theorem exec_spawns_once (hJ : J.Strict)
    (hping : J.line ClientAction.ping.toJson = pingLine)
    (hrun : Machine.run (step J (.ofJson J message silent)) init es = some s) {n : Nat}
    {request : Request} (hn : (Pool.callsOf (servers es))[n]? = some (.exec request)) :
    (s.spawnsOf n = [] ∨ s.spawnsOf n = [request]) ∧
      (s.pool.threads (.caller n) = .over .hostNotFound → s.attemptsOf n = []) ∧
      ∀ rs, s.pool.threads (.caller n) = .over (.answers rs) →
        ∃ response, rs = [(request, response)] ∧
          if request.exec.isEmpty then s.attemptsOf n = [] ∧ response = emptyExecResponse
          else (s.spawnsOf n = [request] ∧ response.error ≠ some "spawn_failed") ∨
            (s.spawnsOf n = [] ∧ ∃ err,
              s.attemptsOf n = [⟨some (.request n request), request, .error err⟩] ∧
                response = spawnFailedResponse err) := by
  obtain ⟨ls, htraced⟩ := traced_run hJ hping hrun
  rw [← htraced.callsOf] at hn
  have hattempts := htraced.attemptsOf hn
  refine ⟨?_, fun hover => ?_, fun rs hover => ?_⟩
  · rcases hattempts with hnone | ⟨x, hone, rfl, -⟩
    · exact .inl (by simp [spawnsOf, hnone])
    · cases hok : x.result.isOk with
      | false => exact .inl (by simp [spawnsOf, hone, hok])
      | true => exact .inr (by simp [spawnsOf, hone, hok])
  · have hsent := (Pool.sending_run htraced.run).called n request hn
    rw [hover] at hsent
    refine hattempts.resolve_right fun ⟨x, hone, _⟩ => ?_
    obtain ⟨c, r, hx, hline⟩ := mem_attemptsOf (show x ∈ s.attemptsOf n by simp [hone])
    obtain ⟨i, hi⟩ := htraced.sound.attempt_line hx hline
    exact (htraced.once n).none (hsent.2 rfl) c i r hi
  · obtain ⟨response, rfl, c, i, hsent, hreply⟩ :=
      answered_of_over htraced.run hn hover
    refine ⟨response, rfl, ?_⟩
    -- the only attempt there is, if there is one, is the one the Response accounts for
    have hfound : ∀ {result}, ⟨some (.request n request), request, result⟩ ∈ (s.ends c).attempts →
        request.exec.isEmpty = false ∧
          s.attemptsOf n = [⟨some (.request n request), request, result⟩] := by
      intro result hx
      have hmem := htraced.sound.mem_attemptsOf_of_mem hx rfl
      rcases hattempts with hnone | ⟨x, hone, -, hexec⟩
      · rw [hnone] at hmem
        cases hmem
      · rw [hone, List.mem_singleton] at hmem
        exact ⟨hexec, hmem ▸ hone⟩
    rcases (htraced.sound.sound c).answered i n request response hsent hreply with
      ⟨child, hx, herror⟩ | ⟨err, hx, hresponse⟩ | ⟨hempty, hresponse⟩
    · obtain ⟨hexec, hone⟩ := hfound hx
      rw [if_neg (by simp [hexec])]
      exact .inl ⟨by simp [spawnsOf, hone, Except.isOk, Except.toBool], herror⟩
    · obtain ⟨hexec, hone⟩ := hfound hx
      rw [if_neg (by simp [hexec])]
      exact .inr ⟨by simp [spawnsOf, hone, Except.isOk, Except.toBool], err, hone, hresponse⟩
    · rw [if_pos hempty]
      refine ⟨hattempts.resolve_right fun ⟨_, _, _, hexec⟩ => ?_, hresponse⟩
      rw [hempty] at hexec
      cases hexec

end Laws

/-! ### A run of the two -/

section Sample

variable {J : JsonText} {cfg : Config} {s : PoolHost} {c : Nat} {m : SentLine} {w : Worker}

/-- A worker has read the next line. -/
def reading (s : PoolHost) (c : Nat) (m : SentLine) (w : Worker) : PoolHost :=
  { s with
    ends := Function.update s.ends c
      { s.ends c with worker := w, taken := (s.ends c).taken + 1, current := some m } }

theorem step_readLine (hc : c < s.pool.opened)
    (hm : (s.pool.conns c).sent[(s.ends c).taken]? = some m)
    (hw : (s.ends c).worker.step cfg (.readLine (.line (m.text J))) = some w)
    (hstay : w.closes (s.pool.conns c) = s.pool.conns c) :
    s.step J cfg (.host c (.readLine (.line (m.text J)))) = some (s.reading c m w) := by
  have hlt := lt_length_of_getElem? hm
  have hline : ((s.ends c).lines (s.pool.conns c))[(s.ends c).taken]? = some m := by
    rw [HostEnd.lines, List.getElem?_append_left hlt, hm]
  simp only [step, if_pos hc, hw, HostEnd.take, Event.readResult, HostEnd.read, hline,
    HostEnd.Reads, if_pos hlt, if_true, HostEnd.give, serve, hstay, reading]
  simp [Pool.setConn]

/-- The caller connects and greets the host. -/
def sampleHello : List Label :=
  [.server (.call (.exec sampleRequest)), .server (.inner (.caller 0) (.begin false)),
    .server (.lookup 0 false), .server (.connect (.caller 0)),
    .server (.io (.caller 0) (.hello .written)), .host 0 (.tryClone true)]

/-- The host answers, and the caller sends the Ping of `acquire_for_command`. -/
def sampleGreeted : List Label :=
  [.host 0 (.writePong true), .server (.io (.caller 0) (.greeted .line true)),
    .server (.attempted 0 false), .server (.io (.caller 0) (.ping .written))]

/-- The host answers it, and the caller sends its Request. -/
def sampleSent : List Label :=
  [.host 0 (.writePong true), .server (.io (.caller 0) (.pong .line true)),
    .server (.io (.caller 0) (.send .written))]

/-- The Response of the command, which prints nothing. -/
def sampleDone : Response :=
  { exit := 0, output := "", error := none }

/-- The host runs the command, and the caller gets its Response. -/
def sampleRan : List Label :=
  [.host 0 (.fetchAdd 0 ""), .host 0 (.spawn sampleRequest (.ok 7)), .host 0 .ptyEof,
    .host 0 .joinReader, .host 0 .storeFinished, .host 0 .cancelTimer, .host 0 .watcherCheck,
    .host 0 .joinWatcher, .host 0 (.waitpid (.exited 0)), .host 0 (.readErrno none),
    .host 0 (.writeResponse (some 0) sampleDone true),
    .server (.io (.caller 0) (.receive .line)), .server (.inner (.caller 0) .finish),
    .server (.drop 0)]

/-- The worker of connection 0 reads a line. -/
def sampleLine (m : SentLine) : Label :=
  .host 0 (.readLine (.line (m.text Json.compact)))

def sampleBoth : List Label :=
  sampleHello ++ sampleLine .ping :: (sampleGreeted ++ sampleLine .ping ::
    (sampleSent ++ sampleLine (.request 0 sampleRequest) :: sampleRan))

/-- Where the two stand behind a part of the run. -/
def sampleAfter (silent : Bool) (s : PoolHost) (es : List Label) : PoolHost :=
  (Machine.run (step Json.compact (.compact silent)) s es).getD s

def sampleOver (silent : Bool) : PoolHost :=
  let opening := (sampleAfter silent init sampleHello).reading 0 .ping .openingPong
  let pinged := (sampleAfter silent opening sampleGreeted).reading 0 .ping .pong
  let accepted := (sampleAfter silent pinged sampleSent).reading 0 (.request 0 sampleRequest)
    (.accepted sampleRequest)
  sampleAfter silent accepted sampleRan

theorem run_sampleAfter {silent : Bool} {es fs : List Label} {t : PoolHost}
    (h : (Machine.run (step Json.compact (.compact silent)) s es).isSome = true)
    (hrun : Machine.run (step Json.compact (.compact silent)) (sampleAfter silent s es) fs =
      some t) :
    Machine.run (step Json.compact (.compact silent)) s (es ++ fs) = some t := by
  obtain ⟨m, hm⟩ := Option.isSome_iff_exists.mp h
  refine run_of_append _ hm ?_
  rwa [sampleAfter, hm] at hrun

theorem run_sampleBoth (silent : Bool) :
    Machine.run (step Json.compact (.compact silent)) init sampleBoth =
      some (sampleOver silent) := by
  have hping : Json.compact.line ClientAction.ping.toJson = pingLine := rfl
  have hopening : (Config.compact silent).onOpening (.line (SentLine.ping.text Json.compact)) =
      .openingPong := Config.onOpening_sentLine Json.compact_strict hping .ping
  have hpinged : (Config.compact silent).onLine false (.line (SentLine.ping.text Json.compact)) =
      .pong := Config.onLine_sentPing Json.compact_strict hping false
  have hrequest : (Config.compact silent).onLine true
      (.line ((SentLine.request 0 sampleRequest).text Json.compact)) = .accepted sampleRequest :=
    Config.onLine_sentRequest Json.compact_strict true 0 sampleRequest
  refine run_sampleAfter rfl ?_
  refine run_of_cons _ (step_readLine Nat.zero_lt_one rfl (congrArg some hopening) rfl) ?_
  refine run_sampleAfter rfl ?_
  refine run_of_cons _ (step_readLine Nat.zero_lt_one rfl (congrArg some hpinged) rfl) ?_
  refine run_sampleAfter rfl ?_
  refine run_of_cons _ (step_readLine Nat.zero_lt_one rfl (congrArg some hrequest) rfl) ?_
  rfl

/-- The call of the run is over, with the Response of its command. -/
theorem sampleOver_over (silent : Bool) :
    (sampleOver silent).pool.threads (.caller 0) =
      .over (.answers [(sampleRequest, sampleDone)]) := rfl

theorem refines_pool_sampleBoth :
    ∃ ls, Machine.run Pool.step Pool.init ls = some (sampleOver false).pool ∧
      ls.filter (fun l => !l.ofHost) = servers sampleBoth :=
  refines_pool Json.compact_strict rfl (run_sampleBoth false)

theorem exec_spawns_once_sampleBoth :
    (sampleOver false).pool.threads (.caller 0) =
        .over (.answers [(sampleRequest, sampleDone)]) ∧
      (sampleOver false).spawnsOf 0 = [sampleRequest] := by
  have hn : (Pool.callsOf (servers sampleBoth))[0]? = some (.exec sampleRequest) := rfl
  obtain ⟨-, -, hover⟩ := exec_spawns_once Json.compact_strict rfl (run_sampleBoth false) hn
  obtain ⟨response, hanswers, hspawned⟩ := hover _ (sampleOver_over false)
  obtain rfl : sampleDone = response := by simpa using hanswers
  refine ⟨sampleOver_over false, ?_⟩
  rcases hspawned with ⟨hspawned, -⟩ | ⟨-, err, -, hresponse⟩
  · exact hspawned
  · cases congrArg Response.error hresponse

end Sample

end PoolHost

end Rexec
