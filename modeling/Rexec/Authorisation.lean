import Rexec.Connection
import Mathlib.Tactic

/-!
# Authorisation of commands

A command runs only when its request line was authorised: since the last request
line the worker read a Ping and answered it.  The opening Ping does not count,
and neither does a Ping that the abort watcher read.

The trace of a connection is the list of its events; positions in it say which
line was read when.  The first three events of a connection that gets past its
handshake are the clone of the socket, the opening line and its Pong, so
everything after the handshake is at position 3 or later.

`authorisation` collects what holds of every trace.
-/

namespace Rexec

open Machine

/-- At `i` the worker read a Ping after the handshake, and then wrote its Pong. -/
def AnsweredPing (cfg : Config) (es : List Event) (i : Nat) : Prop :=
  3 ≤ i ∧ (∃ text, es[i]? = some (.readLine (.line text)) ∧ cfg.IsPing text) ∧
    es[i + 1]? = some (.writePong true)

/-- At `k` the worker read a request line after the handshake. -/
def RequestLineAt (cfg : Config) (es : List Event) (k : Nat) (text : String) : Prop :=
  3 ≤ k ∧ es[k]? = some (.readLine (.line text)) ∧ cfg.IsRequestLine text

/-- At `n` the host spawned the command of a request, or tried to. -/
def SpawnAt (es : List Event) (n : Nat) (request : Request) : Prop :=
  ∃ result, es[n]? = some (.spawn request result)

/-- Before `k` a Ping was answered, and no request line was read since. -/
def Authorised (cfg : Config) (es : List Event) (k : Nat) : Prop :=
  ∃ i, AnsweredPing cfg es i ∧ i + 1 < k ∧
    ∀ j text, i < j → j < k → ¬ RequestLineAt cfg es j text

def Event.isRead : Event → Bool
  | .readLine _ => true
  | _ => false

def Event.isResponse : Event → Bool
  | .writeResponse _ _ _ => true
  | _ => false

section Traces

variable {cfg : Config} {es : List Event} {e : Event}

theorem requestLineAt_concat {k : Nat} {text : String} :
    RequestLineAt cfg (es ++ [e]) k text ↔
      RequestLineAt cfg es k text ∨
        (k = es.length ∧ 3 ≤ k ∧ e = .readLine (.line text) ∧
          cfg.IsRequestLine text) := by
  unfold RequestLineAt
  rw [getElem?_concat]
  tauto

theorem spawnAt_concat {n : Nat} {request : Request} :
    SpawnAt (es ++ [e]) n request ↔
      SpawnAt es n request ∨
        (n = es.length ∧ ∃ result, e = .spawn request result) := by
  unfold SpawnAt
  simp only [getElem?_concat]
  constructor
  · rintro ⟨result, h | ⟨hn, he⟩⟩
    · exact .inl ⟨result, h⟩
    · exact .inr ⟨hn, result, he⟩
  · rintro (⟨result, h⟩ | ⟨hn, result, he⟩)
    · exact ⟨result, .inl h⟩
    · exact ⟨result, .inr ⟨hn, he⟩⟩

theorem AnsweredPing.concat {i : Nat} (h : AnsweredPing cfg es i) :
    AnsweredPing cfg (es ++ [e]) i := by
  obtain ⟨hi, ⟨text, hread, hping⟩, hpong⟩ := h
  exact ⟨hi, ⟨text, getElem?_concat.mpr (.inl hread), hping⟩,
    getElem?_concat.mpr (.inl hpong)⟩

/-- An answered Ping lies inside the trace, or its Pong is the new event. -/
theorem answeredPing_concat {i : Nat} (h : AnsweredPing cfg (es ++ [e]) i) :
    AnsweredPing cfg es i ∨ (i + 1 = es.length ∧ e = .writePong true) := by
  obtain ⟨hi, ⟨text, hread, hping⟩, hpong⟩ := h
  rcases getElem?_concat.mp hpong with hpong | ⟨hlen, he⟩
  · rcases getElem?_concat.mp hread with hread | ⟨hlen, -⟩
    · exact .inl ⟨hi, ⟨text, hread, hping⟩, hpong⟩
    · have := lt_length_of_getElem? hpong
      omega
  · exact .inr ⟨hlen, he⟩

/-- Whether a position is authorised depends on the events before it. -/
theorem authorised_concat {k : Nat} (hk : k ≤ es.length) :
    Authorised cfg (es ++ [e]) k ↔ Authorised cfg es k := by
  constructor
  · rintro ⟨i, hi, hik, hnone⟩
    refine ⟨i, ?_, hik, ?_⟩
    · rcases answeredPing_concat hi with hi | ⟨hlen, -⟩
      · exact hi
      · omega
    · intro j text hij hjk hreq
      exact hnone j text hij hjk (requestLineAt_concat.mpr (.inl hreq))
  · rintro ⟨i, hi, hik, hnone⟩
    refine ⟨i, hi.concat, hik, ?_⟩
    intro j text hij hjk hreq
    rcases requestLineAt_concat.mp hreq with hreq | ⟨hlen, -⟩
    · exact hnone j text hij hjk hreq
    · omega

/-- An event that is no request line and no Pong leaves the credit as it is. -/
theorem authorised_next
    (hreq : ∀ text, e = .readLine (.line text) → ¬ cfg.IsRequestLine text)
    (hpong : e ≠ .writePong true) :
    Authorised cfg (es ++ [e]) (es ++ [e]).length ↔
      Authorised cfg es es.length := by
  simp only [List.length_append, List.length_singleton]
  constructor
  · rintro ⟨i, hi, -, hnone⟩
    rcases answeredPing_concat hi with hi | ⟨-, he⟩
    · refine ⟨i, hi, lt_length_of_getElem? hi.2.2, ?_⟩
      intro j text hij hjk h
      exact hnone j text hij (by omega) (requestLineAt_concat.mpr (.inl h))
    · exact absurd he hpong
  · rintro ⟨i, hi, hik, hnone⟩
    refine ⟨i, hi.concat, by omega, ?_⟩
    intro j text hij hjk h
    rcases requestLineAt_concat.mp h with h | ⟨-, -, he, hline⟩
    · exact hnone j text hij (lt_length_of_getElem? h.2.1) h
    · exact hreq text he hline

/-- A request line uses the credit up. -/
theorem not_authorised_after {text : String} (hlen : 3 ≤ es.length)
    (he : e = .readLine (.line text)) (hline : cfg.IsRequestLine text) :
    ¬ Authorised cfg (es ++ [e]) (es ++ [e]).length := by
  rintro ⟨i, hi, -, hnone⟩
  have hi' : i < es.length := by
    rcases answeredPing_concat hi with hi | ⟨hlen', -⟩
    · have := lt_length_of_getElem? hi.2.2
      omega
    · omega
  refine hnone es.length text hi' (by simp) ?_
  exact requestLineAt_concat.mpr (.inr ⟨rfl, hlen, he, hline⟩)

/-- The Pong of a Ping just read is a credit. -/
theorem authorised_after_pong {i : Nat} {text : String} (hi : 3 ≤ i)
    (hlen : es.length = i + 1) (hread : es[i]? = some (.readLine (.line text)))
    (hping : cfg.IsPing text) :
    Authorised cfg (es ++ [Event.writePong true])
      (es ++ [Event.writePong true]).length := by
  refine ⟨i, ⟨hi, ⟨text, getElem?_concat.mpr (.inl hread), hping⟩, ?_⟩, ?_, ?_⟩
  · exact getElem?_concat.mpr (.inr ⟨hlen.symm, rfl⟩)
  · simp only [List.length_append, List.length_singleton]
    omega
  · intro j text' hij hjk hreq
    rcases requestLineAt_concat.mp hreq with hreq | ⟨-, -, he, -⟩
    · have := lt_length_of_getElem? hreq.2.1
      omega
    · cases he

end Traces

/-! ## Responses due -/

section Responses

variable {cfg : Config}

/-- The responses still due for the request line read last. -/
def Worker.owes : Worker → Nat
  | .reject _ => 1
  | .accepted _ => 1
  | .spawning _ _ _ => 1
  | .spawnFailed _ _ _ _ => 1
  | .running _ _ => 1
  | _ => 0

/-- Every other step pays what it writes. -/
theorem Worker.Step.owes {w w' : Worker} {e : Event}
    (h : w.Step cfg e w') (hread : e.isRead = false) :
    w.owes = w'.owes + if e.isResponse then 1 else 0 := by
  cases h with
  | opening => cases hread
  | line => cases hread
  | foreground h => cases h <;> rfl
  | background h => cases h <;> rfl
  | _ => rfl

theorem Config.onRequest_owes (trimmed : String) :
    (cfg.onRequest trimmed).owes = 1 := by
  rcases cfg.onRequest_cases trimmed with ⟨resp, h⟩ | ⟨request, -, h⟩
  · rw [h]
    rfl
  · rw [h]
    rfl

end Responses

/-! ## The invariant of a trace -/

/-- The request line at `k` is authorised and asks for `request`. -/
def Requested (cfg : Config) (es : List Event) (k : Nat) (request : Request) : Prop :=
  Authorised cfg es k ∧
    ∃ text, RequestLineAt cfg es k text ∧
      cfg.request (trimEnd text) = .ok request

/-- After the request line at `k` a number was taken for its command. -/
def Numbered (cfg : Config) (es : List Event) (k : Nat) (request : Request) : Prop :=
  Requested cfg es k request ∧ ∃ seq time, es[k + 1]? = some (.fetchAdd seq time)

/-- The handshake is over, and no Ping is left to authorise a request. -/
def Spent (cfg : Config) (es : List Event) : Prop :=
  3 ≤ es.length ∧ ¬ Authorised cfg es es.length

/-- What the trace looks like when the worker stands at a program point. -/
def Stands (cfg : Config) (es : List Event) : Worker → Prop
  | .start => es = []
  | .handshake => es.length = 1
  | .openingPong => es.length = 2
  | .lineLoop p => 3 ≤ es.length ∧ (p = true ↔ Authorised cfg es es.length)
  | .pong =>
      ∃ i text, 3 ≤ i ∧ es.length = i + 1 ∧
        es[i]? = some (.readLine (.line text)) ∧ cfg.IsPing text
  | .accepted request =>
      Spent cfg es ∧ ∃ k, es.length = k + 1 ∧ Requested cfg es k request
  | .spawning _ request _ =>
      Spent cfg es ∧ ∃ k, es.length = k + 2 ∧ Numbered cfg es k request
  | .reject _ => Spent cfg es
  | .spawnFailed _ _ _ _ => Spent cfg es
  | .running _ _ => Spent cfg es
  | .submitting _ _ _ => Spent cfg es
  | _ => True

/-- The trace of a connection that has come to `w`. -/
structure Accounted (cfg : Config) (es : List Event) (w : Worker) : Prop where
  stands : Stands cfg es w
  spawned : ∀ n request, SpawnAt es n request →
    ∃ k, n = k + 2 ∧ Numbered cfg es k request
  unauthorised : ∀ k text, RequestLineAt cfg es k text → ¬ Authorised cfg es k →
    es.length = k + 1 ∧ w = .exited
  answered : ∀ pre text mid, es = pre ++ .readLine (.line text) :: mid →
    (∀ e ∈ mid, e.isRead = false) → 3 ≤ pre.length → cfg.IsRequestLine text →
    Authorised cfg es pre.length → mid.countP Event.isResponse + w.owes = 1

theorem Requested.concat {cfg : Config} {es : List Event} {e : Event} {k : Nat}
    {request : Request} (h : Requested cfg es k request) :
    Requested cfg (es ++ [e]) k request := by
  obtain ⟨hauth, text, hreq, hdec⟩ := h
  have hk := lt_length_of_getElem? hreq.2.1
  exact ⟨(authorised_concat (by omega)).mpr hauth, text,
    requestLineAt_concat.mpr (.inl hreq), hdec⟩

theorem Numbered.concat {cfg : Config} {es : List Event} {e : Event} {k : Nat}
    {request : Request} (h : Numbered cfg es k request) :
    Numbered cfg (es ++ [e]) k request := by
  obtain ⟨hreq, seq, time, hnum⟩ := h
  exact ⟨hreq.concat, seq, time, getElem?_concat.mpr (.inl hnum)⟩

theorem accounted_nil (cfg : Config) : Accounted cfg [] .start where
  stands := rfl
  spawned := by
    rintro n request ⟨result, h⟩
    simp at h
  unauthorised := by
    rintro k text ⟨-, h, -⟩
    simp at h
  answered := by
    intro pre text mid h
    simp at h

section Steps

variable {cfg : Config} {es : List Event} {w w' : Worker} {e : Event}

theorem Spent.concat (h : Spent cfg es) (hread : e.isRead = false)
    (hpong : e ≠ .writePong true) :
    Spent cfg (es ++ [e]) := by
  refine ⟨by have := h.1; simp; omega, ?_⟩
  rw [authorised_next (by rintro text rfl; cases hread) hpong]
  exact h.2

/-- A spent credit is what the flag of the line loop says. -/
theorem Spent.lineLoop (h : Spent cfg es) : Stands cfg es (.lineLoop false) :=
  ⟨h.1, by simpa using h.2⟩

theorem Spent.after_request {text : String} (hlen : 3 ≤ es.length)
    (hline : cfg.IsRequestLine text) :
    Spent cfg (es ++ [.readLine (.line text)]) :=
  ⟨by simp; omega, not_authorised_after hlen rfl hline⟩

/-- A request line that was authorised leads to a rejection or to its request. -/
theorem stands_onRequest {text : String} (hlen : 3 ≤ es.length)
    (hauth : Authorised cfg es es.length) (hline : cfg.IsRequestLine text) :
    Stands cfg (es ++ [.readLine (.line text)]) (cfg.onRequest (trimEnd text)) := by
  have hspent := Spent.after_request hlen hline
  rcases cfg.onRequest_cases (trimEnd text) with ⟨resp, h⟩ | ⟨request, hdec, h⟩
  · rw [h]
    exact hspent
  · rw [h]
    refine ⟨hspent, es.length, by simp, ?_, text, ?_, hdec⟩
    · exact (authorised_concat (Nat.le_refl _)).mpr hauth
    · exact requestLineAt_concat.mpr (.inr ⟨rfl, hlen, rfl, hline⟩)

theorem stands_onLine {p : Bool} {r : ReadLine}
    (hs : Stands cfg es (.lineLoop p)) :
    Stands cfg (es ++ [.readLine r]) (cfg.onLine p r) := by
  obtain ⟨hlen, hp⟩ := hs
  rcases cfg.onLine_cases p r with
    ⟨text, rfl, hping, h⟩ | ⟨text, rfl, hline⟩ | ⟨hnot, h | ⟨ansi, h⟩ | h⟩
  · rw [h]
    exact ⟨es.length, text, hlen, by simp, by simp, hping⟩
  · rw [Config.onLine_request hline]
    cases p with
    | false => trivial
    | true => exact stands_onRequest hlen (hp.mp rfl) hline
  · rw [h]
    refine ⟨by simp; omega, ?_⟩
    rw [authorised_next (by rintro text ⟨⟩; exact hnot text rfl) (by simp)]
    exact hp
  · rw [h]
    trivial
  · rw [h]
    trivial

/-- Where the worker stands after a step. -/
theorem Worker.Step.stands (h : w.Step cfg e w') (hs : Stands cfg es w) :
    Stands cfg (es ++ [e]) w' := by
  cases h with
  | cloned =>
      simp only [Stands] at hs
      simp [Stands, hs]
  | notCloned => trivial
  | @opening r =>
      simp only [Stands] at hs
      rcases cfg.onOpening_cases r with ⟨text, -, -, h⟩ | h
      · rw [h]
        simp [Stands, hs]
      · rw [h]
        trivial
  | opened =>
      simp only [Stands] at hs
      refine ⟨by simp [hs], ?_⟩
      simp only [Bool.false_eq_true, false_iff]
      rintro ⟨i, hi, hik, -⟩
      have := hi.1
      simp at hik
      omega
  | notOpened => trivial
  | line => exact stands_onLine hs
  | ponged =>
      obtain ⟨i, text, hi, hlen, hread, hping⟩ := hs
      refine ⟨by simp; omega, ?_⟩
      simpa using authorised_after_pong hi hlen hread hping
  | notPonged => trivial
  | rejected => exact (Spent.concat hs rfl (by simp)).lineLoop
  | notRejected => trivial
  | @fetchAdd request seq time =>
      obtain ⟨hspent, k, hlen, hreq⟩ := hs
      refine ⟨hspent.concat rfl (by simp), k, by simp [hlen], hreq.concat,
        seq, time, ?_⟩
      exact getElem?_concat.mpr (.inr ⟨hlen.symm, rfl⟩)
  | spawned => exact hs.1.concat rfl (by simp)
  | spawnFailed => exact hs.1.concat rfl (by simp)
  | failureReported => exact Spent.concat hs rfl (by simp)
  | abandoned => trivial
  | foreground h =>
      cases h <;> exact Spent.concat hs rfl (by simp)
  | background h =>
      cases h <;> exact Spent.concat hs rfl (by simp)
  | submit => exact (Spent.concat hs rfl (by simp)).lineLoop
  | subscribe => trivial
  | recv => trivial
  | detach => trivial
  | sent => trivial
  | notSent => trivial

/-- A spawn follows its request line and the number taken for it. -/
theorem Worker.Step.spawned_accounted (h : w.Step cfg e w') (ha : Accounted cfg es w) :
    ∀ n request, SpawnAt (es ++ [e]) n request →
      ∃ k, n = k + 2 ∧ Numbered cfg (es ++ [e]) k request := by
  intro n request hspawn
  rcases spawnAt_concat.mp hspawn with hspawn | ⟨rfl, result, rfl⟩
  · obtain ⟨k, hn, hreq⟩ := ha.spawned n request hspawn
    exact ⟨k, hn, hreq.concat⟩
  · have hstands := ha.stands
    cases h with
    | spawned =>
        obtain ⟨-, k, hlen, hreq⟩ := hstands
        exact ⟨k, hlen, hreq.concat⟩
    | spawnFailed =>
        obtain ⟨-, k, hlen, hreq⟩ := hstands
        exact ⟨k, hlen, hreq.concat⟩
    | foreground h => cases h
    | background h => cases h

theorem Worker.Step.ne_exited (h : w.Step cfg e w') : w ≠ .exited := by
  rintro rfl
  cases h

/-- An unauthorised request line is the last event. -/
theorem Worker.Step.unauthorised_accounted
    (h : w.Step cfg e w') (ha : Accounted cfg es w) :
    ∀ k text, RequestLineAt cfg (es ++ [e]) k text →
      ¬ Authorised cfg (es ++ [e]) k →
      (es ++ [e]).length = k + 1 ∧ w' = .exited := by
  intro k text hreq hno
  rcases requestLineAt_concat.mp hreq with hreq | ⟨rfl, hlen, rfl, hline⟩
  · have hk := lt_length_of_getElem? hreq.2.1
    rw [authorised_concat (by omega)] at hno
    exact absurd (ha.unauthorised k text hreq hno).2 h.ne_exited
  · refine ⟨by simp, ?_⟩
    rw [authorised_concat (Nat.le_refl _)] at hno
    have hstands := ha.stands
    rcases h.read with ⟨rfl, -⟩ | ⟨p, rfl, rfl⟩
    · simp only [Stands] at hstands
      omega
    · have hp : p = false := by
        cases p with
        | false => rfl
        | true => exact absurd (hstands.2.mp rfl) hno
      rw [Config.onLine_request hline, hp]
      rfl

/-- What is written and what is still due make one response. -/
theorem Worker.Step.answered_accounted
    (h : w.Step cfg e w') (ha : Accounted cfg es w) :
    ∀ pre text mid, es ++ [e] = pre ++ .readLine (.line text) :: mid →
      (∀ e ∈ mid, e.isRead = false) → 3 ≤ pre.length → cfg.IsRequestLine text →
      Authorised cfg (es ++ [e]) pre.length →
      mid.countP Event.isResponse + w'.owes = 1 := by
  intro pre text mid heq hmid hlen hline hauth
  rcases List.eq_nil_or_concat mid with rfl | ⟨mid', e', rfl⟩
  · -- the request line is the new event
    obtain ⟨rfl, he⟩ := List.append_inj' heq rfl
    cases he
    rw [authorised_concat (Nat.le_refl _)] at hauth
    have hstands := ha.stands
    rcases h.read with ⟨rfl, -⟩ | ⟨p, rfl, rfl⟩
    · simp only [Stands] at hstands
      omega
    · have hp : p = true := hstands.2.mpr hauth
      rw [Config.onLine_request hline, hp, if_pos rfl, Config.onRequest_owes]
      rfl
  · -- the new event comes after it
    have heq' : es ++ [e] = (pre ++ .readLine (.line text) :: mid') ++ [e'] := by
      simpa using heq
    obtain ⟨hes, he⟩ := List.append_inj' heq' rfl
    cases he
    have hread : e.isRead = false := hmid e (by simp)
    have hpre : pre.length ≤ es.length := by
      rw [hes]
      simp
    have hbefore := ha.answered pre text mid' hes
      (fun x hx => hmid x (by simp [hx])) hlen hline
      ((authorised_concat hpre).mp hauth)
    have hdue := h.owes hread
    rw [List.concat_eq_append, List.countP_append, List.countP_singleton]
    omega

theorem Worker.Step.accounted (h : w.Step cfg e w') (ha : Accounted cfg es w) :
    Accounted cfg (es ++ [e]) w' where
  stands := h.stands ha.stands
  spawned := h.spawned_accounted ha
  unauthorised := h.unauthorised_accounted ha
  answered := h.answered_accounted ha

end Steps

/-- Every trace of a connection is accounted for. -/
theorem run_accounted {cfg : Config} {es : List Event} {w : Worker}
    (h : run (Worker.step cfg) .start es = some w) :
    Accounted cfg es w :=
  run_induction (accounted_nil cfg)
    (fun _ _ _ _ _ ha hstep => (Worker.step_cases hstep).accounted ha) h

/-! ## The law -/

/--
Authorisation over a whole trace.

* `opening`: a connection whose first line is no Ping ends with that line.
* `matched`: the spawned commands are matched, one to one and in order, with
  Pings the worker answered; between a Ping and its command the worker read one
  request line, the command's own.
* `unauthorised`: a request line without a Ping of its own is the last event.
* `answered`: an authorised request line gets at most one response, and exactly
  one before the worker reads on or is done.
-/
structure Authorisation (cfg : Config) (es : List Event) (w : Worker) : Prop where
  opening : ∀ r rest, es = .tryClone true :: .readLine r :: rest →
    (∀ text, r = .line text → ¬ cfg.IsPing text) → rest = [] ∧ w = .exited
  matched : ∃ ping : Nat → Nat,
    (∀ n request, SpawnAt es n request →
      AnsweredPing cfg es (ping n) ∧
      ∃ k text, ping n + 1 < k ∧ k < n ∧ RequestLineAt cfg es k text ∧
        cfg.request (trimEnd text) = .ok request ∧
        ∀ j text', RequestLineAt cfg es j text' → j < n → j = k ∨ j < ping n) ∧
    (∀ m n req req', SpawnAt es m req → SpawnAt es n req' → m < n → m < ping n)
  unauthorised : ∀ k text, RequestLineAt cfg es k text → ¬ Authorised cfg es k →
    es.length = k + 1 ∧ w = .exited
  answered : ∀ pre text mid, es = pre ++ .readLine (.line text) :: mid →
    (∀ e ∈ mid, e.isRead = false) → 3 ≤ pre.length → cfg.IsRequestLine text →
    Authorised cfg es pre.length →
    mid.countP Event.isResponse ≤ 1 ∧
      (w = .exited ∨ (∃ r, (w.step cfg (.readLine r)).isSome) →
        mid.countP Event.isResponse = 1)

section Law

variable {cfg : Config} {es : List Event} {w : Worker}

/-- A connection whose first line is no Ping writes nothing and runs nothing. -/
theorem opening_ends (h : run (Worker.step cfg) .start es = some w)
    {r : ReadLine} {rest : List Event}
    (hes : es = .tryClone true :: .readLine r :: rest)
    (hnot : ∀ text, r = .line text → ¬ cfg.IsPing text) :
    rest = [] ∧ w = .exited := by
  have hopening : cfg.onOpening r = .exited := by
    rcases cfg.onOpening_cases r with ⟨text, hr, hping, -⟩ | hexit
    · exact absurd hping (hnot text hr)
    · exact hexit
  subst hes
  have hrest : run (Worker.step cfg) .exited rest = some w := by
    simpa [run_cons, Worker.step, hopening] using h
  cases rest with
  | nil => exact ⟨rfl, by cases hrest; rfl⟩
  | cons e rest =>
      rw [run_cons] at hrest
      cases e <;> cases hrest

/-- No request line lies between a command's own request line and its spawn. -/
theorem Numbered.last_request {n k j : Nat} {request : Request} {text : String}
    (hk : Numbered cfg es k request) (hn : n = k + 2)
    (hj : RequestLineAt cfg es j text) (hjn : j < n) :
    j ≤ k := by
  by_contra hlt
  obtain rfl : j = k + 1 := by omega
  obtain ⟨-, seq, time, hnum⟩ := hk
  rw [hj.2.1] at hnum
  cases hnum

/-- A spawned command has an answered Ping and a request line of its own. -/
theorem Accounted.spawn_ping (ha : Accounted cfg es w) {n : Nat} {request : Request}
    (hspawn : SpawnAt es n request) :
    ∃ i, AnsweredPing cfg es i ∧
      ∃ k text, n = k + 2 ∧ i + 1 < k ∧ RequestLineAt cfg es k text ∧
        cfg.request (trimEnd text) = .ok request ∧
        ∀ j text', RequestLineAt cfg es j text' → j < n → j = k ∨ j < i := by
  obtain ⟨k, hn, hnum⟩ := ha.spawned n request hspawn
  obtain ⟨⟨⟨i, hi, hik, hnone⟩, text, hline, hdec⟩, -⟩ := id hnum
  refine ⟨i, hi, k, text, hn, hik, hline, hdec, ?_⟩
  intro j text' hj hjn
  have hjk := hnum.last_request hn hj hjn
  by_contra hbad
  rcases Nat.lt_trichotomy i j with hij | rfl | hji
  · exact hnone j text' hij (by omega) hj
  · -- the Ping is no request line
    obtain ⟨-, ⟨textp, hread, hping⟩, -⟩ := hi
    rw [hj.2.1] at hread
    cases hread
    rw [Config.IsPing, hj.2.2.2] at hping
    cases hping
  · omega

/-- The Ping of a later command was read after an earlier command was spawned. -/
theorem Accounted.ping_after (ha : Accounted cfg es w) {m n i k : Nat}
    {req : Request} (hm : SpawnAt es m req) (hmn : m < n) (hn : n = k + 2)
    (hi : AnsweredPing cfg es i)
    (hlast : ∀ j text, RequestLineAt cfg es j text → j < n → j = k ∨ j < i) :
    m < i := by
  obtain ⟨km, hmk, hnum⟩ := ha.spawned m req hm
  obtain ⟨⟨-, text, hline, -⟩, seq, time, hfetch⟩ := hnum
  obtain ⟨-, ⟨textp, hread, -⟩, -⟩ := hi
  obtain ⟨result, hspawn⟩ := hm
  have hlt : km < i := by
    rcases hlast km text hline (by omega) with rfl | hlt
    · omega
    · exact hlt
  -- the two positions after the request line hold other events than a read
  have h1 : i ≠ km + 1 := by
    rintro rfl
    rw [hread] at hfetch
    cases hfetch
  have h2 : i ≠ m := by
    rintro rfl
    rw [hread] at hspawn
    cases hspawn
  omega

theorem Accounted.matched (ha : Accounted cfg es w) :
    ∃ ping : Nat → Nat,
      (∀ n request, SpawnAt es n request →
        AnsweredPing cfg es (ping n) ∧
        ∃ k text, ping n + 1 < k ∧ k < n ∧ RequestLineAt cfg es k text ∧
          cfg.request (trimEnd text) = .ok request ∧
          ∀ j text', RequestLineAt cfg es j text' → j < n → j = k ∨ j < ping n) ∧
      (∀ m n req req', SpawnAt es m req → SpawnAt es n req' → m < n →
        m < ping n) := by
  have hex : ∀ n, ∃ i, ∀ request, SpawnAt es n request →
      AnsweredPing cfg es i ∧
      ∃ k text, n = k + 2 ∧ i + 1 < k ∧ RequestLineAt cfg es k text ∧
        cfg.request (trimEnd text) = .ok request ∧
        ∀ j text', RequestLineAt cfg es j text' → j < n → j = k ∨ j < i := by
    intro n
    by_cases hspawn : ∃ request, SpawnAt es n request
    · obtain ⟨request, hspawn⟩ := hspawn
      obtain ⟨i, hi⟩ := ha.spawn_ping hspawn
      refine ⟨i, ?_⟩
      rintro request' ⟨result, h⟩
      obtain ⟨result', h'⟩ := hspawn
      rw [h] at h'
      cases h'
      exact hi
    · exact ⟨0, fun request h => absurd ⟨request, h⟩ hspawn⟩
  choose ping hping using hex
  refine ⟨ping, ?_, ?_⟩
  · intro n request hspawn
    obtain ⟨hi, k, text, hn, hik, hline, hdec, hlast⟩ := hping n request hspawn
    exact ⟨hi, k, text, hik, by omega, hline, hdec, hlast⟩
  · intro m n req req' hm hspawn hmn
    obtain ⟨hi, k, text, hn, -, -, -, hlast⟩ := hping n req' hspawn
    exact ha.ping_after hm hmn hn hi hlast

/-- A worker that reads, or is done, owes no response. -/
theorem owes_eq_zero
    (h : w = .exited ∨ ∃ r, (w.step cfg (.readLine r)).isSome) :
    w.owes = 0 := by
  rcases h with rfl | ⟨r, hsome⟩
  · rfl
  · obtain ⟨w', hstep⟩ := Option.isSome_iff_exists.mp hsome
    rcases (Worker.step_cases hstep).read with ⟨rfl, -⟩ | ⟨p, rfl, -⟩
    · rfl
    · rfl

/-- Every trace of a connection, whatever lines arrive and whoever reads them. -/
theorem authorisation (cfg : Config) {es : List Event} {w : Worker}
    (h : run (Worker.step cfg) .start es = some w) :
    Authorisation cfg es w where
  opening := fun _ _ hes hnot => opening_ends h hes hnot
  matched := (run_accounted h).matched
  unauthorised := (run_accounted h).unauthorised
  answered := by
    intro pre text mid hes hmid hlen hline hauth
    have hsum := (run_accounted h).answered pre text mid hes hmid hlen hline hauth
    refine ⟨by omega, ?_⟩
    intro hdone
    have := owes_eq_zero hdone
    omega

end Law

/-- A connection on which one command was spawned. -/
theorem authorisation_sample :
    Authorisation (.compact true)
      (sampleOpening ++ [.fetchAdd 0 "t", .spawn sampleRequest (.ok 7)])
      (.running (.spawned true 0 sampleRequest "t" 7) .joinReader) :=
  authorisation (.compact true) (by
    rw [run_append, run_sampleOpening]
    simp [run_cons, Worker.step])

end Rexec
