import Rexec.PoolCalls
import Rexec.Lib.Machine
import Mathlib.Tactic

/-!
# Whose Response a call gets

The Responses a caller collects are those the host wrote for its own Requests:
`Answered` names the connection and the place.  It is monotone in the connections,
which only grow, so it is enough to look at the step that reads the Response.

`pool_in_frame` is the law of the pool for whole runs.
-/

namespace Rexec

open Machine

/-! ## Answers -/

def Outcome.answered : Outcome → List (Request × Response)
  | .answers rs => rs
  | _ => []

/-- The Responses that are still there when a lease was dropped. -/
def After.answered : After → List (Request × Response)
  | .retry t => t.answers
  | .over outcome => outcome.answered

/-- The Requests a thread has Responses to, with these. -/
def Thread.answered : Thread → List (Request × Response)
  | .attempt t _ => t.elim [] Task.answers
  | .top t => t.answers
  | .lookup t => t.answers
  | .waiting t => t.answers
  | .got t _ => t.answers
  | .ready t _ => t.answers
  | .pinging t _ _ => t.answers
  | .requested t _ _ => t.answers
  | .dropping _ _ next => next.answered
  | .over outcome => outcome.answered
  | _ => []

namespace Pool

/-- The host has answered this Request, which was sent for the caller, with this Response. -/
def Answered (p : Pool) (n : Nat) (a : Request × Response) : Prop :=
  ∃ c i : Nat, (p.conns c).sent[i]? = some (.request n a.1) ∧
    (p.conns c).replies[i]? = some (.response a.2)

end Pool

section Answers

variable {p q : Pool} {n : Nat}

theorem Pool.Grows.answered (h : p.Grows q) {a : Request × Response}
    (ha : p.Answered n a) :
    q.Answered n a := by
  obtain ⟨c, i, hsent, hreply⟩ := ha
  obtain ⟨hlines, hreplies⟩ := h c
  exact ⟨c, i, getElem?_of_prefix hlines hsent, getElem?_of_prefix hreplies hreply⟩

/-- The reply read next is the one to the line the connection waits for. -/
theorem Pool.answered_of_awaits {c : Nat} {request : Request} {response : Response}
    (ha : (p.conns c).Awaits (.request n request))
    (hreply : (p.conns c).replies[(p.conns c).read]? = some (.response response)) :
    p.Answered n (request, response) := by
  obtain ⟨before, hsent, hread, -, -⟩ := ha
  refine ⟨c, (p.conns c).read, ?_, hreply⟩
  rw [hsent, hread, List.getElem?_concat_length]

namespace Thread

theorem Acquires.answered {t : Task} {th : Thread} (h : Acquires t th)
    {a : Request × Response} (ha : a ∈ th.answered) :
    a ∈ t.answers := by
  cases h with
  | lease c =>
      unfold acquired at ha
      split at ha <;> exact ha
  | notFound => cases ha
  | connect => exact ha
  | wait => exact ha

theorem Goes.answered {th th' : Thread} {x : Inner} (hx : Goes th x th')
    {a : Request × Response} (ha : a ∈ th'.answered) :
    a ∈ th.answered := by
  cases hx with
  | begin => exact ha
  | connectFailed => exact ha
  | wake => exact ha
  | finish hops => exact ha
  | _ => cases ha

/-- An exchange keeps the answers, and reads one more from the connection at most. -/
theorem Exchange.answered {c : Nat} {k : HostConnection} {th th' : Thread} {x : Io}
    (hx : Exchange (.caller n) (p.conns c) th x k th')
    (hf : th.Framed (.caller n) (p.conns c)) {a : Request × Response}
    (ha : a ∈ th'.answered) :
    a ∈ th.answered ∨ p.Answered n a := by
  cases hx with
  | guardFailed hs => exact .inl ha
  | @noPong t c guard =>
      cases guard with
      | true => exact .inl ha
      | false => cases ha
  | received hreply =>
      rcases List.mem_append.mp ha with ha | ha
      · exact .inl ha
      · obtain rfl := List.mem_singleton.mp ha
        obtain ⟨m, hm, hawaits⟩ := hf
        cases hm
        exact .inr (Pool.answered_of_awaits hawaits hreply)
  | pingFailed hops hs => cases ha
  | notSent ho hops hs => cases ha
  | notReceived hs => cases ha
  | _ => exact .inl ha

theorem Moves.answered {l : Pool.Label} {th th' : Thread} (hm : Moves p n l th th')
    (hf : ∀ c, th.conn = some c → th.Framed (.caller n) (p.conns c))
    {a : Request × Response} (ha : a ∈ th'.answered) :
    a ∈ th.answered ∨ p.Answered n a := by
  cases hm with
  | stay => exact .inl ha
  | call hn ht =>
      rename_i t
      have hnone : a ∈ t.answers := by split at ha <;> exact ha
      rw [ht] at hnone
      cases hnone
  | io hc hx => exact hx.answered (hf _ hc) ha
  | inner hx => exact .inl (hx.answered ha)
  | lookup h => exact .inl (h.answered ha)
  | connect => exact .inl ha
  | attempted h => exact .inl (h.answered ha)
  | drop =>
      rename_i next
      cases next <;> exact .inl ha

end Thread

namespace Pool

/-- Every answer a caller holds is the one of the host. -/
def AllAnswered (p : Pool) : Prop :=
  ∀ n, ∀ a ∈ (p.threads (.caller n)).answered, p.Answered n a

theorem AllAnswered.step {l : Label} (h : p.AllAnswered) (howned : p.Owned)
    (hstep : p.step l = some q) :
    q.AllAnswered := by
  intro n a ha
  have hgrows := howned.grows hstep
  rcases (step_moves hstep n).answered (howned.framed (.caller n)) ha with hold | hnew
  · exact hgrows.answered (h n a hold)
  · exact hgrows.answered hnew

theorem allAnswered_run {es : List Label} (hrun : run Pool.step Pool.init es = some p) :
    p.AllAnswered := by
  have hboth : p.Owned ∧ p.AllAnswered :=
    run_invariant (I := fun p => p.Owned ∧ p.AllAnswered)
      (fun _ _ _ h hstep => ⟨h.1.step hstep, h.2.step h.1 hstep⟩)
      ⟨owned_init, fun _ _ ha => by cases ha⟩ hrun
  exact hboth.2

end Pool

end Answers

/-! ## The law -/

/-- The handshake is done, every line has its reply and every reply was read. -/
structure HostConnection.InFrame (h : HostConnection) : Prop where
  ping_first : h.sent.head? = some .ping
  pong_first : h.replies.head? = some .pong
  all_answered : h.replies.length = h.sent.length
  all_read : h.read = h.replies.length
  whole : h.torn = false

theorem HostConnection.Clean.inFrame {h : HostConnection} (hc : h.Clean)
    (hconforms : h.Conforms) :
    h.InFrame := by
  have hlength := hc.replies_length hconforms
  refine ⟨hc.greeted, ?_, hlength, hc.read_all.trans hlength.symm, hc.whole⟩
  have hgreeted := hc.greeted
  rw [List.head?_eq_getElem?] at hgreeted ⊢
  have hpos := lt_length_of_getElem? hgreeted
  rw [← hlength] at hpos
  have hreply := List.getElem?_eq_getElem hpos
  have hkind := hconforms.answers 0 .ping _ hgreeted hreply
  rw [hreply]
  generalize h.replies[0] = r at hkind
  cases r with
  | pong => rfl
  | response response => cases hkind

namespace Pool

/-- Idle connections are in frame, every connection has one owner at most, and a call
gets the Response to its own Request. -/
theorem pool_in_frame {es : List Label} {p : Pool}
    (hrun : run Pool.step Pool.init es = some p) :
    (∀ c ∈ p.idle, (p.conns c).InFrame) ∧
      p.idle.Nodup ∧
      (∀ o c, (p.threads o).conn = some c → c ∉ p.idle) ∧
      (∀ o o' c, (p.threads o).conn = some c → (p.threads o').conn = some c → o = o') ∧
      (∀ n, ∀ a ∈ (p.threads (.caller n)).answered, p.Answered n a) ∧
      ∀ n request rs, (callsOf es)[n]? = some (.exec request) →
        p.threads (.caller n) = .over (.answers rs) →
        ∃ response, rs = [(request, response)] ∧ p.Answered n (request, response) := by
  have howned := owned_run hrun
  have hanswered := allAnswered_run hrun
  refine ⟨fun c hc => (howned.idle_clean c hc).inFrame (howned.conforms c),
    howned.idle_nodup, howned.held_not_idle, howned.unique, hanswered, ?_⟩
  intro n request rs hn hover
  have hserves := (called_run hrun).serves n _ hn
  rw [hover] at hserves
  have hrequests : rs.map Prod.fst = [request] := hserves rs rfl
  obtain ⟨⟨request', response⟩, rfl, rfl⟩ := List.map_eq_singleton_iff.mp hrequests
  refine ⟨response, rfl, hanswered n _ ?_⟩
  rw [hover]
  exact List.mem_singleton_self _

/-- The Request of a second call. -/
def sampleSecond : Request :=
  { sampleRequest with exec := ["false"] }

def sampleResponse : Response :=
  { exit := 0, output := "", error := none }

/-- The Response to the second call. -/
def sampleFailure : Response :=
  { exit := 1, output := "", error := none }

/-- A call whose first ping fails, so that it opens another connection; it is about to send. -/
def sampleRetry : List Label :=
  [.call (.exec sampleRequest), .inner (.caller 0) (.begin false), .lookup 0 false,
    .connect (.caller 0), .io (.caller 0) (.hello .written), .reply 0 .pong,
    .io (.caller 0) (.greeted .line true), .attempted 0 false,
    .io (.caller 0) (.ping .written), .close 0, .io (.caller 0) (.pong (.failed false) true),
    .drop 0, .inner (.caller 0) (.begin false), .lookup 0 false, .connect (.caller 0),
    .io (.caller 0) (.hello .written), .reply 1 .pong, .io (.caller 0) (.greeted .line true),
    .attempted 0 false, .io (.caller 0) (.ping .written), .reply 1 .pong,
    .io (.caller 0) (.pong .line true)]

/-- It gets its Response and returns the connection, on which a second call is made. -/
def sampleSecondCall : List Label :=
  [.reply 1 (.response sampleResponse), .io (.caller 0) (.receive .line),
    .inner (.caller 0) .finish, .drop 0, .call (.exec sampleSecond),
    .inner (.caller 1) (.begin false), .lookup 1 false, .io (.caller 1) (.ping .written),
    .reply 1 .pong, .io (.caller 1) (.pong .line true), .io (.caller 1) (.send .written),
    .reply 1 (.response sampleFailure), .io (.caller 1) (.receive .line),
    .inner (.caller 1) .finish, .drop 1]

def sampleCalls : List Label :=
  sampleRetry ++ .io (.caller 0) (.send .written) :: sampleSecondCall

theorem sampleCalls_over :
    ∃ p, run Pool.step Pool.init sampleCalls = some p ∧
      p.threads (.caller 0) = .over (.answers [(sampleRequest, sampleResponse)]) ∧
      p.threads (.caller 1) = .over (.answers [(sampleSecond, sampleFailure)]) ∧
      p.idle = [1] :=
  ⟨_, rfl, rfl, rfl, rfl⟩

theorem pool_in_frame_sampleCalls :
    ∃ p, run Pool.step Pool.init sampleCalls = some p ∧ p.idle = [1] ∧
      (p.conns 1).InFrame ∧ p.Answered 0 (sampleRequest, sampleResponse) ∧
      p.Answered 1 (sampleSecond, sampleFailure) := by
  obtain ⟨p, hrun, hover, hover', hidle⟩ := sampleCalls_over
  obtain ⟨hframe, -, -, -, -, hexec⟩ := pool_in_frame hrun
  obtain ⟨response, hrs, hanswered⟩ := hexec 0 sampleRequest _ rfl hover
  obtain rfl : sampleResponse = response := by simpa using hrs
  obtain ⟨response, hrs, hanswered'⟩ := hexec 1 sampleSecond _ rfl hover'
  obtain rfl : sampleFailure = response := by simpa using hrs
  exact ⟨p, hrun, hidle, hframe 1 (by simp [hidle]), hanswered, hanswered'⟩

end Pool

end Rexec
