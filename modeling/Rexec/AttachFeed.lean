import Rexec.Attach
import Rexec.Host
import Mathlib.Tactic

/-!
# What the host writes to an attached client

A worker that serves an attachment subscribes to the transcript queue, takes one
entry after the other out of its channel and writes it to its client.

The steps of the host move the transcript queue as the steps of `Attach` do
(`Mirrored`), so what `Attach` says of the channels holds in every run of the
host.  `journal` is the sequence of records a run hands over, as a function of
its labels, and `entitled` the part of it that belongs to a subscription.

`feeding_run` follows by induction: what a worker has written is a beginning of
what its subscription entitles its client to.  `appended_journal` says that the
journal is what the transcript is given.
-/

namespace Rexec

open Machine TranscriptQueue

/-! ## The journal of a run -/

/-- The submission a label makes. -/
def Label.call : Label → Option Submission
  | .worker _ (.submit seq entry raw) => some ⟨seq, ⟨entry, raw⟩⟩
  | _ => none

/-- What the queue lets go at a label. -/
def Label.letsGo (b : Reorder.Buffer TranscriptRecord) (l : Label) : List TranscriptRecord :=
  match l.call with
  | some c => (Reorder.submit b c.seq c.record).2
  | none => []

/-- The reorder buffer of the queue behind a label. -/
def Label.buffer (b : Reorder.Buffer TranscriptRecord) (l : Label) :
    Reorder.Buffer TranscriptRecord :=
  match l.call with
  | some c => (Reorder.submit b c.seq c.record).1
  | none => b

/-- The reorder buffer of the queue in a run. -/
def buffered (es : List Label) : Reorder.Buffer TranscriptRecord :=
  es.foldl Label.buffer Reorder.empty

/-- The records a run hands over from a buffer on. -/
def journalFrom (b : Reorder.Buffer TranscriptRecord) : List Label → List TranscriptRecord
  | [] => []
  | l :: es => l.letsGo b ++ journalFrom (l.buffer b) es

/-- The records a run hands over, in their order. -/
def journal (es : List Label) : List TranscriptRecord :=
  journalFrom Reorder.empty es

def Label.closes : Label → Bool
  | .closeSubscriptions => true
  | _ => false

/-- The part of a run before the subscriptions are closed. -/
def beforeClose (es : List Label) : List Label :=
  before Label.closes es

/-- The records a subscription made between `front` and `rest` entitles to. -/
def entitled (front rest : List Label) : List TranscriptRecord :=
  (journal (front ++ beforeClose rest)).drop (journal front).length

section Journal

variable {es front rest : List Label} {l : Label}

theorem buffered_concat : buffered (es ++ [l]) = l.buffer (buffered es) :=
  List.foldl_concat ..

theorem journalFrom_append (b : Reorder.Buffer TranscriptRecord) (es fs : List Label) :
    journalFrom b (es ++ fs) = journalFrom b es ++ journalFrom (es.foldl Label.buffer b) fs := by
  induction es generalizing b with
  | nil => rfl
  | cons l es ih =>
      rw [List.cons_append, journalFrom, journalFrom, ih, List.append_assoc]
      rfl

theorem journal_append (es fs : List Label) :
    journal (es ++ fs) = journal es ++ journalFrom (buffered es) fs :=
  journalFrom_append _ es fs

theorem journal_concat : journal (es ++ [l]) = journal es ++ l.letsGo (buffered es) := by
  rw [journal_append, journalFrom, journalFrom, List.append_nil]

/-- A label that submits nothing does not show in the journal. -/
theorem journal_skip (hl : l.call = none) (front rest : List Label) :
    journal (front ++ l :: rest) = journal (front ++ rest) ∧
      buffered (front ++ l :: rest) = buffered (front ++ rest) := by
  have hbuffer : ∀ b, l.buffer b = b := fun b => by rw [Label.buffer, hl]
  constructor
  · rw [journal_append, journal_append, journalFrom, Label.letsGo, hl, hbuffer]
    rfl
  · rw [buffered, buffered, List.foldl_append, List.foldl_append, List.foldl_cons, hbuffer]

theorem entitled_eq (front rest : List Label) :
    entitled front rest = journalFrom (buffered front) (beforeClose rest) := by
  rw [entitled, journal_append, List.drop_left]

/-- A subscription gains the records of a label, unless it is closed. -/
theorem entitled_concat :
    entitled front (rest ++ [l]) = entitled front rest ++
      if rest.any Label.closes then [] else l.letsGo (buffered (front ++ rest)) := by
  rw [entitled_eq, entitled_eq, beforeClose, beforeClose, before_concat]
  cases hrest : rest.any Label.closes with
  | true => simp
  | false =>
      rw [before_of_none hrest]
      cases hl : l.closes with
      | true =>
          have hnone : ∀ b, l.letsGo b = [] := by
            intro b
            cases l with
            | closeSubscriptions => rfl
            | _ => cases hl
          simp [hnone]
      | false =>
          simp [journalFrom_append, journalFrom, buffered]

theorem entitled_grows : entitled front rest <+: entitled front (rest ++ [l]) := by
  rw [entitled_concat]
  exact List.prefix_append _ _

end Journal

/-! ## The queue of the host is that of `Attach` -/

namespace Attach

/-- A round hands over records and does nothing else to a stream. -/
theorem stream_rounds {i : Nat} {es more : List Label} (hmore : ∀ l ∈ more, l.inRound = true) :
    stream i (es ++ more) = (stream i es).map fun st =>
      if st.isOpen then { st with records := st.records ++ handed more } else st := by
  induction more using List.reverseRecOn with
  | nil =>
      rw [List.append_nil]
      cases stream i es with
      | none => rfl
      | some st =>
          obtain ⟨ansi, isOpen, records⟩ := st
          cases isOpen <;> simp [handed]
  | append_singleton more l ih =>
      have hl := hmore l (by simp)
      rw [← List.append_assoc, stream_concat, ih fun l hl => hmore l (by simp [hl]),
        handed_append]
      cases stream i es with
      | none => cases l <;> first | rfl | cases hl
      | some st =>
          obtain ⟨ansi, isOpen, records⟩ := st
          cases l <;> first
            | (cases hl; done)
            | cases isOpen <;> simp [Stream.next, handed]

/-- A channel goes on as another: it may have been sent more. -/
structure Extends (ch ch' : Channel) : Prop where
  sent : ch.sent <+: ch'.sent
  received : ch'.received = ch.received
  receiving : ch'.receiving = ch.receiving

theorem Extends.refl (ch : Channel) : Extends ch ch :=
  ⟨List.prefix_refl _, rfl, rfl⟩

theorem send_channel (channels : List Channel) (sender : Nat) (entry : TranscriptEntry)
    {i : Nat} {ch : Channel} (hch : channels[i]? = some ch) :
    ∃ ch', (send channels sender entry).1[i]? = some ch' ∧ Extends ch ch' := by
  unfold send
  split
  · rename_i sending hsending
    split
    · by_cases hi : i = sender
      · subst hi
        rw [hsending] at hch
        cases hch
        refine ⟨_, List.getElem?_set_self (lt_length_of_getElem? hsending), ?_, rfl, rfl⟩
        exact List.prefix_append _ _
      · refine ⟨ch, ?_, .refl ch⟩
        rw [List.getElem?_set_ne (fun h => hi h.symm)]
        exact hch
    · exact ⟨ch, hch, .refl ch⟩
  · exact ⟨ch, hch, .refl ch⟩

/-- Only its receiver takes from a channel or drops it. -/
theorem Step.channel {s s' : State} {l : Label} (h : Step s l s') {i : Nat} {ch : Channel}
    (hch : s.queue.channels[i]? = some ch) (hdrop : l ≠ .disconnect i)
    (hrecv : ∀ e, l ≠ .recv i e) :
    ∃ ch', s'.queue.channels[i]? = some ch' ∧ Extends ch ch' := by
  cases h with
  | deliver => exact send_channel _ _ _ hch
  | subscribe =>
      refine ⟨ch, ?_, .refl ch⟩
      show (_ ++ [_])[i]? = some ch
      rw [List.getElem?_append_left (lt_length_of_getElem? hch)]
      exact hch
  | @recv q q' work receiver entry hq =>
      have hi : receiver ≠ i := by
        rintro rfl
        exact hrecv entry rfl
      obtain ⟨ch', -, rfl⟩ := recv_channels hq
      exact ⟨ch, by rw [List.getElem?_set_ne hi]; exact hch, .refl ch⟩
  | @disconnect q work receiver hlt =>
      have hi : receiver ≠ i := by
        rintro rfl
        exact hdrop rfl
      refine ⟨ch, ?_, .refl ch⟩
      show (q.channels.modify receiver _)[i]? = some ch
      rw [List.getElem?_modify_ne _ _ hi]
      exact hch
  | _ => exact ⟨ch, hch, .refl ch⟩

theorem run_channel {s s' : State} {es : List Label} (h : run State.step s es = some s')
    {i : Nat} {ch : Channel} (hch : s.queue.channels[i]? = some ch)
    (hes : ∀ l ∈ es, l ≠ .disconnect i ∧ ∀ e, l ≠ .recv i e) :
    ∃ ch', s'.queue.channels[i]? = some ch' ∧ Extends ch ch' := by
  induction es generalizing s ch with
  | nil =>
      cases h
      exact ⟨ch, hch, .refl ch⟩
  | cons l es ih =>
      rw [run_cons, Option.bind_eq_some_iff] at h
      obtain ⟨m, hm, hrest⟩ := h
      have hl := hes l (by simp)
      obtain ⟨ch₁, hch₁, h₁⟩ := (step_cases hm).channel hch hl.1 hl.2
      obtain ⟨ch₂, hch₂, h₂⟩ := ih hrest hch₁ fun l hl => hes l (by simp [hl])
      exact ⟨ch₂, hch₂, h₁.sent.trans h₂.sent, h₂.received.trans h₁.received,
        h₂.receiving.trans h₁.receiving⟩

end Attach

/-- A run of `Attach` that moves the queue as the host does. -/
structure Mirrored (es : List Label) (h : Host) (ls : List Attach.Label) : Prop where
  run : Machine.run Attach.State.step .new ls = some ⟨h.transcript, .idle⟩
  buffered : buffered es = h.transcript.buffer
  stream : ∀ c front ansi i rest, es = front ++ .worker c (.subscribe ansi i) :: rest →
    Attach.stream i ls = some ⟨ansi, !rest.any Label.closes, entitled front rest⟩

theorem mirrored_init : Mirrored [] Host.init [] where
  run := rfl
  buffered := rfl
  stream c front ansi i rest h := by simp at h

/-- The channel a worker serves. -/
def Worker.receiver : Worker → Option Nat
  | .attached receiver => some receiver
  | .sending receiver _ => some receiver
  | _ => none

/-- The channel a label takes from or drops. -/
def Label.serves (h : Host) : Label → Option Nat
  | .worker c (.recv _) => (h.workers c).receiver
  | .worker c .detach => (h.workers c).receiver
  | .worker c (.writeEvent _ false) => (h.workers c).receiver
  | _ => none

section Mirror

variable {cfg : Config} {es : List Label} {h h' : Host} {l : Label} {ls : List Attach.Label}

theorem Mirrored.streaming (hM : Mirrored es h ls) :
    Attach.Streaming ls ⟨h.transcript, .idle⟩ :=
  Attach.streaming_of_run hM.run

/-- The subscriptions of a run behind one more label. -/
theorem subscription_concat {c : Nat} {front rest : List Label} {ansi : Bool} {i : Nat}
    (h : es ++ [l] = front ++ .worker c (.subscribe ansi i) :: rest) :
    l = .worker c (.subscribe ansi i) ∧ front = es ∧ rest = [] ∨
      ∃ rest', rest = rest' ++ [l] ∧ es = front ++ .worker c (.subscribe ansi i) :: rest' := by
  rcases List.eq_nil_or_concat rest with rfl | ⟨rest', x, rfl⟩
  · obtain ⟨rfl, hl⟩ := List.append_inj' h rfl
    cases hl
    exact .inl ⟨rfl, rfl, rfl⟩
  · rw [List.concat_eq_append, ← List.cons_append, ← List.append_assoc] at h
    obtain ⟨rfl, hl⟩ := List.append_inj' h rfl
    cases hl
    rw [List.concat_eq_append]
    exact .inr ⟨rest', rfl, rfl⟩

/-- A label that neither submits, subscribes nor closes. -/
theorem Mirrored.quiet (hM : Mirrored es h ls) (hcall : l.call = none)
    (hsub : ∀ c ansi i, l ≠ .worker c (.subscribe ansi i)) (hclose : l.closes = false)
    {more : List Attach.Label}
    (hrun : Machine.run Attach.State.step ⟨h.transcript, .idle⟩ more =
      some ⟨h'.transcript, .idle⟩)
    (hmore : ∀ i, Attach.stream i (ls ++ more) = Attach.stream i ls)
    (hbuffer : h'.transcript.buffer = h.transcript.buffer) :
    Mirrored (es ++ [l]) h' (ls ++ more) where
  run := run_of_append _ hM.run hrun
  buffered := by
    rw [buffered_concat, Label.buffer, hcall, hM.buffered, hbuffer]
  stream c front ansi i rest hes := by
    rcases subscription_concat hes with ⟨hl, -, -⟩ | ⟨rest', rfl, hes'⟩
    · exact absurd hl (hsub c ansi i)
    · rw [hmore, hM.stream c front ansi i rest' hes', entitled_concat]
      have hnone : ∀ b, l.letsGo b = [] := fun b => by rw [Label.letsGo, hcall]
      simp [hclose, hnone]

theorem Mirrored.submit (hM : Mirrored es h ls) {c seq : Nat} {entry : TranscriptEntry}
    {raw : String} (hqueue : h'.transcript = h.transcript.submit seq entry raw) :
    ∃ more, Machine.run Attach.State.step ⟨h.transcript, .idle⟩ more =
        some ⟨h'.transcript, .idle⟩ ∧
      (∀ m ∈ more, ∀ i, m ≠ .disconnect i ∧ ∀ e, m ≠ .recv i e) ∧
      Mirrored (es ++ [.worker c (.submit seq entry raw)]) h' (ls ++ more) := by
  obtain ⟨rounds, hrounds, hhanded, hrun⟩ := Attach.submit_run h.transcript seq ⟨entry, raw⟩
  rw [← hqueue] at hrun
  refine ⟨_, hrun, ?_, run_of_append _ hM.run hrun, ?_, ?_⟩
  · intro m hm i
    rcases List.mem_cons.mp hm with rfl | hm
    · exact ⟨fun h => (by cases h), fun e h => (by cases h)⟩
    · have hround := hrounds m hm
      refine ⟨?_, fun e => ?_⟩
      · rintro rfl
        cases hround
      · rintro rfl
        cases hround
  · rw [buffered_concat, Label.buffer, Label.call, hM.buffered, hqueue]
    exact (drain_eq ((h.transcript.pending.insert seq ⟨entry, raw⟩).size + 1)
      { h.transcript with pending := h.transcript.pending.insert seq ⟨entry, raw⟩ }).1.symm
  · intro c' front ansi i rest hes
    rcases subscription_concat hes with ⟨hl, -, -⟩ | ⟨rest', rfl, rfl⟩
    · cases hl
    · have hold := hM.stream c' front ansi i rest' rfl
      have hsubmit : Attach.stream i (ls ++ [.submit seq ⟨entry, raw⟩]) =
          Attach.stream i ls := by
        rw [Attach.stream_concat]
        rfl
      have hskip := (journal_skip (l := .worker c' (.subscribe ansi i)) rfl front rest').2
      have hnew : Label.letsGo (Rexec.buffered (front ++ rest'))
          (.worker c (.submit seq entry raw)) = Attach.handed rounds := by
        rw [hhanded, ← hM.buffered, hskip]
        rfl
      rw [← List.singleton_append, ← List.append_assoc, Attach.stream_rounds hrounds, hsubmit,
        hold, entitled_concat, hnew, List.any_append]
      cases rest'.any Label.closes <;> simp [Label.closes]

theorem Mirrored.subscribe (hM : Mirrored es h ls) {c : Nat} {ansi : Bool}
    (hqueue : h'.transcript = (h.transcript.subscribe ansi).1) :
    Mirrored (es ++ [.worker c (.subscribe ansi h.transcript.channels.length)]) h'
      (ls ++ [.subscribe ansi h.transcript.channels.length]) where
  run := by
    refine run_of_append _ hM.run (run_singleton _ ?_)
    simp [Attach.State.step, TranscriptQueue.subscribe, hqueue]
  buffered := by
    rw [buffered_concat, Label.buffer, hqueue]
    exact hM.buffered
  stream c' front ansi' i rest hes := by
    rw [Attach.stream_concat, Attach.Stream.next]
    rcases subscription_concat hes with ⟨hl, rfl, rfl⟩ | ⟨rest', rfl, hes'⟩
    · cases hl
      rw [if_pos rfl, entitled_eq]
      rfl
    · have hold := hM.stream c' front ansi' i rest' hes'
      have hlt : i < h.transcript.channels.length :=
        (hM.streaming.known i).mp (by rw [hold]; rfl)
      rw [if_neg (by omega), hold, entitled_concat]
      simp [Label.closes, Label.letsGo, Label.call]

theorem Mirrored.close (hM : Mirrored es h ls)
    (hqueue : h'.transcript = h.transcript.closeSubscriptions) :
    Mirrored (es ++ [.closeSubscriptions]) h' (ls ++ [.closeSubscriptions]) where
  run := by
    refine run_of_append _ hM.run (run_singleton _ ?_)
    simp [Attach.State.step, hqueue]
  buffered := by
    rw [buffered_concat, Label.buffer, hqueue]
    exact hM.buffered
  stream c front ansi i rest hes := by
    rcases subscription_concat hes with ⟨hl, -, -⟩ | ⟨rest', rfl, hes'⟩
    · cases hl
    · rw [Attach.stream_concat, hM.stream c front ansi i rest' hes', entitled_concat]
      simp [Attach.Stream.next, Label.closes, Label.letsGo, Label.call]

/-- A step of the host is this piece of a run of `Attach`. -/
structure Piece (es : List Label) (h : Host) (ls : List Attach.Label) (l : Label) (h' : Host)
    (more : List Attach.Label) : Prop where
  run : Machine.run Attach.State.step ⟨h.transcript, .idle⟩ more = some ⟨h'.transcript, .idle⟩
  /-- only the channel of the label is received from or dropped -/
  serves : ∀ m ∈ more, ∀ i, l.serves h ≠ some i → m ≠ .disconnect i ∧ ∀ e, m ≠ .recv i e
  mirrored : Mirrored (es ++ [l]) h' (ls ++ more)

/-- The queue stays as it is. -/
theorem Mirrored.still (hM : Mirrored es h ls) (hcall : l.call = none)
    (hsub : ∀ c ansi i, l ≠ .worker c (.subscribe ansi i)) (hclose : l.closes = false)
    (hsame : h'.transcript = h.transcript) : Piece es h ls l h' [] := by
  have hrun : Machine.run Attach.State.step ⟨h.transcript, .idle⟩ [] =
      some ⟨h'.transcript, .idle⟩ := by
    rw [hsame]
    rfl
  exact ⟨hrun, by simp,
    hM.quiet hcall hsub hclose hrun (fun i => by rw [List.append_nil]) (by rw [hsame])⟩

/-- A worker drops its receiver. -/
theorem Mirrored.drop (hM : Mirrored es h ls) (hcall : l.call = none)
    (hsub : ∀ c ansi i, l ≠ .worker c (.subscribe ansi i)) (hclose : l.closes = false)
    {receiver : Nat} (hserves : l.serves h = some receiver)
    (hknown : receiver < h.transcript.channels.length)
    (hqueue : h'.transcript = h.transcript.dropReceiver receiver) :
    Piece es h ls l h' [.disconnect receiver] := by
  have hrun : Machine.run Attach.State.step ⟨h.transcript, .idle⟩ [.disconnect receiver] =
      some ⟨h'.transcript, .idle⟩ :=
    run_singleton _ (by simp [Attach.State.step, hknown, hqueue])
  refine ⟨hrun, fun m hm i hi => ?_, hM.quiet hcall hsub hclose hrun
    (fun i => by rw [Attach.stream_concat]; rfl) (by rw [hqueue]; rfl)⟩
  rw [List.mem_singleton.mp hm]
  refine ⟨fun heq => ?_, fun e heq => (by cases heq)⟩
  cases heq
  exact hi hserves

/-- A worker takes an entry out of its channel. -/
theorem Mirrored.recv (hM : Mirrored es h ls) {c receiver : Nat} {entry : TranscriptEntry}
    (hworker : (h.workers c).receiver = some receiver)
    (hrecv : h.transcript.recv receiver = some (entry, h'.transcript)) :
    Piece es h ls (.worker c (.recv entry)) h' [.recv receiver entry] := by
  have hbuffer : h'.transcript.buffer = h.transcript.buffer := by
    obtain ⟨ch, -, hqueue⟩ := Attach.recv_channels hrecv
    rw [hqueue]
    rfl
  have hrun : Machine.run Attach.State.step ⟨h.transcript, .idle⟩ [.recv receiver entry] =
      some ⟨h'.transcript, .idle⟩ :=
    run_singleton _ (by simp only [Attach.State.step, hrecv, if_true])
  refine ⟨hrun, fun m hm i hi => ?_, hM.quiet rfl (fun _ _ _ heq => by cases heq) rfl hrun
    (fun i => by rw [Attach.stream_concat]; rfl) hbuffer⟩
  rw [List.mem_singleton.mp hm]
  refine ⟨fun heq => (by cases heq), fun e heq => ?_⟩
  cases heq
  exact hi hworker

/-- Each event of a worker is a piece of a run of `Attach`. -/
theorem Mirrored.worker (hM : Mirrored es h ls) {c : Nat} {e : Event} {hs : Host} {w : Worker}
    (hshare : h.share (h.workers c) e = some hs)
    (hknown : ∀ i, (h.workers c).receiver = some i → i < h.transcript.channels.length) :
    ∃ more, Piece es h ls (.worker c e)
      { hs with workers := Function.update h.workers c w } more := by
  have hnothing : Label.call (.worker c e) = none →
      (∀ c' ansi i, Label.worker c e ≠ .worker c' (.subscribe ansi i)) →
      hs.transcript = h.transcript →
      ∃ more, Piece es h ls (.worker c e)
        { hs with workers := Function.update h.workers c w } more :=
    fun hcall hsub hsame => ⟨_, hM.still hcall hsub rfl hsame⟩
  cases e with
  | submit seq entry raw =>
      cases hshare
      have hqueue : ({ h with
          transcript := h.transcript.submit seq entry raw
          workers := Function.update h.workers c w } : Host).transcript =
            h.transcript.submit seq entry raw := rfl
      obtain ⟨more, hrun, hmore, hM'⟩ := hM.submit hqueue
      exact ⟨more, hrun, fun m hm i _ => hmore m hm i, hM'⟩
  | subscribe ansi receiver =>
      simp only [Host.share] at hshare
      split at hshare
      · rename_i hreceiver
        cases hshare
        have hnumber : receiver = h.transcript.channels.length := hreceiver
        subst hnumber
        refine ⟨[.subscribe ansi h.transcript.channels.length], ?_, ?_, hM.subscribe rfl⟩
        · refine run_singleton _ ?_
          simp [Attach.State.step, TranscriptQueue.subscribe]
        · intro m hm i hi
          rw [List.mem_singleton.mp hm]
          exact ⟨fun heq => (by cases heq), fun e heq => (by cases heq)⟩
      · cases hshare
  | recv entry =>
      simp only [Host.share] at hshare
      split at hshare
      · rename_i receiver hworker
        split at hshare
        · rename_i en transcript hrecv
          split at hshare
          · rename_i hen
            cases hshare
            subst hen
            exact ⟨_, hM.recv (by rw [hworker]; rfl) hrecv⟩
          · cases hshare
        · cases hshare
      · cases hshare
  | detach =>
      simp only [Host.share] at hshare
      split at hshare
      · rename_i receiver hworker
        cases hshare
        have hserves : (h.workers c).receiver = some receiver := by
          rw [hworker]
          rfl
        exact ⟨_, hM.drop rfl (fun _ _ _ heq => by cases heq) rfl hserves
          (hknown receiver hserves) rfl⟩
      · cases hshare
  | writeEvent entry ok =>
      simp only [Host.share] at hshare
      split at hshare
      · rename_i receiver en hworker
        have hserves : (h.workers c).receiver = some receiver := by
          rw [hworker]
          rfl
        cases ok with
        | true =>
            cases hshare
            exact hnothing rfl (fun _ _ _ heq => by cases heq) rfl
        | false =>
            cases hshare
            exact ⟨_, hM.drop rfl (fun _ _ _ heq => by cases heq) rfl hserves
              (hknown receiver hserves) rfl⟩
      · cases hshare
  | fetchAdd seq time =>
      obtain ⟨rfl, rfl⟩ := Host.share_fetchAdd hshare
      exact hnothing rfl (fun _ _ _ heq => by cases heq) rfl
  | _ =>
      cases hshare
      exact hnothing rfl (fun _ _ _ heq => by cases heq) rfl

/-- Each step of the host is a piece of a run of `Attach`. -/
theorem Mirrored.step (hM : Mirrored es h ls) (hstep : h.step cfg l = some h')
    (hknown : ∀ c i, (h.workers c).receiver = some i → i < h.transcript.channels.length) :
    ∃ more, Piece es h ls l h' more := by
  cases l with
  | worker c e =>
      obtain ⟨hs, w, hshare, -, rfl⟩ := Host.step_worker hstep
      exact hM.worker hshare (hknown c)
  | closeSubscriptions =>
      simp only [Host.step] at hstep
      split at hstep
      · cases hstep
        refine ⟨[.closeSubscriptions], by simp [run_cons, Attach.State.step], ?_, hM.close rfl⟩
        intro m hm i hi
        rw [List.mem_singleton.mp hm]
        exact ⟨fun heq => (by cases heq), fun e heq => (by cases heq)⟩
      · cases hstep
  | dispatch =>
      simp only [Host.step] at hstep
      split at hstep
      · cases hstep
        exact ⟨_, hM.still rfl (fun _ _ _ heq => by cases heq) rfl rfl⟩
      · cases hstep
  | accept ok =>
      simp only [Host.step] at hstep
      split at hstep
      · split at hstep <;> cases hstep <;>
          exact ⟨_, hM.still rfl (fun _ _ _ heq => by cases heq) rfl rfl⟩
      · cases hstep
  | _ =>
      simp only [Host.step] at hstep
      split at hstep
      · cases hstep
        exact ⟨_, hM.still rfl (fun _ _ _ heq => by cases heq) rfl rfl⟩
      · cases hstep

end Mirror

/-! ## What the workers write -/

/-- The entries a worker has written to its client. -/
def written (c : Nat) (es : List Label) : List TranscriptEntry :=
  es.filterMap fun l =>
    match l with
    | .worker c' (.writeEvent entry true) => if c' = c then some entry else none
    | _ => none

/-- The entry a worker is writing. -/
def Worker.inHand : Worker → List TranscriptEntry
  | .sending _ entry => [entry]
  | _ => []

@[simp] theorem Worker.inHand_attached (receiver : Nat) :
    (Worker.attached receiver).inHand = [] := rfl

@[simp] theorem Worker.inHand_sending (receiver : Nat) (entry : TranscriptEntry) :
    (Worker.sending receiver entry).inHand = [entry] := rfl

/-- An event of a worker, and the channel it serves. -/
inductive Worker.Serving : Worker → Event → Worker → Prop where
  | subscribe {ansi : Bool} {receiver : Nat} :
      Serving (.attaching ansi) (.subscribe ansi receiver) (.attached receiver)
  | recv {receiver : Nat} {entry : TranscriptEntry} :
      Serving (.attached receiver) (.recv entry) (.sending receiver entry)
  | sent {receiver : Nat} {entry : TranscriptEntry} :
      Serving (.sending receiver entry) (.writeEvent entry true) (.attached receiver)
  | notSent {receiver : Nat} {entry : TranscriptEntry} :
      Serving (.sending receiver entry) (.writeEvent entry false) .exited
  | detach {receiver : Nat} : Serving (.attached receiver) .detach .exited
  | other {w w' : Worker} {e : Event} (hw : w.receiver = none) (hw' : w'.receiver = none)
      (hsub : ∀ ansi i, e ≠ .subscribe ansi i) (hwrite : ∀ entry ok, e ≠ .writeEvent entry ok) :
      Serving w e w'

theorem Worker.Step.serving {cfg : Config} {w w' : Worker} {e : Event} (h : w.Step cfg e w') :
    Serving w e w' := by
  cases h with
  | subscribe => exact .subscribe
  | recv => exact .recv
  | sent => exact .sent
  | notSent => exact .notSent
  | detach => exact .detach
  | opening =>
      exact .other rfl (Config.onOpening_elim _ rfl rfl)
        (fun _ _ h => by cases h) (fun _ _ h => by cases h)
  | @line p rl =>
      refine .other rfl ?_ (fun _ _ h => by cases h) (fun _ _ h => by cases h)
      rcases cfg.onLine_leads p rl with h | h | h | ⟨ansi, h⟩ | ⟨resp, h⟩ | ⟨request, h⟩ <;>
        rw [h] <;> rfl
  | foreground hfg =>
      cases hfg <;>
        exact .other rfl rfl (fun _ _ h => by cases h) (fun _ _ h => by cases h)
  | background hbg =>
      cases hbg <;>
        exact .other rfl rfl (fun _ _ h => by cases h) (fun _ _ h => by cases h)
  | _ => exact .other rfl rfl (fun _ _ h => by cases h) (fun _ _ h => by cases h)

/-- What a worker has written, what it is writing and what waits in its channel. -/
structure Feeding (es : List Label) (h : Host) (ls : List Attach.Label) : Prop where
  mirrored : Mirrored es h ls
  serving : ∀ c i, (h.workers c).receiver = some i → ∃ front ansi rest ch,
    es = front ++ .worker c (.subscribe ansi i) :: rest ∧
      h.transcript.channels[i]? = some ch ∧ ch.receiving = true ∧
      ch.received ≤ ch.sent.length ∧
      written c es ++ (h.workers c).inHand = ch.sent.take ch.received
  apart : ∀ c c' i, (h.workers c).receiver = some i → (h.workers c').receiver = some i → c = c'
  once : ∀ c ansi i, .worker c (.subscribe ansi i) ∈ es →
    (h.workers c).receiver = some i ∨ h.workers c = .exited
  fresh : ∀ c, (∀ ansi i, .worker c (.subscribe ansi i) ∉ es) → written c es = []
  shown : ∀ c front ansi i rest, es = front ++ .worker c (.subscribe ansi i) :: rest →
    written c es <+: (entitled front rest).map (entryFor ⟨ansi, i⟩)

theorem feeding_init : Feeding [] Host.init [] where
  mirrored := mirrored_init
  serving c i h := by cases h
  apart c c' i h := by cases h
  once c ansi i h := by cases h
  fresh c h := rfl
  shown c front ansi i rest h := by simp at h

section Feed

variable {cfg : Config} {es : List Label} {h h' : Host} {l : Label} {ls : List Attach.Label}

theorem written_concat (c : Nat) : written c (es ++ [l]) = written c es ++
    match l with
    | .worker c' (.writeEvent entry true) => if c' = c then [entry] else []
    | _ => [] := by
  rw [written, List.filterMap_append]
  congr 1
  rw [List.filterMap_cons, List.filterMap_nil]
  split <;> rename_i heq <;> split at heq <;> simp_all

theorem written_other {c : Nat} (hl : ∀ entry, l ≠ .worker c (.writeEvent entry true)) :
    written c (es ++ [l]) = written c es := by
  rw [written_concat]
  split
  · rename_i c' entry
    rw [if_neg, List.append_nil]
    rintro rfl
    exact hl entry rfl
  · exact List.append_nil _

theorem Feeding.known (hF : Feeding es h ls) {c i : Nat} (hi : (h.workers c).receiver = some i) :
    i < h.transcript.channels.length := by
  obtain ⟨-, -, -, ch, -, hch, -⟩ := hF.serving c i hi
  exact lt_length_of_getElem? hch

/-- A worker that does nothing keeps what it has of its channel. -/
theorem Feeding.carry (hF : Feeding es h ls) {more : List Attach.Label}
    (hrun : Machine.run Attach.State.step ⟨h.transcript, .idle⟩ more =
      some ⟨h'.transcript, .idle⟩)
    (hmore : ∀ m ∈ more, ∀ i, l.serves h ≠ some i → m ≠ .disconnect i ∧ ∀ e, m ≠ .recv i e)
    {c i : Nat} (hi : (h.workers c).receiver = some i) (hserves : l.serves h ≠ some i)
    (hwritten : written c (es ++ [l]) = written c es) (hworker : h'.workers c = h.workers c) :
    ∃ front ansi rest ch, es ++ [l] = front ++ .worker c (.subscribe ansi i) :: rest ∧
      h'.transcript.channels[i]? = some ch ∧ ch.receiving = true ∧
      ch.received ≤ ch.sent.length ∧
      written c (es ++ [l]) ++ (h'.workers c).inHand = ch.sent.take ch.received := by
  obtain ⟨front, ansi, rest, ch, hes, hch, hreceiving, hle, htaken⟩ := hF.serving c i hi
  obtain ⟨ch', hch', hext⟩ := Attach.run_channel hrun hch fun m hm => hmore m hm i hserves
  refine ⟨front, ansi, rest ++ [l], ch', by simp [hes], hch', hext.receiving.trans hreceiving,
    ?_, ?_⟩
  · rw [hext.received]
    exact hle.trans hext.sent.length_le
  · rw [hwritten, hworker, htaken, hext.received]
    obtain ⟨tail, htail⟩ := hext.sent
    rw [← htail, List.take_append_of_le_length hle]

/-- What is shown grows no faster than what it is taken from. -/
theorem Feeding.shown_keep (hF : Feeding es h ls)
    (hsub : ∀ c ansi i, l = .worker c (.subscribe ansi i) → written c es = [])
    {c : Nat} (hwritten : written c (es ++ [l]) = written c es) {front rest : List Label}
    {ansi : Bool} {i : Nat} (hes : es ++ [l] = front ++ .worker c (.subscribe ansi i) :: rest) :
    written c (es ++ [l]) <+: (entitled front rest).map (entryFor ⟨ansi, i⟩) := by
  rw [hwritten]
  rcases subscription_concat hes with ⟨hl, -, -⟩ | ⟨rest', rfl, hes'⟩
  · rw [hsub c ansi i hl]
    exact List.nil_prefix
  · exact (hF.shown c front ansi i rest' hes').trans (entitled_grows.map _)

theorem Feeding.once_keep (hF : Feeding es h ls) {c : Nat} {ansi : Bool} {i : Nat}
    (hl : l ≠ .worker c (.subscribe ansi i)) (hworker : h'.workers c = h.workers c)
    (hmem : .worker c (.subscribe ansi i) ∈ es ++ [l]) :
    (h'.workers c).receiver = some i ∨ h'.workers c = .exited := by
  rw [hworker]
  rcases List.mem_append.mp hmem with hmem | hmem
  · exact hF.once c ansi i hmem
  · exact absurd (List.mem_singleton.mp hmem).symm hl

/-- The main thread serves no one. -/
theorem Feeding.main (hF : Feeding es h ls) (hl : ∀ c e, l ≠ .worker c e)
    {more : List Attach.Label}
    (hrun : Machine.run Attach.State.step ⟨h.transcript, .idle⟩ more =
      some ⟨h'.transcript, .idle⟩)
    (hmore : ∀ m ∈ more, ∀ i, l.serves h ≠ some i → m ≠ .disconnect i ∧ ∀ e, m ≠ .recv i e)
    (hM : Mirrored (es ++ [l]) h' (ls ++ more)) (hworkers : h'.workers = h.workers) :
    Feeding (es ++ [l]) h' (ls ++ more) := by
  have hserves : ∀ i, l.serves h ≠ some i := by
    intro i hi
    cases l with
    | worker c e => exact hl c e rfl
    | _ => cases hi
  have hwritten : ∀ c, written c (es ++ [l]) = written c es := fun c =>
    written_other fun entry => hl c _
  refine ⟨hM, ?_, ?_, ?_, ?_, ?_⟩
  · intro c i hi
    rw [hworkers] at hi
    exact hF.carry hrun hmore hi (hserves i) (hwritten c) (by rw [hworkers])
  · rw [hworkers]
    exact hF.apart
  · intro c ansi i hmem
    exact hF.once_keep (hl c _) (by rw [hworkers]) hmem
  · intro c hno
    rw [hwritten]
    exact hF.fresh c fun ansi i hmem => hno ansi i (List.mem_append_left _ hmem)
  · intro c front ansi i rest hes
    exact hF.shown_keep (fun c ansi i h => absurd h (hl c _)) (hwritten c) hes

theorem serves_worker {c : Nat} {e : Event} {i : Nat}
    (hi : Label.serves h (.worker c e) = some i) : (h.workers c).receiver = some i := by
  cases e with
  | recv entry => exact hi
  | detach => exact hi
  | writeEvent entry ok =>
      cases ok with
      | true => cases hi
      | false => exact hi
  | _ => cases hi

theorem share_recv {w : Worker} {hs : Host} {receiver : Nat} {entry : TranscriptEntry}
    (hw : w = .attached receiver) (hshare : h.share w (.recv entry) = some hs) :
    ∃ ch, h.transcript.channels[receiver]? = some ch ∧ ch.sent[ch.received]? = some entry ∧
      hs.transcript.channels[receiver]? = some { ch with received := ch.received + 1 } := by
  subst hw
  simp only [Host.share] at hshare
  split at hshare
  · rename_i en transcript hrecv
    split at hshare
    · rename_i hen
      cases hshare
      subst hen
      unfold TranscriptQueue.recv at hrecv
      split at hrecv
      · cases hrecv
      · rename_i ch hch
        split at hrecv
        · cases hrecv
        · rename_i hentry
          cases hrecv
          exact ⟨ch, hch, hentry, List.getElem?_set_self (lt_length_of_getElem? hch)⟩
    · cases hshare
  · cases hshare

/-- A step of one worker, with the piece of a run of `Attach` that goes with it. -/
structure Turn (es : List Label) (h : Host) (ls : List Attach.Label) (c : Nat) (e : Event)
    (h' : Host) (more : List Attach.Label) : Prop where
  run : Machine.run Attach.State.step ⟨h.transcript, .idle⟩ more =
    some ⟨h'.transcript, .idle⟩
  mine : ∀ m ∈ more, ∀ i, Label.serves h (.worker c e) ≠ some i →
    m ≠ .disconnect i ∧ ∀ e, m ≠ .recv i e
  mirrored : Mirrored (es ++ [.worker c e]) h' (ls ++ more)
  others : ∀ c', c' ≠ c → h'.workers c' = h.workers c'
  share : ∃ hs, h.share (h.workers c) e = some hs ∧ h'.transcript = hs.transcript

section Turn

variable {c : Nat} {e : Event} {more : List Attach.Label}

/-- The step is a good one if all is well with the worker that makes it. -/
theorem Feeding.worker (hF : Feeding es h ls) (ht : Turn es h ls c e h' more)
    (hserving : ∀ i, (h'.workers c).receiver = some i → ∃ front ansi rest ch,
      es ++ [.worker c e] = front ++ .worker c (.subscribe ansi i) :: rest ∧
        h'.transcript.channels[i]? = some ch ∧ ch.receiving = true ∧
        ch.received ≤ ch.sent.length ∧
        written c (es ++ [.worker c e]) ++ (h'.workers c).inHand = ch.sent.take ch.received)
    (hgets : ∀ i, (h'.workers c).receiver = some i →
      (h.workers c).receiver = some i ∨ h.transcript.channels.length ≤ i)
    (honce : ∀ ansi i, .worker c (.subscribe ansi i) ∈ es ++ [Label.worker c e] →
      (h'.workers c).receiver = some i ∨ h'.workers c = .exited)
    (hfresh : (∀ ansi i, .worker c (.subscribe ansi i) ∉ es ++ [Label.worker c e]) →
      written c (es ++ [.worker c e]) = [])
    (hshown : ∀ front ansi i rest,
      es ++ [.worker c e] = front ++ .worker c (.subscribe ansi i) :: rest →
      written c (es ++ [.worker c e]) <+: (entitled front rest).map (entryFor ⟨ansi, i⟩)) :
    Feeding (es ++ [.worker c e]) h' (ls ++ more) := by
  have hwritten : ∀ c', c' ≠ c → written c' (es ++ [.worker c e]) = written c' es := by
    intro c' hc
    refine written_other fun entry heq => ?_
    cases heq
    exact hc rfl
  have hne : ∀ {c'}, c' ≠ c → ∀ ansi i, Label.worker c e ≠ .worker c' (.subscribe ansi i) := by
    intro c' hc ansi i heq
    cases heq
    exact hc rfl
  refine ⟨ht.mirrored, ?_, ?_, ?_, ?_, ?_⟩
  · intro c' i hi
    by_cases hc : c' = c
    · subst hc
      exact hserving i hi
    · rw [ht.others c' hc] at hi
      refine hF.carry ht.run ht.mine hi (fun hs => ?_) (hwritten c' hc) (ht.others c' hc)
      exact hc (hF.apart c' c i hi (serves_worker hs))
  · -- the channel of `c`, if it has a new one, is nobody else's
    have hone : ∀ c' i, c' ≠ c → (h'.workers c').receiver = some i →
        (h'.workers c).receiver ≠ some i := by
      intro c' i hc hi hi'
      rw [ht.others c' hc] at hi
      rcases hgets i hi' with hold | hnew
      · exact hc (hF.apart c' c i hi hold)
      · have hlt := hF.known hi
        omega
    intro c₁ c₂ i h₁ h₂
    by_contra hne'
    by_cases hc₁ : c₁ = c
    · subst hc₁
      exact hone c₂ i (Ne.symm hne') h₂ h₁
    · by_cases hc₂ : c₂ = c
      · subst hc₂
        exact hone c₁ i hc₁ h₁ h₂
      · rw [ht.others c₁ hc₁] at h₁
        rw [ht.others c₂ hc₂] at h₂
        exact hne' (hF.apart c₁ c₂ i h₁ h₂)
  · intro c' ansi i hmem
    by_cases hc : c' = c
    · subst hc
      exact honce ansi i hmem
    · exact hF.once_keep (hne hc ansi i) (ht.others c' hc) hmem
  · intro c' hno
    by_cases hc : c' = c
    · subst hc
      exact hfresh hno
    · rw [hwritten c' hc]
      exact hF.fresh c' fun ansi i hmem => hno ansi i (List.mem_append_left _ hmem)
  · intro c' front ansi i rest hes
    by_cases hc : c' = c
    · subst hc
      exact hshown front ansi i rest hes
    · rcases subscription_concat hes with ⟨hl, -, -⟩ | ⟨rest', rfl, hes'⟩
      · exact absurd hl (hne hc ansi i)
      · rw [hwritten c' hc]
        exact (hF.shown c' front ansi i rest' hes').trans (entitled_grows.map _)

/-- A worker that does not serve has not subscribed, unless it has exited. -/
theorem Feeding.not_subscribed (hF : Feeding es h ls) (hreceiver : (h.workers c).receiver = none)
    (hlive : h.workers c ≠ .exited) (ansi : Bool) (i : Nat) :
    .worker c (.subscribe ansi i) ∉ es := by
  intro hmem
  rcases hF.once c ansi i hmem with hi | hexited
  · rw [hreceiver] at hi
    cases hi
  · exact hlive hexited

theorem Feeding.fresh_keep (hF : Feeding es h ls) (hwritten : written c (es ++ [l]) = written c es)
    (hno : ∀ ansi i, .worker c (.subscribe ansi i) ∉ es ++ [l]) : written c (es ++ [l]) = [] := by
  rw [hwritten]
  exact hF.fresh c fun ansi i hmem => hno ansi i (List.mem_append_left _ hmem)

/-- A worker that serves no channel afterwards. -/
theorem Feeding.leave (hF : Feeding es h ls) (ht : Turn es h ls c e h' more)
    (hnone : (h'.workers c).receiver = none) (hsub : ∀ ansi i, e ≠ .subscribe ansi i)
    (hwrite : ∀ entry, e ≠ .writeEvent entry true)
    (honce : h'.workers c = .exited ∨ ∀ ansi i, .worker c (.subscribe ansi i) ∉ es) :
    Feeding (es ++ [.worker c e]) h' (ls ++ more) := by
  have hwritten : written c (es ++ [.worker c e]) = written c es :=
    written_other fun entry heq => hwrite entry (by cases heq; rfl)
  have hne : ∀ c' ansi i, Label.worker c e ≠ .worker c' (.subscribe ansi i) :=
    fun c' ansi i heq => hsub ansi i (by cases heq; rfl)
  refine hF.worker ht ?_ ?_ ?_ (hF.fresh_keep hwritten) ?_
  · intro i hi
    rw [hnone] at hi
    cases hi
  · intro i hi
    rw [hnone] at hi
    cases hi
  · intro ansi i hmem
    rcases honce with hexited | hnever
    · exact .inr hexited
    · exact absurd ((mem_concat_of_ne (Ne.symm (hne c ansi i))).mp hmem) (hnever ansi i)
  · intro front ansi i rest hes
    exact hF.shown_keep (fun c' a j h => absurd h (hne c' a j)) hwritten hes

theorem Feeding.subscribe (hF : Feeding es h ls) {ansi : Bool} {receiver : Nat}
    (ht : Turn es h ls c (.subscribe ansi receiver) h' more)
    (hworker : h.workers c = .attaching ansi) (hworker' : h'.workers c = .attached receiver) :
    Feeding (es ++ [.worker c (.subscribe ansi receiver)]) h' (ls ++ more) := by
  have hnever := hF.not_subscribed (c := c) (by rw [hworker]; rfl)
    (by rw [hworker]; exact Worker.noConfusion)
  have hwritten : written c (es ++ [.worker c (.subscribe ansi receiver)]) = [] := by
    rw [written_other fun _ h => by cases h]
    exact hF.fresh c hnever
  obtain ⟨hs, hshare, hqueue⟩ := ht.share
  simp only [Host.share] at hshare
  split at hshare
  · rename_i hnumber
    cases hshare
    refine hF.worker ht ?_ ?_ ?_ (fun _ => hwritten) ?_
    · intro i hi
      rw [hworker'] at hi
      cases hi
      refine ⟨es, ansi, [], ⟨[], 0, true⟩, rfl, ?_, rfl, Nat.le_refl _, ?_⟩
      · rw [hqueue, hnumber]
        exact List.getElem?_concat_length
      · rw [hwritten, hworker']
        rfl
    · intro i hi
      rw [hworker'] at hi
      cases hi
      exact .inr (Nat.le_of_eq hnumber.symm)
    · intro a i hmem
      rcases List.mem_append.mp hmem with hold | hnew
      · exact absurd hold (hnever a i)
      · rw [List.mem_singleton] at hnew
        cases hnew
        exact .inl (by rw [hworker']; rfl)
    · intro front a i rest hes
      rw [hwritten]
      exact List.nil_prefix
  · cases hshare

theorem Feeding.recv (hF : Feeding es h ls) {receiver : Nat} {entry : TranscriptEntry}
    (ht : Turn es h ls c (.recv entry) h' more) (hworker : h.workers c = .attached receiver)
    (hworker' : h'.workers c = .sending receiver entry) :
    Feeding (es ++ [.worker c (.recv entry)]) h' (ls ++ more) := by
  obtain ⟨front, ansi, rest, ch, hes, hch, hreceiving, hle, htaken⟩ :=
    hF.serving c receiver (by rw [hworker]; rfl)
  obtain ⟨hs, hshare, hqueue⟩ := ht.share
  obtain ⟨ch', hch', hentry, hafter⟩ := share_recv hworker hshare
  rw [hch] at hch'
  cases hch'
  have hwritten : written c (es ++ [.worker c (.recv entry)]) = written c es :=
    written_other fun _ h => by cases h
  rw [hworker, Worker.inHand_attached, List.append_nil] at htaken
  refine hF.worker ht ?_ ?_ ?_ (hF.fresh_keep hwritten) ?_
  · intro i hi
    rw [hworker'] at hi
    cases hi
    refine ⟨front, ansi, rest ++ [.worker c (.recv entry)],
      { ch with received := ch.received + 1 }, by simp [hes], by rw [hqueue]; exact hafter,
      hreceiving, lt_length_of_getElem? hentry, ?_⟩
    rw [hwritten, hworker', htaken]
    show _ = ch.sent.take (ch.received + 1)
    rw [List.take_add_one, hentry]
    rfl
  · intro i hi
    rw [hworker'] at hi
    cases hi
    exact .inl (by rw [hworker]; rfl)
  · intro a i hmem
    rcases hF.once c a i ((mem_concat_of_ne (fun h => by cases h)).mp hmem) with hi | hx
    · rw [hworker] at hi
      cases hi
      exact .inl (by rw [hworker']; rfl)
    · rw [hworker] at hx
      cases hx
  · intro front' a i rest' hes'
    exact hF.shown_keep (fun _ _ _ h => by cases h) hwritten hes'

/-- What was sent on the channel of a subscription. -/
theorem Feeding.sent_eq (hF : Feeding es h ls) {front rest : List Label} {ansi : Bool}
    {i : Nat} (hes : es = front ++ .worker c (.subscribe ansi i) :: rest) {ch : Channel}
    (hch : h.transcript.channels[i]? = some ch) (hreceiving : ch.receiving = true) :
    ch.sent = (entitled front rest).map fun record =>
      if ansi then { record.entry with output := record.rawOutput } else record.entry := by
  have hstream := hF.mirrored.stream c front ansi i rest hes
  have hsent := hF.mirrored.streaming.sent i ch _ hch hstream hreceiving
  exact (List.append_nil _).symm.trans hsent

theorem Feeding.sent (hF : Feeding es h ls) {receiver : Nat} {entry : TranscriptEntry}
    (ht : Turn es h ls c (.writeEvent entry true) h' more)
    (hworker : h.workers c = .sending receiver entry)
    (hworker' : h'.workers c = .attached receiver) :
    Feeding (es ++ [.worker c (.writeEvent entry true)]) h' (ls ++ more) := by
  obtain ⟨front, ansi, rest, ch, hes, hch, hreceiving, hle, htaken⟩ :=
    hF.serving c receiver (by rw [hworker]; rfl)
  obtain ⟨hs, hshare, hqueue⟩ := ht.share
  rw [hworker] at hshare
  cases hshare
  have hwritten : written c (es ++ [.worker c (.writeEvent entry true)]) =
      written c es ++ [entry] := by
    rw [written_concat]
    simp
  rw [hworker, Worker.inHand_sending] at htaken
  have honce : ∀ {a i}, .worker c (.subscribe a i) ∈ es → i = receiver := by
    intro a i hmem
    rcases hF.once c a i hmem with hi | hx
    · rw [hworker] at hi
      cases hi
      rfl
    · rw [hworker] at hx
      cases hx
  refine hF.worker ht ?_ ?_ ?_ ?_ ?_
  · intro i hi
    rw [hworker'] at hi
    cases hi
    refine ⟨front, ansi, rest ++ [.worker c (.writeEvent entry true)], ch, by simp [hes],
      by rw [hqueue]; exact hch, hreceiving, hle, ?_⟩
    rw [hwritten, hworker', htaken]
    exact List.append_nil _
  · intro i hi
    rw [hworker'] at hi
    cases hi
    exact .inl (by rw [hworker]; rfl)
  · intro a i hmem
    obtain rfl := honce ((mem_concat_of_ne (fun h => by cases h)).mp hmem)
    exact .inl (by rw [hworker']; rfl)
  · intro hno
    exact absurd (show Label.worker c (.subscribe ansi receiver) ∈ _ by simp [hes])
      (hno ansi receiver)
  · intro front' a i rest' hes'
    rcases subscription_concat hes' with ⟨hl, -, -⟩ | ⟨rest'', rfl, hes''⟩
    · cases hl
    · obtain rfl := honce (a := a) (i := i) (by simp [hes''])
      rw [hwritten, htaken]
      have hsent := hF.sent_eq hes'' hch hreceiving
      exact (List.take_prefix _ _).trans (hsent ▸ entitled_grows.map _)

end Turn

theorem Feeding.step (hF : Feeding es h ls) (hstep : h.step cfg l = some h') :
    ∃ ls', Feeding (es ++ [l]) h' ls' := by
  obtain ⟨more, hrun, hmore, hM⟩ := hF.mirrored.step hstep fun c i hi => hF.known hi
  refine ⟨ls ++ more, ?_⟩
  cases l with
  | worker c e =>
      obtain ⟨hs, w, hshare, hw, heq⟩ := Host.step_worker hstep
      have hself : h'.workers c = w := by rw [heq]; exact Function.update_self ..
      have hothers : ∀ c', c' ≠ c → h'.workers c' = h.workers c' := by
        intro c' hc
        rw [heq]
        exact Function.update_of_ne hc ..
      have ht : Turn es h ls c e h' more :=
        ⟨hrun, hmore, hM, hothers, hs, hshare, by rw [heq]⟩
      have hlive : h.workers c ≠ .exited := by
        intro hexited
        rw [hexited] at hw
        cases hw
      have hserving := hw.serving
      generalize hv : h.workers c = v at hserving
      cases hserving with
      | subscribe => exact hF.subscribe ht hv hself
      | recv => exact hF.recv ht hv hself
      | sent => exact hF.sent ht hv hself
      | notSent =>
          exact hF.leave ht (by rw [hself]; rfl) (fun _ _ h => by cases h)
            (fun _ h => by cases h) (.inl hself)
      | detach =>
          exact hF.leave ht (by rw [hself]; rfl) (fun _ _ h => by cases h)
            (fun _ h => by cases h) (.inl hself)
      | other hbefore hafter hsub hwrite =>
          exact hF.leave ht (by rw [hself]; exact hafter) hsub (fun entry => hwrite entry true)
            (.inr (hF.not_subscribed (by rw [hv]; exact hbefore) hlive))
  | _ =>
      obtain ⟨-, hworkers⟩ := Host.step_main (fun c e h => by cases h) hstep
      exact hF.main (fun c e h => by cases h) hrun hmore hM hworkers

theorem feeding_run (hrun : Machine.run (Host.step cfg) Host.init es = some h) :
    ∃ ls, Feeding es h ls := by
  refine run_induction (P := fun es h => ∃ ls, Feeding es h ls) ⟨[], feeding_init⟩ ?_ hrun
  rintro es h l h' - ⟨ls, hF⟩ hstep
  exact hF.step hstep

theorem Host.share_appended {hs : Host} {w : Worker} {c : Nat} {e : Event}
    (hshare : h.share w e = some hs) :
    hs.transcript.appended = h.transcript.appended ++
      (Label.letsGo h.transcript.buffer (.worker c e)).map (·.entry) := by
  have hsame : Label.call (.worker c e) = none →
      hs.transcript.appended = h.transcript.appended →
      hs.transcript.appended = h.transcript.appended ++
        (Label.letsGo h.transcript.buffer (.worker c e)).map (·.entry) := by
    intro hcall heq
    rw [heq, Label.letsGo, hcall]
    exact (List.append_nil _).symm
  cases e with
  | submit seq entry raw =>
      cases hshare
      exact (drain_eq ((h.transcript.pending.insert seq ⟨entry, raw⟩).size + 1)
        { h.transcript with pending := h.transcript.pending.insert seq ⟨entry, raw⟩ }).2
  | fetchAdd seq time =>
      obtain ⟨-, rfl⟩ := Host.share_fetchAdd hshare
      exact hsame rfl rfl
  | subscribe ansi receiver =>
      simp only [Host.share] at hshare
      split at hshare <;> cases hshare
      exact hsame rfl rfl
  | recv entry =>
      simp only [Host.share] at hshare
      split at hshare
      · split at hshare
        · rename_i hrecv
          split at hshare <;> cases hshare
          obtain ⟨ch, -, rfl⟩ := Attach.recv_channels hrecv
          exact hsame rfl rfl
        · cases hshare
      · cases hshare
  | detach =>
      simp only [Host.share] at hshare
      split at hshare <;> cases hshare
      exact hsame rfl rfl
  | writeEvent entry ok =>
      simp only [Host.share] at hshare
      split at hshare
      · split at hshare <;> cases hshare <;> exact hsame rfl rfl
      · cases hshare
  | _ =>
      cases hshare
      exact hsame rfl rfl

theorem Host.step_appended (hstep : h.step cfg l = some h') :
    h'.transcript.appended = h.transcript.appended ++
      (l.letsGo h.transcript.buffer).map (·.entry) := by
  cases l with
  | worker c e =>
      obtain ⟨hs, w, hshare, -, rfl⟩ := Host.step_worker hstep
      have happended := Host.share_appended (c := c) hshare
      exact happended
  | dispatch =>
      simp only [Host.step] at hstep
      split at hstep <;> cases hstep
      exact (List.append_nil _).symm
  | accept ok =>
      simp only [Host.step] at hstep
      split at hstep
      · split at hstep <;> cases hstep <;> exact (List.append_nil _).symm
      · cases hstep
  | _ =>
      simp only [Host.step] at hstep
      split at hstep <;> cases hstep
      exact (List.append_nil _).symm

/-- What the host appends to its transcript is the journal of its run. -/
theorem appended_journal (hrun : Machine.run (Host.step cfg) Host.init es = some h) :
    h.transcript.appended = (journal es).map (·.entry) := by
  refine run_induction (P := fun es h => h.transcript.appended = (journal es).map (·.entry))
    rfl ?_ hrun
  intro es h l h' hrun ih hstep
  obtain ⟨ls, hF⟩ := feeding_run hrun
  rw [Host.step_appended hstep, ih, journal_concat, hF.mirrored.buffered, List.map_append]

end Feed

end Rexec
