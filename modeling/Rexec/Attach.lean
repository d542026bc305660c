import Rexec.TranscriptQueue
import Rexec.Lib.Machine
import Mathlib.Tactic

/-!
# Attached subscribers

`submit`, `subscribe` and `close_subscriptions` hold the queue's lock, but the
receiving ends of the channels belong to other threads: a subscriber may
disconnect at any moment, also between two sends of one record.  Here the queue
is a machine whose steps are these moments: the insertion, the removal of one
record with its hand-over to the writer, each send, the end of a round, the
release of the lock.

* `submit_run` connects the machine to `TranscriptQueue.submit`.
* `streamed` is what a subscriber is entitled to, as a function of the labels.
* `attach_suffix` says that this is what it was sent, and that neither the
  journal nor any other stream depends on a subscriber.
-/

namespace Rexec
namespace Attach

open Machine TranscriptQueue

/-- Where the thread stands that holds the queue's lock. -/
inductive Work where
  | idle
  | draining
  /-- inside `retain`: who was sent the record, and who is still to come -/
  | delivering (record : TranscriptRecord) (kept todo : List TranscriptSubscriber)

structure State where
  queue : TranscriptQueue
  work : Work

def State.new : State := ⟨TranscriptQueue.new, .idle⟩

inductive Label where
  | submit (seq : Nat) (record : TranscriptRecord)
  | handOver (record : TranscriptRecord)
  | deliver
  | advance
  | release
  | subscribe (ansi : Bool) (receiver : Nat)
  | closeSubscriptions
  | recv (receiver : Nat) (entry : TranscriptEntry)
  | disconnect (receiver : Nat)
deriving DecidableEq

namespace State

/-- `state.pending.remove(&next)` and `self.writer.append(&record.entry)`. -/
def remove (q : TranscriptQueue) (record : TranscriptRecord) : TranscriptQueue :=
  { q with
      pending := q.pending.erase q.next
      appended := q.appended ++ [record.entry] }

def step (s : State) : Label → Option State
  | .submit seq record =>
      match s.work with
      | .idle =>
          some ⟨{ s.queue with pending := s.queue.pending.insert seq record }, .draining⟩
      | _ => none
  | .handOver record =>
      match s.work with
      | .draining =>
          if s.queue.pending[s.queue.next]? = some record then
            some ⟨remove s.queue record, .delivering record [] s.queue.subscribers⟩
          else none
      | _ => none
  | .deliver =>
      match s.work with
      | .delivering record kept (sub :: todo) =>
          let sent := send s.queue.channels sub.sender (entryFor sub record)
          some ⟨{ s.queue with channels := sent.1 },
            .delivering record (if sent.2 then kept ++ [sub] else kept) todo⟩
      | _ => none
  | .advance =>
      match s.work with
      | .delivering _ kept [] =>
          some ⟨{ s.queue with subscribers := kept, next := s.queue.next + 1 }, .draining⟩
      | _ => none
  | .release =>
      match s.work with
      | .draining =>
          if s.queue.pending[s.queue.next]? = none then some ⟨s.queue, .idle⟩ else none
      | _ => none
  | .subscribe ansi receiver =>
      match s.work with
      | .idle =>
          if receiver = (s.queue.subscribe ansi).2 then
            some ⟨(s.queue.subscribe ansi).1, .idle⟩
          else none
      | _ => none
  | .closeSubscriptions =>
      match s.work with
      | .idle => some ⟨s.queue.closeSubscriptions, .idle⟩
      | _ => none
  | .recv receiver entry =>
      match s.queue.recv receiver with
      | some (e, q) => if e = entry then some ⟨q, s.work⟩ else none
      | none => none
  | .disconnect receiver =>
      if receiver < s.queue.channels.length then
        some ⟨s.queue.dropReceiver receiver, s.work⟩
      else none

end State

/-! ## What a step can do -/

inductive Step : State → Label → State → Prop where
  | submit {q : TranscriptQueue} {seq : Nat} {record : TranscriptRecord} :
      Step ⟨q, .idle⟩ (.submit seq record)
        ⟨{ q with pending := q.pending.insert seq record }, .draining⟩
  | handOver {q : TranscriptQueue} {record : TranscriptRecord}
      (hnext : q.pending[q.next]? = some record) :
      Step ⟨q, .draining⟩ (.handOver record)
        ⟨State.remove q record, .delivering record [] q.subscribers⟩
  | deliver {q : TranscriptQueue} {record : TranscriptRecord}
      {kept todo : List TranscriptSubscriber} {sub : TranscriptSubscriber} :
      Step ⟨q, .delivering record kept (sub :: todo)⟩ .deliver
        ⟨{ q with channels := (send q.channels sub.sender (entryFor sub record)).1 },
          .delivering record
            (if (send q.channels sub.sender (entryFor sub record)).2 then kept ++ [sub]
              else kept) todo⟩
  | advance {q : TranscriptQueue} {record : TranscriptRecord}
      {kept : List TranscriptSubscriber} :
      Step ⟨q, .delivering record kept []⟩ .advance
        ⟨{ q with subscribers := kept, next := q.next + 1 }, .draining⟩
  | release {q : TranscriptQueue} (hnext : q.pending[q.next]? = none) :
      Step ⟨q, .draining⟩ .release ⟨q, .idle⟩
  | subscribe {q : TranscriptQueue} {ansi : Bool} :
      Step ⟨q, .idle⟩ (.subscribe ansi q.channels.length) ⟨(q.subscribe ansi).1, .idle⟩
  | closeSubscriptions {q : TranscriptQueue} :
      Step ⟨q, .idle⟩ .closeSubscriptions ⟨q.closeSubscriptions, .idle⟩
  | recv {q q' : TranscriptQueue} {work : Work} {receiver : Nat}
      {entry : TranscriptEntry} (hrecv : q.recv receiver = some (entry, q')) :
      Step ⟨q, work⟩ (.recv receiver entry) ⟨q', work⟩
  | disconnect {q : TranscriptQueue} {work : Work} {receiver : Nat}
      (hreceiver : receiver < q.channels.length) :
      Step ⟨q, work⟩ (.disconnect receiver) ⟨q.dropReceiver receiver, work⟩

theorem step_cases {s s' : State} {l : Label} (h : s.step l = some s') :
    Step s l s' := by
  obtain ⟨q, work⟩ := s
  cases l with
  | submit seq record =>
      cases work <;> simp only [State.step, reduceCtorEq] at h
      cases h
      exact .submit
  | handOver record =>
      cases work <;> simp only [State.step, reduceCtorEq] at h
      split at h
      · rename_i hnext
        cases h
        exact .handOver hnext
      · cases h
  | deliver =>
      cases work with
      | delivering record kept todo =>
          cases todo with
          | nil => cases h
          | cons sub todo =>
              cases h
              exact .deliver
      | _ => cases h
  | advance =>
      cases work with
      | delivering record kept todo =>
          cases todo with
          | nil =>
              cases h
              exact .advance
          | cons sub todo => cases h
      | _ => cases h
  | release =>
      cases work <;> simp only [State.step, reduceCtorEq] at h
      split at h
      · rename_i hnext
        cases h
        exact .release hnext
      · cases h
  | subscribe ansi receiver =>
      cases work <;> simp only [State.step, reduceCtorEq] at h
      split at h
      · rename_i hreceiver
        cases h
        subst hreceiver
        exact .subscribe
      · cases h
  | closeSubscriptions =>
      cases work <;> simp only [State.step, reduceCtorEq] at h
      cases h
      exact .closeSubscriptions
  | recv receiver entry =>
      simp only [State.step] at h
      split at h
      · rename_i e q' hrecv
        split at h
        · rename_i he
          cases h
          subst he
          exact .recv hrecv
        · cases h
      · cases h
  | disconnect receiver =>
      simp only [State.step] at h
      split at h
      · rename_i hreceiver
        cases h
        exact .disconnect hreceiver
      · cases h

/-! ### An undisturbed `submit` -/

/-- The sends of one record, one after another. -/
theorem deliver_run
    (q : TranscriptQueue) (record : TranscriptRecord)
    (kept todo : List TranscriptSubscriber) :
    run State.step ⟨q, .delivering record kept todo⟩
        (List.replicate todo.length .deliver) =
      some ⟨{ q with channels := (retain record todo q.channels).2 },
        .delivering record (kept ++ (retain record todo q.channels).1) []⟩ := by
  induction todo generalizing q kept with
  | nil => simp [retain]
  | cons sub todo ih =>
      rw [List.length_cons, List.replicate_succ, run_cons, State.step, Option.bind_some, ih]
      cases hsent : (send q.channels sub.sender (entryFor sub record)).2 <;>
        simp [retain, hsent]

/-- The steps of a round. -/
def Label.inRound : Label → Bool
  | .handOver _ => true
  | .deliver => true
  | .advance => true
  | .release => true
  | _ => false

/-- The records handed to the writer. -/
def handed (es : List Label) : List TranscriptRecord :=
  es.filterMap fun l =>
    match l with
    | .handOver record => some record
    | _ => none

theorem handed_append (es fs : List Label) : handed (es ++ fs) = handed es ++ handed fs :=
  List.filterMap_append

/-- One round of the loop. -/
theorem round_run
    {q : TranscriptQueue} {record : TranscriptRecord}
    (hnext : q.pending[q.next]? = some record) :
    ∃ es, (∀ l ∈ es, l.inRound = true) ∧ handed es = [record] ∧
      run State.step ⟨q, .draining⟩ es = some ⟨q.handOver record, .draining⟩ := by
  refine ⟨.handOver record :: (List.replicate q.subscribers.length .deliver ++ [.advance]),
    ?_, ?_, ?_⟩
  · intro l hl
    rcases List.mem_cons.mp hl with rfl | hl
    · rfl
    · rcases List.mem_append.mp hl with hl | hl
      · rw [List.eq_of_mem_replicate hl]
        rfl
      · rw [List.mem_singleton.mp hl]
        rfl
  · have hnone : handed (List.replicate q.subscribers.length .deliver) = [] :=
      List.filterMap_eq_nil_iff.mpr fun l hl => by rw [List.eq_of_mem_replicate hl]
    rw [← List.singleton_append, handed_append, handed_append, hnone]
    rfl
  · have hdeliver := deliver_run (State.remove q record) record [] q.subscribers
    rw [run_cons, State.step, if_pos hnext, Option.bind_some, run_append]
    exact (congrArg (fun o => o.bind fun s => run State.step s [.advance]) hdeliver).trans rfl

theorem drain_run
    {n : Nat} {q : TranscriptQueue} (h : q.pending.size < n) :
    ∃ es, (∀ l ∈ es, l.inRound = true) ∧ handed es = (Reorder.drain n q.buffer).2 ∧
      run State.step ⟨q, .draining⟩ es = some ⟨drain n q, .idle⟩ := by
  induction n generalizing q with
  | zero => omega
  | succ n ih =>
      cases hr : q.pending[q.next]? with
      | none =>
          refine ⟨[.release], ?_, ?_, ?_⟩
          · intro l hl
            rw [List.mem_singleton.mp hl]
            rfl
          · simp [Reorder.drain, buffer, hr, handed]
          · simp [run_cons, State.step, hr, drain]
      | some record =>
          have hless := Reorder.size_erase_lt hr
          obtain ⟨es, hes, hone, hround⟩ := round_run hr
          obtain ⟨fs, hfs, hmore, hrest⟩ := ih (q := q.handOver record)
            (show (q.pending.erase q.next).size < n by omega)
          refine ⟨es ++ fs, ?_, ?_, ?_⟩
          · intro l hl
            rcases List.mem_append.mp hl with hl | hl
            · exact hes l hl
            · exact hfs l hl
          · rw [handed_append, hone, hmore]
            simp [Reorder.drain, buffer, hr, handOver]
          · rw [run_append, hround, Option.bind_some, hrest]
            simp [drain, hr]

/-- A `submit` during which no one disconnects is the `submit` of the queue. -/
theorem submit_run (q : TranscriptQueue) (seq : Nat) (record : TranscriptRecord) :
    ∃ es, (∀ l ∈ es, l.inRound = true) ∧
      handed es = (Reorder.submit q.buffer seq record).2 ∧
      run State.step ⟨q, .idle⟩ (.submit seq record :: es) =
        some ⟨q.submit seq record.entry record.rawOutput, .idle⟩ := by
  obtain ⟨es, hes, hhanded, hrun⟩ := drain_run
    (q := { q with pending := q.pending.insert seq record }) (Nat.lt_succ_self _)
  exact ⟨es, hes, hhanded, hrun⟩

/-! ## What the labels say -/

/-- The calls of `submit`. -/
def calls (es : List Label) : List Submission :=
  es.filterMap fun l =>
    match l with
    | .submit seq record => some ⟨seq, record⟩
    | _ => none

def Label.closes : Label → Bool
  | .closeSubscriptions => true
  | _ => false

/-- The part of a trace before the subscriptions are closed. -/
def beforeClose (es : List Label) : List Label :=
  before Label.closes es

/-- What a subscriber is entitled to. -/
structure Stream where
  ansi : Bool
  isOpen : Bool
  records : List TranscriptRecord

def Stream.next (i : Nat) : Option Stream → Label → Option Stream
  | st, .subscribe ansi receiver =>
      if receiver = i then some ⟨ansi, true, []⟩ else st
  | st, .closeSubscriptions => st.map fun st => { st with isOpen := false }
  | st, .handOver record =>
      st.map fun st =>
        if st.isOpen then { st with records := st.records ++ [record] } else st
  | st, _ => st

/-- The stream of the subscriber with the receiver `i`. -/
def stream (i : Nat) (es : List Label) : Option Stream :=
  es.foldl (Stream.next i) none

theorem stream_concat (i : Nat) (es : List Label) (l : Label) :
    stream i (es ++ [l]) = Stream.next i (stream i es) l := by
  rw [stream, List.foldl_concat]
  rfl

theorem calls_append (es fs : List Label) : calls (es ++ fs) = calls es ++ calls fs :=
  List.filterMap_append

theorem stream_isSome {i : Nat} {ansi : Bool} {es : List Label}
    (h : Label.subscribe ansi i ∈ es) : (stream i es).isSome := by
  induction es using List.reverseRecOn with
  | nil => cases h
  | append_singleton es l ih =>
      rw [stream_concat]
      rcases List.mem_append.mp h with h | h
      · obtain ⟨st, hst⟩ := Option.isSome_iff_exists.mp (ih h)
        rw [hst]
        cases l <;> simp only [Stream.next, Option.map_some, Option.isSome_some]
        split <;> rfl
      · obtain rfl := List.mem_singleton.mp h
        simp [Stream.next]

theorem closes_iff {l : Label} : l.closes = true ↔ l = .closeSubscriptions := by
  cases l <;> simp [Label.closes]

theorem any_closes {es : List Label} :
    es.any Label.closes = decide (.closeSubscriptions ∈ es) := by
  rw [Bool.eq_iff_iff, List.any_eq_true, decide_eq_true_iff]
  simp only [closes_iff, exists_eq_right]

/-- A stream is what is handed over after the subscription and before the close. -/
theorem stream_eq {i : Nat} {ansi : Bool} {front rest : List Label}
    (honce : ∀ a, Label.subscribe a i ∉ rest) :
    stream i (front ++ .subscribe ansi i :: rest) =
      some ⟨ansi, decide (.closeSubscriptions ∉ rest), handed (beforeClose rest)⟩ := by
  induction rest using List.reverseRecOn with
  | nil =>
      rw [stream_concat]
      simp [Stream.next, handed, beforeClose, before]
  | append_singleton rest l ih =>
      have hrest : ∀ a, Label.subscribe a i ∉ rest := fun a h => honce a (by simp [h])
      rw [← List.cons_append, ← List.append_assoc, stream_concat, ih hrest,
        beforeClose, beforeClose, before_concat, any_closes]
      by_cases hclosed : .closeSubscriptions ∈ rest
      · cases l with
        | subscribe a r =>
            have hr : r ≠ i := by
              rintro rfl
              exact honce a (by simp)
            simp [Stream.next, hclosed, hr]
        | _ => simp [Stream.next, hclosed]
      · have hopen := before_of_none (any_closes.trans (decide_eq_false hclosed))
        cases l with
        | subscribe a r =>
            have hr : r ≠ i := by
              rintro rfl
              exact honce a (by simp)
            simp [Stream.next, Label.closes, hclosed, hr, hopen, handed]
        | closeSubscriptions => simp [Stream.next, Label.closes, hclosed]
        | _ => simp [Stream.next, Label.closes, hclosed, hopen, handed]

/-! ## The streams over a run -/

/-- The subscribers there are, the round in progress included. -/
def State.active (s : State) : List TranscriptSubscriber :=
  match s.work with
  | .delivering _ kept todo => kept ++ todo
  | _ => s.queue.subscribers

/-- What a round in progress will still send to the receiver `i`. -/
def State.inFlight (s : State) (i : Nat) : List TranscriptEntry :=
  match s.work with
  | .delivering record _ todo =>
      (todo.filter fun sub => sub.sender = i).map fun sub => entryFor sub record
  | _ => []

theorem State.inFlight_delivering
    (q : TranscriptQueue) (record : TranscriptRecord)
    (kept todo : List TranscriptSubscriber) (i : Nat) :
    State.inFlight ⟨q, .delivering record kept todo⟩ i =
      (todo.filter fun sub => sub.sender = i).map fun sub => entryFor sub record :=
  rfl

structure Streaming (es : List Label) (s : State) : Prop where
  known : ∀ i, (stream i es).isSome ↔ i < s.queue.channels.length
  nodup : (s.active.map TranscriptSubscriber.sender).Nodup
  entitled : ∀ sub ∈ s.active, ∃ st, stream sub.sender es = some st ∧
    st.isOpen = true ∧ st.ansi = sub.ansi
  receiving : ∀ i ch, s.queue.channels[i]? = some ch → .disconnect i ∉ es →
    ch.receiving = true
  listed : ∀ i ch st, s.queue.channels[i]? = some ch → stream i es = some st →
    ch.receiving = true → st.isOpen = true → ⟨st.ansi, i⟩ ∈ s.active
  sent : ∀ i ch st, s.queue.channels[i]? = some ch → stream i es = some st →
    ch.receiving = true →
    ch.sent ++ s.inFlight i = st.records.map (entryFor ⟨st.ansi, i⟩)

theorem streaming_new : Streaming [] State.new where
  known := by simp [stream, State.new, TranscriptQueue.new]
  nodup := List.nodup_nil
  entitled := by simp [State.new, State.active, TranscriptQueue.new]
  receiving := by simp [State.new, TranscriptQueue.new]
  listed := by simp [stream]
  sent := by simp [stream]

/-- A label that concerns no stream: what was sent on the channels stays. -/
theorem Streaming.of_channels
    {es : List Label} {s s' : State} {l : Label}
    (h : Streaming es s) (hstream : ∀ i st, Stream.next i st l = st)
    (hlength : s'.queue.channels.length = s.queue.channels.length)
    (hchannels : ∀ i ch', s'.queue.channels[i]? = some ch' →
      ∃ ch, s.queue.channels[i]? = some ch ∧ ch'.sent = ch.sent ∧
        (ch'.receiving = true → ch.receiving = true) ∧
        (l ≠ .disconnect i → ch.receiving = true → ch'.receiving = true))
    (hactive : s'.active = s.active) (hflight : ∀ i, s'.inFlight i = s.inFlight i) :
    Streaming (es ++ [l]) s' where
  known i := by rw [stream_concat, hstream, hlength]; exact h.known i
  nodup := by rw [hactive]; exact h.nodup
  entitled := by
    rw [hactive]
    intro sub hsub
    rw [stream_concat, hstream]
    exact h.entitled sub hsub
  receiving i ch' hch' hno := by
    obtain ⟨ch, hch, -, -, hkept⟩ := hchannels i ch' hch'
    refine hkept ?_ (h.receiving i ch hch fun hmem => hno (by simp [hmem]))
    rintro rfl
    exact hno (by simp)
  listed i ch' st hch' hst hreceiving hopen := by
    obtain ⟨ch, hch, -, hr, -⟩ := hchannels i ch' hch'
    rw [stream_concat, hstream] at hst
    rw [hactive]
    exact h.listed i ch st hch hst (hr hreceiving) hopen
  sent i ch' st hch' hst hreceiving := by
    obtain ⟨ch, hch, hsent, hr, -⟩ := hchannels i ch' hch'
    rw [stream_concat, hstream] at hst
    rw [hflight, hsent]
    exact h.sent i ch st hch hst (hr hreceiving)

theorem Streaming.of_eq
    {es : List Label} {s s' : State} {l : Label}
    (h : Streaming es s) (hstream : ∀ i st, Stream.next i st l = st)
    (hchannels : s'.queue.channels = s.queue.channels)
    (hactive : s'.active = s.active) (hflight : ∀ i, s'.inFlight i = s.inFlight i) :
    Streaming (es ++ [l]) s' :=
  h.of_channels hstream (congrArg List.length hchannels)
    (fun _ ch hch => ⟨ch, hchannels ▸ hch, rfl, id, fun _ => id⟩) hactive hflight

/-- Of subscribers with distinct channels one has a given channel. -/
theorem filter_sender
    {subs : List TranscriptSubscriber} {sub : TranscriptSubscriber}
    (hnodup : (subs.map TranscriptSubscriber.sender).Nodup) (hsub : sub ∈ subs) :
    (subs.filter fun s => s.sender = sub.sender) = [sub] := by
  induction subs with
  | nil => cases hsub
  | cons s subs ih =>
      rw [List.map_cons, List.nodup_cons] at hnodup
      obtain ⟨hs, hsubs⟩ := hnodup
      rcases List.mem_cons.mp hsub with rfl | hsub
      · have hnone : (subs.filter fun s => s.sender = sub.sender) = [] := by
          rw [List.filter_eq_nil_iff]
          intro t ht heq
          exact hs (List.mem_map.mpr ⟨t, ht, of_decide_eq_true heq⟩)
        simp [hnone]
      · have hne : s.sender ≠ sub.sender := fun heq =>
          hs (heq ▸ List.mem_map_of_mem hsub)
        rw [List.filter_cons_of_neg (by simpa using hne), ih hsubs hsub]

/-- The record handed over is on its way to everyone whose stream is open. -/
theorem Streaming.handOver
    {es : List Label} {q : TranscriptQueue} {record : TranscriptRecord}
    (h : Streaming es ⟨q, .draining⟩) :
    Streaming (es ++ [.handOver record])
      ⟨State.remove q record, .delivering record [] q.subscribers⟩ := by
  have hnext : ∀ i st, stream i (es ++ [.handOver record]) = some st →
      ∃ st₀, stream i es = some st₀ ∧ st.ansi = st₀.ansi ∧ st.isOpen = st₀.isOpen ∧
        st.records = st₀.records ++ if st₀.isOpen then [record] else [] := by
    intro i st hst
    rw [stream_concat, Stream.next, Option.map_eq_some_iff] at hst
    obtain ⟨st₀, hst₀, rfl⟩ := hst
    refine ⟨st₀, hst₀, ?_⟩
    cases hopen : st₀.isOpen <;> simp [hopen]
  refine ⟨?_, h.nodup, ?_, ?_, ?_, ?_⟩
  · intro i
    rw [stream_concat, Stream.next, Option.isSome_map]
    exact h.known i
  · intro sub hsub
    obtain ⟨st, hst, hopen, hansi⟩ := h.entitled sub hsub
    rw [stream_concat, hst]
    exact ⟨_, rfl, by simp [hopen], by simp [hopen, hansi]⟩
  · intro i ch hch hno
    exact h.receiving i ch hch fun hmem => hno (by simp [hmem])
  · intro i ch st hch hst hreceiving hopen
    obtain ⟨st₀, hst₀, hansi, hopen₀, -⟩ := hnext i st hst
    rw [hansi]
    exact h.listed i ch st₀ hch hst₀ hreceiving (hopen₀ ▸ hopen)
  · intro i ch st hch hst hreceiving
    obtain ⟨st₀, hst₀, hansi, -, hrecords⟩ := hnext i st hst
    have hsent := h.sent i ch st₀ hch hst₀ hreceiving
    rw [State.inFlight, List.append_nil] at hsent
    rw [hansi, hrecords, List.map_append, ← hsent]
    congr 1
    cases hopen : st₀.isOpen with
    | true =>
        have hmem := h.listed i ch st₀ hch hst₀ hreceiving hopen
        have hone : (q.subscribers.filter fun sub => sub.sender = i) = [⟨st₀.ansi, i⟩] :=
          filter_sender h.nodup hmem
        rw [State.inFlight_delivering, hone]
        rfl
    | false =>
        -- a subscriber of a closed stream is no longer in the list
        have hnone : (q.subscribers.filter fun sub => sub.sender = i) = [] := by
          rw [List.filter_eq_nil_iff]
          intro sub hsub heq
          obtain ⟨st₁, hst₁, hopen₁, -⟩ := h.entitled sub hsub
          rw [of_decide_eq_true heq, hst₀] at hst₁
          cases hst₁
          rw [hopen] at hopen₁
          cases hopen₁
        rw [State.inFlight_delivering, hnone]
        rfl

/-- What a send does to the channels. -/
theorem send_cases (channels : List Channel) (sender : Nat) (entry : TranscriptEntry) :
    (send channels sender entry).1.length = channels.length ∧
      (∀ i ch', (send channels sender entry).1[i]? = some ch' →
        ∃ ch, channels[i]? = some ch ∧ ch'.receiving = ch.receiving ∧
          (ch.receiving = true →
            ch'.sent = ch.sent ++ if i = sender then [entry] else [])) ∧
      ((send channels sender entry).2 = false →
        ∀ ch, channels[sender]? = some ch → ch.receiving = false) := by
  unfold send
  cases hch : channels[sender]? with
  | none =>
      refine ⟨rfl, ?_, by simp⟩
      intro i ch' hch'
      refine ⟨ch', hch', rfl, fun _ => ?_⟩
      have hi : i ≠ sender := by
        rintro rfl
        rw [hch] at hch'
        cases hch'
      simp [hi]
  | some ch =>
      simp only
      split
      · rename_i hreceiving
        refine ⟨List.length_set, ?_, by simp⟩
        intro i ch' hch'
        by_cases hi : i = sender
        · subst hi
          rw [List.getElem?_set_self (lt_length_of_getElem? hch)] at hch'
          cases hch'
          exact ⟨ch, hch, rfl, by simp⟩
        · rw [List.getElem?_set_ne (fun h => hi h.symm)] at hch'
          exact ⟨ch', hch', rfl, by simp [hi]⟩
      · rename_i hreceiving
        refine ⟨rfl, ?_, ?_⟩
        · intro i ch' hch'
          refine ⟨ch', hch', rfl, fun hr => ?_⟩
          have hi : i ≠ sender := by
            rintro rfl
            rw [hch] at hch'
            cases hch'
            exact hreceiving hr
          simp [hi]
        · intro _ ch' hch'
          cases hch'
          simpa using hreceiving

/-- One send: the subscriber at the head of the round, if it is still there. -/
theorem Streaming.deliver
    {es : List Label} {q : TranscriptQueue} {record : TranscriptRecord}
    {kept todo : List TranscriptSubscriber} {sub : TranscriptSubscriber}
    (h : Streaming es ⟨q, .delivering record kept (sub :: todo)⟩) :
    Streaming (es ++ [.deliver])
      ⟨{ q with channels := (send q.channels sub.sender (entryFor sub record)).1 },
        .delivering record
          (if (send q.channels sub.sender (entryFor sub record)).2 then kept ++ [sub]
            else kept) todo⟩ := by
  obtain ⟨hlength, hchannel, hgone⟩ := send_cases q.channels sub.sender (entryFor sub record)
  have hsublist : List.Sublist
      ((if (send q.channels sub.sender (entryFor sub record)).2 then kept ++ [sub]
        else kept) ++ todo) (kept ++ sub :: todo) := by
    split
    · simp
    · exact (List.sublist_cons_self _ _).append_left kept
  refine ⟨?_, ?_, ?_, ?_, ?_, ?_⟩
  · intro i
    rw [stream_concat]
    exact (h.known i).trans (by rw [hlength])
  · exact h.nodup.sublist (hsublist.map _)
  · intro s hs
    rw [stream_concat]
    exact h.entitled s (hsublist.subset hs)
  · intro i ch' hch' hno
    obtain ⟨ch, hch, hr, -⟩ := hchannel i ch' hch'
    rw [hr]
    exact h.receiving i ch hch fun hmem => hno (by simp [hmem])
  · intro i ch' st hch' hst hreceiving hopen
    rw [stream_concat] at hst
    obtain ⟨ch, hch, hr, -⟩ := hchannel i ch' hch'
    have hmem : _ ∈ kept ++ sub :: todo :=
      h.listed i ch st hch hst (hr ▸ hreceiving) hopen
    show _ ∈ (if (send q.channels sub.sender (entryFor sub record)).2 then kept ++ [sub]
        else kept) ++ todo
    split
    · simpa using hmem
    · rename_i hsent
      have hne : (⟨st.ansi, i⟩ : TranscriptSubscriber) ≠ sub := by
        rintro rfl
        have hoff := hgone (by simpa using hsent) ch hch
        rw [hr, hoff] at hreceiving
        cases hreceiving
      simpa [hne] using hmem
  · intro i ch' st hch' hst hreceiving
    rw [stream_concat] at hst
    obtain ⟨ch, hch, hr, hsent⟩ := hchannel i ch' hch'
    rw [hr] at hreceiving
    have hold := h.sent i ch st hch hst hreceiving
    rw [State.inFlight_delivering] at hold ⊢
    rw [← hold, hsent hreceiving]
    by_cases hi : i = sub.sender
    · simp [hi]
    · have hne : ¬ sub.sender = i := fun heq => hi heq.symm
      simp [hi, hne]

/-- A new subscriber, with nothing sent to it yet. -/
theorem Streaming.subscribe
    {es : List Label} {q : TranscriptQueue} (h : Streaming es ⟨q, .idle⟩) (ansi : Bool) :
    Streaming (es ++ [.subscribe ansi q.channels.length]) ⟨(q.subscribe ansi).1, .idle⟩ := by
  have hknown : ∀ {i st}, stream i es = some st → i < q.channels.length := fun hst =>
    (h.known _).mp (by rw [hst]; rfl)
  have hold : ∀ {i}, i < q.channels.length →
      stream i (es ++ [.subscribe ansi q.channels.length]) = stream i es := by
    intro i hi
    rw [stream_concat, Stream.next, if_neg (by omega)]
  have hnew : stream q.channels.length (es ++ [.subscribe ansi q.channels.length]) =
      some ⟨ansi, true, []⟩ := by
    rw [stream_concat, Stream.next, if_pos rfl]
  have hchannel : ∀ {i ch}, (q.subscribe ansi).1.channels[i]? = some ch →
      (i < q.channels.length ∧ q.channels[i]? = some ch) ∨
        (i = q.channels.length ∧ ch = ⟨[], 0, true⟩) := by
    intro i ch hch
    rcases getElem?_concat.mp hch with hch | ⟨rfl, rfl⟩
    · exact Or.inl ⟨lt_length_of_getElem? hch, hch⟩
    · exact Or.inr ⟨rfl, rfl⟩
  have hfresh : ∀ sub ∈ q.subscribers, sub.sender < q.channels.length := by
    intro sub hsub
    obtain ⟨st, hst, -⟩ := h.entitled sub hsub
    exact hknown hst
  refine ⟨?_, ?_, ?_, ?_, ?_, ?_⟩
  · intro i
    have hlength : (q.subscribe ansi).1.channels.length = q.channels.length + 1 :=
      List.length_append
    rcases Nat.lt_trichotomy i q.channels.length with hlt | rfl | hgt
    · rw [hold hlt, h.known i, hlength]
      exact ⟨fun _ => by omega, fun _ => hlt⟩
    · rw [hnew, hlength]
      simp
    · rw [stream_concat, Stream.next, if_neg (by omega), h.known i, hlength]
      show i < q.channels.length ↔ _
      omega
  · show ((q.subscribers ++ [(⟨ansi, q.channels.length⟩ : TranscriptSubscriber)]).map
      TranscriptSubscriber.sender).Nodup
    rw [List.map_append, List.nodup_append]
    refine ⟨h.nodup, List.nodup_singleton _, ?_⟩
    intro a ha b hb
    obtain ⟨sub, hsub, rfl⟩ := List.mem_map.mp ha
    obtain rfl := List.mem_singleton.mp hb
    exact (hfresh sub hsub).ne
  · intro sub hsub
    rcases List.mem_append.mp hsub with hsub | hsub
    · rw [hold (hfresh sub hsub)]
      exact h.entitled sub hsub
    · obtain rfl := List.mem_singleton.mp hsub
      exact ⟨_, hnew, rfl, rfl⟩
  · intro i ch hch hno
    rcases hchannel hch with ⟨-, hch⟩ | ⟨-, rfl⟩
    · exact h.receiving i ch hch fun hmem => hno (by simp [hmem])
    · rfl
  · intro i ch st hch hst hreceiving hopen
    rcases hchannel hch with ⟨hlt, hch⟩ | ⟨rfl, rfl⟩
    · rw [hold hlt] at hst
      exact List.mem_append_left _ (h.listed i ch st hch hst hreceiving hopen)
    · rw [hnew] at hst
      cases hst
      exact List.mem_append_right _ (List.mem_singleton.mpr rfl)
  · intro i ch st hch hst hreceiving
    rcases hchannel hch with ⟨hlt, hch⟩ | ⟨rfl, rfl⟩
    · rw [hold hlt] at hst
      exact h.sent i ch st hch hst hreceiving
    · rw [hnew] at hst
      cases hst
      rfl

/-- The streams end. -/
theorem Streaming.close
    {es : List Label} {q : TranscriptQueue} (h : Streaming es ⟨q, .idle⟩) :
    Streaming (es ++ [.closeSubscriptions]) ⟨q.closeSubscriptions, .idle⟩ := by
  have hnext : ∀ i st, stream i (es ++ [.closeSubscriptions]) = some st →
      ∃ st₀, stream i es = some st₀ ∧ st.ansi = st₀.ansi ∧ st.isOpen = false ∧
        st.records = st₀.records := by
    intro i st hst
    rw [stream_concat, Stream.next, Option.map_eq_some_iff] at hst
    obtain ⟨st₀, hst₀, rfl⟩ := hst
    exact ⟨st₀, hst₀, rfl, rfl, rfl⟩
  refine ⟨?_, List.nodup_nil, ?_, ?_, ?_, ?_⟩
  · intro i
    rw [stream_concat, Stream.next, Option.isSome_map]
    exact h.known i
  · intro sub hsub
    cases hsub
  · intro i ch hch hno
    exact h.receiving i ch hch fun hmem => hno (by simp [hmem])
  · intro i ch st hch hst hreceiving hopen
    obtain ⟨-, -, -, hclosed, -⟩ := hnext i st hst
    rw [hclosed] at hopen
    cases hopen
  · intro i ch st hch hst hreceiving
    obtain ⟨st₀, hst₀, hansi, -, hrecords⟩ := hnext i st hst
    rw [hansi, hrecords]
    exact h.sent i ch st₀ hch hst₀ hreceiving

theorem recv_channels {q q' : TranscriptQueue} {receiver : Nat} {entry : TranscriptEntry}
    (h : q.recv receiver = some (entry, q')) :
    ∃ ch, q.channels[receiver]? = some ch ∧
      q' = { q with
        channels := q.channels.set receiver { ch with received := ch.received + 1 } } := by
  unfold recv at h
  split at h
  · cases h
  · rename_i ch hch
    split at h
    · cases h
    · cases h
      exact ⟨ch, hch, rfl⟩

theorem Step.streaming
    {es : List Label} {s s' : State} {l : Label}
    (hstep : Step s l s') (h : Streaming es s) : Streaming (es ++ [l]) s' := by
  cases hstep with
  | submit => exact h.of_eq (fun _ _ => rfl) rfl rfl fun _ => rfl
  | handOver hnext => exact h.handOver
  | deliver => exact h.deliver
  | advance =>
      refine h.of_eq (fun _ _ => rfl) rfl ?_ fun _ => rfl
      simp [State.active]
  | release hnext => exact h.of_eq (fun _ _ => rfl) rfl rfl fun _ => rfl
  | subscribe => exact h.subscribe _
  | closeSubscriptions => exact h.close
  | @recv q q' work receiver entry hrecv =>
      obtain ⟨ch, hch, rfl⟩ := recv_channels hrecv
      refine h.of_channels (fun _ _ => rfl) List.length_set ?_ ?_ ?_
      · intro i ch' hch'
        by_cases hi : i = receiver
        · subst hi
          rw [List.getElem?_set_self (lt_length_of_getElem? hch)] at hch'
          cases hch'
          exact ⟨ch, hch, rfl, id, fun _ => id⟩
        · rw [List.getElem?_set_ne (fun heq => hi heq.symm)] at hch'
          exact ⟨ch', hch', rfl, id, fun _ => id⟩
      · cases work <;> rfl
      · cases work <;> exact fun _ => rfl
  | @disconnect q work receiver hreceiver =>
      refine h.of_channels (fun _ _ => rfl) (List.length_modify ..) ?_ ?_ ?_
      · intro i ch' hch'
        have hmodify : (q.channels.modify receiver fun ch =>
            { ch with receiving := false })[i]? = some ch' := hch'
        rw [List.getElem?_modify, Option.map_eq_map, Option.map_eq_some_iff] at hmodify
        obtain ⟨ch, hch, rfl⟩ := hmodify
        by_cases hi : receiver = i
        · simp only [hi, if_true]
          exact ⟨ch, hch, rfl, (fun hr => by cases hr), fun hne => absurd rfl hne⟩
        · simp only [hi, if_false]
          exact ⟨ch, hch, rfl, id, fun _ => id⟩
      · cases work <;> rfl
      · cases work <;> exact fun _ => rfl

theorem streaming_of_run {es : List Label} {s : State}
    (h : run State.step State.new es = some s) : Streaming es s :=
  run_induction (P := Streaming) streaming_new
    (fun _ _ _ _ _ hP hstep => (step_cases hstep).streaming hP) h

/-! ## The order of the records over a run -/

/-- The reorder buffer, the round in progress included. -/
def State.buffer (s : State) : Reorder.Buffer TranscriptRecord :=
  match s.work with
  | .delivering _ _ _ => ⟨s.queue.next + 1, s.queue.pending⟩
  | _ => s.queue.buffer

structure Ordered (es : List Label) (s : State) : Prop where
  appended : s.queue.appended = (handed es).map (·.entry)
  holds : Reorder.Holds (submitted (calls es)) (handed es) s.buffer
  frontier : s.work = .idle → submitted (calls es) s.queue.next = none

theorem ordered_new : Ordered [] State.new where
  appended := rfl
  holds := show Reorder.Holds (fun _ => none) [] Reorder.empty from
    Reorder.represents_empty.toHolds
  frontier := fun _ => rfl

theorem calls_concat_quiet {es : List Label} {l : Label} (h : calls [l] = []) :
    calls (es ++ [l]) = calls es := by
  rw [calls_append, h, List.append_nil]

theorem handed_concat_quiet {es : List Label} {l : Label} (h : handed [l] = []) :
    handed (es ++ [l]) = handed es := by
  rw [handed_append, h, List.append_nil]

/-- A label that neither submits nor hands over leaves the order alone. -/
theorem Ordered.of_eq
    {es : List Label} {s s' : State} {l : Label}
    (h : Ordered es s) (hcalls : calls [l] = []) (hhanded : handed [l] = [])
    (happended : s'.queue.appended = s.queue.appended) (hbuffer : s'.buffer = s.buffer)
    (hidle : s'.work = .idle → s.work = .idle ∧ s'.queue.next = s.queue.next) :
    Ordered (es ++ [l]) s' := by
  have hkept : calls (es ++ [l]) = calls es := calls_concat_quiet hcalls
  have hsame : handed (es ++ [l]) = handed es := handed_concat_quiet hhanded
  refine ⟨by rw [happended, hsame, h.appended], ?_, ?_⟩
  · rw [hkept, hsame, hbuffer]
    exact h.holds
  · intro hwork
    obtain ⟨hwork', hnext⟩ := hidle hwork
    rw [hkept, hnext]
    exact h.frontier hwork'

theorem Step.ordered
    {es : List Label} {s s' : State} {l : Label}
    (hstep : Step s l s') (hnodup : ((calls (es ++ [l])).map Submission.seq).Nodup)
    (h : Ordered es s) : Ordered (es ++ [l]) s' := by
  cases hstep with
  | @submit q seq record =>
      have hcalls : calls (es ++ [.submit seq record]) = calls es ++ [⟨seq, record⟩] :=
        calls_append es _
      have hhanded : handed (es ++ [.submit seq record]) = handed es :=
        handed_concat_quiet rfl
      rw [hcalls, List.map_append, List.nodup_append] at hnodup
      have hfresh : seq ∉ (calls es).map Submission.seq := fun hmem =>
        hnodup.2.2 _ hmem seq (by simp) rfl
      refine ⟨by rw [hhanded]; exact h.appended, ?_, fun hidle => by cases hidle⟩
      rw [hcalls, hhanded, submitted_concat (c := ⟨seq, record⟩) hfresh]
      exact h.holds.insert (submitted_eq_none.mpr hfresh) record
  | @handOver q record hnext =>
      have hcalls : calls (es ++ [.handOver record]) = calls es :=
        calls_concat_quiet rfl
      have hhanded : handed (es ++ [.handOver record]) = handed es ++ [record] :=
        handed_append es _
      refine ⟨?_, ?_, fun hidle => by cases hidle⟩
      · rw [hhanded, List.map_append, ← h.appended]
        rfl
      · rw [hcalls, hhanded]
        exact h.holds.round hnext
  | deliver => exact h.of_eq rfl rfl rfl rfl fun hidle => by cases hidle
  | advance => exact h.of_eq rfl rfl rfl rfl fun hidle => by cases hidle
  | @release q hnext =>
      have hcalls : calls (es ++ [.release]) = calls es := calls_concat_quiet rfl
      have hhanded : handed (es ++ [.release]) = handed es := handed_concat_quiet rfl
      refine ⟨by rw [hhanded]; exact h.appended, ?_, fun _ => ?_⟩
      · rw [hcalls, hhanded]
        exact h.holds
      · have hwaiting : q.pending[q.next]? =
            if q.next ≤ q.next then submitted (calls es) q.next else none :=
          h.holds.waiting q.next
        rw [hnext, if_pos (Nat.le_refl _)] at hwaiting
        rw [hcalls]
        exact hwaiting.symm
  | subscribe => exact h.of_eq rfl rfl rfl rfl fun _ => ⟨rfl, rfl⟩
  | closeSubscriptions => exact h.of_eq rfl rfl rfl rfl fun _ => ⟨rfl, rfl⟩
  | @recv q q' work receiver entry hrecv =>
      obtain ⟨ch, -, rfl⟩ := recv_channels hrecv
      refine h.of_eq rfl rfl rfl ?_ fun hidle => ⟨hidle, rfl⟩
      cases work <;> rfl
  | @disconnect q work receiver hreceiver =>
      refine h.of_eq rfl rfl rfl ?_ fun hidle => ⟨hidle, rfl⟩
      cases work <;> rfl

theorem ordered_of_run {es : List Label} {s : State}
    (h : run State.step State.new es = some s)
    (hnodup : ((calls es).map Submission.seq).Nodup) : Ordered es s := by
  have hrun := run_induction
    (P := fun es s => ((calls es).map Submission.seq).Nodup → Ordered es s)
    (fun _ => ordered_new)
    (fun es s l s' _ ih hstep hnodup => by
      have hprefix : ((calls es).map Submission.seq).Nodup := by
        rw [calls_append, List.map_append] at hnodup
        exact (List.nodup_append.mp hnodup).1
      exact (step_cases hstep).ordered hnodup (ih hprefix)) h
  exact hrun hnodup

/-- With the lock free, what was handed over is determined by what was submitted. -/
theorem handed_determined
    {es es' : List Label} {s s' : State}
    (h : run State.step State.new es = some s)
    (h' : run State.step State.new es' = some s')
    (hnodup : ((calls es).map Submission.seq).Nodup)
    (hidle : s.work = .idle) (hidle' : s'.work = .idle) (hcalls : calls es = calls es') :
    handed es = handed es' := by
  have hrep : ∀ {es : List Label} {s : State}, run State.step State.new es = some s →
      ((calls es).map Submission.seq).Nodup → s.work = .idle →
      Reorder.Represents (submitted (calls es)) (handed es) s.queue.buffer := by
    intro es s h hnodup hidle
    have hordered := ordered_of_run h hnodup
    have hbuffer : s.buffer = s.queue.buffer := by rw [State.buffer, hidle]
    exact ⟨hbuffer ▸ hordered.holds, hordered.frontier hidle⟩
  have hthis := hrep h hnodup hidle
  have hother := hrep h' (hcalls ▸ hnodup) hidle'
  rw [← hcalls] at hother
  exact hthis.out_unique hother

/-! ## The law of the streams -/

theorem subscribe_once
    {es : List Label} {s : State} (h : run State.step State.new es = some s)
    {front rest : List Label} {ansi : Bool} {i : Nat}
    (hes : es = front ++ .subscribe ansi i :: rest) :
    ∀ a, Label.subscribe a i ∉ rest := by
  intro a ha
  obtain ⟨middle, last, rfl⟩ := List.append_of_mem ha
  subst hes
  rw [← List.cons_append, ← List.append_assoc] at h
  obtain ⟨m, m', hm, hstep⟩ := exists_step_of_run State.step h
  have hsome : (stream i (front ++ .subscribe ansi i :: middle)).isSome :=
    stream_isSome (show Label.subscribe ansi i ∈ _ by simp)
  have hlt := ((streaming_of_run hm).known i).mp hsome
  cases step_cases hstep with
  | subscribe => exact absurd hlt (Nat.lt_irrefl _)

/-- What one subscriber, or the journal, can see of a label: the other subscribers'
wishes and disconnections are left out. -/
def Label.seenBy (i : Nat) : Label → Option Label
  | .submit seq record => some (.submit seq record)
  | .subscribe ansi receiver =>
      some (.subscribe (if receiver = i then ansi else false) receiver)
  | .closeSubscriptions => some .closeSubscriptions
  | _ => none

def seenBy (i : Nat) (es : List Label) : List Label :=
  es.filterMap (Label.seenBy i)

theorem seenBy_cons (i : Nat) (l : Label) (es : List Label) :
    seenBy i (l :: es) = (l.seenBy i).toList ++ seenBy i es := by
  unfold seenBy
  cases h : l.seenBy i <;> simp [h]

theorem calls_seenBy (i : Nat) (es : List Label) : calls (seenBy i es) = calls es := by
  induction es with
  | nil => rfl
  | cons l es ih =>
      have hhead : calls (l :: es) = calls [l] ++ calls es := calls_append [l] es
      rw [seenBy_cons, calls_append, ih, hhead]
      cases l <;> rfl

theorem close_mem_seenBy {i : Nat} {es : List Label} :
    .closeSubscriptions ∈ seenBy i es ↔ .closeSubscriptions ∈ es := by
  induction es with
  | nil => rfl
  | cons l es ih =>
      rw [seenBy_cons, List.mem_append, ih, List.mem_cons]
      cases l <;> simp [Label.seenBy]

/-- A label that is seen in one trace is seen at the same place in another that looks
alike. -/
theorem seenBy_split
    {i : Nat} {front rest es' : List Label} {l l₀ : Label}
    (hl : l.seenBy i = some l₀) (h : seenBy i (front ++ l :: rest) = seenBy i es') :
    ∃ front' l' rest', es' = front' ++ l' :: rest' ∧ l'.seenBy i = some l₀ ∧
      seenBy i front' = seenBy i front ∧ seenBy i rest' = seenBy i rest := by
  rw [seenBy, List.filterMap_append, List.filterMap_cons_some hl] at h
  obtain ⟨front', tail, rfl, hfront, htail⟩ := List.filterMap_eq_append_iff.mp h.symm
  obtain ⟨skipped, l', rest', rfl, hskipped, hl', hrest⟩ :=
    List.filterMap_eq_cons_iff.mp htail
  refine ⟨front' ++ skipped, l', rest', by simp, hl', ?_, hrest⟩
  rw [seenBy, List.filterMap_append, hfront, List.filterMap_eq_nil_iff.mpr hskipped,
    List.append_nil]
  rfl

/-- The calls that take the lock find it free. -/
theorem idle_before
    {es front rest : List Label} {s : State} {l : Label}
    (h : run State.step State.new es = some s) (hes : es = front ++ l :: rest)
    (hl : l = .closeSubscriptions ∨ ∃ ansi i, l = .subscribe ansi i) :
    ∃ m, run State.step State.new front = some m ∧ m.work = .idle := by
  subst hes
  obtain ⟨m, m', hm, hstep⟩ := exists_step_of_run State.step h
  refine ⟨m, hm, ?_⟩
  rcases hl with rfl | ⟨ansi, i, rfl⟩
  · cases step_cases hstep with
    | closeSubscriptions => rfl
  · cases step_cases hstep with
    | subscribe => rfl

/-- Two runs that look alike to a subscriber hand over the same records from its
subscription on until the subscriptions are closed. -/
theorem handed_beforeClose
    {es es' front front' rest rest' : List Label} {s s' : State} {ansi : Bool} {i : Nat}
    (h : run State.step State.new es = some s)
    (h' : run State.step State.new es' = some s')
    (hnodup : ((calls es).map Submission.seq).Nodup)
    (hidle : s.work = .idle) (hidle' : s'.work = .idle)
    (hes : es = front ++ .subscribe ansi i :: rest)
    (hes' : es' = front' ++ .subscribe ansi i :: rest')
    (hfront : seenBy i front' = seenBy i front) (hrest : seenBy i rest' = seenBy i rest) :
    handed (beforeClose rest') = handed (beforeClose rest) := by
  -- up to a moment when the lock is free, the same calls hand over the same records
  have hcut : ∀ {part part' : List Label} {m m' : State},
      run State.step State.new (front ++ .subscribe ansi i :: part) = some m →
      run State.step State.new (front' ++ .subscribe ansi i :: part') = some m' →
      ((calls (front ++ .subscribe ansi i :: part)).map Submission.seq).Nodup →
      m.work = .idle → m'.work = .idle → seenBy i part' = seenBy i part →
      handed part' = handed part := by
    intro part part' m m' hm hm' hdistinct hfree hfree' hpart
    have hsub : ∀ fs gs : List Label,
        calls (fs ++ .subscribe ansi i :: gs) = calls fs ++ calls gs ∧
          handed (fs ++ .subscribe ansi i :: gs) = handed fs ++ handed gs := fun fs gs =>
      ⟨calls_append fs _, handed_append fs _⟩
    have hcalls : calls (front ++ .subscribe ansi i :: part) =
        calls (front' ++ .subscribe ansi i :: part') := by
      rw [(hsub _ _).1, (hsub _ _).1, ← calls_seenBy i front, ← hfront, calls_seenBy,
        ← calls_seenBy i part, ← hpart, calls_seenBy]
    have hall := handed_determined hm hm' hdistinct hfree hfree' hcalls
    obtain ⟨n, hn, hnidle⟩ := idle_before hm rfl (Or.inr ⟨ansi, i, rfl⟩)
    obtain ⟨n', hn', hnidle'⟩ := idle_before hm' rfl (Or.inr ⟨ansi, i, rfl⟩)
    have hfirst : handed front = handed front' := by
      refine handed_determined hn hn' ?_ hnidle hnidle' ?_
      · rw [(hsub _ _).1, List.map_append] at hdistinct
        exact (List.nodup_append.mp hdistinct).1
      · rw [← calls_seenBy i front, ← hfront, calls_seenBy]
    rw [(hsub _ _).2, (hsub _ _).2, hfirst] at hall
    exact (List.append_cancel_left hall).symm
  by_cases hclosed : .closeSubscriptions ∈ rest
  · obtain ⟨part, last, rfl, hpart⟩ := List.eq_append_cons_of_mem hclosed
    obtain ⟨part', l', last', rfl, hl', hsame, -⟩ := seenBy_split
      (show Label.seenBy i .closeSubscriptions = some .closeSubscriptions from rfl)
      hrest.symm
    have hclose : l' = .closeSubscriptions := by
      cases l' <;> simp_all [Label.seenBy]
    subst hclose
    have hpart' : .closeSubscriptions ∉ part' := by
      rw [← close_mem_seenBy (i := i), hsame, close_mem_seenBy]
      exact hpart
    rw [beforeClose, beforeClose,
      before_append_cons (any_closes.trans (decide_eq_false hpart)) rfl,
      before_append_cons (any_closes.trans (decide_eq_false hpart')) rfl]
    rw [← List.cons_append, ← List.append_assoc] at hes hes'
    obtain ⟨m, hm, hfree⟩ := idle_before h hes (Or.inl rfl)
    obtain ⟨m', hm', hfree'⟩ := idle_before h' hes' (Or.inl rfl)
    refine hcut hm hm' ?_ hfree hfree' hsame
    rw [hes, calls_append, List.map_append] at hnodup
    exact (List.nodup_append.mp hnodup).1
  · have hclosed' : .closeSubscriptions ∉ rest' := by
      rw [← close_mem_seenBy (i := i), hrest, close_mem_seenBy]
      exact hclosed
    rw [beforeClose, beforeClose,
      before_of_none (any_closes.trans (decide_eq_false hclosed)),
      before_of_none (any_closes.trans (decide_eq_false hclosed'))]
    subst hes hes'
    exact hcut h h' hnodup hidle hidle' hrest

/-- In every run a subscriber that has not disconnected was sent, in order, what was
handed to the writer since it subscribed and before the subscriptions were closed,
what the round in progress will still send it apart. -/
theorem sent_of_run
    {es front rest : List Label} {s : State} {ansi : Bool} {i : Nat}
    (h : run State.step State.new es = some s)
    (hes : es = front ++ .subscribe ansi i :: rest) (hstays : .disconnect i ∉ es) :
    ∃ ch, s.queue.channels[i]? = some ch ∧
      ch.sent ++ s.inFlight i = (handed (beforeClose rest)).map fun record =>
        if ansi then { record.entry with output := record.rawOutput } else record.entry := by
  have hstreaming := streaming_of_run h
  have hstream : stream i (front ++ .subscribe ansi i :: rest) = some _ :=
    stream_eq (subscribe_once h hes)
  rw [← hes] at hstream
  have hlt : i < s.queue.channels.length := (hstreaming.known i).mp (by rw [hstream]; rfl)
  have hch : s.queue.channels[i]? = some s.queue.channels[i] := List.getElem?_eq_getElem hlt
  exact ⟨_, hch, hstreaming.sent i _ _ hch hstream (hstreaming.receiving i _ hch hstays)⟩

/-- Over every interleaving of submissions under distinct numbers, subscriptions,
disconnections and the close: the journal and each stream are as described, and no
stream and no journal depends on another subscriber. -/
theorem attach_suffix
    {es : List Label} {s : State} (h : run State.step State.new es = some s)
    (hnodup : ((calls es).map Submission.seq).Nodup) :
    s.queue.appended = (handed es).map (·.entry) ∧
      (∀ front ansi i rest, es = front ++ .subscribe ansi i :: rest →
        .disconnect i ∉ es →
        ∃ ch, s.queue.channels[i]? = some ch ∧
          ch.sent ++ s.inFlight i = (handed (beforeClose rest)).map fun record =>
            if ansi then { record.entry with output := record.rawOutput }
            else record.entry) ∧
      ∀ es' s' i, run State.step State.new es' = some s' →
        s.work = .idle → s'.work = .idle → seenBy i es' = seenBy i es →
        s'.queue.appended = s.queue.appended ∧
          ∀ ansi, .subscribe ansi i ∈ es → .disconnect i ∉ es → .disconnect i ∉ es' →
            ∃ ch ch', s.queue.channels[i]? = some ch ∧ s'.queue.channels[i]? = some ch' ∧
              ch'.sent = ch.sent := by
  refine ⟨(ordered_of_run h hnodup).appended, ?_, ?_⟩
  · intro front ansi i rest hes hstays
    exact sent_of_run h hes hstays
  · intro es' s' i h' hidle hidle' hseen
    have hcalls : calls es = calls es' := by
      rw [← calls_seenBy i es, ← hseen, calls_seenBy]
    have hhanded := handed_determined h h' hnodup hidle hidle' hcalls
    refine ⟨?_, ?_⟩
    · rw [(ordered_of_run h hnodup).appended,
        (ordered_of_run h' (hcalls ▸ hnodup)).appended, hhanded]
    · intro ansi hmem hstays hstays'
      obtain ⟨front, rest, hes⟩ := List.append_of_mem hmem
      have hseen' := hseen.symm
      rw [hes] at hseen'
      obtain ⟨front', l', rest', hes', hl', hfront, hrest⟩ := seenBy_split
        (show Label.seenBy i (.subscribe ansi i) = some (.subscribe ansi i) by
          simp [Label.seenBy]) hseen'
      have hsub : l' = .subscribe ansi i := by
        cases l' with
        | subscribe a r =>
            simp only [Label.seenBy, Option.some.injEq, Label.subscribe.injEq] at hl'
            obtain ⟨ha, rfl⟩ := hl'
            rw [if_pos rfl] at ha
            rw [ha]
        | _ => simp [Label.seenBy] at hl'
      subst hsub
      have hsame := handed_beforeClose h h' hnodup hidle hidle' hes hes' hfront hrest
      obtain ⟨ch, hch, hsent⟩ := sent_of_run h hes hstays
      obtain ⟨ch', hch', hsent'⟩ := sent_of_run h' hes' hstays'
      refine ⟨ch, ch', hch, hch', ?_⟩
      have hnone : ∀ {s : State}, s.work = .idle → s.inFlight i = [] := by
        intro s hs
        rw [State.inFlight, hs]
      rw [hnone hidle, List.append_nil] at hsent
      rw [hnone hidle', List.append_nil] at hsent'
      rw [hsent, hsent', hsame]

/-- Record `1` waits in the queue while two clients attach, one of them for the raw output. -/
def sampleAttach : List Label :=
  [.submit 1 ⟨sampleEntry, "raw"⟩, .release, .subscribe true 0, .subscribe false 1,
    .submit 0 ⟨sampleEntry, ""⟩, .handOver ⟨sampleEntry, ""⟩, .deliver, .deliver, .advance,
    .handOver ⟨sampleEntry, "raw"⟩, .deliver, .deliver, .advance, .release]

theorem attach_suffix_sampleAttach :
    ∃ s, run State.step State.new sampleAttach = some s ∧
      s.queue.appended = (handed sampleAttach).map (·.entry) ∧
      (∃ ch, s.queue.channels[0]? = some ch ∧
        ch.sent ++ s.inFlight 0 =
          [{ sampleEntry with output := "" }, { sampleEntry with output := "raw" }]) ∧
      ∃ ch, s.queue.channels[1]? = some ch ∧
        ch.sent ++ s.inFlight 1 = [sampleEntry, sampleEntry] := by
  have hrun : ∃ s, run State.step State.new sampleAttach = some s := by
    simp [sampleAttach, run_cons, State.step, State.new, TranscriptQueue.new,
      TranscriptQueue.subscribe, State.remove, send, Std.ExtTreeMap.getElem_insert]
  obtain ⟨s, hs⟩ := hrun
  have hlaw := attach_suffix hs (by decide)
  refine ⟨s, hs, hlaw.1, ?_, ?_⟩
  · exact hlaw.2.1 [.submit 1 ⟨sampleEntry, "raw"⟩, .release] true 0 _ rfl
      (by simp [sampleAttach])
  · exact hlaw.2.1 [.submit 1 ⟨sampleEntry, "raw"⟩, .release, .subscribe true 0] false 1 _ rfl
      (by simp [sampleAttach])

end Attach
end Rexec
