import Rexec.Protocol
import Rexec.Lib.Reorder
import Mathlib.Tactic

/-!
# The transcript queue

Completed commands are submitted under their arrival number; the queue hands
each entry to the transcript writer, and to the attached subscribers, in arrival
order.  `appended` is the sequence of calls of `TranscriptWriter::append`, whose
result the queue ignores.

A subscriber owns the sending end of a channel.  A channel keeps what was sent
on it, how much of that was received, and whether the receiving end still
exists; a send fails when it does not, and the subscriber is then dropped.

`submit_reflects` connects the queue to `Reorder`: it is a reorder buffer whose
departures are the appended entries.
-/

namespace Rexec

structure TranscriptRecord where
  entry : TranscriptEntry
  rawOutput : String
deriving DecidableEq

/-- One channel of `std::sync::mpsc`. -/
structure Channel where
  sent : List TranscriptEntry
  received : Nat
  receiving : Bool

structure TranscriptSubscriber where
  ansi : Bool
  /-- the index of the subscriber's channel -/
  sender : Nat

structure TranscriptQueue where
  next : Nat
  pending : Std.ExtTreeMap Nat TranscriptRecord
  subscribers : List TranscriptSubscriber
  channels : List Channel
  appended : List TranscriptEntry

namespace TranscriptQueue

def new : TranscriptQueue :=
  { next := 0, pending := ∅, subscribers := [], channels := [], appended := [] }

/-- What a subscriber is sent for a record. -/
def entryFor (subscriber : TranscriptSubscriber) (record : TranscriptRecord) :
    TranscriptEntry :=
  if subscriber.ansi then { record.entry with output := record.rawOutput }
  else record.entry

/-- `Sender::send`, which fails when the receiver is gone. -/
def send (channels : List Channel) (sender : Nat) (entry : TranscriptEntry) :
    List Channel × Bool :=
  match channels[sender]? with
  | some ch =>
      if ch.receiving then
        (channels.set sender { ch with sent := ch.sent ++ [entry] }, true)
      else (channels, false)
  | none => (channels, false)

/-- `subscribers.retain(..)`: send the record and keep those who can receive. -/
def retain (record : TranscriptRecord) :
    List TranscriptSubscriber → List Channel →
      List TranscriptSubscriber × List Channel
  | [], channels => ([], channels)
  | s :: ss, channels =>
      let sent := send channels s.sender (entryFor s record)
      let rest := retain record ss sent.1
      (if sent.2 then s :: rest.1 else rest.1, rest.2)

/-- One round of the loop in `submit`, for the record just removed. -/
def handOver (q : TranscriptQueue) (record : TranscriptRecord) :
    TranscriptQueue :=
  let kept := retain record q.subscribers q.channels
  { next := q.next + 1
    pending := q.pending.erase q.next
    subscribers := kept.1
    channels := kept.2
    appended := q.appended ++ [record.entry] }

/-- The loop in `submit`; the number bounds its rounds. -/
def drain : Nat → TranscriptQueue → TranscriptQueue
  | 0, q => q
  | n + 1, q =>
      match q.pending[q.next]? with
      | none => q
      | some record => drain n (q.handOver record)

/-- A round removes a pending record, so one more round than records ends the loop. -/
def submit (q : TranscriptQueue) (seq : Nat) (entry : TranscriptEntry)
    (rawOutput : String) : TranscriptQueue :=
  let q := { q with pending := q.pending.insert seq ⟨entry, rawOutput⟩ }
  q.drain (q.pending.size + 1)

/-- `subscribe` returns the new channel's receiver, here its index. -/
def subscribe (q : TranscriptQueue) (ansi : Bool) : TranscriptQueue × Nat :=
  let sender := q.channels.length
  ({ q with
      subscribers := q.subscribers ++ [⟨ansi, sender⟩]
      channels := q.channels ++ [⟨[], 0, true⟩] }, sender)

def closeSubscriptions (q : TranscriptQueue) : TranscriptQueue :=
  { q with subscribers := [] }

/-- The receiving end is dropped. -/
def dropReceiver (q : TranscriptQueue) (receiver : Nat) : TranscriptQueue :=
  { q with
      channels := q.channels.modify receiver fun ch => { ch with receiving := false } }

/-- `receive.recv_timeout(..)` finds an entry in the channel. -/
def recv (q : TranscriptQueue) (receiver : Nat) :
    Option (TranscriptEntry × TranscriptQueue) :=
  match q.channels[receiver]? with
  | none => none
  | some ch =>
      match ch.sent[ch.received]? with
      | none => none
      | some entry =>
          some (entry,
            { q with
                channels := q.channels.set receiver
                  { ch with received := ch.received + 1 } })

/-! ## The queue is a reorder buffer -/

/-- The reorder buffer inside the queue. -/
def buffer (q : TranscriptQueue) : Reorder.Buffer TranscriptRecord :=
  ⟨q.next, q.pending⟩

/--
The queue agrees with the submissions `S`: what was appended are the entries of
the records submitted below `next`, in order.
-/
def Reflects (S : Nat → Option TranscriptRecord) (q : TranscriptQueue) : Prop :=
  ∃ out, Reorder.Represents S out q.buffer ∧ q.appended = out.map (·.entry)

theorem new_reflects : Reflects (fun _ => none) new :=
  ⟨[], Reorder.represents_empty, rfl⟩

theorem drain_eq (n : Nat) (q : TranscriptQueue) :
    (drain n q).buffer = (Reorder.drain n q.buffer).1 ∧
      (drain n q).appended =
        q.appended ++ (Reorder.drain n q.buffer).2.map (·.entry) := by
  induction n generalizing q with
  | zero => simp [drain, Reorder.drain]
  | succ n ih =>
      cases hr : q.pending[q.next]? with
      | none => simp [drain, Reorder.drain, buffer, hr]
      | some record =>
          obtain ⟨hbuffer, happended⟩ := ih (q.handOver record)
          have hround :
              (q.handOver record).buffer =
                ⟨q.next + 1, q.pending.erase q.next⟩ := rfl
          rw [hround] at hbuffer happended
          constructor
          · simpa [drain, Reorder.drain, buffer, hr] using hbuffer
          · simpa [drain, Reorder.drain, buffer, hr, handOver] using happended

/-- A submission under a fresh number. -/
theorem submit_reflects
    {S : Nat → Option TranscriptRecord} {q : TranscriptQueue} {seq : Nat}
    {entry : TranscriptEntry} {rawOutput : String}
    (h : Reflects S q) (hfresh : S seq = none) :
    Reflects (Function.update S seq (some ⟨entry, rawOutput⟩))
      (q.submit seq entry rawOutput) := by
  obtain ⟨out, hrep, happ⟩ := h
  have hlaw :=
    Reorder.submit_represents (a := (⟨entry, rawOutput⟩ : TranscriptRecord))
      hrep hfresh
  let q' := { q with pending := q.pending.insert seq ⟨entry, rawOutput⟩ }
  obtain ⟨hbuffer, happended⟩ := drain_eq (q'.pending.size + 1) q'
  refine ⟨out ++ (Reorder.submit q.buffer seq ⟨entry, rawOutput⟩).2, ?_, ?_⟩
  · have hsubmit :
        (q.submit seq entry rawOutput).buffer =
          (Reorder.submit q.buffer seq ⟨entry, rawOutput⟩).1 := hbuffer
    rw [hsubmit]
    exact hlaw
  · have hsubmit :
        (q.submit seq entry rawOutput).appended =
          q.appended ++
            (Reorder.submit q.buffer seq ⟨entry, rawOutput⟩).2.map (·.entry) :=
      happended
    rw [hsubmit, happ, List.map_append]

/-- Only `submit` touches the buffer and the appended entries. -/
theorem Reflects.of_eq
    {S : Nat → Option TranscriptRecord} {q q' : TranscriptQueue}
    (h : Reflects S q) (hbuffer : q'.buffer = q.buffer)
    (happended : q'.appended = q.appended) :
    Reflects S q' := by
  obtain ⟨out, hrep, happ⟩ := h
  exact ⟨out, by rwa [hbuffer], by rw [happended, happ]⟩

theorem subscribe_reflects
    {S : Nat → Option TranscriptRecord} {q : TranscriptQueue} (ansi : Bool)
    (h : Reflects S q) :
    Reflects S (q.subscribe ansi).1 :=
  h.of_eq rfl rfl

theorem closeSubscriptions_reflects
    {S : Nat → Option TranscriptRecord} {q : TranscriptQueue}
    (h : Reflects S q) :
    Reflects S q.closeSubscriptions :=
  h.of_eq rfl rfl

theorem dropReceiver_reflects
    {S : Nat → Option TranscriptRecord} {q : TranscriptQueue} (receiver : Nat)
    (h : Reflects S q) :
    Reflects S (q.dropReceiver receiver) :=
  h.of_eq rfl rfl

theorem recv_reflects
    {S : Nat → Option TranscriptRecord} {q q' : TranscriptQueue} {receiver : Nat}
    {entry : TranscriptEntry}
    (h : Reflects S q) (hrecv : q.recv receiver = some (entry, q')) :
    Reflects S q' := by
  unfold recv at hrecv
  split at hrecv
  · cases hrecv
  · split at hrecv
    · cases hrecv
    · cases hrecv
      exact h.of_eq rfl rfl

/-! ## Runs of `submit` -/

/-- The arguments of a call of `submit`. -/
structure Submission where
  seq : Nat
  record : TranscriptRecord
deriving DecidableEq

/-- The calls of `submit`, one after another, on a new queue. -/
def submits (calls : List Submission) : TranscriptQueue :=
  calls.foldl (fun q c => q.submit c.seq c.record.entry c.record.rawOutput) new

/-- The record that was submitted under a number. -/
def submitted (calls : List Submission) (k : Nat) : Option TranscriptRecord :=
  (calls.find? fun c => c.seq = k).map Submission.record

theorem submits_concat (calls : List Submission) (c : Submission) :
    submits (calls ++ [c]) =
      (submits calls).submit c.seq c.record.entry c.record.rawOutput := by
  simp [submits]

theorem submitted_eq_none {calls : List Submission} {k : Nat} :
    submitted calls k = none ↔ k ∉ calls.map Submission.seq := by
  simp [submitted, List.find?_eq_none]

theorem submitted_concat {calls : List Submission} {c : Submission}
    (hfresh : c.seq ∉ calls.map Submission.seq) :
    submitted (calls ++ [c]) =
      Function.update (submitted calls) c.seq (some c.record) := by
  funext k
  by_cases hk : k = c.seq
  · subst hk
    have hnone : calls.find? (fun d => d.seq = c.seq) = none := by
      simpa [submitted] using submitted_eq_none.mpr hfresh
    simp [submitted, hnone]
  · have hne : ¬ c.seq = k := fun h => hk h.symm
    rw [Function.update_of_ne hk]
    cases h : calls.find? (fun d => d.seq = k) <;> simp [submitted, h, hne]

theorem submitted_eq_some {calls : List Submission}
    (hnodup : (calls.map Submission.seq).Nodup) {k : Nat} {r : TranscriptRecord} :
    submitted calls k = some r ↔ ⟨k, r⟩ ∈ calls := by
  induction calls using List.reverseRecOn with
  | nil => simp [submitted]
  | append_singleton calls c ih =>
      rw [List.map_append, List.nodup_append] at hnodup
      obtain ⟨hcalls, -, hdisjoint⟩ := hnodup
      have hfresh : c.seq ∉ calls.map Submission.seq := fun h =>
        hdisjoint _ h c.seq (by simp) rfl
      rw [submitted_concat hfresh, List.mem_append, List.mem_singleton]
      by_cases hk : k = c.seq
      · subst hk
        have hnot : (⟨c.seq, r⟩ : Submission) ∉ calls := fun h =>
          hfresh (List.mem_map.mpr ⟨_, h, rfl⟩)
        rw [Function.update_self]
        constructor
        · intro h
          cases h
          exact Or.inr rfl
        · rintro (h | h)
          · exact absurd h hnot
          · rw [← h]
      · have hne : (⟨k, r⟩ : Submission) ≠ c := by
          rintro rfl
          exact hk rfl
        rw [Function.update_of_ne hk, ih hcalls]
        simp [hne]

/-- A drain that has come to its end is not changed by more rounds. -/
theorem drain_of_done {n : Nat} {q : TranscriptQueue}
    (h : (drain n q).pending[(drain n q).next]? = none) (m : Nat) :
    drain (n + m) q = drain n q := by
  induction n generalizing q with
  | zero =>
      cases m with
      | zero => rfl
      | succ m =>
          rw [drain] at h
          simp [drain, h]
  | succ n ih =>
      rw [Nat.succ_add]
      cases hr : q.pending[q.next]? with
      | none => simp [drain, hr]
      | some record =>
          simp only [drain, hr] at h ⊢
          exact ih h

/-- More rounds than records end the loop. -/
theorem drain_done {n : Nat} {q : TranscriptQueue} (h : q.pending.size < n) :
    (drain n q).pending[(drain n q).next]? = none := by
  induction n generalizing q with
  | zero => omega
  | succ n ih =>
      cases hr : q.pending[q.next]? with
      | none => simp [drain, hr]
      | some record =>
          have hless := Reorder.size_erase_lt hr
          simp only [drain, hr]
          exact ih (show (q.pending.erase q.next).size < n by omega)

theorem submits_reflects {calls : List Submission}
    (hnodup : (calls.map Submission.seq).Nodup) :
    Reflects (submitted calls) (submits calls) := by
  induction calls using List.reverseRecOn with
  | nil => exact new_reflects
  | append_singleton calls c ih =>
      rw [List.map_append, List.nodup_append] at hnodup
      obtain ⟨hcalls, -, hdisjoint⟩ := hnodup
      have hfresh : c.seq ∉ calls.map Submission.seq := fun h =>
        hdisjoint _ h c.seq (by simp) rfl
      rw [submits_concat, submitted_concat hfresh]
      exact submit_reflects (ih hcalls) (submitted_eq_none.mpr hfresh)

/-- The queue waits for the least number that was not submitted. -/
theorem Reflects.isLeast {S : Nat → Option TranscriptRecord} {q : TranscriptQueue}
    (h : Reflects S q) : IsLeast {k | S k = none} q.next := by
  obtain ⟨out, hrep, -⟩ := h
  refine ⟨hrep.frontier, ?_⟩
  intro k hk
  by_contra hlt
  exact (hrep.lt_next_iff k).mp (Nat.lt_of_not_le hlt) k (Nat.le_refl k) hk

theorem Reflects.appended {S : Nat → Option TranscriptRecord} {q : TranscriptQueue}
    (h : Reflects S q) :
    q.appended.length = q.next ∧
      ∀ k, k < q.next → q.appended[k]? = (S k).map (·.entry) := by
  obtain ⟨out, hrep, happ⟩ := h
  refine ⟨?_, ?_⟩
  · rw [happ, List.length_map]
    exact hrep.length
  · intro k hk
    rw [happ, List.getElem?_map, hrep.released k hk]

theorem Reflects.pending {S : Nat → Option TranscriptRecord} {q : TranscriptQueue}
    (h : Reflects S q) (k : Nat) :
    q.pending[k]? = if q.next < k then S k else none := by
  obtain ⟨out, hrep, -⟩ := h
  rw [show q.pending[k]? = if q.next ≤ k then S k else none from hrep.waiting k]
  rcases Nat.lt_trichotomy q.next k with hlt | rfl | hgt
  · rw [if_pos hlt, if_pos hlt.le]
  · rw [if_pos (Nat.le_refl _), if_neg (Nat.lt_irrefl _)]
    exact hrep.frontier
  · rw [if_neg hgt.not_ge, if_neg hgt.not_gt]

/-- After the calls, `next` is the least number that was not submitted, the writer
was called for the entries below it in order, and the records above it wait. -/
theorem submits_reorder {calls : List Submission}
    (hnodup : (calls.map Submission.seq).Nodup) :
    IsLeast {k | k ∉ calls.map Submission.seq} (submits calls).next ∧
      ((submits calls).appended.length = (submits calls).next ∧
        ∀ k, k < (submits calls).next →
          ∃ c ∈ calls, c.seq = k ∧ (submits calls).appended[k]? = some c.record.entry) ∧
      (∀ k r, (submits calls).pending[k]? = some r ↔
        (submits calls).next < k ∧ ⟨k, r⟩ ∈ calls) ∧
      (∀ n, (calls.map Submission.seq).Perm (List.range n) →
        (submits calls).next = n ∧ (submits calls).appended.length = n ∧
          (submits calls).pending = ∅) ∧
      -- the loop of each call ends by itself
      ∀ front c, calls = front ++ [c] →
        ∃ rounds, ∀ more,
          drain (rounds + more)
            { submits front with
                pending := (submits front).pending.insert c.seq c.record } =
            submits calls := by
  have hreflects := submits_reflects hnodup
  have hleast : IsLeast {k | k ∉ calls.map Submission.seq} (submits calls).next := by
    simpa only [submitted_eq_none] using hreflects.isLeast
  obtain ⟨hlength, happended⟩ := hreflects.appended
  refine ⟨hleast, ⟨hlength, ?_⟩, ?_, ?_, ?_⟩
  · intro k hk
    cases hs : submitted calls k with
    | none =>
        have hle : (submits calls).next ≤ k := hleast.2 (submitted_eq_none.mp hs)
        omega
    | some r =>
        exact ⟨⟨k, r⟩, (submitted_eq_some hnodup).mp hs, rfl, by rw [happended k hk, hs]; rfl⟩
  · intro k r
    rw [hreflects.pending k, ← submitted_eq_some hnodup]
    by_cases hk : (submits calls).next < k <;> simp [hk]
  · intro n hperm
    have hmem : ∀ k, k ∉ calls.map Submission.seq ↔ n ≤ k := by
      intro k
      rw [hperm.mem_iff, List.mem_range, Nat.not_lt]
    have hnext : (submits calls).next = n :=
      Nat.le_antisymm (hleast.2 ((hmem n).mpr (Nat.le_refl n))) ((hmem _).mp hleast.1)
    refine ⟨hnext, hlength.trans hnext, ?_⟩
    apply Std.ExtTreeMap.ext_getElem?
    intro k
    rw [hreflects.pending k]
    split
    · rename_i hk
      rw [submitted_eq_none.mpr ((hmem k).mpr (by omega))]
      simp
    · simp
  · rintro front c rfl
    refine ⟨((submits front).pending.insert c.seq c.record).size + 1, fun more => ?_⟩
    rw [submits_concat]
    exact drain_of_done
      (q := { submits front with
        pending := (submits front).pending.insert c.seq c.record })
      (drain_done (Nat.lt_succ_self _)) more

/-- Numbers `1`, `3`, `0`: the last call closes the first gap. -/
def sampleSubmissions : List Submission :=
  [1, 3, 0].map fun k => ⟨k, ⟨sampleEntry, ""⟩⟩

theorem submits_reorder_sampleSubmissions :
    IsLeast {k | k ∉ sampleSubmissions.map Submission.seq}
        (submits sampleSubmissions).next ∧
      (submits sampleSubmissions).appended.length = (submits sampleSubmissions).next :=
  have hlaw := submits_reorder
    (show (sampleSubmissions.map Submission.seq).Nodup by decide)
  ⟨hlaw.1, hlaw.2.1.1⟩

end TranscriptQueue
end Rexec
