import Rexec.AttachClient
import Rexec.TranscriptFile
import Mathlib.Tactic

/-!
# What an attached client shows

The worker of an attached client puts the Pong and the events of its
subscription on the connection, so what the client has rendered are the entries
of its subscription from the first on.

`attach_shows` states this for every run, and what the exit of the client tells.
`plain_attach_shows_transcript` compares it with what `print` shows.
-/

namespace Rexec

open Machine TranscriptQueue

namespace Attached

variable (J : JsonText) (c : Nat) (ansi : Bool)

/-- The message of an entry. -/
def event (entry : TranscriptEntry) : Message :=
  .hostEvent (.transcript entry)

/-- The Pong, once it is written, and the events of some entries. -/
def messages (greeted : Bool) (entries : List TranscriptEntry) : List Message :=
  (if greeted then [.controlResponse .pong] else []) ++ entries.map event

/-- What the client has got when it has shown some entries. -/
def gotAt (point : AttachPoint) (shown : List TranscriptEntry) : List Message :=
  if point = .greeting then [] else .controlResponse .pong :: shown.map event

/-- What the client shows of some entries. -/
def render (entries : List TranscriptEntry) : List UInt8 :=
  entries.flatMap fun entry => Client.renderEntryTo entry ansi

/-- The entries are the first ones a subscription of the connection entitles to. -/
def Owed (es : List Rexec.Label) (entries : List TranscriptEntry) : Prop :=
  entries = [] ∨ ∃ front i rest, es = front ++ .worker c (.subscribe ansi i) :: rest ∧
    entries <+: (entitled front rest).map fun record =>
      if ansi then { record.entry with output := record.rawOutput } else record.entry

/-- A write of an event to the client has failed. -/
def WriteFailed (es : List Rexec.Label) : Prop :=
  ∃ entry, .worker c (.writeEvent entry false) ∈ es

/-- The message whose line is broken off. -/
inductive Tail (es : List Rexec.Label) (s : Link) (greeted : Bool) : Option Message → Prop where
  | whole : Tail es s greeted none
  | pong (hclosed : s.closed c = true) (hgreeted : greeted = false) :
      Tail es s greeted (some (.controlResponse .pong))
  | event {entry : TranscriptEntry} (hclosed : s.closed c = true) (hgreeted : greeted = true)
      (hcause : s.gone = true ∨ WriteFailed c es)
      (howed : Owed c ansi es (written c es ++ [entry])) :
      Tail es s greeted (some (event entry))

/-- Where the worker stands, by the lines it has read and whether the Pong is written. -/
def Place (heard : Nat) (greeted : Bool) : Worker → Prop
  | .start => heard = 0 ∧ greeted = false
  | .handshake => heard = 0 ∧ greeted = false
  | .openingPong => heard = 1 ∧ greeted = false
  | .lineLoop p => p = false ∧ heard = 1 ∧ greeted = true
  | .attaching a => a = ansi ∧ greeted = true
  | .attached _ => greeted = true
  | .sending _ _ => greeted = true
  | .exited => True
  | _ => False

/-- What holds while the client is there. -/
structure Alive (es : List Rexec.Label) (s : Attached) (shown : List TranscriptEntry)
    (greeted : Bool) (last : Option Message) (torn : List UInt8) : Prop where
  place : Place ansi s.heard greeted (s.host.workers c)
  subscribed : ∀ a i, .worker c (.subscribe a i) ∈ es → a = ansi
  asked : s.asked = if s.point = .following then [pingLine, attachLine J ansi] else [pingLine]
  quiet : greeted = false → written c es = []
  tail : Tail c ansi es s.toLink greeted last
  fresh : s.point = .greeting → shown = []
  carries : s.toLink.Carries J (messages greeted (written c es)) last torn (gotAt s.point shown)

/-- A worker that has exited in order has written all its subscription entitles to. -/
def Finished (es : List Rexec.Label) : Prop :=
  WriteFailed c es ∨ ∀ front i rest, es = front ++ .worker c (.subscribe ansi i) :: rest →
    rest.any Label.closes = true ∧
      written c es = (entitled front rest).map fun record =>
        if ansi then { record.entry with output := record.rawOutput } else record.entry

structure Sound (es : List Rexec.Label) (s : Attached) (shown : List TranscriptEntry) : Prop where
  feeding : ∃ ls, Feeding es s.host ls
  stdout : s.stdout = render ansi shown
  owed : Owed c ansi es shown
  alive : s.point.isReturned = false →
    ∃ greeted last torn, Alive J c ansi es s shown greeted last torn
  ended : s.point = .returned .ended → s.closed c = true ∧ written c es <+: shown
  invalid : s.point = .returned .invalidResponse → s.gone = true ∨ WriteFailed c es
  finished : s.point.isReturned = false ∨ s.point = .returned .ended →
    s.host.workers c = .exited → Finished c ansi es

theorem sound_init : Sound J c ansi [] init [] where
  feeding := ⟨[], feeding_init⟩
  stdout := rfl
  owed := .inl rfl
  alive _ := by
    refine ⟨false, none, [], ⟨rfl, rfl⟩, ?_, rfl, fun _ => rfl, .whole, fun _ => rfl,
      Link.carries_init⟩
    intro a i h
    cases h
  ended h := by cases h
  invalid h := by cases h
  finished _ h := by cases h

section Basics

variable {J} {c} {ansi} {es : List Rexec.Label} {s t : Attached} {l : Rexec.Label}
  {entries shown : List TranscriptEntry} {greeted : Bool} {last : Option Message}
  {torn : List UInt8}

theorem messages_append (greeted : Bool) (entries : List TranscriptEntry)
    (entry : TranscriptEntry) :
    messages greeted (entries ++ [entry]) = messages greeted entries ++ [event entry] := by
  simp [messages]

theorem render_concat (shown : List TranscriptEntry) (entry : TranscriptEntry) :
    render ansi (shown ++ [entry]) = render ansi shown ++ Client.renderEntryTo entry ansi := by
  simp [render]

theorem Owed.concat (h : Owed c ansi es entries) (l : Rexec.Label) :
    Owed c ansi (es ++ [l]) entries := by
  rcases h with h | ⟨front, i, rest, rfl, h⟩
  · exact .inl h
  · refine .inr ⟨front, i, rest ++ [l], by simp, h.trans (entitled_grows.map _)⟩

theorem Owed.of_isPrefix (h : Owed c ansi es entries) (hshown : shown <+: entries) :
    Owed c ansi es shown := by
  rcases h with rfl | ⟨front, i, rest, hes, h⟩
  · exact .inl (List.prefix_nil.mp hshown)
  · exact .inr ⟨front, i, rest, hes, hshown.trans h⟩

theorem WriteFailed.concat (h : WriteFailed c es) (l : Rexec.Label) :
    WriteFailed c (es ++ [l]) := by
  obtain ⟨entry, h⟩ := h
  exact ⟨entry, List.mem_append_left _ h⟩

/-- What a worker has written is owed, and so is what it is writing. -/
theorem owed_written {h : Host} {ls : List Attach.Label} (hF : Feeding es h ls)
    (hsub : ∀ a i, .worker c (.subscribe a i) ∈ es → a = ansi) :
    Owed c ansi es (written c es) := by
  by_cases hmem : ∃ a i, Label.worker c (.subscribe a i) ∈ es
  · obtain ⟨a, i, hmem⟩ := hmem
    obtain rfl := hsub a i hmem
    obtain ⟨front, rest, hes⟩ := List.append_of_mem hmem
    exact .inr ⟨front, i, rest, hes, hF.shown c front a i rest hes⟩
  · exact .inl (hF.fresh c fun a i h => hmem ⟨a, i, h⟩)

theorem owed_inHand {h : Host} {ls : List Attach.Label} (hF : Feeding es h ls)
    (hsub : ∀ a i, .worker c (.subscribe a i) ∈ es → a = ansi) {receiver : Nat}
    {entry : TranscriptEntry} (hworker : h.workers c = .sending receiver entry) :
    Owed c ansi es (written c es ++ [entry]) := by
  obtain ⟨front, a, rest, ch, hes, hch, hreceiving, -, htaken⟩ :=
    hF.serving c receiver (by rw [hworker]; rfl)
  obtain rfl := hsub a receiver (by simp [hes])
  rw [hworker, Worker.inHand_sending] at htaken
  refine .inr ⟨front, receiver, rest, hes, ?_⟩
  rw [htaken, ← hF.sent_eq hes hch hreceiving]
  exact List.take_prefix _ _

theorem present_of_alive (hpoint : s.point.isReturned = false) : s.point.peer = .present := by
  cases hp : s.point with
  | returned => simp [hp, AttachPoint.isReturned] at hpoint
  | _ => rfl

end Basics

/-! ## The steps of the host -/

section Host

variable {J} {c} {ansi} {es : List Rexec.Label} {s : Attached} {l : Rexec.Label}
  {shown : List TranscriptEntry} {greeted : Bool} {last : Option Message} {torn : List UInt8}
  {h' : Host}

theorem Tail.keep {k k' : Link} (h : Tail c ansi es k greeted last) {es' : List Rexec.Label}
    (hclosed : k.closed c = true → k'.closed c = true) (hgone : k.gone = true → k'.gone = true)
    (hfailed : WriteFailed c es → WriteFailed c es')
    (howed : ∀ entries, Owed c ansi es entries → Owed c ansi es' entries)
    (hwritten : written c es' = written c es) : Tail c ansi es' k' greeted last := by
  cases h with
  | whole => exact .whole
  | pong hc hg => exact .pong (hclosed hc) hg
  | event hc hg hcause ho =>
      refine .event (hclosed hc) hg (hcause.imp hgone hfailed) ?_
      rw [hwritten]
      exact howed _ ho

theorem Tail.eq_none {k : Link} (h : Tail c ansi es k greeted last)
    (hopen : k.closed c = false) : last = none := by
  cases h with
  | whole => rfl
  | pong hc => simp [hopen] at hc
  | event hc => simp [hopen] at hc

/-- The invariant over a `Link` that moves. -/
theorem Alive.keep {es' : List Rexec.Label} {k : Link}
    (hA : Alive J c ansi es s shown greeted last torn) (hasked : k.asked = s.asked)
    (hsent : k.sent = s.sent) (hread : k.read = s.read)
    (hplace : Place ansi k.heard greeted (k.host.workers c))
    (hsub : ∀ a i, .worker c (.subscribe a i) ∈ es' → a = ansi)
    (htail : Tail c ansi es' k greeted last) (hwritten : written c es' = written c es) :
    Alive J c ansi es' { s with toLink := k } shown greeted last torn := by
  refine ⟨hplace, hsub, hasked.trans hA.asked, ?_, htail, hA.fresh, ?_⟩
  · rw [hwritten]
    exact hA.quiet
  · rw [hwritten]
    exact hA.carries.keep hsent hread

/-- A subscription that was served to its end stays so. -/
theorem Finished.concat (h : Finished c ansi es) (hsub : ∀ a i, l ≠ .worker c (.subscribe a i))
    (hwritten : written c (es ++ [l]) = written c es) : Finished c ansi (es ++ [l]) := by
  rcases h with h | h
  · exact .inl (h.concat l)
  · refine .inr fun front i rest hes => ?_
    rcases subscription_concat hes with ⟨hl, -, -⟩ | ⟨rest', rfl, hes'⟩
    · exact absurd hl (hsub ansi i)
    · obtain ⟨hclosed, hall⟩ := h front i rest' hes'
      rw [hwritten, hall, entitled_concat, List.any_append, hclosed]
      simp

/-- A worker that has never subscribed owes nothing. -/
theorem finished_of_never (h : ∀ a i, .worker c (.subscribe a i) ∉ es) : Finished c ansi es :=
  .inr fun front i rest hes => absurd (by simp [hes]) (h ansi i)

/-- What happens elsewhere in the host. -/
theorem Sound.elsewhere {cfg : Config} (hS : Sound J c ansi es s shown)
    (hstep : s.host.step cfg l = some h') (hl : ∀ e, l ≠ .worker c e) :
    Sound J c ansi (es ++ [l]) { s with host := h' } shown := by
  obtain ⟨ls, hF⟩ := hS.feeding
  have hworker := Link.host_elsewhere hstep hl
  have hwritten : written c (es ++ [l]) = written c es := written_other fun entry => hl _
  have hclosed : Link.closed c { s.toLink with host := h' } = s.closed c := by
    simp only [Link.closed, hworker]
  refine ⟨hF.step hstep, hS.stdout, hS.owed.concat l, fun hpoint => ?_, fun hpoint => ?_,
    fun hpoint => ?_, fun hpoint hexited => ?_⟩
  · obtain ⟨greeted, last, torn, hA⟩ := hS.alive hpoint
    refine ⟨greeted, last, torn, hA.keep (k := { s.toLink with host := h' }) rfl rfl rfl ?_ ?_
      (hA.tail.keep hclosed.trans id (·.concat l) (fun _ h => h.concat l) hwritten) hwritten⟩
    · show Place ansi s.heard greeted (h'.workers c)
      rw [hworker]
      exact hA.place
    · intro a i hmem
      exact hA.subscribed a i ((mem_concat_of_ne (Ne.symm (hl _))).mp hmem)
  · rw [show Link.closed c _ = s.closed c from hclosed, hwritten]
    exact hS.ended hpoint
  · exact (hS.invalid hpoint).imp id (WriteFailed.concat · l)
  · rw [show h'.workers c = s.host.workers c from hworker] at hexited
    exact (hS.finished hpoint hexited).concat (fun a i => hl _) hwritten

/-- A subscription is served to its end when its channel is disconnected. -/
theorem finished_of_hungUp {h : Host} {ls : List Attach.Label} (hF : Feeding es h ls)
    (hhung : h.hungUp c = true) : Finished c ansi (es ++ [.worker c .detach]) := by
  unfold Host.hungUp at hhung
  split at hhung
  · rename_i receiver hworker
    rw [Bool.and_eq_true, List.all_eq_true, Option.isNone_iff_eq_none] at hhung
    obtain ⟨hgone, hempty⟩ := hhung
    refine .inr fun front i rest hes => ?_
    rcases subscription_concat hes with ⟨hl, -, -⟩ | ⟨rest', rfl, hes'⟩
    · cases hl
    · have hreceiver : receiver = i := by
        rcases hF.once c ansi i (by simp [hes']) with hi | hx
        · rw [hworker] at hi
          exact Option.some.inj hi
        · rw [hworker] at hx
          cases hx
      subst hreceiver
      obtain ⟨-, -, -, ch, -, hch, hreceiving, hle, htaken⟩ :=
        hF.serving c receiver (by rw [hworker]; rfl)
      have hsent := hF.sent_eq hes' hch hreceiving
      have hstream := hF.mirrored.stream c front ansi receiver rest' hes'
      have hclosed : rest'.any Label.closes = true := by
        by_contra hopen
        have hlisted := hF.mirrored.streaming.listed receiver ch _ hch hstream hreceiving
          (by simpa using hopen)
        simpa using hgone _ hlisted
      have hall : ch.sent.take ch.received = ch.sent := by
        refine List.take_of_length_le ?_
        unfold TranscriptQueue.recv at hempty
        rw [hch] at hempty
        simp only at hempty
        split at hempty
        · rename_i hnone
          exact List.getElem?_eq_none_iff.mp hnone
        · cases hempty
      rw [hworker, Worker.inHand_attached, List.append_nil, hall, hsent] at htaken
      refine ⟨by rw [List.any_append, hclosed]; rfl, ?_⟩
      rw [written_other (fun _ h => by cases h), htaken, entitled_concat, hclosed]
      simp
  · cases hhung

/-- Nobody has subscribed on a connection whose worker serves nothing. -/
theorem finished_of_unserved {h : Host} {ls : List Attach.Label} (hF : Feeding es h ls)
    {w : Worker} (hworker : h.workers c = w) (hnone : w.receiver = none) (hlive : w ≠ .exited)
    (hl : ∀ a i, l ≠ .worker c (.subscribe a i)) : Finished c ansi (es ++ [l]) := by
  refine finished_of_never fun a i hmem => ?_
  refine hF.not_subscribed (by rw [hworker, hnone]) (by rwa [hworker]) a i ?_
  exact (mem_concat_of_ne (Ne.symm (hl a i))).mp hmem

end Host

section Own

variable {J : JsonText} {message : String → String} {silent : Bool} {c : Nat} {ansi : Bool}
  {es : List Rexec.Label} {s : Attached} {shown : List TranscriptEntry} {greeted : Bool}
  {torn : List UInt8} {h' : Host} {heard cut : Nat} {e : Event}

theorem onLine_attach (hJ : J.Lawful) {p : Bool} :
    (Config.ofJson J message silent).onLine p (.line (attachLine J ansi)) = .attaching ansi := by
  have hblank : (trimEnd (attachLine J ansi)).isEmpty = false :=
    Message.line_not_blank hJ (.clientAction (.attach ansi))
  have haction : (Config.ofJson J message silent).clientAction (trimEnd (attachLine J ansi)) =
      some (.attach ansi) := Config.ofJson_action hJ (.attach ansi)
  simp only [Config.onLine, hblank, haction, Bool.false_eq_true, if_false]

/-- The worker has written a message whole. -/
theorem Alive.whole (hA : Alive J c ansi es s shown greeted none torn) {m : Message}
    (hm : e.message = some (m, true)) (hsub : ∀ a i, e ≠ .subscribe a i) {greeted' : Bool}
    (hmessages : messages greeted' (written c (es ++ [.worker c e])) =
      messages greeted (written c es) ++ [m])
    (hquiet : greeted' = false → written c (es ++ [.worker c e]) = [])
    (hplace : Place ansi heard greeted' (h'.workers c)) :
    Alive J c ansi (es ++ [.worker c e])
      { s with host := h', heard, sent := s.sent ++ Link.puts J c (.worker c e) cut }
      shown greeted' none [] := by
  refine ⟨hplace, fun a i hmem => ?_, hA.asked, hquiet, .whole, hA.fresh, ?_⟩
  · exact hA.subscribed a i
      ((mem_concat_of_ne fun heq => hsub a i (by cases heq; rfl)).mp hmem)
  · rw [hmessages]
    exact hA.carries.line (by rw [Link.puts_some J hm cut, Message.put_true]) rfl

/-- The worker has written a part of a message, and exits. -/
theorem Alive.part (hA : Alive J c ansi es s shown greeted none torn) {m : Message}
    (hm : e.message = some (m, false)) (hsub : ∀ a i, e ≠ .subscribe a i)
    (hwritten : written c (es ++ [.worker c e]) = written c es)
    (hexited : h'.workers c = .exited)
    (htail : ∀ k : Link, k.closed c = true → Tail c ansi (es ++ [.worker c e]) k greeted (some m)) :
    Alive J c ansi (es ++ [.worker c e])
      { s with host := h', heard, sent := s.sent ++ Link.puts J c (.worker c e) cut }
      shown greeted (some m) (Link.puts J c (.worker c e) cut) := by
  refine ⟨?_, fun a i hmem => ?_, hA.asked, fun hnone => hwritten.trans (hA.quiet hnone),
    htail _ ?_, hA.fresh, ?_⟩
  · rw [hexited]
    trivial
  · exact hA.subscribed a i
      ((mem_concat_of_ne fun heq => hsub a i (by cases heq; rfl)).mp hmem)
  · simp only [Link.closed, hexited, Worker.isExited, Bool.or_true]
  · rw [hwritten]
    refine hA.carries.part rfl rfl ?_
    rw [Link.puts_some J hm cut]
    exact Message.put_isPrefix ..

/-- A step of the worker of the connection while the client is there. -/
theorem Alive.own (hJ : J.Strict) (hping : J.line ClientAction.ping.toJson = pingLine)
    (cut : Nat) {ls : List Attach.Label} (hF : Feeding es s.host ls)
    (hA : Alive J c ansi es s shown greeted none torn) {w : Worker}
    (hw : (s.host.workers c).Step (.ofJson J message silent) e w) (hworker : h'.workers c = w)
    (hheard : s.hears c .present (.worker c e) = some heard) :
    (∃ greeted' last torn', Alive J c ansi (es ++ [.worker c e])
      { s with
        host := h', heard, sent := s.sent ++ Link.puts J c (.worker c e) cut }
      shown greeted' last torn') ∧
    (w = .exited → Finished c ansi (es ++ [.worker c e])) := by
  -- what holds after a step that neither writes nor subscribes to the wrong stream
  have hquiet : e.message = none → (∀ entry, e ≠ .writeEvent entry true) →
      (∀ a i, e = .subscribe a i → a = ansi) → Place ansi heard greeted w →
      ∃ greeted' last torn', Alive J c ansi (es ++ [.worker c e])
        { s with
          host := h', heard, sent := s.sent ++ Link.puts J c (.worker c e) cut }
        shown greeted' last torn' := by
    intro hputs hwrite hsub hplace
    have hwritten : written c (es ++ [.worker c e]) = written c es :=
      written_other fun entry heq => hwrite entry (by cases heq; rfl)
    refine ⟨greeted, none, torn, hA.keep
      (k := { s.toLink with
        host := h', heard, sent := s.sent ++ Link.puts J c (.worker c e) cut })
      rfl ?_ rfl ?_ ?_ .whole hwritten⟩
    · show s.sent ++ Link.puts J c (.worker c e) cut = s.sent
      rw [Link.puts_none J hputs, List.append_nil]
    · rw [← hworker] at hplace
      exact hplace
    · intro a i hmem
      rcases List.mem_append.mp hmem with hmem | hmem
      · exact hA.subscribed a i hmem
      · cases List.mem_singleton.mp hmem
        exact hsub a i rfl
  have hplace := hA.place
  have hasked := hA.asked
  generalize hv : s.host.workers c = v at hw hplace
  have hunserved : v.receiver = none → v ≠ .exited → (∀ a i, e ≠ .subscribe a i) →
      Finished c ansi (es ++ [.worker c e]) := fun hnone hlive hsub =>
    finished_of_unserved hF hv hnone hlive fun a i heq => hsub a i (by cases heq; rfl)
  have hpresent : Peer.present ≠ .lost := Peer.noConfusion
  cases hw with
  | cloned =>
      obtain rfl := Link.hears_other (fun _ h => by cases h) hheard
      exact ⟨hquiet rfl (fun _ h => by cases h) (fun _ _ h => by cases h) hplace,
        fun h => by cases h⟩
  | notCloned =>
      exact ⟨hquiet rfl (fun _ h => by cases h) (fun _ _ h => by cases h) trivial,
        fun _ => hunserved rfl (fun h => by cases h) (fun _ _ h => by cases h)⟩
  | @opening r =>
      have hq := hquiet rfl (fun _ h => by cases h) (fun _ _ h => by cases h)
      have hexit := hunserved rfl (fun h => by cases h) (fun _ _ h => by cases h)
      cases r with
      | line text =>
          obtain ⟨htext, rfl⟩ := Link.hears_line hpresent rfl hheard
          have hfirst : s.asked[s.heard]? = some pingLine := by
            rw [hplace.1, hasked]
            split <;> rfl
          obtain rfl : pingLine = text := Option.some.inj (hfirst.symm.trans htext)
          have hpong : (Config.ofJson J message silent).onOpening (.line pingLine) =
              .openingPong := by
            rw [← hping]
            exact Config.onOpening_ping hJ.toLawful
          rw [hpong] at hq ⊢
          exact ⟨hq ⟨by rw [hplace.1], hplace.2⟩, fun h => by cases h⟩
      | eof => exact ⟨hq trivial, fun _ => hexit⟩
      | timeout => exact ⟨hq trivial, fun _ => hexit⟩
      | error => exact ⟨hq trivial, fun _ => hexit⟩
  | opened =>
      obtain rfl := Link.hears_other (fun _ h => by cases h) hheard
      obtain ⟨hone, rfl⟩ := hplace
      have hwritten : written c (es ++ [.worker c (.writePong true)]) = [] :=
        (written_other fun _ h => by cases h).trans (hA.quiet rfl)
      refine ⟨⟨true, none, [], hA.whole rfl (fun _ _ h => by cases h) ?_ (fun h => by cases h) ?_⟩,
        fun h => by cases h⟩
      · rw [hwritten, hA.quiet rfl]
        rfl
      · rw [hworker]
        exact ⟨rfl, hone, rfl⟩
  | notOpened =>
      obtain rfl := Link.hears_other (fun _ h => by cases h) hheard
      obtain ⟨hone, rfl⟩ := hplace
      exact ⟨⟨false, _, _, hA.part rfl (fun _ _ h => by cases h)
          (written_other fun _ h => by cases h) hworker fun k hclosed => .pong hclosed rfl⟩,
        fun _ => hunserved rfl (fun h => by cases h) (fun _ _ h => by cases h)⟩
  | @line p r =>
      obtain ⟨rfl, hone, hgreeted⟩ := hplace
      have hq := hquiet rfl (fun _ h => by cases h) (fun _ _ h => by cases h)
      have hexit := hunserved rfl (fun h => by cases h) (fun _ _ h => by cases h)
      cases r with
      | line text =>
          obtain ⟨htext, rfl⟩ := Link.hears_line hpresent rfl hheard
          have hattach : (Config.ofJson J message silent).onLine false (.line text) =
              .attaching ansi := by
            rw [hone, hasked] at htext
            split at htext
            · obtain rfl : attachLine J ansi = text := Option.some.inj htext
              exact onLine_attach hJ.toLawful
            · cases htext
          rw [hattach] at hq ⊢
          exact ⟨hq ⟨rfl, hgreeted⟩, fun h => by cases h⟩
      | eof => exact ⟨hq trivial, fun _ => hexit⟩
      | timeout => exact ⟨hq trivial, fun _ => hexit⟩
      | error => exact ⟨hq trivial, fun _ => hexit⟩
  | subscribe =>
      obtain ⟨rfl, hgreeted⟩ := hplace
      refine ⟨hquiet rfl (fun _ h => by cases h) ?_ hgreeted, fun h => by cases h⟩
      intro a i heq
      cases heq
      rfl
  | recv =>
      exact ⟨hquiet rfl (fun _ h => by cases h) (fun _ _ h => by cases h) hplace,
        fun h => by cases h⟩
  | detach =>
      exact ⟨hquiet rfl (fun _ h => by cases h) (fun _ _ h => by cases h) trivial,
        fun _ => finished_of_hungUp hF (Link.hears_detach hheard)⟩
  | @sent receiver entry =>
      obtain rfl := Link.hears_other (fun _ h => by cases h) hheard
      obtain rfl : greeted = true := hplace
      have hwritten : written c (es ++ [.worker c (.writeEvent entry true)]) =
          written c es ++ [entry] := by
        rw [written_concat]
        simp
      refine ⟨⟨true, none, [], hA.whole rfl (fun _ _ h => by cases h) ?_ (fun h => by cases h) ?_⟩,
        fun h => by cases h⟩
      · rw [hwritten, messages_append]
        rfl
      · rw [hworker]
        rfl
  | @notSent receiver entry =>
      obtain rfl := Link.hears_other (fun _ h => by cases h) hheard
      obtain rfl : greeted = true := hplace
      have hwritten : written c (es ++ [.worker c (.writeEvent entry false)]) = written c es :=
        written_other fun _ h => by cases h
      have hfailed : WriteFailed c (es ++ [.worker c (.writeEvent entry false)]) :=
        ⟨entry, by simp⟩
      have howed : Owed c ansi (es ++ [.worker c (.writeEvent entry false)])
          (written c (es ++ [.worker c (.writeEvent entry false)]) ++ [entry]) := by
        rw [hwritten]
        exact (owed_inHand hF hA.subscribed hv).concat _
      exact ⟨⟨true, _, _, hA.part rfl (fun _ _ h => by cases h) hwritten hworker
          fun k hclosed => .event hclosed rfl (.inr hfailed) howed⟩,
        fun _ => .inl hfailed⟩
  | ponged => cases hplace
  | notPonged => cases hplace
  | rejected => cases hplace
  | notRejected => cases hplace
  | fetchAdd => cases hplace
  | spawned => cases hplace
  | spawnFailed => cases hplace
  | failureReported => cases hplace
  | abandoned => cases hplace
  | foreground => cases hplace
  | background => cases hplace
  | submit => cases hplace

/-- A step of the worker of the connection. -/
theorem Sound.own (hJ : J.Strict) (hping : J.line ClientAction.ping.toJson = pingLine)
    (hS : Sound J c ansi es s shown) (hlive : s.gone = false)
    (hstep : s.host.step (.ofJson J message silent) (.worker c e) = some h')
    (hheard : s.hears c s.point.peer (.worker c e) = some heard) :
    Sound J c ansi (es ++ [.worker c e])
      { s with
        host := h', heard, sent := s.sent ++ Link.puts J c (.worker c e) cut } shown := by
  obtain ⟨ls, hF⟩ := hS.feeding
  obtain ⟨hs, w, -, hw, heq⟩ := Host.step_worker hstep
  have hworker : h'.workers c = w := by
    rw [heq]
    exact Function.update_self ..
  have hopen : s.closed c = false := by
    cases hv : s.host.workers c with
    | exited =>
        rw [hv] at hw
        cases hw
    | _ => simp [Link.closed, hlive, hv, Worker.isExited]
  have hended : s.point ≠ .returned .ended := fun h => by simp [(hS.ended h).1] at hopen
  cases hpoint : s.point.isReturned with
  | true =>
      have hreturned : s.point.isReturned ≠ false := by simp [hpoint]
      refine ⟨hF.step hstep, hS.stdout, hS.owed.concat _, fun h => absurd h hreturned,
        fun h => absurd h hended, fun h => (hS.invalid h).imp id (·.concat _), fun h => ?_⟩
      exact h.elim (absurd · hreturned) (absurd · hended)
  | false =>
      obtain ⟨greeted, last, torn, hA⟩ := hS.alive hpoint
      obtain rfl := hA.tail.eq_none hopen
      rw [present_of_alive hpoint] at hheard
      obtain ⟨halive, hexit⟩ := hA.own hJ hping cut hF hw hworker hheard
      exact ⟨hF.step hstep, hS.stdout, hS.owed.concat _, fun _ => halive,
        fun h => absurd h hended, fun h => (hS.invalid h).imp id (·.concat _),
        fun _ hexited => hexit (hworker.symm.trans hexited)⟩

end Own

/-! ## The end of the host -/

section Gone

variable {J} {c} {ansi} {es : List Rexec.Label} {s : Attached} {shown : List TranscriptEntry}

/-- The last bytes of the process, a part of the line that was in progress. -/
theorem Sound.gone (hS : Sound J c ansi es s shown) (hlive : s.gone = false) {last : List UInt8}
    (hlast : last = [] ∨ ∃ m, (s.host.workers c).message = some m ∧ last <+: m.frame J) :
    Sound J c ansi es { s with gone := true, sent := s.sent ++ last } shown := by
  obtain ⟨ls, hF⟩ := hS.feeding
  refine ⟨⟨ls, hF⟩, hS.stdout, hS.owed, fun hpoint => ?_, fun h => ⟨rfl, (hS.ended h).2⟩,
    fun _ => .inl rfl, hS.finished⟩
  obtain ⟨greeted, tail, torn, hA⟩ := hS.alive hpoint
  rcases hlast with rfl | ⟨m, hm, hlast⟩
  · exact ⟨greeted, tail, torn, hA.keep
      (k := { s.toLink with gone := true, sent := s.sent ++ [] }) rfl (List.append_nil _) rfl
      hA.place hA.subscribed (hA.tail.keep (fun _ => rfl) (fun _ => rfl) id (fun _ h => h) rfl)
      rfl⟩
  · have hput : s.closed c = false → Tail c ansi es
        { s.toLink with gone := true, sent := s.sent ++ last } greeted (some m) →
        ∃ greeted' tail' torn', Alive J c ansi es
          { s with gone := true, sent := s.sent ++ last } shown greeted' tail' torn' := by
      intro hopen htail
      obtain rfl := hA.tail.eq_none hopen
      exact ⟨greeted, some m, last, hA.place, hA.subscribed, hA.asked, hA.quiet, htail, hA.fresh,
        hA.carries.part rfl rfl hlast⟩
    have hplace := hA.place
    generalize hv : s.host.workers c = v at hm hplace
    cases v with
    | openingPong =>
        cases hm
        exact hput (by simp [Link.closed, hlive, hv, Worker.isExited]) (.pong rfl hplace.2)
    | sending receiver entry =>
        cases hm
        exact hput (by simp [Link.closed, hlive, hv, Worker.isExited])
          (.event rfl hplace (.inl rfl) (owed_inHand hF hA.subscribed hv))
    | pong => cases hplace
    | reject => cases hplace
    | spawnFailed => cases hplace
    | running => cases hplace
    | _ => cases hm

end Gone

/-! ## The steps of the client -/

section Client

variable {J} {message : String → String} {silent : Bool} {c : Nat} {ansi : Bool}
  {es : List Rexec.Label} {s : Attached} {shown : List TranscriptEntry} {greeted : Bool}
  {last : Option Message} {torn : List UInt8} {timed : Bool} {text : String} {n : Nat}

/-- The client reads the Pong. -/
theorem Alive.greet (hJ : J.Strict) (hA : Alive J c ansi es s shown greeted last torn)
    (hpoint : s.point = .greeting) (htakes : s.toLink.Takes c timed (.line text) n)
    (hpong : J.decode ControlResponse.ofJson (trimEnd text) = some .pong) :
    Alive J c ansi es { s with read := s.read + n, point := .attaching } shown greeted last
      torn := by
  have hcarries := hA.carries
  have hasked := hA.asked
  rw [hpoint] at hcarries hasked
  refine ⟨hA.place, hA.subscribed, hasked, hA.quiet,
    hA.tail.keep id id id (fun _ h => h) rfl, fun h => (by cases h), ?_⟩
  rw [hA.fresh hpoint]
  cases hcarries.take hJ htakes with
  | next m hm htext hnext =>
      have hgot : m = .controlResponse .pong := by
        rcases hm with hm | ⟨hlast, hnil⟩
        · cases greeted with
          | true => exact (List.cons_prefix_cons.mp hm).1
          | false =>
              rw [messages, hA.quiet rfl] at hm
              exact absurd (List.prefix_nil.mp hm) (List.cons_ne_nil _ _)
        · subst hlast
          cases hA.tail with
          | pong => rfl
          | event _ hg =>
              rw [hg] at hnil
              cases hnil
      rw [hgot] at hnext
      exact hnext
  | broken m _ _ hnone =>
      rw [JsonText.decode, hnone] at hpong
      cases hpong

theorem decode_event (hJ : J.Lawful) {entry : TranscriptEntry}
    (htext : trimEnd text = J.toString (event entry).toJson) :
    J.decode HostEvent.ofJson (trimEnd text) = some (.transcript entry) := by
  rw [htext]
  exact (decode_toString hJ (event entry)).trans (HostEvent.ofJson_toJson _)

theorem event_injective : Function.Injective event := by
  intro a b h
  cases h
  rfl

theorem exists_next {entries : List TranscriptEntry} {m : Message}
    (h : shown.map event ++ [m] <+: entries.map event) :
    ∃ entry, m = event entry ∧ shown ++ [entry] <+: entries := by
  obtain ⟨front, hfront, hmap⟩ := List.prefix_map_iff.mp h
  obtain ⟨before, behind, rfl, hbefore, hbehind⟩ := List.map_eq_append_iff.mp hmap.symm
  obtain ⟨entry, rfl, hm⟩ := List.map_eq_singleton_iff.mp hbehind
  obtain rfl := List.map_injective_iff.mpr event_injective hbefore
  exact ⟨entry, hm.symm, hfront⟩

/-- A client that has got the Pong has got events only. -/
theorem Alive.greeted_of_got (hA : Alive J c ansi es s shown greeted last torn)
    {ms : List Message} (h : .controlResponse .pong :: ms <+: messages greeted (written c es)) :
    greeted = true ∧ ms <+: (written c es).map event := by
  cases greeted with
  | true => exact ⟨rfl, (List.cons_prefix_cons.mp h).2⟩
  | false =>
      rw [messages, hA.quiet rfl] at h
      exact absurd (List.prefix_nil.mp h) (List.cons_ne_nil _ _)

/-- The client reads a line in its loop: it is that of the entry that comes next. -/
theorem Alive.follow (hJ : J.Strict) (hA : Alive J c ansi es s shown greeted last torn)
    (hpoint : s.point = .following) (howed : Owed c ansi es (written c es))
    (htakes : s.toLink.Takes c timed (.line text) n) :
    (∃ entry, Owed c ansi es (shown ++ [entry]) ∧
      J.decode HostEvent.ofJson (trimEnd text) = some (.transcript entry) ∧
      ∀ out, Alive J c ansi es { s with read := s.read + n, stdout := out } (shown ++ [entry])
        greeted last torn) ∨
    J.decode HostEvent.ofJson (trimEnd text) = none ∧ (s.gone = true ∨ WriteFailed c es) := by
  have hcarries := hA.carries
  have hgot : ∀ entries, gotAt s.point entries = .controlResponse .pong :: entries.map event :=
    fun entries => by rw [hpoint]; rfl
  rw [hgot] at hcarries
  -- the message whose line is broken off is an event, too
  have hlast : ∀ m, last = some m →
      .controlResponse .pong :: shown.map event = messages greeted (written c es) →
      ∃ entry, m = event entry ∧ Owed c ansi es (shown ++ [entry]) ∧
        (s.gone = true ∨ WriteFailed c es) := by
    intro m hm hall
    obtain ⟨hgreeted, -⟩ := hA.greeted_of_got ⟨[], by rw [List.append_nil, hall]⟩
    rw [hgreeted] at hall
    obtain rfl := List.map_injective_iff.mpr event_injective (List.cons.inj hall).2
    cases hA.tail with
    | whole => cases hm
    | pong _ hg => cases hg.symm.trans hgreeted
    | @event entry _ _ hcause hentry =>
        cases hm
        exact ⟨entry, rfl, hentry, hcause⟩
  cases hcarries.take hJ htakes with
  | next m hm htext hnext =>
      left
      obtain ⟨entry, rfl, hentry⟩ : ∃ entry, m = event entry ∧
          Owed c ansi es (shown ++ [entry]) := by
        rcases hm with hm | ⟨hm, hall⟩
        · obtain ⟨entry, hentry, hfront⟩ := exists_next (hA.greeted_of_got hm).2
          exact ⟨entry, hentry, howed.of_isPrefix hfront⟩
        · obtain ⟨entry, hentry, hall, -⟩ := hlast m hm hall
          exact ⟨entry, hentry, hall⟩
      refine ⟨entry, hentry, decode_event hJ.toLawful htext, fun out => ⟨hA.place, hA.subscribed,
        hA.asked, hA.quiet, hA.tail.keep id id id (fun _ h => h) rfl, fun h => ?_, ?_⟩⟩
      · cases hpoint.symm.trans h
      · show Link.Carries J _ _ _ _ (gotAt s.point (shown ++ [entry]))
        rw [hgot, List.map_append]
        exact hnext
  | broken m hm hall hnone =>
      obtain ⟨-, -, -, hcause⟩ := hlast m hm hall
      rw [JsonText.decode, hnone]
      exact .inr ⟨rfl, hcause⟩

/-- The client returns, and not because of what it has read. -/
theorem Sound.leave (hS : Sound J c ansi es s shown) {exit : AttachExit}
    (hexit : exit ≠ .ended) (hinvalid : exit ≠ .invalidResponse) (n : Nat) :
    Sound J c ansi es { s with read := s.read + n, point := .returned exit } shown := by
  refine ⟨hS.feeding, hS.stdout, hS.owed, fun h => (by cases h), fun h => ?_, fun h => ?_,
    fun h => ?_⟩
  · cases h
    exact absurd rfl hexit
  · cases h
    exact absurd rfl hinvalid
  · rcases h with h | h
    · cases h
    · cases h
      exact absurd rfl hexit

theorem Sound.greet (hJ : J.Strict) (hS : Sound J c ansi es s shown)
    (hpoint : s.point = .greeting) (htakes : s.toLink.Takes c timed (.line text) n)
    (hpong : J.decode ControlResponse.ofJson (trimEnd text) = some .pong) :
    Sound J c ansi es { s with read := s.read + n, point := .attaching } shown := by
  have halive : s.point.isReturned = false := by
    rw [hpoint]
    rfl
  obtain ⟨greeted, last, torn, hA⟩ := hS.alive halive
  exact ⟨hS.feeding, hS.stdout, hS.owed,
    fun _ => ⟨greeted, last, torn, hA.greet hJ hpoint htakes hpong⟩,
    fun h => (by cases h), fun h => (by cases h), fun _ => hS.finished (.inl halive)⟩

theorem Sound.attach (hS : Sound J c ansi es s shown) (hpoint : s.point = .attaching) :
    Sound J c ansi es { s with asked := s.asked ++ [attachLine J ansi], point := .following }
      shown := by
  have halive : s.point.isReturned = false := by
    rw [hpoint]
    rfl
  refine ⟨hS.feeding, hS.stdout, hS.owed, fun _ => ?_, fun h => (by cases h),
    fun h => (by cases h), fun _ => hS.finished (.inl halive)⟩
  obtain ⟨greeted, last, torn, hA⟩ := hS.alive halive
  have hcarries := hA.carries
  rw [hpoint] at hcarries
  refine ⟨greeted, last, torn, hA.place, hA.subscribed, ?_, hA.quiet,
    hA.tail.keep id id id (fun _ h => h) rfl, fun h => (by cases h), hcarries.keep rfl rfl⟩
  show s.asked ++ _ = _
  rw [hA.asked, hpoint]
  rfl

/-- The client renders an event. -/
theorem Sound.event (hJ : J.Strict) (hS : Sound J c ansi es s shown)
    (hpoint : s.point = .following) (htakes : s.toLink.Takes c timed (.line text) n)
    {entry : TranscriptEntry}
    (hevent : J.decode HostEvent.ofJson (trimEnd text) = some (.transcript entry)) :
    Sound J c ansi es
      { s with read := s.read + n, stdout := s.stdout ++ Client.renderEntryTo entry ansi }
      (shown ++ [entry]) := by
  have halive : s.point.isReturned = false := by
    rw [hpoint]
    rfl
  obtain ⟨ls, hF⟩ := hS.feeding
  obtain ⟨greeted, last, torn, hA⟩ := hS.alive halive
  rcases hA.follow hJ hpoint (owed_written hF hA.subscribed) htakes with
    ⟨entry', howed, hdecode, hA'⟩ | ⟨hnone, -⟩
  · cases hdecode.symm.trans hevent
    refine ⟨⟨ls, hF⟩, ?_, howed, fun _ => ⟨greeted, last, torn, hA' _⟩, fun h => ?_, fun h => ?_,
      fun _ => hS.finished (.inl halive)⟩
    · rw [render_concat, ← hS.stdout]
    · cases hpoint.symm.trans h
    · cases hpoint.symm.trans h
  · cases hnone.symm.trans hevent

/-- The client reads something else. -/
theorem Sound.refuse (hJ : J.Strict) (hS : Sound J c ansi es s shown)
    (hpoint : s.point = .following) (htakes : s.toLink.Takes c timed (.line text) n)
    (hevent : J.decode HostEvent.ofJson (trimEnd text) = none) :
    Sound J c ansi es { s with read := s.read + n, point := .returned .invalidResponse }
      shown := by
  obtain ⟨ls, hF⟩ := hS.feeding
  obtain ⟨greeted, last, torn, hA⟩ := hS.alive (by rw [hpoint]; rfl)
  refine ⟨⟨ls, hF⟩, hS.stdout, hS.owed, fun h => (by cases h), fun h => (by cases h),
    fun _ => ?_, fun h => ?_⟩
  · rcases hA.follow hJ hpoint (owed_written hF hA.subscribed) htakes with
      ⟨entry, -, hdecode, -⟩ | ⟨-, hcause⟩
    · cases hdecode.symm.trans hevent
    · exact hcause
  · rcases h with h | h <;> cases h

/-- The connection is closed, and the client has read all of it. -/
theorem Sound.eof (hJ : J.Strict) (hS : Sound J c ansi es s shown) (hpoint : s.point = .following)
    (htakes : s.toLink.Takes c timed .eof n) :
    Sound J c ansi es { s with point := .returned .ended } shown := by
  have halive : s.point.isReturned = false := by
    rw [hpoint]
    rfl
  obtain ⟨greeted, last, torn, hA⟩ := hS.alive halive
  obtain ⟨hclosed, hall⟩ := hA.carries.eof hJ.toLawful htakes
  refine ⟨hS.feeding, hS.stdout, hS.owed, fun h => (by cases h), fun _ => ⟨hclosed, ?_⟩,
    fun h => (by cases h), fun _ => hS.finished (.inl halive)⟩
  cases greeted with
  | true =>
      rw [hpoint] at hall
      obtain ⟨front, hfront, hmap⟩ := List.prefix_map_iff.mp (List.cons_prefix_cons.mp hall).2
      exact List.map_injective_iff.mpr event_injective hmap ▸ hfront
  | false =>
      rw [hA.quiet rfl]
      exact List.nil_prefix

end Client

/-! ## Every run -/

section Run

variable {J : JsonText} {message : String → String} {silent : Bool} {c : Nat} {ansi : Bool}
  {es : List Rexec.Label} {s t : Attached} {shown : List TranscriptEntry} {l : Label}
  {ls : List Label}

theorem Sound.step (hJ : J.Strict) (hping : J.line ClientAction.ping.toJson = pingLine)
    (hS : Sound J c ansi es s shown)
    (hstep : s.step J (.ofJson J message silent) c ansi l = some t) :
    ∃ shown', Sound J c ansi (es ++ hosts [l]) t shown' := by
  have hnone : ∀ {t shown}, Sound J c ansi es t shown → Sound J c ansi (es ++ []) t shown :=
    fun h => (List.append_nil es).symm ▸ h
  cases step_cases J (.ofJson J message silent) c ansi hstep with
  | net hnet =>
      refine ⟨shown, ?_⟩
      cases hnet with
      | @host l cut h' heard hlive hhost hheard =>
          by_cases hl : ∃ e, l = .worker c e
          · obtain ⟨e, rfl⟩ := hl
            exact hS.own hJ hping hlive hhost hheard
          · have hl' : ∀ e, l ≠ .worker c e := fun e he => hl ⟨e, he⟩
            have hS' := hS.elsewhere hhost hl'
            rw [Link.hears_elsewhere hl'] at hheard
            cases hheard
            rw [Link.puts_elsewhere J hl', List.append_nil]
            exact hS'
      | gone hlive hlast => exact hnone (hS.gone hlive hlast)
  | leave hl hpoint hexit hinvalid =>
      rw [hl]
      exact ⟨shown, hnone (hS.leave hexit hinvalid _)⟩
  | greeted hpoint htakes hpong => exact ⟨shown, hnone (hS.greet hJ hpoint htakes hpong)⟩
  | attach hpoint => exact ⟨shown, hnone (hS.attach hpoint)⟩
  | event hpoint htakes hevent => exact ⟨_, hnone (hS.event hJ hpoint htakes hevent)⟩
  | invalid hpoint htakes hevent => exact ⟨shown, hnone (hS.refuse hJ hpoint htakes hevent)⟩
  | ended hpoint htakes => exact ⟨shown, hnone (hS.eof hJ hpoint htakes)⟩

theorem sound_run (hJ : J.Strict) (hping : J.line ClientAction.ping.toJson = pingLine)
    (hrun : Machine.run (step J (.ofJson J message silent) c ansi) init ls = some s) :
    ∃ shown, Sound J c ansi (hosts ls) s shown := by
  refine run_induction (P := fun ls s => ∃ shown, Sound J c ansi (hosts ls) s shown)
    ⟨[], sound_init J c ansi⟩ ?_ hrun
  rintro ls s l t - ⟨shown, hS⟩ hstep
  have hhosts : hosts (ls ++ [l]) = hosts ls ++ hosts [l] := List.filterMap_append
  rw [hhosts]
  exact hS.step hJ hping hstep

/-- The host of the two has a run of its own. -/
theorem host_run {cfg : Config}
    (hrun : Machine.run (Attached.step J cfg c ansi) init ls = some s) :
    Machine.run (Host.step cfg) Host.init (hosts ls) = some s.host := by
  refine run_induction (P := fun ls s =>
    Machine.run (Host.step cfg) Host.init (hosts ls) = some s.host) rfl ?_ hrun
  rintro ls s l t - ih hstep
  have hhosts : hosts (ls ++ [l]) = hosts ls ++ hosts [l] := List.filterMap_append
  rw [hhosts]
  refine run_of_append _ ih ?_
  cases step_cases J cfg c ansi hstep with
  | net hnet =>
      cases hnet with
      | host _ hhost _ => exact run_singleton _ hhost
      | gone => rfl
  | leave hl => rw [hl]; rfl
  | _ => rfl

/-- What a client that has read all of an orderly closed connection has shown. -/
theorem Sound.complete (hS : Sound J c ansi es s shown) (hpoint : s.point = .returned .ended)
    (hlive : s.gone = false) (hwrites : ¬ WriteFailed c es) {front rest : List Rexec.Label}
    {i : Nat} (hes : es = front ++ .worker c (.subscribe ansi i) :: rest) :
    rest.any Label.closes = true ∧ shown = (entitled front rest).map fun record =>
      if ansi then { record.entry with output := record.rawOutput } else record.entry := by
  obtain ⟨hclosed, hall⟩ := hS.ended hpoint
  have hexited : s.host.workers c = .exited := by
    rw [Link.closed, hlive, Bool.false_or] at hclosed
    cases hv : s.host.workers c with
    | exited => rfl
    | _ =>
        rw [hv] at hclosed
        cases hclosed
  have hfinished := (hS.finished (.inr hpoint) hexited).resolve_left hwrites
  obtain ⟨hcloses, hwritten⟩ := hfinished front i rest hes
  refine ⟨hcloses, ?_⟩
  rw [← hwritten]
  rcases hS.owed with rfl | ⟨front', i', rest', hes', howed⟩
  · exact (List.prefix_nil.mp hall).symm
  · rw [← (hfinished front' i' rest' hes').2] at howed
    exact howed.eq_of_length_le hall.length_le

/--
An attached client shows the entries its subscription entitles it to, rendered,
in order and from the first on; the host may fail to write, or end in the middle
of a line.  It returns 0 only when the connection is closed and every line it was
sent is shown; if the host did not break off, that is all it was entitled to.
-/
theorem attach_shows (hJ : J.Strict) (hping : J.line ClientAction.ping.toJson = pingLine)
    (hrun : Machine.run (step J (.ofJson J message silent) c ansi) init ls = some s) :
    ∃ shown, s.stdout = render ansi shown ∧ Owed c ansi (hosts ls) shown ∧
      (s.point = .returned .ended → s.closed c = true ∧ written c (hosts ls) <+: shown ∧
        (s.gone = false → ¬ WriteFailed c (hosts ls) → ∀ front i rest,
          hosts ls = front ++ .worker c (.subscribe ansi i) :: rest →
            rest.any Label.closes = true ∧
              shown = (entitled front rest).map fun record =>
                if ansi then { record.entry with output := record.rawOutput }
                else record.entry)) ∧
      (s.point = .returned .invalidResponse → s.gone = true ∨ WriteFailed c (hosts ls)) := by
  obtain ⟨shown, hS⟩ := sound_run hJ hping hrun
  refine ⟨shown, hS.stdout, hS.owed, fun hpoint => ?_, hS.invalid⟩
  obtain ⟨hclosed, hwritten⟩ := hS.ended hpoint
  exact ⟨hclosed, hwritten, fun hlive hwrites front i rest hes =>
    hS.complete hpoint hlive hwrites hes⟩

/-- What a plain client is owed is a block of the transcript. -/
theorem Owed.block {entries : List TranscriptEntry} (h : Owed c false es entries) :
    entries <:+: (journal es).map (·.entry) := by
  rcases h with rfl | ⟨front, i, rest, rfl, howed⟩
  · exact List.nil_infix
  · simp only [Bool.false_eq_true, if_false] at howed
    have hbefore : journal (front ++ beforeClose rest) <+: journal (front ++ rest) := by
      obtain ⟨behind, hbehind⟩ := List.takeWhile_prefix (l := rest) fun l => !l.closes
      conv_rhs => rw [← hbehind, ← List.append_assoc, journal_append]
      exact List.prefix_append _ _
    rw [(journal_skip rfl front rest).1]
    refine howed.isInfix.trans (List.IsInfix.map _ ?_)
    exact (List.drop_suffix _ _).isInfix.trans hbefore.isInfix

/--
What a plain client shows is a contiguous part of what `print` shows of the
transcript file, the appends of the host having succeeded.
-/
theorem plain_attach_shows_transcript (hJ : J.Strict)
    (hping : J.line ClientAction.ping.toJson = pingLine)
    (hrun : Machine.run (step J (.ofJson J message silent) c false) init ls = some s)
    {capacity : Nat} {calls : List (TranscriptEntry × Faults)}
    (hcalls : calls.map Prod.fst = s.host.transcript.appended)
    (hok : (TranscriptWriter.appendAll J capacity .empty calls).2 = calls.map Prod.fst) :
    s.stdout <:+: render false
      (renderUntilEof J (TranscriptWriter.appendAll J capacity .empty calls).1.device 0).1 := by
  obtain ⟨shown, hS⟩ := sound_run hJ hping hrun
  obtain ⟨-, -, hprint⟩ := journal_round_trip hJ.toLawful hok
  rw [hprint, hcalls, appended_journal (host_run hrun), hS.stdout]
  obtain ⟨before, behind, hblock⟩ := hS.owed.block
  refine ⟨render false before, render false behind, ?_⟩
  rw [← hblock]
  simp [render]

end Run

/-! ## A sample run -/

section Sample

variable {J : JsonText} {cfg : Config} {c : Nat} {ansi : Bool} {s : Attached}

/-- What happens to the link happens to the two. -/
theorem run_net {es : List Link.Label} {k : Link}
    (hrun : Machine.run (Link.step J cfg c s.point.peer) s.toLink es = some k) :
    Machine.run (step J cfg c ansi) s (es.map .net) = some { s with toLink := k } := by
  refine run_map (fun k => { s with toLink := k }) Label.net (fun _ _ _ hm => ?_) hrun
  simp only [step, hm, Option.map_some]

theorem step_greet (hJ : J.Lawful) (hpoint : s.point = .greeting) {rest : List UInt8}
    (hunread : s.unread = Message.frame J (.controlResponse .pong) ++ rest) :
    s.step J cfg c ansi (.greet (.line (J.line ControlResponse.pong.toJson))) =
      some { s with
        read := s.read + (Message.frame J (.controlResponse .pong)).length
        point := .attaching } := by
  have htakes : s.toLink.takes c true (.line (J.line ControlResponse.pong.toJson)) =
      some (Message.frame J (.controlResponse .pong)).length := Link.takes_frame hJ hunread
  simp only [step, hpoint, if_true, htakes, Option.map_some, decode_pong hJ]

theorem step_follow (hJ : J.Lawful) (hpoint : s.point = .following) {entry : TranscriptEntry}
    {rest : List UInt8} (hunread : s.unread = (event entry).frame J ++ rest) :
    s.step J cfg c ansi (.follow (.line (J.line (event entry).toJson))) =
      some { s with
        read := s.read + ((event entry).frame J).length
        stdout := s.stdout ++ Client.renderEntryTo entry ansi } := by
  have htakes : s.toLink.takes c false (.line (J.line (event entry).toJson)) =
      some ((event entry).frame J).length := Link.takes_frame hJ hunread
  have hdecode : J.decode HostEvent.ofJson (trimEnd (J.line (event entry).toJson)) =
      some (.transcript entry) := decode_event hJ (Message.trimEnd_line hJ (event entry))
  simp only [step, hpoint, if_true, htakes, Option.map_some, hdecode]

theorem step_eof (hpoint : s.point = .following) (hclosed : s.closed c = true)
    (hunread : s.unread = []) :
    s.step J cfg c ansi (.follow .eof) = some { s with point := .returned .ended } := by
  simp [step, hpoint, Link.takes, hclosed, hunread]

/-- The entry of the sample command, whose spawn fails. -/
def sampleShown : TranscriptEntry :=
  spawnFailedEntry sampleRequest "t" sampleError

def sampleGreeted : Attached :=
  { init with
    toLink := { Link.sampleOpened with
      read := 0 + (Message.frame Json.compact (.controlResponse .pong)).length }
    point := .attaching }

def sampleAsked : Attached :=
  { sampleGreeted with
    asked := sampleGreeted.asked ++ [attachLine Json.compact false], point := .following }

/-- Where the host stands behind a part of the run. -/
def sampleHost (h : Host) (es : List Rexec.Label) : Host :=
  (Machine.run (Host.step (.compact false)) h es).getD h

theorem run_sampleHost {h : Host} {es : List Rexec.Label}
    (hsome : (Machine.run (Host.step (.compact false)) h es).isSome = true) :
    Machine.run (Host.step (.compact false)) h es = some (sampleHost h es) := by
  obtain ⟨h', hrun⟩ := Option.isSome_iff_exists.mp hsome
  rw [sampleHost, hrun, Option.getD_some]

def sampleSubscribed : Link :=
  { sampleAsked.toLink.reading 0 (.attaching false) with
    host := sampleHost (sampleAsked.toLink.reading 0 (.attaching false)).host
      [.worker 0 (.subscribe false 0)] }

/-- The other client has its answer, and its worker submits. -/
def sampleSubmitted : Link :=
  { sampleSubscribed with
    host := sampleHost
      { sampleSubscribed.host with
        nextSeq := 1, accepted := 2
        workers := Function.update sampleSubscribed.host.workers 1
          (.submitting 0 sampleShown (spawnFailedMessage sampleError)) }
      [.worker 1 (failedSubmit 0)] }

def sampleHanded : Link :=
  { sampleSubmitted with host := sampleHost sampleSubmitted.host [.worker 0 (.recv sampleShown)] }

def sampleOther : List Rexec.Label :=
  failedCommand 1 0 true ++ [Label.worker 1 (failedSubmit 0)]

/-- The steps from the Attach to the event of the entry. -/
def sampleServe : List Link.Label :=
  .host (.worker 0 (.readLine (.line (attachLine Json.compact false)))) 0 ::
  .host (.worker 0 (.subscribe false 0)) 0 ::
  (sampleOther.map (.host · 0) ++
    [.host (.worker 0 (.recv sampleShown)) 0, .host (.worker 0 (.writeEvent sampleShown true)) 0])

def sampleServed : Link :=
  sampleHanded.writing Json.compact 0 (.attached 0) (event sampleShown)

theorem run_sampleServe :
    Machine.run (Link.step Json.compact (.compact false) 0 .present) sampleAsked.toLink
      sampleServe = some sampleServed := by
  have hattach : (Config.compact false).onLine false (.line (attachLine Json.compact false)) =
      .attaching false := onLine_attach Json.compact_lawful
  have hfailed := @run_failedCommand false sampleSubscribed.host true rfl rfl rfl
  have hsubmit : Machine.run (Host.step (.compact false)) sampleSubscribed.host sampleOther =
      some sampleSubmitted.host := run_of_append _ hfailed (run_sampleHost rfl)
  have hothers : ∀ l ∈ sampleOther, ∀ e, l ≠ .worker 0 e := by
    intro l hl e he
    subst he
    simp [sampleOther, failedCommand, sampleCommand] at hl
  refine run_of_cons _ (Link.step_readLine rfl (by decide) Nat.zero_lt_one (by decide) rfl
    (congrArg some hattach)) ?_
  refine run_of_cons _ (m := sampleSubscribed) rfl ?_
  refine run_of_append _ (Link.run_elsewhere rfl hothers hsubmit) ?_
  refine run_of_cons _ (m := sampleHanded) rfl ?_
  exact run_singleton _ (Link.step_write rfl (by decide) (by decide) rfl rfl rfl)

def sampleFollowing : Attached :=
  { sampleAsked with toLink := sampleServed }

/-- The client has shown the entry. -/
def sampleFollowed : Attached :=
  { sampleFollowing with
    read := sampleFollowing.read + ((event sampleShown).frame Json.compact).length
    stdout := sampleFollowing.stdout ++ Client.renderEntryTo sampleShown false }

def sampleClose : List Rexec.Label :=
  [.signal, .leave, .closeSubscriptions]

/-- The host has closed the subscriptions. -/
def sampleClosed : Link :=
  { sampleFollowed.toLink with host := sampleHost sampleFollowed.host sampleClose }

def sampleDetached : Attached :=
  { sampleFollowed with
    host := { sampleClosed.host with
      transcript := sampleClosed.host.transcript.dropReceiver 0
      workers := Function.update sampleClosed.host.workers 0 .exited } }

/-- The host is stopped. -/
def sampleStop : List Link.Label :=
  sampleClose.map (.host · 0) ++ [.host (.worker 0 .detach) 0]

def sampleOver : Attached :=
  { sampleDetached with point := .returned .ended }

/-- A client attaches, a command of another connection fails, and the host is stopped. -/
def sampleAttach : List Label :=
  Link.sampleOpening.map .net ++ .greet (.line (Json.compact.line ControlResponse.pong.toJson)) ::
  .attach true :: (sampleServe.map .net ++
  .follow (.line (Json.compact.line (event sampleShown).toJson)) ::
  (sampleStop.map .net ++ [.follow .eof]))

theorem run_sampleAttach :
    Machine.run (step Json.compact (.compact false) 0 false) init sampleAttach =
      some sampleOver := by
  have hpong : Link.sampleOpened.unread =
      Message.frame Json.compact (.controlResponse .pong) ++ [] := rfl
  have hread : sampleHanded.read = sampleHanded.sent.length := rfl
  have hevent : sampleFollowing.unread = (event sampleShown).frame Json.compact ++ [] := by
    show (sampleHanded.sent ++ (event sampleShown).frame Json.compact).drop sampleHanded.read = _
    rw [hread, List.drop_left, List.append_nil]
  have hclose : Machine.run (Link.step Json.compact (.compact false) 0 .present)
      sampleFollowed.toLink sampleStop = some sampleDetached.toLink := by
    refine run_of_append _ (Link.run_elsewhere rfl ?_ (run_sampleHost rfl)) ?_
    · intro l hl e he
      subst he
      simp [sampleClose] at hl
    · exact run_singleton _ (Link.step_detach (s := sampleClosed) rfl (by decide) (by decide)
        rfl rfl)
  refine run_of_append _ (run_net (s := init) (Link.run_sampleOpening false)) ?_
  refine run_of_cons _ (step_greet (s := { init with toLink := Link.sampleOpened })
    Json.compact_lawful rfl hpong) ?_
  refine run_of_cons _ (show step _ _ _ _ sampleGreeted (.attach true) = some sampleAsked from rfl)
    ?_
  refine run_of_append _ (run_net (s := sampleAsked) run_sampleServe) ?_
  refine run_of_cons _ (step_follow (s := sampleFollowing) Json.compact_lawful rfl hevent) ?_
  refine run_of_append _ (run_net (s := sampleFollowed) hclose) ?_
  refine run_singleton _ (step_eof (s := sampleDetached) rfl rfl ?_)
  simp only [Link.unread, sampleDetached, sampleFollowed, sampleFollowing, sampleServed,
    Link.writing, hread, ← List.length_append, List.drop_length]

theorem attach_shows_sampleAttach :
    ∃ shown, sampleOver.stdout = render false shown ∧
      written 0 (hosts sampleAttach) <+: shown := by
  obtain ⟨shown, hstdout, -, hended, -⟩ :=
    attach_shows Json.compact_strict rfl run_sampleAttach
  exact ⟨shown, hstdout, (hended rfl).2.1⟩

/-- The sample client shows the only entry of the transcript. -/
theorem plain_attach_shows_sampleAttach :
    sampleOver.stdout <:+: render false (renderUntilEof Json.compact
      (TranscriptWriter.appendAll Json.compact bufWriterCapacity .empty
        ([sampleShown].map fun entry => (entry, Faults.clear))).1.device 0).1 :=
  plain_attach_shows_transcript Json.compact_strict rfl run_sampleAttach rfl (appendAll_clear _)

end Sample

end Attached

end Rexec
