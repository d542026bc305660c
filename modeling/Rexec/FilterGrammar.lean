import Rexec.PtyBuffer
import Mathlib.Tactic

/-!
# The grammar of the output filter

A byte string is read, from left to right, as ordinary bytes, CSI sequences,
control strings and short sequences, and possibly one unfinished sequence at its
end.  The filter keeps the ordinary bytes and drops the rest.

The grammar is stated without the machine: a `Reading` of an input is a list of
well-formed tokens and a tail whose bytes are the input.  A reader that keeps the
bytes of the unfinished sequence finds the one reading there is, and the filter
simulates this reader: its state is a function of the unfinished sequence.
-/

namespace Rexec
namespace FilterGrammar

/-- The bytes that introduce a control string after an ESC. -/
def IsIntroducer (b : UInt8) : Prop :=
  b = 0x5d ∨ b = 0x50 ∨ b = 0x58 ∨ b = 0x5e ∨ b = 0x5f

/-- The bytes that end a CSI sequence. -/
def IsFinal (b : UInt8) : Prop :=
  0x40 ≤ b ∧ b ≤ 0x7e

/-- `b` ends a control string whose body so far is `front`. -/
def Ends (front : List UInt8) (b : UInt8) : Prop :=
  (b = 0x5c ∧ front.getLast? = some 0x1b) ∨
    (b = 0x07 ∧ front.getLast? ≠ some 0x1b)

instance (b : UInt8) : Decidable (IsIntroducer b) :=
  inferInstanceAs (Decidable (_ ∨ _ ∨ _ ∨ _ ∨ _))

instance (b : UInt8) : Decidable (IsFinal b) :=
  inferInstanceAs (Decidable (_ ∧ _))

instance (front : List UInt8) (b : UInt8) : Decidable (Ends front b) :=
  inferInstanceAs (Decidable ((_ ∧ _) ∨ (_ ∧ _)))

/-- No byte of the body ends the control string. -/
def Unterminated (body : List UInt8) : Prop :=
  ∀ front b rest, body = front ++ b :: rest → ¬ Ends front b

theorem unterminated_nil : Unterminated [] := by
  intro front b rest h
  simp at h

theorem unterminated_concat {body : List UInt8} {b : UInt8} :
    Unterminated (body ++ [b]) ↔ Unterminated body ∧ ¬ Ends body b := by
  constructor
  · intro h
    refine ⟨?_, h body b [] rfl⟩
    intro front c rest hbody
    exact h front c (rest ++ [b]) (by simp [hbody])
  · rintro ⟨hbody, hb⟩ front c rest h
    cases rest using List.reverseRecOn with
    | nil =>
        obtain ⟨rfl, rfl⟩ := List.append_inj' h rfl |>.imp id List.singleton_inj.mp
        exact hb
    | append_singleton rest d =>
        rw [← List.cons_append, ← List.append_assoc] at h
        exact hbody front c rest (List.append_inj' h rfl).1

/-- `n + 1` bytes ESC. -/
def escapes (n : Nat) : List UInt8 :=
  List.replicate (n + 1) 0x1b

inductive Token where
  | ordinary (b : UInt8)
  | csi (n : Nat) (params : List UInt8) (final : UInt8)
  | string (n : Nat) (introducer : UInt8) (body : List UInt8) (terminator : UInt8)
  | short (n : Nat) (b : UInt8)
deriving DecidableEq, Repr

/-- What is left at the end of an input. -/
inductive Tail where
  | nothing
  | escapes (n : Nat)
  | csi (n : Nat) (params : List UInt8)
  | string (n : Nat) (introducer : UInt8) (body : List UInt8)
deriving DecidableEq, Repr

namespace Token

def bytes : Token → List UInt8
  | .ordinary b => [b]
  | .csi n params final => escapes n ++ 0x5b :: params ++ [final]
  | .string n introducer body terminator =>
      escapes n ++ introducer :: body ++ [terminator]
  | .short n b => escapes n ++ [b]

def Valid : Token → Prop
  | .ordinary b => b ≠ 0x1b
  | .csi _ params final => (∀ b ∈ params, ¬ IsFinal b) ∧ IsFinal final
  | .string _ introducer body terminator =>
      IsIntroducer introducer ∧ Unterminated body ∧ Ends body terminator
  | .short _ b => b ≠ 0x1b ∧ b ≠ 0x5b ∧ ¬ IsIntroducer b

/-- The ordinary byte a token is, if it is one. -/
def ordinary? : Token → Option UInt8
  | .ordinary b => some b
  | _ => none

end Token

namespace Tail

def bytes : Tail → List UInt8
  | .nothing => []
  | .escapes n => FilterGrammar.escapes n
  | .csi n params => FilterGrammar.escapes n ++ 0x5b :: params
  | .string n introducer body => FilterGrammar.escapes n ++ introducer :: body

def Valid : Tail → Prop
  | .nothing => True
  | .escapes _ => True
  | .csi _ params => ∀ b ∈ params, ¬ IsFinal b
  | .string _ introducer body => IsIntroducer introducer ∧ Unterminated body

/-- The state in which the filter is left. -/
def state : Tail → FilterState
  | .nothing => .normal
  | .escapes _ => .esc
  | .csi _ _ => .csi
  | .string _ _ body =>
      if body.getLast? = some 0x1b then .stringSeqSawEsc else .stringSeq

end Tail

/-- One way to read an input. -/
@[ext] structure Reading (input : List UInt8) where
  tokens : List Token
  tail : Tail
  tokens_valid : ∀ t ∈ tokens, t.Valid
  tail_valid : tail.Valid
  bytes_eq : tokens.flatMap Token.bytes ++ tail.bytes = input

namespace Reading

/-- The ordinary bytes of the input, in order. -/
def ordinary {input : List UInt8} (r : Reading input) : List UInt8 :=
  r.tokens.filterMap Token.ordinary?

end Reading

/-! ### The reader -/

/-- One byte after an unfinished sequence: the token it completes, and what is
unfinished then. -/
def readByte : Tail → UInt8 → Option Token × Tail
  | .nothing, b =>
      if b = 0x1b then (none, .escapes 0) else (some (.ordinary b), .nothing)
  | .escapes n, b =>
      if b = 0x5b then (none, .csi n [])
      else if IsIntroducer b then (none, .string n b [])
      else if b = 0x1b then (none, .escapes (n + 1))
      else (some (.short n b), .nothing)
  | .csi n params, b =>
      if IsFinal b then (some (.csi n params b), .nothing)
      else (none, .csi n (params ++ [b]))
  | .string n introducer body, b =>
      if Ends body b then (some (.string n introducer body b), .nothing)
      else (none, .string n introducer (body ++ [b]))

def readFrom : Tail → List UInt8 → List Token × Tail
  | tail, [] => ([], tail)
  | tail, b :: bs =>
      let one := readByte tail b
      let rest := readFrom one.2 bs
      (one.1.toList ++ rest.1, rest.2)

theorem escapes_succ (n : Nat) : escapes (n + 1) = escapes n ++ [0x1b] := by
  rw [escapes, escapes, List.replicate_succ']

/-- What one byte adds is well formed, and no byte is lost. -/
theorem readByte_sound {tail : Tail} (htail : tail.Valid) (b : UInt8) :
    (∀ t ∈ (readByte tail b).1, t.Valid) ∧ (readByte tail b).2.Valid ∧
      (readByte tail b).1.toList.flatMap Token.bytes ++ (readByte tail b).2.bytes =
        tail.bytes ++ [b] := by
  cases tail with
  | nothing =>
      by_cases h : b = 0x1b
      · simp [readByte, h, Tail.Valid, Tail.bytes, escapes]
      · simp [readByte, h, Token.Valid, Tail.Valid, Tail.bytes, Token.bytes]
  | escapes n =>
      by_cases hcsi : b = 0x5b
      · simp [readByte, hcsi, Tail.Valid, Tail.bytes]
      · by_cases hintro : IsIntroducer b
        · simp [readByte, hcsi, hintro, Tail.Valid, Tail.bytes, unterminated_nil]
        · by_cases hesc : b = 0x1b
          · subst hesc
            rw [readByte, if_neg hcsi, if_neg hintro, if_pos rfl]
            exact ⟨by simp, trivial, escapes_succ n⟩
          · simp [readByte, hcsi, hintro, hesc, Token.Valid, Tail.Valid, Tail.bytes,
              Token.bytes]
  | csi n params =>
      have hparams : ∀ c ∈ params, ¬ IsFinal c := htail
      by_cases hfinal : IsFinal b
      · simp [readByte, hfinal, Token.Valid, Tail.Valid, Tail.bytes, Token.bytes]
        exact hparams
      · simp [readByte, hfinal, Tail.Valid, Tail.bytes]
        rintro c (hc | rfl)
        · exact hparams c hc
        · exact hfinal
  | string n introducer body =>
      obtain ⟨hintro, hbody⟩ : IsIntroducer introducer ∧ Unterminated body := htail
      by_cases hends : Ends body b
      · simp [readByte, hends, hintro, hbody, Token.Valid, Tail.Valid, Tail.bytes,
          Token.bytes]
      · simp [readByte, hends, hintro, hbody, Tail.Valid, Tail.bytes, unterminated_concat]

theorem readFrom_sound {tail : Tail} (htail : tail.Valid) (bs : List UInt8) :
    (∀ t ∈ (readFrom tail bs).1, t.Valid) ∧ (readFrom tail bs).2.Valid ∧
      (readFrom tail bs).1.flatMap Token.bytes ++ (readFrom tail bs).2.bytes =
        tail.bytes ++ bs := by
  induction bs generalizing tail with
  | nil => exact ⟨by simp [readFrom], htail, by simp [readFrom]⟩
  | cons b bs ih =>
      obtain ⟨hone, hnext, hbytes⟩ := readByte_sound htail b
      obtain ⟨hrest, hend, hbytes'⟩ := ih hnext
      refine ⟨?_, hend, ?_⟩
      · intro t ht
        rcases List.mem_append.mp ht with ht | ht
        · exact hone t (Option.mem_toList.mp ht)
        · exact hrest t ht
      · calc (readFrom tail (b :: bs)).1.flatMap Token.bytes ++
              (readFrom tail (b :: bs)).2.bytes
            = (readByte tail b).1.toList.flatMap Token.bytes ++
                ((readFrom (readByte tail b).2 bs).1.flatMap Token.bytes ++
                  (readFrom (readByte tail b).2 bs).2.bytes) := by
              simp [readFrom]
          _ = tail.bytes ++ [b] ++ bs := by
              rw [hbytes', ← List.append_assoc, hbytes]
          _ = tail.bytes ++ b :: bs := by simp

/-- The reading the reader finds. -/
def read (input : List UInt8) : Reading input where
  tokens := (readFrom .nothing input).1
  tail := (readFrom .nothing input).2
  tokens_valid := (readFrom_sound (show Tail.nothing.Valid from trivial) input).1
  tail_valid := (readFrom_sound (show Tail.nothing.Valid from trivial) input).2.1
  bytes_eq := (readFrom_sound (show Tail.nothing.Valid from trivial) input).2.2

/-! ### There is one reading -/

theorem readFrom_append (tail : Tail) (as bs : List UInt8) :
    readFrom tail (as ++ bs) =
      ((readFrom tail as).1 ++ (readFrom (readFrom tail as).2 bs).1,
        (readFrom (readFrom tail as).2 bs).2) := by
  induction as generalizing tail with
  | nil => rfl
  | cons a as ih => simp [readFrom, ih]

theorem readFrom_escapes (n : Nat) :
    readFrom .nothing (escapes n) = ([], .escapes n) := by
  induction n with
  | zero => rfl
  | succ n ih =>
      rw [escapes_succ, readFrom_append, ih]
      rfl

theorem readFrom_params
    {n : Nat} {params qs : List UInt8} (h : ∀ b ∈ qs, ¬ IsFinal b) :
    readFrom (.csi n params) qs = ([], .csi n (params ++ qs)) := by
  induction qs generalizing params with
  | nil => simp [readFrom]
  | cons b qs ih =>
      have hb : ¬ IsFinal b := h b (by simp)
      rw [readFrom, readByte, if_neg hb, ih fun c hc => h c (by simp [hc])]
      simp

theorem readFrom_body
    {n : Nat} {introducer : UInt8} {body qs : List UInt8}
    (h : Unterminated (body ++ qs)) :
    readFrom (.string n introducer body) qs =
      ([], .string n introducer (body ++ qs)) := by
  induction qs generalizing body with
  | nil => simp [readFrom]
  | cons b qs ih =>
      have hb : ¬ Ends body b := h body b qs rfl
      rw [readFrom, readByte, if_neg hb, ih (by simpa using h)]
      simp

theorem IsIntroducer.ne {b : UInt8} (h : IsIntroducer b) : b ≠ 0x5b ∧ b ≠ 0x1b := by
  rcases h with rfl | rfl | rfl | rfl | rfl <;> decide

/-- The bytes of an unfinished sequence are read as this sequence. -/
theorem readFrom_tail {tail : Tail} (h : tail.Valid) :
    readFrom .nothing tail.bytes = ([], tail) := by
  cases tail with
  | nothing => rfl
  | escapes n => exact readFrom_escapes n
  | csi n params =>
      have hparams : ∀ b ∈ params, ¬ IsFinal b := h
      rw [Tail.bytes, readFrom_append, readFrom_escapes, readFrom, readByte, if_pos rfl,
        readFrom_params hparams]
      rfl
  | string n introducer body =>
      obtain ⟨hintro, hbody⟩ : IsIntroducer introducer ∧ Unterminated body := h
      rw [Tail.bytes, readFrom_append, readFrom_escapes, readFrom, readByte,
        if_neg hintro.ne.1, if_pos hintro,
        readFrom_body (show Unterminated ([] ++ body) from hbody)]
      rfl

/-- The unfinished sequence that the last byte of a token completes. -/
def Token.front : Token → Tail × UInt8
  | .ordinary b => (.nothing, b)
  | .csi n params final => (.csi n params, final)
  | .string n introducer body terminator => (.string n introducer body, terminator)
  | .short n b => (.escapes n, b)

theorem Token.bytes_eq_front (t : Token) :
    t.bytes = t.front.1.bytes ++ [t.front.2] := by
  cases t <;> simp [Token.bytes, Token.front, Tail.bytes]

theorem Token.Valid.front {t : Token} (h : t.Valid) :
    t.front.1.Valid ∧ readByte t.front.1 t.front.2 = (some t, .nothing) := by
  cases t with
  | ordinary b => exact ⟨trivial, if_neg h⟩
  | csi n params final => exact ⟨h.1, if_pos h.2⟩
  | string n introducer body terminator => exact ⟨⟨h.1, h.2.1⟩, if_pos h.2.2⟩
  | short n b =>
      obtain ⟨hesc, hcsi, hintro⟩ := h
      refine ⟨trivial, ?_⟩
      rw [Token.front, readByte, if_neg hcsi, if_neg hintro, if_neg hesc]

theorem readFrom_token {t : Token} (h : t.Valid) :
    readFrom .nothing t.bytes = ([t], .nothing) := by
  obtain ⟨hfront, hlast⟩ := h.front
  rw [t.bytes_eq_front, readFrom_append, readFrom_tail hfront, readFrom, hlast]
  rfl

theorem readFrom_tokens {ts : List Token} (h : ∀ t ∈ ts, t.Valid) :
    readFrom .nothing (ts.flatMap Token.bytes) = (ts, .nothing) := by
  induction ts with
  | nil => rfl
  | cons t ts ih =>
      rw [List.flatMap_cons, readFrom_append, readFrom_token (h t (by simp)),
        ih fun u hu => h u (by simp [hu])]
      rfl

/-- Every reading is the one the reader finds. -/
theorem Reading.eq_read {input : List UInt8} (r : Reading input) : r = read input := by
  have hall : readFrom .nothing input = (r.tokens, r.tail) := by
    calc readFrom .nothing input
        = readFrom .nothing (r.tokens.flatMap Token.bytes ++ r.tail.bytes) :=
          congrArg _ r.bytes_eq.symm
      _ = (r.tokens, r.tail) := by
          rw [readFrom_append, readFrom_tokens r.tokens_valid,
            readFrom_tail r.tail_valid, List.append_nil]
  ext1
  · exact (congrArg Prod.fst hall).symm
  · exact (congrArg Prod.snd hall).symm

/-! ### The filter simulates the reader -/

/-- CR becomes LF. -/
def crToLf (b : UInt8) : UInt8 :=
  if b = 0x0d then 0x0a else b

/-- The bytes the filter puts out for a token. -/
def Token.output (t : Token) : List UInt8 :=
  (t.ordinary?.map crToLf).toList

theorem pushByte_normal {b : UInt8} (h : b ≠ 0x1b) :
    FilterState.pushByte .normal b = (.normal, [crToLf b]) := by
  rw [FilterState.pushByte, if_neg h, crToLf]
  split <;> rfl

theorem pushByte_esc (b : UInt8) :
    FilterState.pushByte .esc b =
      if b = 0x5b then (.csi, [])
      else if IsIntroducer b then (.stringSeq, [])
      else if b = 0x1b then (.esc, [])
      else (.normal, []) :=
  rfl

theorem pushByte_csi (b : UInt8) :
    FilterState.pushByte .csi b = if IsFinal b then (.normal, []) else (.csi, []) :=
  rfl

/-- After a byte of a control string the filter remembers just whether it was ESC. -/
theorem Tail.state_concat (n : Nat) (introducer : UInt8) (body : List UInt8) (b : UInt8) :
    (Tail.string n introducer (body ++ [b])).state =
      if b = 0x1b then .stringSeqSawEsc else .stringSeq := by
  simp [Tail.state]

theorem pushByte_state (tail : Tail) (b : UInt8) :
    FilterState.pushByte tail.state b =
      ((readByte tail b).2.state, (readByte tail b).1.toList.flatMap Token.output) := by
  cases tail with
  | nothing =>
      by_cases hesc : b = 0x1b
      · simp [Tail.state, FilterState.pushByte, readByte, hesc]
      · rw [Tail.state, pushByte_normal hesc, readByte, if_neg hesc]
        rfl
  | escapes n =>
      rw [Tail.state, pushByte_esc, readByte]
      split
      · rfl
      · by_cases hintro : IsIntroducer b
        · rw [if_pos hintro, if_pos hintro]
          simp [Tail.state]
        · rw [if_neg hintro, if_neg hintro]
          by_cases hesc : b = 0x1b
          · simp [hesc, Tail.state]
          · simp [hesc, Tail.state, Token.output, Token.ordinary?]
  | csi n params =>
      rw [Tail.state, pushByte_csi, readByte]
      by_cases hfinal : IsFinal b
      · rw [if_pos hfinal, if_pos hfinal]
        simp [Tail.state, Token.output, Token.ordinary?]
      · rw [if_neg hfinal, if_neg hfinal]
        simp [Tail.state]
  | string n introducer body =>
      by_cases hsaw : body.getLast? = some 0x1b
      · have hends : Ends body b ↔ b = 0x5c := by simp [Ends, hsaw]
        rw [Tail.state, if_pos hsaw, FilterState.pushByte, readByte]
        by_cases hb : b = 0x5c
        · rw [if_pos hb, if_pos (hends.mpr hb)]
          simp [Tail.state, Token.output, Token.ordinary?]
        · rw [if_neg hb, if_neg (mt hends.mp hb), Tail.state_concat]
          split <;> rfl
      · have hends : Ends body b ↔ b = 0x07 := by simp [Ends, hsaw]
        rw [Tail.state, if_neg hsaw, FilterState.pushByte, readByte]
        by_cases hb : b = 0x07
        · rw [if_pos hb, if_pos (hends.mpr hb)]
          simp [Tail.state, Token.output, Token.ordinary?]
        · rw [if_neg hb, if_neg (mt hends.mp hb), Tail.state_concat]
          split <;> rfl

theorem push_state (tail : Tail) (bs : List UInt8) :
    tail.state.push bs =
      ((readFrom tail bs).2.state, (readFrom tail bs).1.flatMap Token.output) := by
  induction bs generalizing tail with
  | nil => rfl
  | cons b bs ih =>
      rw [FilterState.push, pushByte_state, ih]
      simp [readFrom]

/-- Several calls of `OutputFilter::push` on one filter. -/
def pushes (s : FilterState) (chunks : List (List UInt8)) :
    FilterState × List UInt8 :=
  chunks.foldl
    (fun r chunk =>
      let pushed := r.1.push chunk
      (pushed.1, r.2 ++ pushed.2))
    (s, [])

/-- Where the input is cut makes no difference. -/
theorem pushes_flatten (s : FilterState) (chunks : List (List UInt8)) :
    pushes s chunks = s.push chunks.flatten := by
  induction chunks using List.reverseRecOn with
  | nil => rfl
  | append_singleton chunks chunk ih =>
      have hlast : pushes s (chunks ++ [chunk]) =
          (((pushes s chunks).1.push chunk).1,
            (pushes s chunks).2 ++ ((pushes s chunks).1.push chunk).2) := by
        simp [pushes]
      rw [hlast, ih, List.flatten_concat, FilterState.push_append]

theorem output_tokens (ts : List Token) :
    ts.flatMap Token.output = (ts.filterMap Token.ordinary?).map crToLf := by
  induction ts with
  | nil => rfl
  | cons t ts ih =>
      rw [List.flatMap_cons, ih]
      cases h : t.ordinary? <;> simp [Token.output, h]

/-- The filter puts out the ordinary bytes of the input, with LF for CR. -/
theorem push_reading {input : List UInt8} (r : Reading input) :
    FilterState.push .normal input = (r.tail.state, r.ordinary.map crToLf) := by
  rw [r.eq_read]
  exact (push_state .nothing input).trans (by rw [output_tokens]; rfl)

/-- No ordinary byte is ESC. -/
theorem Reading.ordinary_ne {input : List UInt8} (r : Reading input) :
    ∀ b ∈ r.ordinary, b ≠ 0x1b := by
  intro b hb
  obtain ⟨t, ht, hordinary⟩ := List.mem_filterMap.mp hb
  have hvalid := r.tokens_valid t ht
  cases t with
  | ordinary c =>
      cases hordinary
      exact hvalid
  | csi n params final => cases hordinary
  | string n introducer body terminator => cases hordinary
  | short n c => cases hordinary

theorem crToLf_clean {b : UInt8} (h : b ≠ 0x1b) :
    crToLf b ≠ 0x1b ∧ crToLf b ≠ 0x0d := by
  unfold crToLf
  split
  · decide
  · exact ⟨h, by assumption⟩

/-- Bytes among which are neither ESC nor CR pass through. -/
theorem push_clean {bs : List UInt8} (h : ∀ b ∈ bs, b ≠ 0x1b ∧ b ≠ 0x0d) :
    FilterState.push .normal bs = (.normal, bs) := by
  induction bs with
  | nil => rfl
  | cons b bs ih =>
      obtain ⟨hesc, hcr⟩ := h b (by simp)
      rw [FilterState.push, pushByte_normal hesc, ih fun c hc => h c (by simp [hc]),
        crToLf, if_neg hcr]
      rfl

/-- Whatever is pushed in whatever chunks has one reading, and the filter's output
is its ordinary bytes with LF for CR; no ESC and no CR is in the output, and the
output filtered again is itself. -/
theorem filter_equals_grammar (chunks : List (List UInt8)) :
    ∃ r : Reading chunks.flatten,
      (∀ r' : Reading chunks.flatten, r' = r) ∧
      (pushes .normal chunks).2 = r.ordinary.map crToLf ∧
      (0x1b ∉ (pushes .normal chunks).2 ∧ 0x0d ∉ (pushes .normal chunks).2) ∧
      ∀ cuts : List (List UInt8), cuts.flatten = (pushes .normal chunks).2 →
        (pushes .normal cuts).2 = (pushes .normal chunks).2 := by
  have hout : (pushes .normal chunks).2 =
      (read chunks.flatten).ordinary.map crToLf := by
    rw [pushes_flatten, push_reading (read chunks.flatten)]
  have hclean : ∀ b ∈ (pushes .normal chunks).2, b ≠ 0x1b ∧ b ≠ 0x0d := by
    intro b hb
    rw [hout] at hb
    obtain ⟨c, hc, rfl⟩ := List.mem_map.mp hb
    exact crToLf_clean ((read chunks.flatten).ordinary_ne c hc)
  refine ⟨read chunks.flatten, fun r' => r'.eq_read, hout, ⟨?_, ?_⟩, ?_⟩
  · exact fun h => (hclean _ h).1 rfl
  · exact fun h => (hclean _ h).2 rfl
  · intro cuts hcuts
    rw [pushes_flatten, hcuts, push_clean hclean]

end FilterGrammar
end Rexec
