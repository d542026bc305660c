import Rexec.FilterGrammar
import Mathlib.Tactic

/-!
# Escape sequences as terminals read them

The 7-bit escape sequences of ECMA-35 and ECMA-48 are CSI sequences, control
strings, and sequences `ESC I* F` with any number of intermediate bytes.  The
filter knows the first two families and, of the third, just the sequences
without intermediate bytes: it leaves a sequence after the first intermediate,
and the rest of the sequence is put out.

The second part is about sequences that are cut off.  From every state outside
a control string a CSI sequence has to be dropped, and from every state inside
one a terminator has to end it; the states `csi` and `stringSeqSawEsc` miss this.
-/

namespace Rexec
namespace EscapeSequences

open FilterGrammar

inductive Terminator where
  | st
  | bel
deriving DecidableEq, Repr

def Terminator.bytes : Terminator → List UInt8
  | .st => [0x1b, 0x5c]
  | .bel => [0x07]

/-- An ordinary byte or a complete escape sequence. -/
inductive Item where
  | ordinary (b : UInt8)
  | csi (params intermediates : List UInt8) (final : UInt8)
  | controlString (introducer : UInt8) (body : List UInt8) (terminator : Terminator)
  | escape (intermediates : List UInt8) (final : UInt8)
deriving DecidableEq, Repr

namespace Item

def bytes : Item → List UInt8
  | .ordinary b => [b]
  | .csi params intermediates final =>
      0x1b :: 0x5b :: (params ++ intermediates ++ [final])
  | .controlString introducer body terminator =>
      0x1b :: introducer :: (body ++ terminator.bytes)
  | .escape intermediates final => 0x1b :: (intermediates ++ [final])

def Valid : Item → Prop
  | .ordinary b => b ≠ 0x1b
  | .csi params intermediates final =>
      (∀ b ∈ params, 0x30 ≤ b ∧ b ≤ 0x3f) ∧
        (∀ b ∈ intermediates, 0x20 ≤ b ∧ b ≤ 0x2f) ∧ (0x40 ≤ final ∧ final ≤ 0x7e)
  | .controlString introducer body terminator =>
      IsIntroducer introducer ∧
        (∀ b ∈ body, (0x08 ≤ b ∧ b ≤ 0x0d) ∨ 0x20 ≤ b) ∧
        (terminator = .bel → introducer = 0x5d)
  | .escape intermediates final =>
      (∀ b ∈ intermediates, 0x20 ≤ b ∧ b ≤ 0x2f) ∧ (0x30 ≤ final ∧ final ≤ 0x7e) ∧
        (intermediates = [] → final ≠ 0x5b ∧ ¬ IsIntroducer final)

instance : ∀ i : Item, Decidable i.Valid
  | .ordinary b => inferInstanceAs (Decidable (b ≠ 0x1b))
  | .csi params intermediates final =>
      @instDecidableAnd _ _ (List.decidableBAll _ params)
        (@instDecidableAnd _ _ (List.decidableBAll _ intermediates)
          (inferInstanceAs (Decidable (0x40 ≤ final ∧ final ≤ 0x7e))))
  | .controlString introducer body terminator =>
      @instDecidableAnd _ _ (inferInstanceAs (Decidable (IsIntroducer introducer)))
        (@instDecidableAnd _ _ (List.decidableBAll _ body)
          (inferInstanceAs (Decidable (terminator = .bel → introducer = 0x5d))))
  | .escape intermediates final =>
      @instDecidableAnd _ _ (List.decidableBAll _ intermediates)
        (inferInstanceAs (Decidable ((0x30 ≤ final ∧ final ≤ 0x7e) ∧
          (intermediates = [] → final ≠ 0x5b ∧ ¬ IsIntroducer final))))

/-- The ordinary byte an item is, if it is one. -/
def ordinary? : Item → Option UInt8
  | .ordinary b => some b
  | _ => none

/-- How the filter reads an item. -/
def tokens : Item → List Token
  | .ordinary b => [.ordinary b]
  | .csi params intermediates final => [.csi 0 (params ++ intermediates) final]
  | .controlString introducer body .st => [.string 0 introducer (body ++ [0x1b]) 0x5c]
  | .controlString introducer body .bel => [.string 0 introducer body 0x07]
  | .escape [] final => [.short 0 final]
  | .escape (b :: intermediates) final =>
      .short 0 b :: (intermediates ++ [final]).map .ordinary

/-- The bytes of an escape sequence that the filter takes for ordinary ones. -/
def leaked : Item → List UInt8
  | .escape (_ :: intermediates) final => intermediates ++ [final]
  | _ => []

end Item

def stream (items : List Item) : List UInt8 :=
  items.flatMap Item.bytes

def ordinary (items : List Item) : List UInt8 :=
  items.filterMap Item.ordinary?

/-! ### How the filter reads a stream -/

/-- The body of a control string holds no byte that could end it. -/
theorem unterminated_of_body
    {body : List UInt8} (h : ∀ b ∈ body, (0x08 ≤ b ∧ b ≤ 0x0d) ∨ 0x20 ≤ b) :
    Unterminated body ∧ body.getLast? ≠ some 0x1b := by
  have hesc : ∀ front : List UInt8, (∀ b ∈ front, b ∈ body) →
      front.getLast? ≠ some 0x1b := by
    intro front hsub hlast
    have hb := h _ (hsub _ (List.mem_of_getLast? hlast))
    exact absurd hb (by decide)
  refine ⟨?_, hesc body fun b hb => hb⟩
  rintro front b rest rfl (⟨rfl, hlast⟩ | ⟨rfl, hlast⟩)
  · exact hesc front (fun c hc => by simp [hc]) hlast
  · exact absurd (h 0x07 (by simp)) (by decide)

theorem not_final_of_lt {b : UInt8} (h : b ≤ 0x3f) : ¬ IsFinal b := by
  rintro ⟨hb, -⟩
  exact absurd (UInt8.le_trans hb h) (by decide)

theorem not_introducer_of_intermediate {b : UInt8} (h : b ≤ 0x2f) :
    b ≠ 0x5b ∧ ¬ IsIntroducer b := by
  constructor
  · rintro rfl
    exact absurd h (by decide)
  · rintro (rfl | rfl | rfl | rfl | rfl) <;> exact absurd h (by decide)

theorem ne_esc_of_le {b : UInt8} (h : 0x20 ≤ b) : b ≠ 0x1b := by
  rintro rfl
  exact absurd h (by decide)

theorem flatMap_ordinary (bs : List UInt8) :
    (bs.map Token.ordinary).flatMap Token.bytes = bs := by
  induction bs with
  | nil => rfl
  | cons b bs ih => rw [List.map_cons, List.flatMap_cons, ih]; rfl

namespace Item

theorem bytes_tokens (i : Item) : i.tokens.flatMap Token.bytes = i.bytes := by
  cases i with
  | ordinary b => rfl
  | csi params intermediates final =>
      simp [tokens, bytes, Token.bytes, escapes]
  | controlString introducer body terminator =>
      cases terminator <;>
        simp [tokens, bytes, Token.bytes, escapes, Terminator.bytes]
  | escape intermediates final =>
      cases intermediates with
      | nil => rfl
      | cons b intermediates =>
          rw [tokens, List.flatMap_cons, flatMap_ordinary]
          rfl

theorem Valid.tokens {i : Item} (h : i.Valid) : ∀ t ∈ i.tokens, t.Valid := by
  cases i with
  | ordinary b =>
      intro t ht
      obtain rfl := List.mem_singleton.mp ht
      exact h
  | csi params intermediates final =>
      obtain ⟨hparams, hinter, hfinal⟩ := h
      rintro t ht
      obtain rfl := List.mem_singleton.mp ht
      refine ⟨?_, hfinal⟩
      intro b hb
      rcases List.mem_append.mp hb with hb | hb
      · exact not_final_of_lt (hparams b hb).2
      · exact not_final_of_lt (UInt8.le_trans (hinter b hb).2 (by decide))
  | controlString introducer body terminator =>
      obtain ⟨hintro, hbody, -⟩ := h
      obtain ⟨hopen, hlast⟩ := unterminated_of_body hbody
      cases terminator with
      | st =>
          intro t ht
          obtain rfl := List.mem_singleton.mp ht
          refine ⟨hintro, unterminated_concat.mpr ⟨hopen, ?_⟩, Or.inl ⟨rfl, by simp⟩⟩
          rintro (⟨hb, -⟩ | ⟨hb, -⟩) <;> exact absurd hb (by decide)
      | bel =>
          intro t ht
          obtain rfl := List.mem_singleton.mp ht
          exact ⟨hintro, hopen, Or.inr ⟨rfl, hlast⟩⟩
  | escape intermediates final =>
      obtain ⟨hinter, hfinal, hshort⟩ := h
      have hesc : final ≠ 0x1b := ne_esc_of_le (UInt8.le_trans (by decide) hfinal.1)
      cases intermediates with
      | nil =>
          intro t ht
          obtain rfl := List.mem_singleton.mp ht
          exact ⟨hesc, hshort rfl⟩
      | cons b intermediates =>
          obtain ⟨hlow, hhigh⟩ := hinter b (by simp)
          intro t ht
          rcases List.mem_cons.mp ht with rfl | ht
          · exact ⟨ne_esc_of_le hlow, not_introducer_of_intermediate hhigh⟩
          · obtain ⟨c, hc, rfl⟩ := List.mem_map.mp ht
            rcases List.mem_append.mp hc with hc | hc
            · exact ne_esc_of_le (hinter c (by simp [hc])).1
            · obtain rfl := List.mem_singleton.mp hc
              exact hesc

/-- What the filter keeps of an item is the ordinary byte it is, or what leaks. -/
theorem kept_tokens (i : Item) :
    i.tokens.filterMap Token.ordinary? = i.ordinary?.toList ++ i.leaked := by
  have hmap : ∀ bs : List UInt8,
      (bs.map Token.ordinary).filterMap Token.ordinary? = bs := by
    intro bs
    induction bs with
    | nil => rfl
    | cons b bs ih => rw [List.map_cons, List.filterMap_cons, ih]; rfl
  cases i with
  | ordinary b => rfl
  | csi params intermediates final => rfl
  | controlString introducer body terminator => cases terminator <;> rfl
  | escape intermediates final =>
      cases intermediates with
      | nil => rfl
      | cons b intermediates => exact hmap (intermediates ++ [final])

theorem leaked_eq_nil {i : Item} :
    i.leaked = [] ↔ ∀ intermediates final, i = .escape intermediates final →
      intermediates = [] := by
  cases i with
  | escape intermediates final =>
      cases intermediates with
      | nil => simp [leaked]
      | cons b intermediates => simp [leaked]
  | ordinary b => simp [leaked]
  | csi params intermediates final => simp [leaked]
  | controlString introducer body terminator => simp [leaked]

end Item

/-- The reading of a stream of complete sequences. -/
def readItems {items : List Item} (h : ∀ i ∈ items, i.Valid) :
    Reading (stream items) where
  tokens := items.flatMap Item.tokens
  tail := .nothing
  tokens_valid := by
    intro t ht
    obtain ⟨i, hi, ht⟩ := List.mem_flatMap.mp ht
    exact (h i hi).tokens t ht
  tail_valid := trivial
  bytes_eq := by
    rw [List.flatMap_assoc]
    simp only [Item.bytes_tokens, Tail.bytes, List.append_nil, stream]

/-- Of each item the ordinary byte it is and what leaks from it come out, in order. -/
theorem output_items {items : List Item} (h : ∀ i ∈ items, i.Valid) :
    (FilterState.push .normal (stream items)).2 =
      (items.flatMap fun i => i.ordinary?.toList ++ i.leaked).map crToLf := by
  rw [push_reading (readItems h)]
  simp only [Reading.ordinary, readItems, List.filterMap_flatMap, Item.kept_tokens]

theorem ordinary_cons (i : Item) (items : List Item) :
    ordinary (i :: items) = i.ordinary?.toList ++ ordinary items := by
  unfold ordinary
  cases h : i.ordinary? <;> simp [h]

theorem length_ordinary_leaked (items : List Item) :
    (items.flatMap fun i => i.ordinary?.toList ++ i.leaked).length =
      (ordinary items).length + (items.flatMap Item.leaked).length := by
  induction items with
  | nil => rfl
  | cons i items ih =>
      simp only [List.flatMap_cons, ordinary_cons, List.length_append, ih]
      omega

theorem ordinary_of_no_leak {items : List Item} (h : ∀ i ∈ items, i.leaked = []) :
    (items.flatMap fun i => i.ordinary?.toList ++ i.leaked) = ordinary items := by
  induction items with
  | nil => rfl
  | cons i items ih =>
      rw [List.flatMap_cons, ih fun j hj => h j (by simp [hj]), h i (by simp),
        ordinary_cons, List.append_nil]

/-- The output is the ordinary bytes, with LF for CR, if and only if no escape
sequence of the stream has an intermediate byte. -/
theorem strips_sequences_iff
    {items : List Item} (h : ∀ i ∈ items, i.Valid)
    {chunks : List (List UInt8)} (hchunks : chunks.flatten = stream items) :
    (pushes .normal chunks).2 = (ordinary items).map crToLf ↔
      ∀ intermediates final, Item.escape intermediates final ∈ items →
        intermediates = [] := by
  have hleaks : (∀ i ∈ items, i.leaked = []) ↔
      ∀ intermediates final, Item.escape intermediates final ∈ items →
        intermediates = [] := by
    constructor
    · intro hno intermediates final hmem
      exact Item.leaked_eq_nil.mp (hno _ hmem) intermediates final rfl
    · intro hno i hi
      exact Item.leaked_eq_nil.mpr fun intermediates final hi' =>
        hno intermediates final (hi' ▸ hi)
  rw [pushes_flatten, hchunks, output_items h, ← hleaks]
  constructor
  · intro heq
    have hlength := congrArg List.length heq
    rw [List.length_map, List.length_map, length_ordinary_leaked] at hlength
    have hnil : items.flatMap Item.leaked = [] :=
      List.eq_nil_of_length_eq_zero (by omega)
    exact List.flatMap_eq_nil_iff.mp hnil
  · intro hno
    rw [ordinary_of_no_leak hno]

/-- A red word between two colour sequences, and a title. -/
def sampleItems : List Item :=
  [.csi [0x33, 0x31] [] 0x6d, .ordinary 0x72, .csi [0x30] [] 0x6d,
    .controlString 0x5d [0x30, 0x3b, 0x74] .bel, .escape [] 0x37]

theorem sampleItems_valid : ∀ i ∈ sampleItems, i.Valid := by
  decide

theorem strips_sequences_iff_sampleItems :
    (pushes .normal [stream sampleItems]).2 = (ordinary sampleItems).map crToLf ↔
      ∀ intermediates final, Item.escape intermediates final ∈ sampleItems →
        intermediates = [] :=
  strips_sequences_iff sampleItems_valid (by simp)

/-- `ESC ( B`, which designates a character set, is complete, and its last byte
comes out. -/
theorem charset_designation_leaks :
    ¬ ∀ items : List Item, (∀ i ∈ items, i.Valid) →
      ∀ chunks : List (List UInt8), chunks.flatten = stream items →
        (pushes .normal chunks).2 = (ordinary items).map crToLf := by
  intro h
  have hvalid : ∀ i ∈ [Item.escape [0x28] 0x42], i.Valid := by decide
  exact absurd (h _ hvalid [[0x1b, 0x28, 0x42]] rfl) (by decide)

/-! ### Sequences that are cut off -/

/-- `ESC [`, parameter and intermediate bytes, and a final byte. -/
def csiSequence (params : List UInt8) (final : UInt8) : List UInt8 :=
  0x1b :: 0x5b :: (params ++ [final])

def IsCsiSequence (t : List UInt8) : Prop :=
  ∃ params final, t = csiSequence params final ∧
    (∀ b ∈ params, 0x20 ≤ b ∧ b ≤ 0x3f) ∧ IsFinal final

/-- The states outside a control string. -/
def Outside (s : FilterState) : Prop :=
  s = .normal ∨ s = .esc ∨ s = .csi

/-- A whole CSI sequence after what leaves the filter outside a control string, or
a terminator after what leaves it inside one. -/
def Interrupts (p t : List UInt8) : Prop :=
  (Outside (FilterState.push .normal p).1 ∧ IsCsiSequence t) ∨
    (¬ Outside (FilterState.push .normal p).1 ∧ (t = [0x07] ∨ t = [0x1b, 0x5c]))

/-- Nothing of `t` comes out, and after it the filter is as a fresh one. -/
def Resynchronises (p t : List UInt8) : Prop :=
  ∀ s, (pushes .normal [p, t, s]).2 =
    (FilterState.push .normal p).2 ++ (FilterState.push .normal s).2

theorem pushes_three (p t s : List UInt8) :
    (pushes .normal [p, t, s]).2 =
      (FilterState.push .normal p).2 ++
        (((FilterState.push .normal p).1.push t).2 ++
          (((FilterState.push .normal p).1.push t).1.push s).2) := by
  simp [pushes, List.append_assoc]

/-- A piece that puts out nothing and ends in `normal` resynchronises the filter. -/
theorem resynchronises_of_push
    {p t : List UInt8}
    (h : (FilterState.push .normal p).1.push t = (.normal, [])) :
    Resynchronises p t := by
  intro s
  rw [pushes_three, h, List.nil_append]

theorem push_csi
    {params : List UInt8} {final : UInt8}
    (hparams : ∀ b ∈ params, 0x20 ≤ b ∧ b ≤ 0x3f) (hfinal : IsFinal final) :
    FilterState.push .csi (params ++ [final]) = (.normal, []) := by
  induction params with
  | nil =>
      rw [List.nil_append, FilterState.push, pushByte_csi, if_pos hfinal]
      rfl
  | cons b params ih =>
      have hb : ¬ IsFinal b := not_final_of_lt (hparams b (by simp)).2
      rw [List.cons_append, FilterState.push, pushByte_csi, if_neg hb,
        ih fun c hc => hparams c (by simp [hc])]
      rfl

/-- From `normal` and from `esc` a CSI sequence is dropped. -/
theorem push_csiSequence
    {state : FilterState} (hstate : state = .normal ∨ state = .esc)
    {params : List UInt8} {final : UInt8}
    (hparams : ∀ b ∈ params, 0x20 ≤ b ∧ b ≤ 0x3f) (hfinal : IsFinal final) :
    state.push (csiSequence params final) = (.normal, []) := by
  have hbody := push_csi hparams hfinal
  rcases hstate with rfl | rfl
  · rw [csiSequence, FilterState.push, FilterState.push]
    exact Prod.ext (congrArg Prod.fst hbody) (congrArg Prod.snd hbody)
  · rw [csiSequence, FilterState.push, FilterState.push]
    exact Prod.ext (congrArg Prod.fst hbody) (congrArg Prod.snd hbody)

/-- From `csi` the ESC is taken for a parameter and `[` for the final byte; what
follows comes out. -/
theorem push_csiSequence_of_csi
    {params : List UInt8} {final : UInt8}
    (hparams : ∀ b ∈ params, 0x20 ≤ b ∧ b ≤ 0x3f) (hfinal : IsFinal final) :
    FilterState.push .csi (csiSequence params final) = (.normal, params ++ [final]) := by
  have hclean : ∀ b ∈ params ++ [final], b ≠ 0x1b ∧ b ≠ 0x0d := by
    intro b hb
    have hlow : 0x20 ≤ b := by
      rcases List.mem_append.mp hb with hb | hb
      · exact (hparams b hb).1
      · obtain rfl := List.mem_singleton.mp hb
        exact UInt8.le_trans (by decide) hfinal.1
    refine ⟨ne_esc_of_le hlow, ?_⟩
    rintro rfl
    exact absurd hlow (by decide)
  have hrest := push_clean hclean
  rw [csiSequence, FilterState.push, FilterState.push]
  exact Prod.ext (congrArg Prod.fst hrest) (congrArg Prod.snd hrest)

/-- The filter resynchronises if and only if what came before has not left it in
`csi`, nor, when the terminator is BEL, in `stringSeqSawEsc`. -/
theorem resynchronises_iff
    {p t : List UInt8} (h : Interrupts p t) :
    Resynchronises p t ↔
      (FilterState.push .normal p).1 ≠ .csi ∧
        ¬ ((FilterState.push .normal p).1 = .stringSeqSawEsc ∧ t = [0x07]) := by
  rcases h with ⟨hout, params, final, rfl, hparams, hfinal⟩ | ⟨hin, ht⟩
  · have hbel : csiSequence params final ≠ [0x07] := by simp [csiSequence]
    constructor
    · intro hre
      refine ⟨?_, fun h => hbel h.2⟩
      intro hcsi
      have hnil := hre []
      rw [pushes_three, hcsi, push_csiSequence_of_csi hparams hfinal] at hnil
      simp [FilterState.push] at hnil
    · rintro ⟨hcsi, -⟩
      have hstate : (FilterState.push .normal p).1 = .normal ∨
          (FilterState.push .normal p).1 = .esc := by
        rcases hout with h | h | h
        · exact Or.inl h
        · exact Or.inr h
        · exact absurd h hcsi
      exact resynchronises_of_push (push_csiSequence hstate hparams hfinal)
  · have hstate : (FilterState.push .normal p).1 = .stringSeq ∨
        (FilterState.push .normal p).1 = .stringSeqSawEsc := by
      cases hs : (FilterState.push .normal p).1 with
      | normal => exact absurd (Or.inl hs) hin
      | esc => exact absurd (Or.inr (Or.inl hs)) hin
      | csi => exact absurd (Or.inr (Or.inr hs)) hin
      | stringSeq => exact Or.inl rfl
      | stringSeqSawEsc => exact Or.inr rfl
    rcases hstate with hs | hs
    · refine ⟨fun _ => ⟨by rw [hs]; decide, fun h => ?_⟩, fun _ => ?_⟩
      · rw [hs] at h
        exact absurd h.1 (by decide)
      · refine resynchronises_of_push ?_
        rcases ht with rfl | rfl <;> rw [hs] <;> rfl
    · constructor
      · intro hre
        refine ⟨by rw [hs]; decide, ?_⟩
        rintro ⟨-, rfl⟩
        -- BEL is read as a byte of the string, so the text after it is swallowed
        have hlost := hre [0x61]
        rw [pushes_three, hs] at hlost
        exact absurd (List.append_cancel_left hlost) (by decide)
      · rintro ⟨-, hbel⟩
        refine resynchronises_of_push ?_
        rcases ht with rfl | rfl
        · exact absurd ⟨hs, rfl⟩ hbel
        · rw [hs]
          rfl

theorem resynchronises_iff_escape :
    Resynchronises [0x1b] [0x1b, 0x5b, 0x6d] ↔
      (FilterState.push .normal [0x1b]).1 ≠ .csi ∧
        ¬ ((FilterState.push .normal [0x1b]).1 = .stringSeqSawEsc ∧
          [0x1b, 0x5b, 0x6d] = [(0x07 : UInt8)]) :=
  resynchronises_iff (Or.inl ⟨Or.inr (Or.inl rfl), [], 0x6d, rfl, by simp, by decide⟩)

/-- `ESC [ 3` cut off by `ESC [ 0 m`: `0m` comes out. -/
theorem csi_interrupted_by_csi :
    ¬ ∀ p t, Interrupts p t → Resynchronises p t := by
  intro h
  have hint : Interrupts [0x1b, 0x5b, 0x33] [0x1b, 0x5b, 0x30, 0x6d] :=
    Or.inl ⟨Or.inr (Or.inr rfl), [0x30], 0x6d, rfl, by simp, by decide⟩
  exact absurd (h _ _ hint []) (by decide)

end EscapeSequences
end Rexec
