import Rexec.Report
import Rexec.Text
import Mathlib.Tactic

/-!
# The output filter on UTF-8

The filter deletes single bytes.  Inside a CSI sequence and inside a control
string it deletes whole characters, since the bytes that end them are ASCII.  In
the state `esc` it deletes one byte, whatever it is; if this is the first byte of
a longer character, the rest of the character comes out.

So valid UTF-8 stays valid if and only if no byte above `7F` is read in `esc`.
The proof runs the decoder over the input and over the output side by side.
-/

namespace Rexec
namespace FilterText

open FilterGrammar

/-- No byte above `7F` is read in the state `esc`. -/
def EscapesAscii (s : FilterState) (bs : List UInt8) : Prop :=
  ∀ front b rest, bs = front ++ b :: rest → (s.push front).1 = .esc → b < 0x80

theorem escapesAscii_cons {s : FilterState} {b : UInt8} {bs : List UInt8} :
    EscapesAscii s (b :: bs) ↔
      (s = .esc → b < 0x80) ∧ EscapesAscii (s.pushByte b).1 bs := by
  constructor
  · intro h
    refine ⟨fun hs => h [] b bs rfl hs, ?_⟩
    intro front c rest hbs hesc
    exact h (b :: front) c rest (by rw [hbs]; rfl) hesc
  · rintro ⟨hb, hrest⟩ front c rest hbs hesc
    cases front with
    | nil =>
        cases hbs
        exact hb hesc
    | cons d front =>
        cases hbs
        exact hrest front c rest rfl hesc

/-- The decoder of the output against the decoder of the input: outside a sequence
they agree, inside one the output stands between two characters. -/
def Aligned : FilterState → Option Utf8.Pending → Option Utf8.Pending → Prop
  | .normal, p, q => q = p
  | .esc, p, q => p = none ∧ q = none
  | _, _, q => q = none

/-- The rest of a character whose first byte was deleted is not valid. -/
theorem invalid_of_split
    {b : UInt8} {bs : List UInt8} (hb : ¬ b < 0x80)
    (hvalid : none ∉ Utf8.decodeFrom none (b :: bs)) :
    none ∈ Utf8.decodeFrom none (FilterState.push .normal bs).2 := by
  obtain ⟨hfirst, hrest⟩ := Utf8.valid_cons.mp hvalid
  rcases Utf8.start_high hb with h | ⟨p, hp⟩
  · exact absurd h hfirst
  · have hcont : p.Continues := Utf8.start_continues (by rw [hp])
    rw [Utf8.push, hp] at hrest
    cases bs with
    | nil => simp [Utf8.decodeFrom] at hrest
    | cons c bs =>
        obtain ⟨hlow, hhigh⟩ := Utf8.push_pending hcont (Utf8.valid_cons.mp hrest).1
        have hesc : c ≠ 0x1b := by
          rintro rfl
          exact absurd hlow (by decide)
        have hcr : c ≠ 0x0d := by
          rintro rfl
          exact absurd hlow (by decide)
        rw [FilterState.push, pushByte_normal hesc, crToLf, if_neg hcr]
        show none ∈ Utf8.decodeFrom none (c :: _)
        rw [Utf8.decodeFrom_cons, Utf8.push, Utf8.start_continuation hlow hhigh]
        simp

theorem ascii_final {b : UInt8} (h : IsFinal b) : b < 0x80 :=
  UInt8.lt_of_le_of_lt h.2 (by decide)

/-- Over valid input the output is valid if and only if no character is split in
`esc`. -/
theorem valid_push_iff
    {s : FilterState} {p q : Option Utf8.Pending} {bs : List UInt8}
    (hp : ∀ c ∈ p, c.Continues) (hq : Aligned s p q)
    (hvalid : none ∉ Utf8.decodeFrom p bs) :
    none ∉ Utf8.decodeFrom q (s.push bs).2 ↔ EscapesAscii s bs := by
  induction bs generalizing s p q with
  | nil =>
      have hnone : p = none := by
        cases p with
        | none => rfl
        | some c => simp [Utf8.decodeFrom] at hvalid
      have hq' : q = none := by
        cases s with
        | normal => exact hq.trans hnone
        | esc => exact hq.2
        | csi => exact hq
        | stringSeq => exact hq
        | stringSeqSawEsc => exact hq
      rw [hq']
      simp [FilterState.push, Utf8.decodeFrom, EscapesAscii]
  | cons b bs ih =>
      obtain ⟨hone, hrest⟩ := Utf8.valid_cons.mp hvalid
      have hp' := Utf8.push_continues_of hp (b := b)
      -- a byte that is dropped, and no first byte of a character in `esc`
      have hdropped : ∀ s', s.pushByte b = (s', []) → Aligned s' (Utf8.push p b).2 q →
          (s = .esc → b < 0x80) →
          (none ∉ Utf8.decodeFrom q (s.push (b :: bs)).2 ↔ EscapesAscii s (b :: bs)) := by
        intro s' hbyte haligned hascii
        rw [escapesAscii_cons, FilterState.push, hbyte]
        exact (ih hp' haligned hrest).trans (iff_and_self.mpr fun _ => hascii)
      have hbetween : b < 0x80 → p = none ∧ (Utf8.push p b).2 = none := fun hb =>
        Utf8.push_ascii hp hb hone
      cases s with
      | normal =>
          obtain rfl : q = p := hq
          by_cases hesc : b = 0x1b
          · obtain ⟨hnone, hnext⟩ := hbetween (by rw [hesc]; decide)
            exact hdropped .esc (by rw [hesc]; rfl) ⟨hnext, hnone⟩ (fun h => by cases h)
          · have hsame : none ∉ (Utf8.push q (crToLf b)).1 ∧
                (Utf8.push q (crToLf b)).2 = (Utf8.push q b).2 := by
              unfold crToLf
              split
              · rename_i hcr
                obtain ⟨hnone, hnext⟩ := hbetween (by rw [hcr]; decide)
                rw [hnext, hnone]
                decide
              · exact ⟨hone, rfl⟩
            have hnext := ih (s := .normal) (q := (Utf8.push q b).2) hp' rfl hrest
            rw [escapesAscii_cons, FilterState.push, pushByte_normal hesc]
            show none ∉ Utf8.decodeFrom q (crToLf b :: (FilterState.push .normal bs).2) ↔ _
            rw [Utf8.valid_cons, hsame.2, hnext]
            simp [hsame.1]
      | esc =>
          obtain ⟨rfl, rfl⟩ := hq
          by_cases hb : b < 0x80
          · obtain ⟨-, hnext⟩ := hbetween hb
            have hcase := pushByte_esc b
            split_ifs at hcase
            · exact hdropped .csi hcase rfl fun _ => hb
            · exact hdropped .stringSeq hcase rfl fun _ => hb
            · exact hdropped .esc hcase ⟨hnext, rfl⟩ fun _ => hb
            · exact hdropped .normal hcase hnext.symm fun _ => hb
          · have hbyte : FilterState.pushByte .esc b = (.normal, []) := by
              rw [pushByte_esc, if_neg, if_neg, if_neg]
              · rintro rfl
                exact hb (by decide)
              · rintro (rfl | rfl | rfl | rfl | rfl) <;> exact hb (by decide)
              · rintro rfl
                exact hb (by decide)
            have hsplit := invalid_of_split hb hvalid
            rw [escapesAscii_cons, FilterState.push, hbyte]
            exact ⟨fun h => absurd hsplit h, fun h => absurd (h.1 rfl) hb⟩
      | csi =>
          have hcase := pushByte_csi b
          split_ifs at hcase with hfinal
          · exact hdropped .normal hcase
              (hq.trans (hbetween (ascii_final hfinal)).2.symm) (fun h => by cases h)
          · exact hdropped .csi hcase hq (fun h => by cases h)
      | stringSeq =>
          by_cases hbel : b = 0x07
          · have hnext := (hbetween (by rw [hbel]; decide)).2
            exact hdropped .normal (by rw [hbel]; rfl) (hq.trans hnext.symm)
              (fun h => by cases h)
          · by_cases hesc : b = 0x1b
            · exact hdropped .stringSeqSawEsc (by rw [hesc]; rfl) hq (fun h => by cases h)
            · exact hdropped .stringSeq (by simp [FilterState.pushByte, hbel, hesc]) hq
                (fun h => by cases h)
      | stringSeqSawEsc =>
          by_cases hend : b = 0x5c
          · have hnext := (hbetween (by rw [hend]; decide)).2
            exact hdropped .normal (by rw [hend]; rfl) (hq.trans hnext.symm)
              (fun h => by cases h)
          · by_cases hesc : b = 0x1b
            · exact hdropped .stringSeqSawEsc (by rw [hesc]; rfl) hq (fun h => by cases h)
            · exact hdropped .stringSeq (by simp [FilterState.pushByte, hend, hesc]) hq
                (fun h => by cases h)

/-- Of input that is valid UTF-8, in whatever chunks it is pushed, the output is
valid, and its lossy reading the text it is, if and only if no byte above `7F` is
read in the state `esc`. -/
theorem filter_preserves_utf8_iff
    {chunks : List (List UInt8)} {text : String}
    (h : fromUtf8 chunks.flatten = some text) :
    fromUtf8 (pushes .normal chunks).2 =
        some (fromUtf8Lossy (pushes .normal chunks).2) ↔
      EscapesAscii .normal chunks.flatten := by
  rw [fromUtf8_eq_lossy_iff, pushes_flatten]
  exact valid_push_iff (p := none) (by simp) rfl (valid_of_fromUtf8 h)

theorem filter_preserves_utf8_iff_split :
    fromUtf8 (pushes .normal [[0xc3], [0xa9, 0x1b, 0x5b, 0x6d]]).2 =
        some (fromUtf8Lossy (pushes .normal [[0xc3], [0xa9, 0x1b, 0x5b, 0x6d]]).2) ↔
      EscapesAscii .normal [[0xc3], [0xa9, 0x1b, 0x5b, 0x6d]].flatten :=
  filter_preserves_utf8_iff
    (show fromUtf8 [[0xc3], [0xa9, 0x1b, 0x5b, 0x6d]].flatten =
      some (String.ofList ['é', Char.ofNat 0x1b, '[', 'm']) from rfl)

/-- ESC before `é`: the filter drops the first byte of the character. -/
theorem escape_splits_character :
    ¬ ∀ (chunks : List (List UInt8)) (text : String),
      fromUtf8 chunks.flatten = some text →
        fromUtf8 (pushes .normal chunks).2 =
          some (fromUtf8Lossy (pushes .normal chunks).2) := by
  intro h
  have hvalid : fromUtf8 [[0x1b, 0xc3, 0xa9]].flatten =
      some (String.ofList [Char.ofNat 0x1b, 'é']) := rfl
  have hout := (fromUtf8_eq_lossy_iff _).mp (h _ _ hvalid)
  exact hout (by decide)

end FilterText

/-! ### The output a response carries -/

/-- The texts of a response, of its entry and of its raw output come from one byte
string: what the filter makes of it, and itself. -/
theorem Worker.filtered_of_run
    {cfg : Config} {es : List Event} {cmd : Command} {response : Response}
    {entry : TranscriptEntry} {raw : String}
    (h : Machine.run (Worker.step cfg) .start es =
      some (.running cmd (.respond response entry raw))) :
    ∃ bs, response.output = fromUtf8Lossy (FilterState.push .normal bs).2 ∧
      entry.output = response.output ∧ raw = fromUtf8Lossy bs := by
  obtain ⟨front, text, during, -, -, -, -, -, hreports, hentry, hraw⟩ := explained_run h
  refine ⟨ptyBytes during, ?_, congrArg TranscriptEntry.output hentry, hraw⟩
  cases hreports with
  | notSpawned hresult => cases hresult
  | spawned hresult hcommand hwait hcode herrno htag htimedOut hexpired htimeout hkilled hwatched
      heof houtput => exact houtput

end Rexec
