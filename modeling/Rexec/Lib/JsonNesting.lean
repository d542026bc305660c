import Rexec.Lib.JsonRoundTrip
import Mathlib.Data.List.TakeWhile

/-!
# Texts that are cut short

A scanner that only looks at braces, brackets and quotes tells whether a text is
balanced.  A reader accepts balanced texts only, and no beginning of an object's
text is balanced.  So an object that was cut short is not read as anything, and
neither is one that was cut short and goes on with something else.

`JsonText.Strict` adds this to the laws of `JsonText`; `compact_strict` shows
that the reader of `compact`, which follows the grammar, meets it.
-/

namespace Rexec
namespace Json

/-- Where a scanner of JSON text stands. -/
inductive Mode where
  | outside
  | string
  /-- behind a backslash in a string -/
  | escape
deriving DecidableEq

structure Scan where
  mode : Mode
  /-- the braces and brackets that are open -/
  depth : Int
deriving DecidableEq

def Scan.next (s : Scan) (c : Char) : Scan :=
  match s.mode with
  | .outside =>
      if c = '"' then ⟨.string, s.depth⟩
      else if c = '{' ∨ c = '[' then ⟨.outside, s.depth + 1⟩
      else if c = '}' ∨ c = ']' then ⟨.outside, s.depth - 1⟩
      else s
  | .string =>
      if c = '"' then ⟨.outside, s.depth⟩
      else if c = '\\' then ⟨.escape, s.depth⟩
      else s
  | .escape => ⟨.string, s.depth⟩

def scan (s : Scan) (cs : List Char) : Scan :=
  cs.foldl Scan.next s

/-- Every string, brace and bracket of the text is closed. -/
def Balanced (cs : List Char) : Prop :=
  scan ⟨.outside, 0⟩ cs = ⟨.outside, 0⟩

@[simp] theorem scan_nil (s : Scan) : scan s [] = s := rfl

@[simp] theorem scan_cons (s : Scan) (c : Char) (cs : List Char) :
    scan s (c :: cs) = scan (s.next c) cs := rfl

theorem scan_append (s : Scan) (cs ds : List Char) :
    scan s (cs ++ ds) = scan (scan s cs) ds :=
  List.foldl_append

/-- A character that means nothing outside a string. -/
def Neutral (c : Char) : Prop :=
  c ≠ '"' ∧ c ≠ '{' ∧ c ≠ '[' ∧ c ≠ '}' ∧ c ≠ ']'

theorem next_neutral {c : Char} (h : Neutral c) (d : Int) :
    Scan.next ⟨.outside, d⟩ c = ⟨.outside, d⟩ := by
  obtain ⟨h1, h2, h3, h4, h5⟩ := h
  simp [Scan.next, h1, h2, h3, h4, h5]

theorem scan_neutral {cs : List Char} (h : ∀ c ∈ cs, Neutral c) (d : Int) :
    scan ⟨.outside, d⟩ cs = ⟨.outside, d⟩ := by
  induction cs with
  | nil => rfl
  | cons c cs ih =>
      rw [scan_cons, next_neutral (h c (by simp)), ih fun x hx => h x (by simp [hx])]

theorem scan_dropWhile {p : Char → Bool} (h : ∀ c, p c = true → Neutral c)
    (cs : List Char) (d : Int) :
    scan ⟨.outside, d⟩ (cs.dropWhile p) = scan ⟨.outside, d⟩ cs := by
  conv_rhs => rw [← List.takeWhile_append_dropWhile (p := p) (l := cs)]
  rw [scan_append, scan_neutral fun c hc => h c (List.mem_takeWhile_imp hc)]

theorem neutral_blank {c : Char} (h : isBlank c = true) : Neutral c := by
  simp only [isBlank, Bool.or_eq_true, decide_eq_true_eq] at h
  rcases h with ((rfl | rfl) | rfl) | rfl <;>
    exact ⟨by decide, by decide, by decide, by decide, by decide⟩

theorem scan_blanks (cs : List Char) (d : Int) :
    scan ⟨.outside, d⟩ (cs.dropWhile isBlank) = scan ⟨.outside, d⟩ cs :=
  scan_dropWhile (fun _ => neutral_blank) cs d

theorem neutral_digit {c : Char} (h : c.isDigit = true) : Neutral c := by
  refine ⟨?_, ?_, ?_, ?_, ?_⟩ <;> rintro rfl <;> exact absurd h (by decide)

theorem neutral_real {c : Char} (h : isRealChar c = true) : Neutral c := by
  refine ⟨?_, ?_, ?_, ?_, ?_⟩ <;> rintro rfl <;> exact absurd h (by decide)

/-! ## What is read is balanced -/

/-- A hexadecimal digit neither ends a string nor escapes anything. -/
theorem next_hex {c : Char} {n : Nat} (h : hexValue c = some n) (d : Int) :
    Scan.next ⟨.string, d⟩ c = ⟨.string, d⟩ := by
  have hquote : c ≠ '"' := by
    rintro rfl
    rw [show hexValue '"' = none by decide] at h
    cases h
  have hbackslash : c ≠ '\\' := by
    rintro rfl
    rw [show hexValue '\\' = none by decide] at h
    cases h
  simp [Scan.next, hquote, hbackslash]

theorem scan_unicode {a b c d x : Char} (h : readUnicode a b c d = some x) (n : Int)
    (cs : List Char) :
    scan ⟨.string, n⟩ ('\\' :: 'u' :: a :: b :: c :: d :: cs) = scan ⟨.string, n⟩ cs := by
  unfold readUnicode at h
  split at h
  · rename_i ha hb hc hd
    have hopen : Scan.next (Scan.next ⟨.string, n⟩ '\\') 'u' = ⟨.string, n⟩ := rfl
    simp only [scan_cons, hopen, next_hex ha, next_hex hb, next_hex hc, next_hex hd]
  · cases h

theorem readString_scan {cs s rest : List Char} (h : readString cs = some (s, rest))
    (d : Int) : scan ⟨.string, d⟩ cs = scan ⟨.outside, d⟩ rest := by
  fun_induction readString cs generalizing s rest with
  | case1 cs =>
      cases h
      rfl
  | case2 a b c e cs x s' rest' hread hx ih =>
      cases h
      rw [scan_unicode hx, ih hread]
  | case4 =>
      rename_i hread _ ih
      cases h
      exact ih hread
  | case7 c cs hquote _ _ hplain s' rest' hread ih =>
      cases h
      have hbackslash : c ≠ '\\' := fun hc => hplain (.inr hc)
      have hnext : Scan.next ⟨.string, d⟩ c = ⟨.string, d⟩ := by
        simp [Scan.next, hbackslash, show c ≠ '"' from hquote]
      rw [scan_cons, hnext, ih hread]
  | _ => cases h

theorem readNumber_scan {sign : Bool} {cs rest : List Char} {v : Json}
    (h : readNumber sign cs = some (v, rest)) (d : Int) :
    scan ⟨.outside, d⟩ cs = scan ⟨.outside, d⟩ rest := by
  have hdigits := scan_dropWhile (fun _ => neutral_digit) cs d
  unfold readNumber at h
  simp only at h
  split at h
  · cases h
  · split at h
    all_goals
      cases h
      rw [← hdigits]
    all_goals exact (scan_dropWhile (fun _ => neutral_real) _ d).symm

/-- What the four readers do to the scanner. -/
structure Scans (n : Nat) : Prop where
  value : ∀ cs v rest, read n cs = some (v, rest) →
    ∀ d, scan ⟨.outside, d⟩ cs = scan ⟨.outside, d⟩ rest
  items : ∀ cs vs rest, readItems n cs = some (vs, rest) →
    ∀ d, scan ⟨.outside, d + 1⟩ cs = scan ⟨.outside, d⟩ rest
  member : ∀ cs m rest, readMember n cs = some (m, rest) →
    ∀ d, scan ⟨.outside, d⟩ cs = scan ⟨.outside, d⟩ rest
  members : ∀ cs ms rest, readMembers n cs = some (ms, rest) →
    ∀ d, scan ⟨.outside, d + 1⟩ cs = scan ⟨.outside, d⟩ rest

section Readers

variable {n : Nat} (ih : Scans n)

include ih

theorem readItems_scan {cs rest : List Char} {vs : List Json}
    (h : readItems (n + 1) cs = some (vs, rest)) (d : Int) :
    scan ⟨.outside, d + 1⟩ cs = scan ⟨.outside, d⟩ rest := by
  rw [← scan_blanks cs (d + 1)]
  rw [readItems] at h
  split at h
  · rename_i hcs
    cases h
    rw [hcs]
    simp [Scan.next]
  · rename_i front hcs
    rw [hcs]
    show scan ⟨.outside, d + 1⟩ front = _
    split at h
    · rename_i hread
      obtain ⟨p, hp, hv⟩ := Option.map_eq_some_iff.mp h
      cases hv
      rw [ih.value _ _ _ hread]
      exact ih.items _ _ _ hp d
    · cases h
  · cases h

theorem readMember_scan {cs rest : List Char} {m : String × Json}
    (h : readMember (n + 1) cs = some (m, rest)) (d : Int) :
    scan ⟨.outside, d⟩ cs = scan ⟨.outside, d⟩ rest := by
  rw [← scan_blanks cs d]
  rw [readMember] at h
  split at h
  · rename_i front hcs
    rw [hcs]
    show scan ⟨.string, d⟩ front = _
    split at h
    · rename_i k behind hkey
      rw [readString_scan hkey d, ← scan_blanks behind d]
      split at h
      · rename_i after hcolon
        obtain ⟨p, hp, hv⟩ := Option.map_eq_some_iff.mp h
        cases hv
        rw [hcolon]
        exact ih.value _ _ _ hp d
      · cases h
    · cases h
  · cases h

theorem readMembers_scan {cs rest : List Char} {ms : List (String × Json)}
    (h : readMembers (n + 1) cs = some (ms, rest)) (d : Int) :
    scan ⟨.outside, d + 1⟩ cs = scan ⟨.outside, d⟩ rest := by
  rw [← scan_blanks cs (d + 1)]
  rw [readMembers] at h
  split at h
  · rename_i hcs
    cases h
    rw [hcs]
    simp [Scan.next]
  · rename_i front hcs
    rw [hcs]
    show scan ⟨.outside, d + 1⟩ front = _
    split at h
    · rename_i hread
      obtain ⟨p, hp, hv⟩ := Option.map_eq_some_iff.mp h
      cases hv
      rw [ih.member _ _ _ hread]
      exact ih.members _ _ _ hp d
    · cases h
  · cases h

theorem read_scan {cs rest : List Char} {v : Json} (h : read (n + 1) cs = some (v, rest))
    (d : Int) : scan ⟨.outside, d⟩ cs = scan ⟨.outside, d⟩ rest := by
  rw [← scan_blanks cs d]
  rw [read] at h
  split at h
  iterate 3
    rename_i hcs
    cases h
    rw [hcs]
    rfl
  · rename_i hcs
    obtain ⟨p, hp, hv⟩ := Option.map_eq_some_iff.mp h
    cases hv
    rw [hcs]
    exact readString_scan hp d
  · rename_i front hcs
    rw [hcs]
    show scan ⟨.outside, d + 1⟩ front = _
    rw [← scan_blanks front (d + 1)]
    split at h
    · rename_i hfront
      cases h
      rw [hfront]
      simp [Scan.next]
    · split at h
      · rename_i hread
        obtain ⟨p, hp, hv⟩ := Option.map_eq_some_iff.mp h
        cases hv
        rw [ih.value _ _ _ hread]
        exact ih.items _ _ _ hp d
      · cases h
  · rename_i front hcs
    rw [hcs]
    show scan ⟨.outside, d + 1⟩ front = _
    rw [← scan_blanks front (d + 1)]
    split at h
    · rename_i hfront
      cases h
      rw [hfront]
      simp [Scan.next]
    · split at h
      · rename_i hread
        obtain ⟨p, hp, hv⟩ := Option.map_eq_some_iff.mp h
        cases hv
        rw [ih.member _ _ _ hread]
        exact ih.members _ _ _ hp d
      · cases h
  · rename_i hcs
    rw [hcs]
    exact readNumber_scan h d
  · exact readNumber_scan h d

end Readers

/-- The readers leave the scanner where the grammar says, whatever they are given. -/
theorem scans (n : Nat) : Scans n := by
  induction n with
  | zero =>
      exact ⟨fun _ _ _ h => (by simp [read] at h), fun _ _ _ h => (by simp [readItems] at h),
        fun _ _ _ h => (by simp [readMember] at h), fun _ _ _ h => (by simp [readMembers] at h)⟩
  | succ n ih =>
      exact ⟨fun _ _ _ h => read_scan ih h, fun _ _ _ h => readItems_scan ih h,
        fun _ _ _ h => readMember_scan ih h, fun _ _ _ h => readMembers_scan ih h⟩

theorem compact_balanced {s : String} {v : Json} (h : compact.fromStr s = some v) :
    Balanced s.toList := by
  simp only [compact] at h
  split at h
  · rename_i v' rest hread
    split at h
    · rename_i hblank
      rw [Balanced, (scans _).value _ _ _ hread]
      exact scan_neutral (fun c hc => neutral_blank (List.all_eq_true.mp hblank c hc)) 0
    · cases h
  · cases h

/-! ## What is written is nested -/

/-- The depth is `d` or more all the way through the text. -/
def Stays (d : Int) : Scan → List Char → Prop
  | s, [] => d ≤ s.depth
  | s, c :: cs => d ≤ s.depth ∧ Stays d (s.next c) cs

theorem stays_append {d : Int} {s : Scan} {cs ds : List Char} :
    Stays d s (cs ++ ds) ↔ Stays d s cs ∧ Stays d (scan s cs) ds := by
  induction cs generalizing s with
  | nil =>
      refine ⟨fun h => ⟨?_, h⟩, fun h => h.2⟩
      cases ds with
      | nil => exact h
      | cons c ds => exact h.1
  | cons c cs ih =>
      rw [List.cons_append, Stays, Stays, ih, scan_cons, and_assoc]

theorem Stays.depth {d : Int} {s : Scan} {cs : List Char} (h : Stays d s cs) :
    d ≤ (scan s cs).depth := by
  induction cs generalizing s with
  | nil => exact h
  | cons c cs ih => exact ih h.2

theorem Stays.of_isPrefix {d : Int} {s : Scan} {cs ds : List Char} (h : Stays d s ds)
    (hp : cs <+: ds) : Stays d s cs := by
  obtain ⟨rest, rfl⟩ := hp
  exact (stays_append.mp h).1

theorem Stays.mono {d e : Int} {s : Scan} {cs : List Char} (hde : d ≤ e)
    (h : Stays e s cs) : Stays d s cs := by
  induction cs generalizing s with
  | nil => exact le_trans hde h
  | cons c cs ih => exact ⟨le_trans hde h.1, ih h.2⟩

/-- A text that closes what it opens, and nothing else. -/
def Nests (cs : List Char) : Prop :=
  ∀ d, scan ⟨.outside, d⟩ cs = ⟨.outside, d⟩ ∧ Stays d ⟨.outside, d⟩ cs

theorem Nests.append {cs ds : List Char} (hc : Nests cs) (hd : Nests ds) :
    Nests (cs ++ ds) := by
  intro d
  rw [scan_append, stays_append, (hc d).1]
  exact ⟨(hd d).1, (hc d).2, (hd d).2⟩

theorem nests_neutral {cs : List Char} (h : ∀ c ∈ cs, Neutral c) : Nests cs := by
  refine fun d => ⟨scan_neutral h d, ?_⟩
  induction cs with
  | nil => exact Int.le_refl d
  | cons c cs ih =>
      refine ⟨Int.le_refl d, ?_⟩
      rw [next_neutral (h c (by simp))]
      exact ih fun x hx => h x (by simp [hx])

theorem Nests.cons {c : Char} {cs : List Char} (hc : Neutral c) (h : Nests cs) :
    Nests (c :: cs) := by
  have hone : Nests [c] := nests_neutral (by simpa using hc)
  exact hone.append h

/-- A text between a brace or bracket that opens and one that closes. -/
theorem Nests.enclosed {a b : Char} {cs : List Char} (ha : a = '{' ∨ a = '[')
    (hb : b = '}' ∨ b = ']') (h : Nests cs) : Nests (a :: (cs ++ [b])) := by
  intro d
  have hopen : Scan.next ⟨.outside, d⟩ a = ⟨.outside, d + 1⟩ := by
    rcases ha with rfl | rfl <;> rfl
  have hclose : Scan.next ⟨.outside, d + 1⟩ b = ⟨.outside, d⟩ := by
    rcases hb with rfl | rfl <;> simp [Scan.next]
  obtain ⟨hscan, hstays⟩ := h (d + 1)
  rw [scan_cons, Stays, hopen, scan_append, stays_append, hscan]
  refine ⟨?_, Int.le_refl d, hstays.mono (by omega), ?_⟩
  · rw [scan_cons, hclose, scan_nil]
  · rw [Stays, hclose]
    exact ⟨by show d ≤ d + 1; omega, Int.le_refl d⟩

theorem hexDigit_plain : ∀ n, n < 16 → hexDigit n ≠ '"' ∧ hexDigit n ≠ '\\' := by
  decide

/-- A written character does not end the string it is in. -/
theorem writeChar_scan (c : Char) (d : Int) :
    scan ⟨.string, d⟩ (writeChar c) = ⟨.string, d⟩ ∧ Stays d ⟨.string, d⟩ (writeChar c) := by
  unfold writeChar
  split_ifs with h1 h2 h3 h4 h5 h6 h7 h8
  iterate 7 simp [Scan.next, Stays]
  · obtain ⟨hhigh, hhigh'⟩ := hexDigit_plain (c.toNat / 16) (by omega)
    obtain ⟨hlow, hlow'⟩ := hexDigit_plain (c.toNat % 16) (by omega)
    simp [Scan.next, Stays, hhigh, hhigh', hlow, hlow']
  · simp [Scan.next, Stays, h1, h2]

theorem writeChars_scan (cs : List Char) (d : Int) :
    scan ⟨.string, d⟩ (cs.flatMap writeChar) = ⟨.string, d⟩ ∧
      Stays d ⟨.string, d⟩ (cs.flatMap writeChar) := by
  induction cs with
  | nil => exact ⟨rfl, Int.le_refl d⟩
  | cons c cs ih =>
      rw [List.flatMap_cons, scan_append, stays_append, (writeChar_scan c d).1]
      exact ⟨ih.1, (writeChar_scan c d).2, ih.2⟩

theorem nests_writeString (s : String) : Nests (writeString s) := by
  intro d
  obtain ⟨hscan, hstays⟩ := writeChars_scan s.toList d
  have hopen : Scan.next ⟨.outside, d⟩ '"' = ⟨.string, d⟩ := rfl
  have hclose : Scan.next ⟨.string, d⟩ '"' = ⟨.outside, d⟩ := rfl
  rw [writeString, scan_cons, Stays, hopen, scan_append, stays_append, hscan]
  exact ⟨hclose, Int.le_refl d, hstays, Int.le_refl d, Int.le_refl d⟩

theorem nests_writeInt (n : Int) : Nests (writeInt n) := by
  have hdigits : Nests (Nat.toDigits 10 n.natAbs) :=
    nests_neutral fun c hc => neutral_digit (digits_all _ c hc)
  unfold writeInt
  split
  · exact hdigits.cons ⟨by decide, by decide, by decide, by decide, by decide⟩
  · exact hdigits

theorem neutral_comma : Neutral ',' :=
  ⟨by decide, by decide, by decide, by decide, by decide⟩

theorem neutral_colon : Neutral ':' :=
  ⟨by decide, by decide, by decide, by decide, by decide⟩

/-- The further items stand between the brackets of their array. -/
theorem nests_writeItems {vs : List Json} (h : ∀ v ∈ vs, Nests (write v)) :
    ∃ body, writeItems vs = body ++ [']'] ∧ Nests body := by
  induction vs with
  | nil => exact ⟨[], by rw [writeItems]; rfl, nests_neutral (by simp)⟩
  | cons v vs ih =>
      obtain ⟨body, hbody, hnests⟩ := ih fun w hw => h w (by simp [hw])
      refine ⟨',' :: (write v ++ body), by simp [writeItems, hbody], ?_⟩
      exact ((h v (by simp)).append hnests).cons neutral_comma

theorem nests_writeMembers {ms : List (String × Json)} (h : ∀ m ∈ ms, Nests (write m.2)) :
    ∃ body, writeMembers ms = body ++ ['}'] ∧ Nests body := by
  induction ms with
  | nil => exact ⟨[], by rw [writeMembers]; rfl, nests_neutral (by simp)⟩
  | cons m ms ih =>
      obtain ⟨body, hbody, hnests⟩ := ih fun w hw => h w (by simp [hw])
      refine ⟨',' :: (writeString m.1 ++ ':' :: (write m.2 ++ body)),
        by simp [writeMembers, hbody], ?_⟩
      refine Nests.cons neutral_comma ((nests_writeString m.1).append ?_)
      exact ((h m (by simp)).append hnests).cons neutral_colon

/-- The text of an object is a nested text between its braces. -/
theorem write_obj_nests {ms : List (String × Json)} (h : ∀ m ∈ ms, Nests (write m.2)) :
    ∃ body, write (.obj ms) = '{' :: (body ++ ['}']) ∧ Nests body := by
  cases ms with
  | nil => exact ⟨[], by rw [write]; rfl, nests_neutral (by simp)⟩
  | cons m ms =>
      have hms : ∀ w ∈ ms, Nests (write w.2) := fun w hw => h w (by simp [hw])
      obtain ⟨body, hbody, hnests⟩ := nests_writeMembers hms
      refine ⟨writeString m.1 ++ ':' :: (write m.2 ++ body), by simp [write, hbody], ?_⟩
      exact (nests_writeString m.1).append
        (((h m (by simp)).append hnests).cons neutral_colon)

theorem nests_write : ∀ d v, Plain d v → Nests (write v) := by
  intro d
  induction d with
  | zero =>
      intro v hv
      cases v with
      | null => exact nests_neutral (by simp [write, Neutral])
      | bool b => cases b <;> exact nests_neutral (by simp [write, Neutral])
      | int n => exact nests_writeInt n
      | str s => exact nests_writeString s
      | real t => exact hv.elim
      | arr vs => exact hv.elim
      | obj ms => exact hv.elim
  | succ d ih =>
      intro v hv
      cases v with
      | null => exact nests_neutral (by simp [write, Neutral])
      | bool b => cases b <;> exact nests_neutral (by simp [write, Neutral])
      | int n => exact nests_writeInt n
      | str s => exact nests_writeString s
      | real t => exact hv.elim
      | arr vs =>
          cases vs with
          | nil =>
              have hnil : Nests [] := nests_neutral (by simp)
              exact hnil.enclosed (.inr rfl) (.inr rfl)
          | cons v vs =>
              have hvs : ∀ w ∈ vs, Nests (write w) := fun w hw => ih w (hv w (by simp [hw]))
              obtain ⟨body, hbody, hnests⟩ := nests_writeItems hvs
              have hall := (ih v (hv v (by simp))).append hnests
              have henclosed := hall.enclosed (a := '[') (b := ']') (.inr rfl) (.inr rfl)
              rwa [write, hbody, ← List.append_assoc]
      | obj ms =>
          obtain ⟨body, hbody, hnests⟩ := write_obj_nests fun m hm => ih m.2 (hv m hm)
          rw [hbody]
          exact hnests.enclosed (.inl rfl) (.inl rfl)

/-! ## What is read is spelled out -/

/-- The characters of `cs` spell the name of a member, and its value if that is a string. -/
def SpelledMember (cs : List Char) (m : String × Json) : Prop :=
  m.1.toList ⊆ cs ∧ ∀ t, m.2 = .str t → t.toList ⊆ cs

/-- The characters of `cs` spell a string or the members of an object; for an array they
have a bracket. -/
def Spelled (cs : List Char) : Json → Prop
  | .str s => s.toList ⊆ cs
  | .arr _ => '[' ∈ cs
  | .obj ms => ∀ m ∈ ms, SpelledMember cs m
  | _ => True

theorem SpelledMember.mono {cs ds : List Char} {m : String × Json} (hsub : cs ⊆ ds)
    (h : SpelledMember cs m) : SpelledMember ds m :=
  ⟨List.Subset.trans h.1 hsub, fun t ht => List.Subset.trans (h.2 t ht) hsub⟩

theorem Spelled.mono {cs ds : List Char} {v : Json} (hsub : cs ⊆ ds) (h : Spelled cs v) :
    Spelled ds v := by
  cases v with
  | str s => exact List.Subset.trans h hsub
  | arr vs => exact hsub h
  | obj ms => exact fun m hm => (h m hm).mono hsub
  | _ => trivial

theorem readString_spelled {cs s rest : List Char} (h : readString cs = some (s, rest)) :
    rest ⊆ cs ∧ ('\\' ∉ cs → s ⊆ cs) := by
  fun_induction readString cs generalizing s rest with
  | case1 cs =>
      cases h
      exact ⟨List.subset_cons_self _ _, fun _ => List.nil_subset _⟩
  | case2 a b c e cs x s' rest' hread hx ih =>
      cases h
      exact ⟨fun y hy => by simp [(ih hread).1 hy], fun hplain => absurd (by simp) hplain⟩
  | case4 =>
      rename_i hread _ ih
      cases h
      exact ⟨fun y hy => by simp [(ih hread).1 hy], fun hplain => absurd (by simp) hplain⟩
  | case7 c cs _ _ _ _ s' rest' hread ih =>
      cases h
      obtain ⟨hrest, hs⟩ := ih hread
      refine ⟨List.subset_cons_of_subset _ hrest, fun hplain => ?_⟩
      have hcs : '\\' ∉ cs := fun hmem => hplain (List.mem_cons_of_mem _ hmem)
      exact List.cons_subset_cons _ (hs hcs)
  | _ => cases h

theorem readNumber_spelled {sign : Bool} {cs rest : List Char} {v : Json}
    (h : readNumber sign cs = some (v, rest)) : rest ⊆ cs ∧ ∀ ds, Spelled ds v := by
  have hdigits := List.dropWhile_subset (l := cs) Char.isDigit
  unfold readNumber at h
  simp only at h
  split at h
  · cases h
  · split at h
    all_goals
      cases h
      refine ⟨?_, fun _ => trivial⟩
    all_goals first
      | exact hdigits
      | exact List.Subset.trans (List.dropWhile_subset _) hdigits

/-- What the four readers leave, and what they have spelled. -/
structure Spells (n : Nat) : Prop where
  value : ∀ cs v rest, read n cs = some (v, rest) →
    rest ⊆ cs ∧ ('\\' ∉ cs → Spelled cs v)
  items : ∀ cs vs rest, readItems n cs = some (vs, rest) → rest ⊆ cs
  member : ∀ cs m rest, readMember n cs = some (m, rest) →
    rest ⊆ cs ∧ ('\\' ∉ cs → SpelledMember cs m)
  members : ∀ cs ms rest, readMembers n cs = some (ms, rest) →
    rest ⊆ cs ∧ ('\\' ∉ cs → ∀ m ∈ ms, SpelledMember cs m)

/-- What is behind the first character of a text, blanks aside. -/
theorem subset_of_blanks {cs front : List Char} {c : Char}
    (h : cs.dropWhile isBlank = c :: front) : front ⊆ cs :=
  List.Subset.trans (h ▸ List.subset_cons_self c front) (List.dropWhile_subset isBlank)

section SpellingReaders

variable {n : Nat} (ih : Spells n)

include ih

theorem readItems_spelled {cs rest : List Char} {vs : List Json}
    (h : readItems (n + 1) cs = some (vs, rest)) : rest ⊆ cs := by
  rw [readItems] at h
  split at h
  · rename_i hcs
    cases h
    exact subset_of_blanks hcs
  · rename_i front hcs
    split at h
    · rename_i hread
      obtain ⟨p, hp, hv⟩ := Option.map_eq_some_iff.mp h
      cases hv
      exact List.Subset.trans (ih.items _ _ _ hp)
        (List.Subset.trans (ih.value _ _ _ hread).1 (subset_of_blanks hcs))
    · cases h
  · cases h

theorem readMember_spelled {cs rest : List Char} {m : String × Json}
    (h : readMember (n + 1) cs = some (m, rest)) :
    rest ⊆ cs ∧ ('\\' ∉ cs → SpelledMember cs m) := by
  rw [readMember] at h
  split at h
  · rename_i front hcs
    have hfront := subset_of_blanks hcs
    split at h
    · rename_i k behind hkey
      obtain ⟨hbehind, hk⟩ := readString_spelled hkey
      split at h
      · rename_i after hcolon
        obtain ⟨p, hp, hv⟩ := Option.map_eq_some_iff.mp h
        cases hv
        obtain ⟨hrest, hvalue⟩ := ih.value _ _ _ hp
        have hafter : after ⊆ cs :=
          List.Subset.trans (List.Subset.trans (subset_of_blanks hcolon) hbehind) hfront
        refine ⟨List.Subset.trans hrest hafter, fun hplain => ⟨?_, fun t ht => ?_⟩⟩
        · rw [String.toList_ofList]
          exact List.Subset.trans (hk fun hmem => hplain (hfront hmem)) hfront
        · have hspelled := (hvalue fun hmem => hplain (hafter hmem)).mono hafter
          rw [show p.1 = .str t from ht] at hspelled
          exact hspelled
      · cases h
    · cases h
  · cases h

theorem readMembers_spelled {cs rest : List Char} {ms : List (String × Json)}
    (h : readMembers (n + 1) cs = some (ms, rest)) :
    rest ⊆ cs ∧ ('\\' ∉ cs → ∀ m ∈ ms, SpelledMember cs m) := by
  rw [readMembers] at h
  split at h
  · rename_i hcs
    cases h
    exact ⟨subset_of_blanks hcs, by simp⟩
  · rename_i front hcs
    have hfront := subset_of_blanks hcs
    split at h
    · rename_i hread
      obtain ⟨p, hp, hv⟩ := Option.map_eq_some_iff.mp h
      cases hv
      obtain ⟨hbehind, hfirst⟩ := ih.member _ _ _ hread
      obtain ⟨hrest, hmore⟩ := ih.members _ _ _ hp
      have hafter := List.Subset.trans hbehind hfront
      refine ⟨List.Subset.trans hrest hafter, fun hplain => ?_⟩
      rw [List.forall_mem_cons]
      exact ⟨(hfirst fun hmem => hplain (hfront hmem)).mono hfront,
        fun m hm => (hmore (fun hmem => hplain (hafter hmem)) m hm).mono hafter⟩
    · cases h
  · cases h

theorem read_spelled {cs rest : List Char} {v : Json}
    (h : read (n + 1) cs = some (v, rest)) :
    rest ⊆ cs ∧ ('\\' ∉ cs → Spelled cs v) := by
  have hall : cs.dropWhile isBlank ⊆ cs := List.dropWhile_subset isBlank
  rw [read] at h
  split at h
  iterate 3
    rename_i hcs
    cases h
    exact ⟨fun y hy => hall (by simp [hcs, hy]), fun _ => trivial⟩
  · rename_i front hcs
    have hfront := subset_of_blanks hcs
    obtain ⟨p, hp, hv⟩ := Option.map_eq_some_iff.mp h
    cases hv
    obtain ⟨hrest, hs⟩ := readString_spelled hp
    refine ⟨List.Subset.trans hrest hfront, fun hplain => ?_⟩
    show (String.ofList p.1).toList ⊆ cs
    rw [String.toList_ofList]
    exact List.Subset.trans (hs fun hmem => hplain (hfront hmem)) hfront
  · rename_i front hcs
    have hfront := subset_of_blanks hcs
    have hbracket : '[' ∈ cs := hall (by simp [hcs])
    split at h
    · rename_i hclose
      cases h
      exact ⟨List.Subset.trans (subset_of_blanks hclose) hfront, fun _ => hbracket⟩
    · split at h
      · rename_i hread
        obtain ⟨p, hp, hv⟩ := Option.map_eq_some_iff.mp h
        cases hv
        have hitems := List.Subset.trans (ih.items _ _ _ hp) (ih.value _ _ _ hread).1
        have hinner := List.Subset.trans (List.dropWhile_subset isBlank) hfront
        exact ⟨List.Subset.trans hitems hinner, fun _ => hbracket⟩
      · cases h
  · rename_i front hcs
    have hfront := subset_of_blanks hcs
    split at h
    · rename_i hclose
      cases h
      exact ⟨List.Subset.trans (subset_of_blanks hclose) hfront, fun _ m hm => by cases hm⟩
    · have hinner : front.dropWhile isBlank ⊆ cs :=
        List.Subset.trans (List.dropWhile_subset isBlank) hfront
      split at h
      · rename_i hread
        obtain ⟨p, hp, hv⟩ := Option.map_eq_some_iff.mp h
        cases hv
        obtain ⟨hbehind, hfirst⟩ := ih.member _ _ _ hread
        obtain ⟨hrest, hmore⟩ := ih.members _ _ _ hp
        have hafter := List.Subset.trans hbehind hinner
        refine ⟨List.Subset.trans hrest hafter, fun hplain m hm => ?_⟩
        rcases List.mem_cons.mp hm with rfl | hm
        · exact (hfirst fun hmem => hplain (hinner hmem)).mono hinner
        · exact (hmore (fun hmem => hplain (hafter hmem)) m hm).mono hafter
      · cases h
  · rename_i hcs
    obtain ⟨hrest, hv⟩ := readNumber_spelled h
    exact ⟨List.Subset.trans hrest (subset_of_blanks hcs), fun _ => hv cs⟩
  · obtain ⟨hrest, hv⟩ := readNumber_spelled h
    exact ⟨List.Subset.trans hrest hall, fun _ => hv cs⟩

end SpellingReaders

theorem spells (n : Nat) : Spells n := by
  induction n with
  | zero =>
      exact ⟨fun _ _ _ h => (by simp [read] at h), fun _ _ _ h => (by simp [readItems] at h),
        fun _ _ _ h => (by simp [readMember] at h), fun _ _ _ h => (by simp [readMembers] at h)⟩
  | succ n ih =>
      exact ⟨fun _ _ _ h => read_spelled ih h, fun _ _ _ h => readItems_spelled ih h,
        fun _ _ _ h => readMember_spelled ih h, fun _ _ _ h => readMembers_spelled ih h⟩

theorem compact_spelled {s : String} {v : Json} (h : compact.fromStr s = some v)
    (hplain : '\\' ∉ s.toList) : Spelled s.toList v := by
  simp only [compact] at h
  split at h
  · rename_i hread
    split at h
    · cases h
      exact ((spells _).value _ _ _ hread).2 hplain
    · cases h
  · cases h

end Json

/-! ## The laws -/

/-- What callers rely on of a JSON implementation that accepts JSON texts only. -/
structure JsonText.Strict (J : JsonText) : Prop extends J.Lawful where
  balanced : ∀ s v, J.fromStr s = some v → Json.Balanced s.toList
  encloses : ∀ ms, Json.Plain 127 (.obj ms) →
    ∃ body, (J.toString (.obj ms)).toList = '{' :: (body ++ ['}']) ∧ Json.Nests body
  nothingBehind : ∀ ms, Json.Plain 127 (.obj ms) → ∀ rest : String,
    (∃ c ∈ rest.toList, Json.isBlank c = false) →
      J.fromStr (J.toString (.obj ms) ++ rest) = none
  spelled : ∀ s v, J.fromStr s = some v → '\\' ∉ s.toList → Json.Spelled s.toList v

namespace Json

/-- The text of an object is read up to its brace, whatever comes behind. -/
theorem read_obj {d : Nat} {ms : List (String × Json)} (hms : ∀ m ∈ ms, Plain d m.2) {n : Nat}
    (hn : (write (.obj ms)).length < n) (r : List Char) :
    read n (write (.obj ms) ++ r) = some (.obj ms, r) := by
  obtain ⟨n, rfl⟩ : ∃ n', n = n' + 1 := ⟨n - 1, by omega⟩
  cases ms with
  | nil => simp [write, read, isBlank]
  | cons m ms =>
      simp only [write, List.length_cons, List.length_append] at hn
      have hhead := readMember_write (r := writeMembers ms ++ r) (read_write d)
        (hms m (by simp)) (n := n) (by omega) (numberEnds_writeMembers ms r)
      have htail := readMembers_writeMembers (read_write d) ms
        (fun m' hm' => hms m' (by simp [hm'])) n r (by omega)
      simp only [write, List.cons_append, List.append_assoc, read]
      rw [List.dropWhile_cons_of_neg (by decide)]
      simp only [writeString, List.cons_append, List.append_assoc] at hhead ⊢
      rw [List.dropWhile_cons_of_neg (by decide)]
      split
      · rename_i heq
        exact absurd (List.cons.inj heq).1 (by decide)
      · rw [hhead]
        simp [htail]

theorem compact_strict : compact.Strict where
  toLawful := compact_lawful
  balanced _ _ h := compact_balanced h
  spelled _ _ h hplain := compact_spelled h hplain
  encloses ms hms := by
    have hms' : ∀ m ∈ ms, Nests (write m.2) := fun m hm => nests_write 126 m.2 (hms m hm)
    simpa [compact] using write_obj_nests hms'
  nothingBehind ms hms rest hrest := by
    have hread := read_obj (d := 126) hms
      (n := (compact.toString (.obj ms) ++ rest).length.succ) (by simp [compact]) rest.toList
    simp only [compact, String.toList_append, String.toList_ofList] at hread ⊢
    rw [hread]
    have hall : rest.toList.all isBlank = false := by
      simpa using hrest
    simp [hall]

end Json

/-! ## Objects cut short -/

section Cut

variable {J : JsonText} (hJ : J.Strict) {ms : List (String × Json)} (hms : Json.Plain 127 (.obj ms))

include hJ hms

open Json

/-- Behind a beginning of an object's text the scanner stands in the object. -/
theorem JsonText.Strict.depth_pos {p : List Char} (hp : p <+: (J.toString (.obj ms)).toList)
    (hne : p ≠ []) (hall : p ≠ (J.toString (.obj ms)).toList) :
    1 ≤ (scan ⟨.outside, 0⟩ p).depth := by
  obtain ⟨body, hbody, hnests⟩ := hJ.encloses ms hms
  rw [hbody] at hp hall
  obtain ⟨c, p, rfl⟩ := List.exists_cons_of_ne_nil hne
  obtain ⟨rfl, hp'⟩ := List.cons_prefix_cons.mp hp
  rcases List.prefix_concat_iff.mp hp' with rfl | hbehind
  · exact absurd rfl hall
  · exact ((hnests 1).2.of_isPrefix hbehind).depth

/-- A beginning of an object's text is not read as anything, and neither is one that
goes on with a text that leaves the scanner in the object. -/
theorem JsonText.Strict.cut {p t : List Char} (hp : p <+: (J.toString (.obj ms)).toList)
    (hne : p ≠ []) (hall : p ≠ (J.toString (.obj ms)).toList)
    (ht : ∀ s : Scan, 1 ≤ s.depth → 1 ≤ (scan s t).depth) :
    J.fromStr (String.ofList (p ++ t)) = none := by
  have hdepth := ht _ (hJ.depth_pos hms hp hne hall)
  cases h : J.fromStr (String.ofList (p ++ t)) with
  | none => rfl
  | some v =>
      have hbalanced := hJ.balanced _ _ h
      rw [String.toList_ofList, Json.Balanced, scan_append] at hbalanced
      rw [hbalanced] at hdepth
      exact absurd hdepth (by decide)

end Cut

end Rexec
