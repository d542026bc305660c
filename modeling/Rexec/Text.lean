import Rexec.Lib.Lines
import Mathlib.Tactic
import Mathlib.Data.List.DropRight

/-!
# Text as the program sees it

The functions of the Rust standard library that the host and its clients apply
to text and bytes: `char::is_whitespace`, `str::trim_end`, and the reading of
UTF-8, strict (`str::from_utf8`) and lossy (`String::from_utf8_lossy`).

UTF-8 is read one byte at a time.  The state is what an unfinished character
still needs; a byte that does not continue it yields one replacement for the
bytes read so far and is then read afresh, which is the replacement of maximal
subparts the standard library documents.
-/

namespace Rexec

/-- `char::is_whitespace`: the Unicode `White_Space` property. -/
def isWhitespace (c : Char) : Bool :=
  (9 ≤ c.toNat && c.toNat ≤ 13) || c.toNat = 32 || c.toNat = 0x85 ||
    c.toNat = 0xA0 || c.toNat = 0x1680 ||
    (0x2000 ≤ c.toNat && c.toNat ≤ 0x200A) || c.toNat = 0x2028 ||
    c.toNat = 0x2029 || c.toNat = 0x202F || c.toNat = 0x205F ||
    c.toNat = 0x3000

/-- `str::trim_end`. -/
def trimEnd (s : String) : String :=
  String.ofList (s.toList.rdropWhile isWhitespace)

/-- `str::trim`. -/
def trim (s : String) : String :=
  trimEnd (String.ofList (s.toList.dropWhile isWhitespace))

/-- A text that ends in no blank loses just the line feed put after it. -/
theorem trimEnd_lineFeed
    {s : String} {body : List Char} {c : Char}
    (hs : s.toList = body ++ [c]) (hc : isWhitespace c = false) :
    trimEnd (s ++ "\n") = s := by
  have hlist : (s ++ "\n").toList = s.toList ++ ['\n'] := by
    rw [String.toList_append]
    rfl
  rw [trimEnd, hlist, List.rdropWhile_concat_pos _ _ _ (by decide), hs,
    List.rdropWhile_concat_neg _ _ _ (by simp [hc]), ← hs, String.ofList_toList]

/-- A text that ends in no blank is not blank. -/
theorem trim_not_empty
    {s : String} {body : List Char} {c : Char}
    (hs : s.toList = body ++ [c]) (hc : isWhitespace c = false) :
    (trim s).isEmpty = false := by
  have hdrop : ∀ body : List Char,
      ∃ rest, (body ++ [c]).dropWhile isWhitespace = rest ++ [c] := by
    intro body
    induction body with
    | nil => exact ⟨[], by simp [hc]⟩
    | cons d body ih =>
        rw [List.cons_append, List.dropWhile_cons]
        split
        · exact ih
        · exact ⟨d :: body, rfl⟩
  obtain ⟨rest, hrest⟩ := hdrop body
  have hlist : (trim s).toList = rest ++ [c] := by
    rw [trim, trimEnd, hs, hrest, String.toList_ofList, String.toList_ofList,
      List.rdropWhile_concat_neg _ _ _ (by simp [hc])]
  by_contra hempty
  rw [Bool.not_eq_false, String.isEmpty_iff] at hempty
  rw [hempty] at hlist
  simp at hlist

namespace Utf8

/-- What an unfinished character still needs. -/
structure Pending where
  /-- continuation bytes still to come -/
  missing : Nat
  /-- the bits read so far -/
  bits : Nat
  /-- the range the next byte must lie in -/
  low : UInt8
  high : UInt8
deriving DecidableEq, Repr

/-- Read the first byte of a character. -/
def start (b : UInt8) : List (Option Char) × Option Pending :=
  if b < 0x80 then ([some (Char.ofNat b.toNat)], none)
  else if b < 0xC2 then ([none], none)
  else if b < 0xE0 then ([], some ⟨1, b.toNat - 0xC0, 0x80, 0xBF⟩)
  else if b = 0xE0 then ([], some ⟨2, 0, 0xA0, 0xBF⟩)
  else if b = 0xED then ([], some ⟨2, 0xD, 0x80, 0x9F⟩)
  else if b < 0xF0 then ([], some ⟨2, b.toNat - 0xE0, 0x80, 0xBF⟩)
  else if b = 0xF0 then ([], some ⟨3, 0, 0x90, 0xBF⟩)
  else if b < 0xF4 then ([], some ⟨3, b.toNat - 0xF0, 0x80, 0xBF⟩)
  else if b = 0xF4 then ([], some ⟨3, 4, 0x80, 0x8F⟩)
  else ([none], none)

/-- Read one byte; `none` in the output is an invalid piece of the input. -/
def push (p : Option Pending) (b : UInt8) :
    List (Option Char) × Option Pending :=
  match p with
  | none => start b
  | some ⟨missing, bits, low, high⟩ =>
      if low ≤ b ∧ b ≤ high then
        let bits := bits * 64 + (b.toNat - 0x80)
        if missing ≤ 1 then ([some (Char.ofNat bits)], none)
        else ([], some ⟨missing - 1, bits, 0x80, 0xBF⟩)
      else
        (none :: (start b).1, (start b).2)

/-- Read the bytes from a state; input that stops inside a character is invalid. -/
def decodeFrom : Option Pending → List UInt8 → List (Option Char)
  | none, [] => []
  | some _, [] => [none]
  | p, b :: bs => (push p b).1 ++ decodeFrom (push p b).2 bs

def decode (bs : List UInt8) : List (Option Char) :=
  decodeFrom none bs

/-! ### A character that was written is read back -/

/-- A character is a code point up to `10FFFF` and no surrogate. -/
theorem char_bounds (c : Char) :
    c.toNat < 0x110000 ∧ ¬ (0xD800 ≤ c.toNat ∧ c.toNat ≤ 0xDFFF) := by
  have hvalid := c.valid
  have hval : c.toNat = c.val.toNat := rfl
  simp only [UInt32.isValidChar, Nat.isValidChar] at hvalid
  omega

theorem toNat_ofNat {n : Nat} (hn : n < 256) : (UInt8.ofNat n).toNat = n := by
  simp [Nat.mod_eq_of_lt hn]

/-- `start`, over the values of bytes. -/
theorem start_ofNat {n : Nat} (hn : n < 256) :
    start (UInt8.ofNat n) =
      if n < 0x80 then ([some (Char.ofNat n)], none)
      else if n < 0xC2 then ([none], none)
      else if n < 0xE0 then ([], some ⟨1, n - 0xC0, 0x80, 0xBF⟩)
      else if n = 0xE0 then ([], some ⟨2, 0, 0xA0, 0xBF⟩)
      else if n = 0xED then ([], some ⟨2, 0xD, 0x80, 0x9F⟩)
      else if n < 0xF0 then ([], some ⟨2, n - 0xE0, 0x80, 0xBF⟩)
      else if n = 0xF0 then ([], some ⟨3, 0, 0x90, 0xBF⟩)
      else if n < 0xF4 then ([], some ⟨3, n - 0xF0, 0x80, 0xBF⟩)
      else if n = 0xF4 then ([], some ⟨3, 4, 0x80, 0x8F⟩)
      else ([none], none) := by
  simp only [start, UInt8.lt_iff_toNat_lt, ← UInt8.toNat_inj, toNat_ofNat hn,
    UInt8.reduceToNat]

theorem start_two {n : Nat} (hlow : 2 ≤ n) (hhigh : n < 32) :
    start (UInt8.ofNat (n + 0xC0)) = ([], some ⟨1, n, 0x80, 0xBF⟩) := by
  rw [start_ofNat (by omega), if_neg (by omega), if_neg (by omega), if_pos (by omega),
    Nat.add_sub_cancel]

theorem start_three {n : Nat} (hn : n < 16) :
    start (UInt8.ofNat (n + 0xE0)) =
      ([], some ⟨2, n, if n = 0 then 0xA0 else 0x80,
        if n = 13 then 0x9F else 0xBF⟩) := by
  rw [start_ofNat (by omega), if_neg (by omega), if_neg (by omega), if_neg (by omega)]
  by_cases h0 : n = 0
  · subst h0
    rfl
  · by_cases h13 : n = 13
    · subst h13
      rfl
    · rw [if_neg (by omega), if_neg (by omega), if_pos (by omega), Nat.add_sub_cancel,
        if_neg h0, if_neg h13]

theorem start_four {n : Nat} (hn : n < 5) :
    start (UInt8.ofNat (n + 0xF0)) =
      ([], some ⟨3, n, if n = 0 then 0x90 else 0x80,
        if n = 4 then 0x8F else 0xBF⟩) := by
  rw [start_ofNat (by omega)]
  interval_cases n <;> rfl

/-- A further byte of a character. -/
theorem push_continues {m bits n : Nat} {low high : UInt8}
    (hn : n < 64) (hlow : low.toNat ≤ n + 0x80) (hhigh : n + 0x80 ≤ high.toNat) :
    push (some ⟨m, bits, low, high⟩) (UInt8.ofNat (n + 0x80)) =
      if m ≤ 1 then ([some (Char.ofNat (bits * 64 + n))], none)
      else ([], some ⟨m - 1, bits * 64 + n, 0x80, 0xBF⟩) := by
  have hb : (UInt8.ofNat (n + 0x80)).toNat = n + 0x80 := toNat_ofNat (by omega)
  rw [push, if_pos ⟨UInt8.le_iff_toNat_le.mpr (by omega),
    UInt8.le_iff_toNat_le.mpr (by omega)⟩, hb, Nat.add_sub_cancel]

theorem decodeFrom_more {m bits n : Nat} {low high : UInt8}
    (hn : n < 64) (hlow : low.toNat ≤ n + 0x80) (hhigh : n + 0x80 ≤ high.toNat)
    (bs : List UInt8) :
    decodeFrom (some ⟨m + 2, bits, low, high⟩) (UInt8.ofNat (n + 0x80) :: bs) =
      decodeFrom (some ⟨m + 1, bits * 64 + n, 0x80, 0xBF⟩) bs := by
  rw [decodeFrom, push_continues hn hlow hhigh, if_neg (by omega)]
  rfl

theorem decodeFrom_last {bits n : Nat} (hn : n < 64) {low high : UInt8}
    (hlow : low.toNat ≤ n + 0x80) (hhigh : n + 0x80 ≤ high.toNat)
    (bs : List UInt8) :
    decodeFrom (some ⟨1, bits, low, high⟩) (UInt8.ofNat (n + 0x80) :: bs) =
      some (Char.ofNat (bits * 64 + n)) :: decodeFrom none bs := by
  rw [decodeFrom, push_continues hn hlow hhigh, if_pos (by omega)]
  rfl

theorem decodeFrom_first {b : UInt8} {bs : List UInt8} {p : Pending}
    (h : start b = ([], some p)) :
    decodeFrom none (b :: bs) = decodeFrom (some p) bs := by
  rw [decodeFrom, push, h]
  rfl

/-- The bytes of a character are read as this character. -/
theorem decodeFrom_char (c : Char) (bs : List UInt8) :
    decodeFrom none (String.utf8EncodeChar c ++ bs) = some c :: decodeFrom none bs := by
  obtain ⟨hmax, hsurrogate⟩ := char_bounds c
  have hchar : Char.ofNat c.toNat = c := Char.ofNat_toNat c
  have hval : c.val.toNat = c.toNat := rfl
  simp only [String.utf8EncodeChar, hval]
  generalize c.toNat = v at hmax hsurrogate hchar
  have hcont : (0x80 : UInt8).toNat = 128 ∧ (0xBF : UInt8).toNat = 191 := ⟨rfl, rfl⟩
  split
  · rename_i h1
    rw [List.singleton_append, decodeFrom, push, start_ofNat (by omega),
      if_pos (by omega), hchar]
    rfl
  · split
    · rename_i h1 h2
      simp only [List.cons_append, List.nil_append]
      rw [decodeFrom_first (start_two (by omega) (by omega)),
        decodeFrom_last (by omega) (by omega) (by omega)]
      rw [show v / 64 % 32 * 64 + v % 64 = v by omega, hchar]
    · split
      · rename_i h1 h2 h3
        simp only [List.cons_append, List.nil_append]
        rw [decodeFrom_first (start_three (by omega)),
          decodeFrom_more (by omega) _ _, decodeFrom_last (by omega) (by omega) (by omega)]
        · rw [show (v / 4096 % 16 * 64 + v / 64 % 64) * 64 + v % 64 = v by omega, hchar]
        · split
          · show 160 ≤ _
            omega
          · omega
        · split
          · show _ ≤ 159
            omega
          · omega
      · rename_i h1 h2 h3
        simp only [List.cons_append, List.nil_append]
        rw [decodeFrom_first (start_four (by omega)), decodeFrom_more (by omega) _ _,
          decodeFrom_more (by omega) (by omega) (by omega),
          decodeFrom_last (by omega) (by omega) (by omega)]
        · rw [show ((v / 262144 % 8 * 64 + v / 4096 % 64) * 64 + v / 64 % 64) * 64 +
            v % 64 = v by omega, hchar]
        · split
          · show 144 ≤ _
            omega
          · omega
        · split
          · show _ ≤ 143
            omega
          · omega

end Utf8

/-- `String::from_utf8_lossy`. -/
def fromUtf8Lossy (bs : List UInt8) : String :=
  String.ofList ((Utf8.decode bs).map (·.getD (Char.ofNat 0xFFFD)))

/-- `str::from_utf8`, as an option. -/
def fromUtf8 (bs : List UInt8) : Option String :=
  ((Utf8.decode bs).mapM id).map String.ofList

/-- The bytes of a text. -/
def bytes (s : String) : List UInt8 :=
  s.toList.flatMap String.utf8EncodeChar

/-- A text is read back from its bytes. -/
theorem decode_bytes (s : String) : Utf8.decode (bytes s) = s.toList.map some := by
  unfold Utf8.decode bytes
  induction s.toList with
  | nil => rfl
  | cons c cs ih =>
      rw [List.flatMap_cons, Utf8.decodeFrom_char, ih, List.map_cons]

theorem bytes_append (s t : String) : bytes (s ++ t) = bytes s ++ bytes t := by
  rw [bytes, String.toList_append, List.flatMap_append]
  rfl

theorem fromUtf8Lossy_bytes (s : String) : fromUtf8Lossy (bytes s) = s := by
  rw [fromUtf8Lossy, decode_bytes, List.map_map]
  simp [Function.comp_def]

theorem length_le_bytes (s : String) : s.toList.length ≤ (bytes s).length := by
  unfold bytes
  induction s.toList with
  | nil => exact Nat.le_refl _
  | cons c cs ih =>
      have hc := String.length_utf8EncodeChar c
      have hpos := c.utf8Size_pos
      rw [List.flatMap_cons, List.length_append, List.length_cons]
      omega

example : (fromUtf8Lossy [0x61, 0xE2, 0x82, 0x62]).toList =
    ['a', Char.ofNat 0xFFFD, 'b'] := by
  decide

/-! ### Valid input -/

namespace Utf8

/-- What a started character allows next is a continuation byte. -/
def Pending.Continues (p : Pending) : Prop :=
  0x80 ≤ p.low ∧ p.high ≤ 0xBF

theorem Pending.continues_mk {missing bits : Nat} {low high : UInt8}
    (h : 0x80 ≤ low ∧ high ≤ 0xBF) : Continues ⟨missing, bits, low, high⟩ :=
  h

theorem start_ascii {b : UInt8} (h : b < 0x80) :
    start b = ([some (Char.ofNat b.toNat)], none) := by
  rw [start, if_pos h]

/-- A byte above `7F` starts a longer character, or none. -/
theorem start_high {b : UInt8} (h : ¬ b < 0x80) :
    none ∈ (start b).1 ∨ ∃ p, start b = ([], some p) := by
  rw [start, if_neg h]
  split_ifs <;> first
    | exact Or.inr ⟨_, rfl⟩
    | exact Or.inl (List.mem_cons_self ..)

theorem start_continuation {b : UInt8} (hlow : 0x80 ≤ b) (hhigh : b ≤ 0xBF) :
    start b = ([none], none) := by
  have h1 : ¬ b < 0x80 := UInt8.not_lt.mpr hlow
  have h2 : b < 0xC2 := UInt8.lt_of_le_of_lt hhigh (by decide)
  rw [start, if_neg h1, if_pos h2]

theorem start_continues {b : UInt8} {p : Pending} (h : (start b).2 = some p) :
    p.Continues := by
  rw [start] at h
  split_ifs at h
  all_goals
    cases h
    try exact Pending.continues_mk (by decide)

theorem push_continues_of {p : Option Pending} (hp : ∀ q ∈ p, q.Continues)
    {b : UInt8} : ∀ q ∈ (push p b).2, q.Continues := by
  intro q hq
  cases p with
  | none => exact start_continues hq
  | some p =>
      obtain ⟨missing, bits, low, high⟩ := p
      rw [push] at hq
      split at hq
      · split at hq
        · cases hq
        · cases hq
          exact Pending.continues_mk (by decide)
      · exact start_continues hq

/-- An ASCII byte does not continue a character. -/
theorem push_pending_ascii {p : Pending} (hp : p.Continues) {b : UInt8} (hb : b < 0x80) :
    push (some p) b = ([none, some (Char.ofNat b.toNat)], none) := by
  obtain ⟨missing, bits, low, high⟩ := p
  have hnot : ¬ (low ≤ b ∧ b ≤ high) := fun h =>
    UInt8.lt_irrefl _ (UInt8.lt_of_le_of_lt (UInt8.le_trans hp.1 h.1) hb)
  rw [push, if_neg hnot, start_ascii hb]

/-- After an ASCII byte no character is unfinished. -/
theorem push_ascii_state {p : Option Pending} (hp : ∀ q ∈ p, q.Continues)
    {b : UInt8} (hb : b < 0x80) : (push p b).2 = none := by
  cases p with
  | none => rw [push, start_ascii hb]
  | some p => rw [push_pending_ascii (hp p rfl) hb]

/-- In valid text an ASCII byte stands between two characters. -/
theorem push_ascii {p : Option Pending} (hp : ∀ q ∈ p, q.Continues)
    {b : UInt8} (hb : b < 0x80) (hvalid : none ∉ (push p b).1) :
    p = none ∧ (push p b).2 = none := by
  refine ⟨?_, push_ascii_state hp hb⟩
  cases p with
  | none => rfl
  | some p =>
      rw [push_pending_ascii (hp p rfl) hb] at hvalid
      exact absurd (List.mem_cons_self ..) hvalid

/-- In valid text a started character goes on with a continuation byte. -/
theorem push_pending {p : Pending} (hp : p.Continues) {b : UInt8}
    (hvalid : none ∉ (push (some p) b).1) : 0x80 ≤ b ∧ b ≤ 0xBF := by
  obtain ⟨missing, bits, low, high⟩ := p
  rw [push] at hvalid
  split at hvalid
  · rename_i h
    exact ⟨UInt8.le_trans hp.1 h.1, UInt8.le_trans h.2 hp.2⟩
  · exact absurd (List.mem_cons_self ..) hvalid

theorem decodeFrom_cons (p : Option Pending) (b : UInt8) (bs : List UInt8) :
    decodeFrom p (b :: bs) = (push p b).1 ++ decodeFrom (push p b).2 bs := by
  cases p <;> rfl

theorem valid_cons {p : Option Pending} {b : UInt8} {bs : List UInt8} :
    none ∉ decodeFrom p (b :: bs) ↔
      none ∉ (push p b).1 ∧ none ∉ decodeFrom (push p b).2 bs := by
  rw [decodeFrom_cons, List.mem_append, not_or]

/-! ### Valid bytes are those of a text -/

theorem toNat_char {v : Nat} (h : v < 0x110000) (hs : ¬ (0xD800 ≤ v ∧ v ≤ 0xDFFF)) :
    (Char.ofNat v).val.toNat = v := by
  have hvalid : v.isValidChar := by
    rw [Nat.isValidChar]
    omega
  rw [Char.ofNat, dif_pos hvalid]
  rfl

theorem encode_two {v : Nat} (hlow : 0x80 ≤ v) (hhigh : v < 0x800) :
    String.utf8EncodeChar (Char.ofNat v) =
      [UInt8.ofNat (v / 64 + 0xC0), UInt8.ofNat (v % 64 + 0x80)] := by
  simp only [String.utf8EncodeChar, toNat_char (v := v) (by omega) (by omega)]
  rw [if_neg (by omega), if_pos (by omega), Nat.mod_eq_of_lt (by omega : v / 64 < 32)]

theorem encode_three {v : Nat} (hlow : 0x800 ≤ v) (hhigh : v < 0x10000)
    (hs : ¬ (0xD800 ≤ v ∧ v ≤ 0xDFFF)) :
    String.utf8EncodeChar (Char.ofNat v) =
      [UInt8.ofNat (v / 4096 + 0xE0), UInt8.ofNat (v / 64 % 64 + 0x80),
        UInt8.ofNat (v % 64 + 0x80)] := by
  simp only [String.utf8EncodeChar, toNat_char (v := v) (by omega) hs]
  rw [if_neg (by omega), if_neg (by omega), if_pos (by omega),
    Nat.mod_eq_of_lt (by omega : v / 4096 < 16)]

theorem encode_four {v : Nat} (hlow : 0x10000 ≤ v) (hhigh : v < 0x110000) :
    String.utf8EncodeChar (Char.ofNat v) =
      [UInt8.ofNat (v / 262144 + 0xF0), UInt8.ofNat (v / 4096 % 64 + 0x80),
        UInt8.ofNat (v / 64 % 64 + 0x80), UInt8.ofNat (v % 64 + 0x80)] := by
  simp only [String.utf8EncodeChar, toNat_char (v := v) (by omega) (by omega)]
  rw [if_neg (by omega), if_neg (by omega), if_neg (by omega),
    Nat.mod_eq_of_lt (by omega : v / 262144 < 8)]

/-- In text that is valid an unfinished character goes on with a byte of its range. -/
theorem decodeFrom_pending {m bits : Nat} {low high : UInt8}
    (hp : Pending.Continues ⟨m, bits, low, high⟩) {bs : List UInt8} {cs : List Char}
    (h : decodeFrom (some ⟨m, bits, low, high⟩) bs = cs.map some) :
    ∃ k rest, bs = UInt8.ofNat (k + 0x80) :: rest ∧ k < 64 ∧
      low.toNat ≤ k + 0x80 ∧ k + 0x80 ≤ high.toNat ∧
      (if m ≤ 1 then some (Char.ofNat (bits * 64 + k)) :: decodeFrom none rest
        else decodeFrom (some ⟨m - 1, bits * 64 + k, 0x80, 0xBF⟩) rest) = cs.map some := by
  cases bs with
  | nil =>
      have hnone : none ∈ cs.map some := by
        rw [← h]
        simp [decodeFrom]
      simp at hnone
  | cons b rest =>
      have hvalid : none ∉ decodeFrom (some ⟨m, bits, low, high⟩) (b :: rest) := by
        rw [h]
        simp
      obtain ⟨hb, hb'⟩ := push_pending hp (valid_cons.mp hvalid).1
      have hrange : low ≤ b ∧ b ≤ high := by
        by_contra hout
        have hfirst := (valid_cons.mp hvalid).1
        rw [push, if_neg hout] at hfirst
        exact hfirst (by simp)
      have hlow := UInt8.le_iff_toNat_le.mp hrange.1
      have hhigh := UInt8.le_iff_toNat_le.mp hrange.2
      have hge : 128 ≤ b.toNat := UInt8.le_iff_toNat_le.mp hb
      have hle : b.toNat ≤ 191 := UInt8.le_iff_toNat_le.mp hb'
      have hbyte : UInt8.ofNat (b.toNat - 0x80 + 0x80) = b := by
        rw [Nat.sub_add_cancel hge, UInt8.ofNat_toNat]
      refine ⟨b.toNat - 0x80, rest, by rw [hbyte], by omega, by omega, by omega, ?_⟩
      rw [← h, decodeFrom_cons, push, if_pos hrange]
      split <;> rfl

/-- The two bytes that end a character of three. -/
theorem decodeFrom_pending_two {bits : Nat} {low high : UInt8}
    (hp : Pending.Continues ⟨2, bits, low, high⟩) {bs : List UInt8} {cs : List Char}
    (h : decodeFrom (some ⟨2, bits, low, high⟩) bs = cs.map some) :
    ∃ k l rest, bs = [UInt8.ofNat (k + 0x80), UInt8.ofNat (l + 0x80)] ++ rest ∧
      k < 64 ∧ l < 64 ∧ low.toNat ≤ k + 0x80 ∧ k + 0x80 ≤ high.toNat ∧
      some (Char.ofNat ((bits * 64 + k) * 64 + l)) :: decodeFrom none rest = cs.map some := by
  obtain ⟨k, rest, rfl, hk, hlow, hhigh, hrest⟩ := decodeFrom_pending hp h
  rw [if_neg (by omega)] at hrest
  obtain ⟨l, rest, rfl, hl, -, -, hrest⟩ :=
    decodeFrom_pending (Pending.continues_mk (by decide)) hrest
  rw [if_pos (by omega)] at hrest
  exact ⟨k, l, rest, rfl, hk, hl, hlow, hhigh, hrest⟩

/-- The three bytes that end a character of four. -/
theorem decodeFrom_pending_three {bits : Nat} {low high : UInt8}
    (hp : Pending.Continues ⟨3, bits, low, high⟩) {bs : List UInt8} {cs : List Char}
    (h : decodeFrom (some ⟨3, bits, low, high⟩) bs = cs.map some) :
    ∃ k l j rest,
      bs = [UInt8.ofNat (k + 0x80), UInt8.ofNat (l + 0x80), UInt8.ofNat (j + 0x80)] ++ rest ∧
      k < 64 ∧ l < 64 ∧ j < 64 ∧ low.toNat ≤ k + 0x80 ∧ k + 0x80 ≤ high.toNat ∧
      some (Char.ofNat (((bits * 64 + k) * 64 + l) * 64 + j)) :: decodeFrom none rest =
        cs.map some := by
  obtain ⟨k, rest, rfl, hk, hlow, hhigh, hrest⟩ := decodeFrom_pending hp h
  rw [if_neg (by omega)] at hrest
  obtain ⟨l, j, rest, rfl, hl, hj, -, -, hrest⟩ :=
    decodeFrom_pending_two (Pending.continues_mk (by decide)) hrest
  exact ⟨k, l, j, rest, rfl, hk, hl, hj, hlow, hhigh, hrest⟩

/-- The bytes begin with the character that `b` starts, and go on as `cs` says. -/
def Begins (b : UInt8) (bs : List UInt8) (cs : List Char) : Prop :=
  ∃ c more rest, bs = more ++ rest ∧ b :: more = String.utf8EncodeChar c ∧
    some c :: decodeFrom none rest = cs.map some

section Begins

variable {n m : Nat} {low high : UInt8} {bs : List UInt8} {cs : List Char}

theorem begins_two (hn : n = m + 0xC0) (hm : 2 ≤ m) (hm' : m < 32)
    (h : decodeFrom (some ⟨1, m, 0x80, 0xBF⟩) bs = cs.map some) :
    Begins (UInt8.ofNat n) bs cs := by
  obtain ⟨k, rest, rfl, hk, -, -, hrest⟩ :=
    decodeFrom_pending (Pending.continues_mk (by decide)) h
  rw [if_pos (by omega)] at hrest
  refine ⟨_, [_], rest, rfl, ?_, hrest⟩
  rw [encode_two (by omega) (by omega), show (m * 64 + k) / 64 = m by omega,
    show (m * 64 + k) % 64 = k by omega, hn]

theorem begins_three (hn : n = m + 0xE0) (hm : m < 16)
    (hp : Pending.Continues ⟨2, m, low, high⟩) (hzero : m = 0 → 0xA0 ≤ low.toNat)
    (hsurrogate : m = 13 → high.toNat ≤ 0x9F)
    (h : decodeFrom (some ⟨2, m, low, high⟩) bs = cs.map some) :
    Begins (UInt8.ofNat n) bs cs := by
  obtain ⟨k, l, rest, hbs, hk, hl, hlow, hhigh, hrest⟩ := decodeFrom_pending_two hp h
  refine ⟨_, _, rest, hbs, ?_, hrest⟩
  rw [encode_three (by omega) (by omega) (by omega),
    show ((m * 64 + k) * 64 + l) / 4096 = m by omega,
    show ((m * 64 + k) * 64 + l) / 64 % 64 = k by omega,
    show ((m * 64 + k) * 64 + l) % 64 = l by omega, hn]

theorem begins_four (hn : n = m + 0xF0) (hm : m < 5)
    (hp : Pending.Continues ⟨3, m, low, high⟩) (hzero : m = 0 → 0x90 ≤ low.toNat)
    (hmax : m = 4 → high.toNat ≤ 0x8F)
    (h : decodeFrom (some ⟨3, m, low, high⟩) bs = cs.map some) :
    Begins (UInt8.ofNat n) bs cs := by
  obtain ⟨k, l, j, rest, hbs, hk, hl, hj, hlow, hhigh, hrest⟩ := decodeFrom_pending_three hp h
  refine ⟨_, _, rest, hbs, ?_, hrest⟩
  rw [encode_four (by omega) (by omega),
    show (((m * 64 + k) * 64 + l) * 64 + j) / 262144 = m by omega,
    show (((m * 64 + k) * 64 + l) * 64 + j) / 4096 % 64 = k by omega,
    show (((m * 64 + k) * 64 + l) * 64 + j) / 64 % 64 = l by omega,
    show (((m * 64 + k) * 64 + l) * 64 + j) % 64 = j by omega, hn]

end Begins

/-- The first character of a valid text. -/
theorem begins_of_decode {b : UInt8} {bs : List UInt8} {cs : List Char}
    (h : decodeFrom none (b :: bs) = cs.map some) : Begins b bs cs := by
  have hvalid := (valid_cons.mp (show none ∉ decodeFrom none (b :: bs) by rw [h]; simp)).1
  obtain ⟨n, hn, rfl⟩ : ∃ n, n < 256 ∧ b = UInt8.ofNat n :=
    ⟨b.toNat, b.toNat_lt, UInt8.ofNat_toNat.symm⟩
  have hstart := start_ofNat hn
  have hcont : ∀ {missing bits : Nat} {low high : UInt8}, 0x80 ≤ low ∧ high ≤ 0xBF →
      Pending.Continues ⟨missing, bits, low, high⟩ := Pending.continues_mk
  rw [decodeFrom_cons] at h
  simp only [push] at h hvalid
  split_ifs at hstart
  all_goals rw [hstart] at h hvalid
  · refine ⟨_, [], bs, rfl, ?_, h⟩
    simp only [String.utf8EncodeChar, toNat_char (v := n) (by omega) (by omega)]
    rw [if_pos (by omega)]
  · simp at hvalid
  · exact begins_two (by omega) (by omega) (by omega) h
  · exact begins_three (by omega) (by omega) (hcont (by decide)) (by decide) (by decide) h
  · exact begins_three (by omega) (by omega) (hcont (by decide)) (by decide) (by decide) h
  · exact begins_three (by omega) (by omega) (hcont (by decide)) (by omega) (by omega) h
  · exact begins_four (by omega) (by omega) (hcont (by decide)) (by decide) (by decide) h
  · exact begins_four (by omega) (by omega) (hcont (by decide)) (by omega) (by omega) h
  · exact begins_four (by omega) (by omega) (hcont (by decide)) (by decide) (by decide) h
  · simp at hvalid

/-- Bytes that are read as characters are the bytes of these characters. -/
theorem eq_encode_of_decode {bs : List UInt8} {cs : List Char}
    (h : decodeFrom none bs = cs.map some) : bs = cs.flatMap String.utf8EncodeChar := by
  induction cs generalizing bs with
  | nil =>
      cases bs with
      | nil => rfl
      | cons b bs =>
          obtain ⟨c, more, rest, -, -, hrest⟩ := begins_of_decode h
          cases hrest
  | cons c cs ih =>
      cases bs with
      | nil => cases h
      | cons b bs =>
          obtain ⟨d, more, rest, rfl, hchar, hrest⟩ := begins_of_decode h
          obtain ⟨hd, htail⟩ := List.cons_eq_cons.mp hrest
          cases hd
          rw [List.flatMap_cons, ← ih htail, ← hchar, List.cons_append]

end Utf8

theorem mapM_id_eq_some {l : List (Option Char)} {cs : List Char} :
    l.mapM id = some cs ↔ l = cs.map some := by
  induction l generalizing cs with
  | nil => cases cs <;> simp
  | cons c l ih =>
      cases c with
      | none => cases cs <;> simp
      | some c =>
          cases cs with
          | nil => cases h : l.mapM id <;> simp [h]
          | cons d cs =>
              rw [List.map_cons, List.cons.injEq, ← ih]
              cases h : l.mapM id <;> simp [h]

theorem fromUtf8_eq_some {bs : List UInt8} {text : String} :
    fromUtf8 bs = some text ↔ Utf8.decode bs = text.toList.map some := by
  rw [fromUtf8, Option.map_eq_some_iff]
  constructor
  · rintro ⟨cs, hcs, rfl⟩
    rw [mapM_id_eq_some.mp hcs, String.toList_ofList]
  · intro h
    exact ⟨text.toList, mapM_id_eq_some.mpr h, String.ofList_toList⟩

theorem fromUtf8_bytes (s : String) : fromUtf8 (bytes s) = some s :=
  fromUtf8_eq_some.mpr (decode_bytes s)

/-- The valid byte strings are those of texts. -/
theorem fromUtf8_eq_some_iff {bs : List UInt8} {text : String} :
    fromUtf8 bs = some text ↔ bs = bytes text := by
  constructor
  · intro h
    exact Utf8.eq_encode_of_decode (fromUtf8_eq_some.mp h)
  · rintro rfl
    exact fromUtf8_bytes text

theorem bytes_inj {s t : String} : bytes s = bytes t ↔ s = t := by
  constructor
  · intro h
    have htext := (fromUtf8_bytes s).symm.trans (h ▸ fromUtf8_bytes t)
    exact Option.some_inj.mp htext
  · rintro rfl
    rfl

theorem valid_of_fromUtf8 {bs : List UInt8} {text : String}
    (h : fromUtf8 bs = some text) : none ∉ Utf8.decode bs := by
  rw [fromUtf8_eq_some.mp h]
  simp

/-- A byte string is a text if and only if its decoding finds no invalid piece; the
lossy reading is this text then. -/
theorem fromUtf8_eq_lossy_iff (bs : List UInt8) :
    fromUtf8 bs = some (fromUtf8Lossy bs) ↔ none ∉ Utf8.decode bs := by
  refine ⟨valid_of_fromUtf8, fun h => ?_⟩
  rw [fromUtf8_eq_some, fromUtf8Lossy, String.toList_ofList, List.map_map]
  refine (List.map_id _).symm.trans (List.map_congr_left ?_)
  intro c hc
  cases c with
  | none => exact absurd hc h
  | some c => rfl

theorem fromUtf8_eq_none {bs : List UInt8} :
    fromUtf8 bs = none ↔ none ∈ Utf8.decode bs := by
  constructor
  · intro h
    by_contra hvalid
    rw [(fromUtf8_eq_lossy_iff bs).mpr hvalid] at h
    cases h
  · intro h
    cases htext : fromUtf8 bs with
    | none => rfl
    | some text => exact absurd h (valid_of_fromUtf8 htext)

/-! ### Lines of text in bytes -/

/-- A line feed. -/
def lineFeed : UInt8 := 10

/-- A byte below `80` is written for no character but its own. -/
theorem toNat_of_mem_encode {c : Char} {b : UInt8} (h : b ∈ String.utf8EncodeChar c)
    (hb : b < 0x80) : c.toNat = b.toNat := by
  have hval : c.val.toNat = c.toNat := rfl
  have hsmall : b.toNat < 128 := UInt8.lt_iff_toNat_lt.mp hb
  obtain ⟨hmax, -⟩ := Utf8.char_bounds c
  have hbyte : ∀ n, n < 256 → b = UInt8.ofNat n → n = b.toNat := by
    rintro n hn rfl
    exact (Utf8.toNat_ofNat hn).symm
  simp only [String.utf8EncodeChar, hval] at h
  generalize c.toNat = v at hmax h
  split at h
  · exact hbyte v (by omega) (by simpa using h)
  · split at h
    · simp only [List.mem_cons, List.not_mem_nil, or_false] at h
      rcases h with h | h <;> have := hbyte _ (by omega) h <;> omega
    · split at h
      · simp only [List.mem_cons, List.not_mem_nil, or_false] at h
        rcases h with h | h | h <;> have := hbyte _ (by omega) h <;> omega
      · simp only [List.mem_cons, List.not_mem_nil, or_false] at h
        rcases h with h | h | h | h <;> have := hbyte _ (by omega) h <;> omega

/-- A character of ASCII is in a text if its byte is in the bytes of the text. -/
theorem mem_bytes_iff {c : Char} {b : UInt8} (hc : String.utf8EncodeChar c = [b])
    (hb : b < 0x80) {text : String} : b ∈ bytes text ↔ c ∈ text.toList := by
  have hself : c.toNat = b.toNat :=
    toNat_of_mem_encode (by rw [hc]; exact List.mem_singleton.mpr rfl) hb
  rw [bytes, List.mem_flatMap]
  constructor
  · rintro ⟨d, hd, hmem⟩
    have hnat : d.toNat = c.toNat := (toNat_of_mem_encode hmem hb).trans hself.symm
    rwa [← Char.toNat_inj.mp hnat]
  · intro h
    exact ⟨c, h, by rw [hc]; exact List.mem_singleton.mpr rfl⟩

/-- Of all characters only the line feed is written with a line feed. -/
theorem lineFeed_mem_encode {c : Char} (h : lineFeed ∈ String.utf8EncodeChar c) :
    c = '\n' := by
  have hval : c.toNat = lineFeed.toNat := toNat_of_mem_encode h (by decide)
  rw [← Char.ofNat_toNat c, hval]
  rfl

/-- A complete line of text is one in bytes. -/
theorem isLine_bytes {text : String} (h : Lines.IsLine '\n' text.toList) :
    Lines.IsLine lineFeed (bytes text) := by
  obtain ⟨body, hbody, htext⟩ := h
  refine ⟨body.flatMap String.utf8EncodeChar, ?_, ?_⟩
  · rw [List.mem_flatMap]
    rintro ⟨c, hc, hmem⟩
    rw [lineFeed_mem_encode hmem] at hc
    exact hbody hc
  · rw [bytes, htext, List.flatMap_append]
    rfl

/-- A stream is decoded line by line. -/
theorem Utf8.decodeFrom_line {p : Option Utf8.Pending} (hp : ∀ q ∈ p, q.Continues)
    {l : List UInt8} (hl : Lines.IsLine lineFeed l) (rest : List UInt8) :
    Utf8.decodeFrom p (l ++ rest) = Utf8.decodeFrom p l ++ Utf8.decodeFrom none rest := by
  obtain ⟨body, -, rfl⟩ := hl
  induction body generalizing p with
  | nil =>
      have hstate : (Utf8.push p lineFeed).2 = none := Utf8.push_ascii_state hp (by decide)
      rw [List.nil_append, List.singleton_append, Utf8.decodeFrom_cons, Utf8.decodeFrom_cons,
        hstate]
      simp [Utf8.decodeFrom]
  | cons b body ih =>
      rw [List.cons_append, List.cons_append, Utf8.decodeFrom_cons, Utf8.decodeFrom_cons,
        ih (Utf8.push_continues_of hp), List.append_assoc]

/-- Behind a beginning of the bytes some characters are read, and a character may be
unfinished. -/
theorem Utf8.decodeFrom_append {p : Option Utf8.Pending} (hp : ∀ q ∈ p, q.Continues)
    (front : List UInt8) :
    ∃ cs p', (∀ q ∈ p', Utf8.Pending.Continues q) ∧
      ∀ rest, Utf8.decodeFrom p (front ++ rest) = cs ++ Utf8.decodeFrom p' rest := by
  induction front generalizing p with
  | nil => exact ⟨[], p, hp, fun _ => rfl⟩
  | cons b front ih =>
      obtain ⟨cs, p', hp', hall⟩ := ih (Utf8.push_continues_of hp (b := b))
      refine ⟨(Utf8.push p b).1 ++ cs, p', hp', fun rest => ?_⟩
      rw [List.cons_append, Utf8.decodeFrom_cons, hall, List.append_assoc]

/-- A text whose bytes are a beginning of other text and then ASCII is a beginning of
that text in characters. -/
theorem fromUtf8_cut {s text : String} {front rest : List UInt8} (hfront : front <+: bytes s)
    (hrest : ∀ b ∈ rest.head?, b < 0x80) (h : fromUtf8 (front ++ rest) = some text) :
    ∃ a b : String, text = a ++ b ∧ a.toList <+: s.toList ∧ bytes a = front ∧ bytes b = rest := by
  obtain ⟨cs, p, hp, hall⟩ := Utf8.decodeFrom_append (p := none) (by simp) front
  have htext := (hall rest).symm.trans (fromUtf8_eq_some.mp h)
  obtain ⟨more, hmore⟩ := hfront
  have hs := (hall more).symm.trans (hmore ▸ decode_bytes s)
  obtain rfl : p = none := by
    cases p with
    | none => rfl
    | some q =>
        have hnone : none ∈ Utf8.decodeFrom (some q) rest := by
          cases rest with
          | nil => exact List.mem_singleton.mpr rfl
          | cons b rest =>
              rw [Utf8.decodeFrom_cons, Utf8.push_pending_ascii (hp q rfl) (hrest b rfl)]
              simp
        have hmem : none ∈ text.toList.map some := htext ▸ List.mem_append_right cs hnone
        simp at hmem
  obtain ⟨as, bs, hlist, has, hbs⟩ := List.map_eq_append_iff.mp htext.symm
  obtain ⟨as', bs', hlist', has', -⟩ := List.map_eq_append_iff.mp hs.symm
  obtain rfl : as = as' :=
    List.map_injective_iff.mpr (Option.some_injective _) (has.trans has'.symm)
  have hsplit : text = String.ofList as ++ String.ofList bs := by
    rw [← String.ofList_append, ← hlist, String.ofList_toList]
  have hb : rest = bytes (String.ofList bs) := by
    refine fromUtf8_eq_some_iff.mp (fromUtf8_eq_some.mpr ?_)
    rw [String.toList_ofList]
    exact hbs.symm
  refine ⟨String.ofList as, String.ofList bs, hsplit, ?_, ?_, hb.symm⟩
  · rw [String.toList_ofList, hlist']
    exact List.prefix_append as bs'
  · have hbytes := fromUtf8_eq_some_iff.mp h
    rw [hsplit, bytes_append, ← hb] at hbytes
    exact (List.append_cancel_right hbytes).symm

end Rexec
