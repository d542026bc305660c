import Rexec.Lib.Json

/-!
# The compact JSON text is read back

The reader inverts the writer on every value without fractions or exponents:
`read_write`.  The proof goes by the nesting depth of the value; within one
container it is an induction on the list of items or members.  With the two
facts about the shape of the text (`noLineFeed_write`, `objectEnds_write`) this
gives `compact_lawful`.
-/

namespace Rexec
namespace Json

/-! ## Strings -/

theorem hexValue_hexDigit :
    ∀ n, n < 16 → hexValue (hexDigit n) = some n := by
  decide

/-- The four digits of a control character denote that character. -/
theorem readUnicode_control
    {c : Char} (h : c.toNat < 32) :
    readUnicode '0' '0' (hexDigit (c.toNat / 16)) (hexDigit (c.toNat % 16)) =
      some c := by
  have hzero : hexValue '0' = some 0 := by decide
  have hhigh := hexValue_hexDigit (c.toNat / 16) (by omega)
  have hlow := hexValue_hexDigit (c.toNat % 16) (by omega)
  have hsum :
      ((0 * 16 + 0) * 16 + c.toNat / 16) * 16 + c.toNat % 16 = c.toNat := by
    omega
  simp only [readUnicode, hzero, hhigh, hlow, hsum]
  have hvalid : c.toNat.isValidChar := c.valid
  rw [if_pos hvalid, Char.ofNat_toNat]

/-- Reading one written character gives it back. -/
theorem readString_writeChar
    (c : Char) (rest : List Char) :
    readString (writeChar c ++ rest) =
      (readString rest).map fun p => (c :: p.1, p.2) := by
  unfold writeChar
  split_ifs with h1 h2 h3 h4 h5 h6 h7 h8
  · subst h1
    cases h : readString rest <;> simp [readString, h]
  · subst h2
    cases h : readString rest <;> simp [readString, h]
  · subst h3
    cases h : readString rest <;> simp [readString, h]
  · subst h4
    cases h : readString rest <;> simp [readString, h]
  · subst h5
    cases h : readString rest <;> simp [readString, h]
  · subst h6
    cases h : readString rest <;> simp [readString, h]
  · subst h7
    cases h : readString rest <;> simp [readString, h]
  · cases h : readString rest <;>
      simp [readString, readUnicode_control h8, h]
  · rw [List.singleton_append]
    have hlit : ¬ (c.toNat < 32 ∨ c = '\\') := by
      rintro (h | h)
      · exact h8 h
      · exact h2 h
    rw [readString.eq_def]
    split
    · rename_i heq
      exact absurd (List.cons.inj heq).1 h1
    · rename_i heq
      exact absurd (List.cons.inj heq).1 h2
    · rename_i heq
      exact absurd (List.cons.inj heq).1 h2
    · rename_i c' cs' heq
      obtain ⟨rfl, rfl⟩ := List.cons.inj heq
      rw [if_neg hlit]
      cases readString rest <;> rfl
    · rename_i heq
      cases heq

theorem readString_write
    (s r : List Char) :
    readString (s.flatMap writeChar ++ '"' :: r) = some (s, r) := by
  induction s with
  | nil => simp [readString]
  | cons c s ih =>
      rw [List.flatMap_cons, List.append_assoc, readString_writeChar, ih]
      rfl

/-! ## Numbers -/

/-- What may stand right after an integer. -/
def NumberEnds : List Char → Prop
  | [] => True
  | c :: _ => c.isDigit = false ∧ c ≠ '.' ∧ c ≠ 'e' ∧ c ≠ 'E'

theorem digits_all (n : Nat) :
    ∀ c ∈ Nat.toDigits 10 n, c.isDigit = true :=
  fun _ hc => Nat.isDigit_of_mem_toDigits (by omega) (by omega) hc

theorem takeWhile_digits
    (n : Nat) {r : List Char} (hr : NumberEnds r) :
    (Nat.toDigits 10 n ++ r).takeWhile Char.isDigit = Nat.toDigits 10 n := by
  rw [List.takeWhile_append_of_pos (digits_all n)]
  cases r with
  | nil => simp
  | cons c r => simp [hr.1]

theorem dropWhile_digits
    (n : Nat) {r : List Char} (hr : NumberEnds r) :
    (Nat.toDigits 10 n ++ r).dropWhile Char.isDigit = r := by
  rw [List.dropWhile_append_of_pos (digits_all n)]
  cases r with
  | nil => rfl
  | cons c r => simp [hr.1]

theorem readNumber_digits
    (sign : Bool) (n : Nat) {r : List Char} (hr : NumberEnds r) :
    readNumber sign (Nat.toDigits 10 n ++ r) =
      some (.int (if sign then -(n : Int) else n), r) := by
  unfold readNumber
  simp only [takeWhile_digits n hr, dropWhile_digits n hr,
    Nat.ofDigitChars_ten_toDigits, Nat.toDigits_ne_nil, if_false]
  split
  · exact absurd rfl hr.2.1
  · exact absurd rfl hr.2.2.1
  · exact absurd rfl hr.2.2.2
  · rfl

/-! ## Values -/

/-- Every text starts with a character that is no blank and closes nothing. -/
theorem write_head
    {d : Nat} {v : Json} (h : Plain d v) :
    ∃ c t, write v = c :: t ∧ isBlank c = false ∧ c ≠ ']' := by
  cases v with
  | null => exact ⟨_, _, rfl, by decide, by decide⟩
  | bool b => cases b <;> exact ⟨_, _, rfl, by decide, by decide⟩
  | int n =>
      simp only [write, writeInt]
      split
      · exact ⟨_, _, rfl, by decide, by decide⟩
      · obtain ⟨c, t, hct⟩ := List.exists_cons_of_ne_nil
          (Nat.toDigits_ne_nil (n := n.natAbs) (b := 10))
        have hc := digits_all n.natAbs c (by simp [hct])
        refine ⟨c, t, hct, ?_, ?_⟩
        · by_contra hb
          simp only [isBlank, Bool.not_eq_false, Bool.or_eq_true,
            decide_eq_true_eq] at hb
          rcases hb with ((rfl | rfl) | rfl) | rfl <;>
            exact absurd hc (by decide)
        · rintro rfl
          exact absurd hc (by decide)
  | real t => cases d <;> exact h.elim
  | str s => exact ⟨_, _, rfl, by decide, by decide⟩
  | arr vs => cases vs <;> exact ⟨_, _, rfl, by decide, by decide⟩
  | obj ms => cases ms <;> exact ⟨_, _, rfl, by decide, by decide⟩

theorem dropWhile_write
    {d : Nat} {v : Json} (h : Plain d v) (r : List Char) :
    (write v ++ r).dropWhile isBlank = write v ++ r := by
  obtain ⟨c, t, hct, hblank, _⟩ := write_head h
  rw [hct, List.cons_append, List.dropWhile_cons_of_neg (by simp [hblank])]

theorem numberEnds_writeItems
    (vs : List Json) (r : List Char) :
    NumberEnds (writeItems vs ++ r) := by
  cases vs <;> simp [writeItems, NumberEnds]

theorem numberEnds_writeMembers
    (ms : List (String × Json)) (r : List Char) :
    NumberEnds (writeMembers ms ++ r) := by
  cases ms <;> simp [writeMembers, NumberEnds]

/-- A text starting with no keyword, quote, bracket or minus is a number. -/
theorem read_digits
    (n : Nat) {m : Nat} {r : List Char} (hr : NumberEnds r) :
    read (n + 1) (Nat.toDigits 10 m ++ r) = some (.int m, r) := by
  obtain ⟨c, t, hct⟩ := List.exists_cons_of_ne_nil
    (Nat.toDigits_ne_nil (n := m) (b := 10))
  have hc : c.isDigit = true := digits_all m c (by simp [hct])
  have hblank : isBlank c = false := by
    by_contra hb
    simp only [isBlank, Bool.not_eq_false, Bool.or_eq_true,
      decide_eq_true_eq] at hb
    rcases hb with ((rfl | rfl) | rfl) | rfl <;> exact absurd hc (by decide)
  have hnum := readNumber_digits false m hr
  rw [hct, List.cons_append] at hnum ⊢
  rw [read, List.dropWhile_cons_of_neg (by simp [hblank])]
  split
  all_goals first
    | exact absurd hc (by rename_i heq; rw [(List.cons.inj heq).1]; decide)
    | simpa using hnum

/-- What `read` returns on the text of a value followed by `r`. -/
def ReadsBack (d : Nat) : Prop :=
  ∀ v, Plain d v → ∀ n r, (write v).length ≤ n → NumberEnds r →
    read n (write v ++ r) = some (v, r)

theorem readItems_writeItems
    {d : Nat} (hd : ReadsBack d) :
    ∀ (vs : List Json), (∀ v ∈ vs, Plain d v) → ∀ n r,
      (writeItems vs).length ≤ n →
      readItems n (writeItems vs ++ r) = some (vs, r)
  | [], _, 0, r, hn => by simp [writeItems] at hn
  | [], _, n + 1, r, _ => by simp [writeItems, readItems, isBlank]
  | v :: vs, _, 0, r, hn => by simp [writeItems] at hn
  | v :: vs, hvs, n + 1, r, hn => by
      simp only [writeItems, List.length_cons, List.length_append] at hn
      have hv := hd v (hvs v (by simp)) n (writeItems vs ++ r) (by omega)
        (numberEnds_writeItems vs r)
      have htail := readItems_writeItems hd vs
        (fun w hw => hvs w (by simp [hw])) n r (by omega)
      simp only [writeItems, List.cons_append, List.append_assoc, readItems]
      rw [List.dropWhile_cons_of_neg (by decide)]
      simp only [hv, htail, Option.map_some]

theorem readMember_write
    {d : Nat} (hd : ReadsBack d) {m : String × Json} (hm : Plain d m.2)
    {n : Nat} {r : List Char}
    (hn : (write m.2).length + 1 ≤ n) (hr : NumberEnds r) :
    readMember n (writeString m.1 ++ ':' :: (write m.2 ++ r)) = some (m, r) := by
  obtain ⟨n, rfl⟩ : ∃ n', n = n' + 1 := ⟨n - 1, by omega⟩
  have hv := hd m.2 hm n r (by omega) hr
  simp only [writeString, List.cons_append, List.append_assoc, readMember]
  rw [List.dropWhile_cons_of_neg (by decide)]
  simp only [List.nil_append, readString_write]
  rw [List.dropWhile_cons_of_neg (by decide)]
  simp [hv]

theorem readMembers_writeMembers
    {d : Nat} (hd : ReadsBack d) :
    ∀ (ms : List (String × Json)), (∀ m ∈ ms, Plain d m.2) → ∀ n r,
      (writeMembers ms).length ≤ n →
      readMembers n (writeMembers ms ++ r) = some (ms, r)
  | [], _, 0, r, hn => by simp [writeMembers] at hn
  | [], _, n + 1, r, _ => by simp [writeMembers, readMembers, isBlank]
  | m :: ms, _, 0, r, hn => by simp [writeMembers] at hn
  | m :: ms, hms, n + 1, r, hn => by
      simp only [writeMembers, List.length_cons, List.length_append] at hn
      have hm := readMember_write (r := writeMembers ms ++ r) hd
        (hms m (by simp)) (n := n) (by omega) (numberEnds_writeMembers ms r)
      have htail := readMembers_writeMembers hd ms
        (fun m' hm' => hms m' (by simp [hm'])) n r (by omega)
      simp only [writeMembers, List.cons_append, List.append_assoc, readMembers]
      rw [List.dropWhile_cons_of_neg (by decide)]
      simp only [hm, htail, Option.map_some]

/-- One nesting level: a container is read back if its contents are. -/
theorem readsBack_of_contents
    {d : Nat} (hd : ∀ e, d = e + 1 → ReadsBack e) :
    ReadsBack d := by
  intro v hv n r hn hr
  obtain ⟨n, rfl⟩ : ∃ n', n = n' + 1 := by
    obtain ⟨c, t, hct, _⟩ := write_head hv
    rw [hct, List.length_cons] at hn
    exact ⟨n - 1, by omega⟩
  cases v with
  | null => simp [write, read, isBlank]
  | bool b => cases b <;> simp [write, read, isBlank]
  | int i =>
      simp only [write, writeInt]
      split_ifs with hi
      · have hnum := readNumber_digits true i.natAbs hr
        have habs : -(i.natAbs : Int) = i := by omega
        rw [if_pos rfl, habs] at hnum
        simpa [read, isBlank] using hnum
      · have hnum := read_digits n (m := i.natAbs) hr
        have habs : (i.natAbs : Int) = i := by omega
        rw [hnum, habs]
  | real t => cases d <;> exact hv.elim
  | str s =>
      simp [write, writeString, read, isBlank, readString_write]
  | arr vs =>
      obtain ⟨e, rfl⟩ : ∃ e, d = e + 1 := by
        cases d with
        | zero => exact hv.elim
        | succ e => exact ⟨e, rfl⟩
      cases vs with
      | nil => simp [write, read, isBlank]
      | cons v vs =>
          simp only [write, List.length_cons, List.length_append] at hn
          have hhead := hd e rfl v (hv v (by simp)) n (writeItems vs ++ r)
            (by omega) (numberEnds_writeItems vs r)
          have htail := readItems_writeItems (hd e rfl) vs
            (fun w hw => hv w (by simp [hw])) n r (by omega)
          have hdrop := dropWhile_write (hv v (by simp)) (writeItems vs ++ r)
          obtain ⟨c, t, hct, _, hclose⟩ := write_head (hv v (by simp))
          simp only [write, List.cons_append, List.append_assoc, read]
          rw [List.dropWhile_cons_of_neg (by decide)]
          simp only [hdrop]
          rw [hct, List.cons_append] at hhead ⊢
          split
          · rename_i heq
            exact absurd (List.cons.inj heq).1 hclose
          · simp [hhead, htail]
  | obj ms =>
      obtain ⟨e, rfl⟩ : ∃ e, d = e + 1 := by
        cases d with
        | zero => exact hv.elim
        | succ e => exact ⟨e, rfl⟩
      cases ms with
      | nil => simp [write, read, isBlank]
      | cons m ms =>
          simp only [write, List.length_cons, List.length_append] at hn
          have hhead := readMember_write (r := writeMembers ms ++ r) (hd e rfl)
            (hv m (by simp)) (n := n) (by omega) (numberEnds_writeMembers ms r)
          have htail := readMembers_writeMembers (hd e rfl) ms
            (fun m' hm' => hv m' (by simp [hm'])) n r (by omega)
          simp only [write, List.cons_append, List.append_assoc, read]
          rw [List.dropWhile_cons_of_neg (by decide)]
          simp only [writeString, List.cons_append, List.append_assoc] at hhead ⊢
          rw [List.dropWhile_cons_of_neg (by decide)]
          split
          · rename_i heq
            exact absurd (List.cons.inj heq).1 (by decide)
          · rw [hhead]
            simp [htail]

/-- The reader inverts the writer, at every nesting depth. -/
theorem read_write (d : Nat) : ReadsBack d := by
  induction d with
  | zero => exact readsBack_of_contents (fun e he => by omega)
  | succ d ih =>
      refine readsBack_of_contents (fun e he => ?_)
      obtain rfl : d = e := by omega
      exact ih

/-! ## Shape of the text -/

theorem lineFeed_notMem_writeChar (c : Char) :
    '\n' ∉ writeChar c := by
  unfold writeChar
  split_ifs with h1 h2 h3 h4 h5 h6 h7 h8
  · decide
  · decide
  · decide
  · decide
  · decide
  · decide
  · decide
  · have hdigit : ∀ n, n < 32 → hexDigit n ≠ '\n' := by decide
    simp only [List.mem_cons, List.not_mem_nil, or_false, not_or]
    exact ⟨by decide, by decide, by decide, by decide,
      (hdigit _ (by omega)).symm, (hdigit _ (by omega)).symm⟩
  · rw [List.mem_singleton]
    rintro rfl
    exact h5 (by decide)

theorem lineFeed_notMem_writeString (s : String) :
    '\n' ∉ writeString s := by
  simp [writeString, lineFeed_notMem_writeChar]

theorem lineFeed_notMem_writeInt (n : Int) :
    '\n' ∉ writeInt n := by
  have hdigits : '\n' ∉ Nat.toDigits 10 n.natAbs := by
    intro h
    exact absurd (digits_all n.natAbs _ h) (by decide)
  unfold writeInt
  split <;> simp [hdigits]

/-- The text of a value has no raw line feed. -/
theorem lineFeed_notMem_write :
    ∀ d v, Plain d v → '\n' ∉ write v := by
  intro d
  induction d with
  | zero =>
      intro v hv
      cases v with
      | bool b => cases b <;> decide
      | int n => exact lineFeed_notMem_writeInt n
      | str s => exact lineFeed_notMem_writeString s
      | null => decide
      | real t => exact hv.elim
      | arr vs => exact hv.elim
      | obj ms => exact hv.elim
  | succ d ih =>
      have hitems : ∀ vs : List Json, (∀ v ∈ vs, Plain d v) →
          '\n' ∉ writeItems vs := by
        intro vs hvs
        induction vs with
        | nil => decide
        | cons v vs ihvs =>
            have h1 := ih v (hvs v (by simp))
            have h2 := ihvs (fun w hw => hvs w (by simp [hw]))
            simp [writeItems, h1, h2]
      have hmembers : ∀ ms : List (String × Json), (∀ m ∈ ms, Plain d m.2) →
          '\n' ∉ writeMembers ms := by
        intro ms hms
        induction ms with
        | nil => decide
        | cons m ms ihms =>
            have h1 := ih m.2 (hms m (by simp))
            have h2 := ihms (fun m' hm' => hms m' (by simp [hm']))
            simp [writeMembers, lineFeed_notMem_writeString, h1, h2]
      intro v hv
      cases v with
      | null => decide
      | bool b => cases b <;> decide
      | int n => exact lineFeed_notMem_writeInt n
      | real t => exact hv.elim
      | str s => exact lineFeed_notMem_writeString s
      | arr vs =>
          cases vs with
          | nil => decide
          | cons v vs =>
              have h1 := ih v (hv v (by simp))
              have h2 := hitems vs (fun w hw => hv w (by simp [hw]))
              simp [write, h1, h2]
      | obj ms =>
          cases ms with
          | nil => decide
          | cons m ms =>
              have h1 := ih m.2 (hv m (by simp))
              have h2 := hmembers ms (fun m' hm' => hv m' (by simp [hm']))
              simp [write, lineFeed_notMem_writeString, h1, h2]

theorem writeMembers_ends (ms : List (String × Json)) :
    ∃ body, writeMembers ms = body ++ ['}'] := by
  induction ms with
  | nil => exact ⟨[], rfl⟩
  | cons m ms ih =>
      obtain ⟨body, hbody⟩ := ih
      exact ⟨',' :: (writeString m.1 ++ ':' :: (write m.2 ++ body)),
        by simp [writeMembers, hbody]⟩

theorem write_obj_ends (ms : List (String × Json)) :
    ∃ body, write (.obj ms) = body ++ ['}'] := by
  cases ms with
  | nil => exact ⟨['{'], rfl⟩
  | cons m ms =>
      obtain ⟨body, hbody⟩ := writeMembers_ends ms
      exact ⟨'{' :: (writeString m.1 ++ ':' :: (write m.2 ++ body)),
        by simp [write, hbody]⟩

theorem writeChar_pos (c : Char) : 1 ≤ (writeChar c).length := by
  unfold writeChar
  split_ifs <;> simp

theorem length_le_writeString (s : String) :
    s.toList.length + 2 ≤ (writeString s).length := by
  have hchars : ∀ cs : List Char, cs.length ≤ (cs.flatMap writeChar).length := by
    intro cs
    induction cs with
    | nil => exact Nat.le_refl _
    | cons c cs ih =>
        have hc := writeChar_pos c
        rw [List.flatMap_cons, List.length_append, List.length_cons]
        omega
  have hs := hchars s.toList
  rw [writeString, List.length_cons, List.length_append, List.length_singleton]
  omega

theorem length_le_writeMembers {key s : String} {ms : List (String × Json)}
    (h : (key, .str s) ∈ ms) : s.toList.length + 2 ≤ (writeMembers ms).length := by
  induction ms with
  | nil => cases h
  | cons m ms ih =>
      rw [writeMembers]
      simp only [List.length_cons, List.length_append]
      rcases List.mem_cons.mp h with rfl | hrest
      · have hs := length_le_writeString s
        rw [write]
        omega
      · have hs := ih hrest
        omega

/-- The text of an object starts with its brace and holds its text members. -/
theorem write_obj_starts {key s : String} {ms : List (String × Json)}
    (h : (key, .str s) ∈ ms) :
    ∃ body, write (.obj ms) = '{' :: body ∧ s.toList.length ≤ body.length := by
  cases ms with
  | nil => cases h
  | cons m ms =>
      have hlength := length_le_writeMembers h
      refine ⟨_, by rw [write], ?_⟩
      rw [writeMembers, List.length_cons] at hlength
      omega

/-- The laws of `JsonText` can be met. -/
theorem compact_lawful : compact.Lawful where
  fromStr_toString v hv := by
    have hread := read_write 127 v hv (write v).length.succ [] (by omega) trivial
    rw [List.append_nil] at hread
    have hlen : (String.ofList (write v)).length = (write v).length := by simp
    simp only [compact, String.toList_ofList, hlen, hread]
    rfl
  noLineFeed v hv := by
    rw [compact, String.toList_ofList]
    exact lineFeed_notMem_write 127 v hv
  objectEnds ms := by
    simpa [compact] using write_obj_ends ms

/-- A brace that is followed by another one is no value. -/
theorem compact_braces (cs : List Char) :
    compact.fromStr (String.ofList ('{' :: '{' :: cs)) = none := by
  have hread : ∀ n, read (n + 1) ('{' :: '{' :: cs) = none := by
    intro n
    cases n with
    | zero => rfl
    | succ n => rfl
  simp only [compact, String.toList_ofList, hread]

end Json
end Rexec
