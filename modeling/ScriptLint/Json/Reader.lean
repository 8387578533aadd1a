import ScriptLint.Json.Basic
import ScriptLint.Literal

/-!
# Reading JSON

`Json.read?` reads a text that holds one value with blanks around it.  It
accepts the standard format only: no trailing commas, no comments, no controls
inside texts, no zeros before other digits.  Escapes of surrogates must come in
pairs, and a pair stands for one character.

A text inside a value is read in two steps.  The first turns characters and
escapes into numbers, the second joins surrogates.

Each step of the reader takes a character or goes down one level towards one,
so a bound of twice the length of the text is enough.
-/

namespace ScriptLint

namespace Json

/-! ## Texts -/

/-- The code point of an escaped character. -/
def letter? : Char → Option Nat
  | '"' => some 0x22
  | '\\' => some 0x5C
  | '/' => some 0x2F
  | 'b' => some 8
  | 'f' => some 12
  | 'n' => some 10
  | 'r' => some 13
  | 't' => some 9
  | _ => none

/-- The numbers that a text spells up to its closing quote, and what follows. -/
def readUnits : List Char → Option (List Nat × List Char)
  | [] => none
  | '"' :: rest => some ([], rest)
  | '\\' :: 'u' :: a :: b :: c :: d :: rest => do
      let unit ← Literal.fixed? Text.hexValue? 16 4 [a, b, c, d]
      let (units, rest) ← readUnits rest
      some (unit :: units, rest)
  | '\\' :: c :: rest => do
      let unit ← letter? c
      let (units, rest) ← readUnits rest
      some (unit :: units, rest)
  | c :: rest => do
      if c.toNat < 0x20 then none
      let (units, rest) ← readUnits rest
      some (c.toNat :: units, rest)

/-- Whether a number is the first half of a surrogate pair. -/
def isHigh (unit : Nat) : Bool := 0xD800 ≤ unit && unit < 0xDC00

/-- Whether a number is the second half of a surrogate pair. -/
def isLow (unit : Nat) : Bool := 0xDC00 ≤ unit && unit < 0xE000

/-- The characters of numbers in which surrogates come in pairs. -/
def joinUnits : List Nat → Option (List Char)
  | [] => some []
  | high :: low :: rest =>
      if isHigh high && isLow low then
        (joinUnits rest).map
          (Char.ofNat (0x10000 + (high - 0xD800) * 0x400 + (low - 0xDC00)) :: ·)
      else if isHigh high || isLow high then none
      else (joinUnits (low :: rest)).map (Char.ofNat high :: ·)
  | [unit] => if isHigh unit || isLow unit then none else some [Char.ofNat unit]

/-- A text after its opening quote, and what follows. -/
def readString (s : List Char) : Option (String × List Char) := do
  let (units, rest) ← readUnits s
  let chars ← joinUnits units
  some (String.ofList chars, rest)

/-! ## Numbers -/

/-- Whether a character is an ASCII digit. -/
def isDigit (c : Char) : Bool := '0' ≤ c && c ≤ '9'

/-- At least one digit, and what follows. -/
def digits? (s : List Char) : Option (List Char × List Char) :=
  match s.takeWhile isDigit with
  | [] => none
  | digits => some (digits, s.dropWhile isDigit)

/-- A fraction with its point, or nothing, and what follows. -/
def fraction? : List Char → Option (List Char × List Char)
  | '.' :: s => (digits? s).map fun (digits, rest) => ('.' :: digits, rest)
  | s => some ([], s)

/-- An exponent with its letter, or nothing, and what follows. -/
def exponent? : List Char → Option (List Char × List Char)
  | e :: s =>
      if e = 'e' ∨ e = 'E' then
        match s with
        | sign :: t =>
            if sign = '+' ∨ sign = '-' then
              (digits? t).map fun (digits, rest) => (e :: sign :: digits, rest)
            else (digits? s).map fun (digits, rest) => (e :: digits, rest)
        | [] => none
      else some ([], e :: s)
  | [] => some ([], [])

/-- A number without its sign, and what follows. -/
def readMagnitude (negative : Bool) (s : List Char) : Option (Json × List Char) := do
  let (whole, rest) ← digits? s
  if whole.head? = some '0' ∧ 2 ≤ whole.length then none
  let (fraction, rest) ← fraction? rest
  let (exponent, rest) ← exponent? rest
  if fraction.isEmpty && exponent.isEmpty then
    let value := Text.ofDigits 10 (whole.map fun c => c.toNat - '0'.toNat)
    some (.integer (if negative then -(value : Int) else value), rest)
  else
    let spelling := whole ++ fraction ++ exponent
    some (.decimal (String.ofList (if negative then '-' :: spelling else spelling)), rest)

/-- A number, and what follows. -/
def readNumber : List Char → Option (Json × List Char)
  | '-' :: s => readMagnitude true s
  | s => readMagnitude false s

/-! ## Values -/

/-- Whether a character may stand between values. -/
def isGap (c : Char) : Bool :=
  c == ' ' || c == '\t' || c == '\n' || c == '\r'

/-- A text without the blanks before it. -/
def skip (s : List Char) : List Char :=
  s.dropWhile isGap

/-- A name and a colon, and what follows. -/
def readName (s : List Char) : Option (String × List Char) :=
  match skip s with
  | '"' :: s => do
      let (name, rest) ← readString s
      match skip rest with
      | ':' :: rest => some (name, rest)
      | _ => none
  | _ => none

mutual

/-- A value, and what follows. -/
def readValue : Nat → List Char → Option (Json × List Char)
  | 0, _ => none
  | bound + 1, s =>
      match skip s with
      | '"' :: s => (readString s).map fun (value, rest) => (.string value, rest)
      | '[' :: s =>
          match skip s with
          | ']' :: rest => some (.array [], rest)
          | s => (readItems bound s).map fun (items, rest) => (.array items, rest)
      | '{' :: s =>
          match skip s with
          | '}' :: rest => some (.object [], rest)
          | s => (readFields bound s).map fun (fields, rest) => (.object fields, rest)
      | 'n' :: 'u' :: 'l' :: 'l' :: rest => some (.null, rest)
      | 't' :: 'r' :: 'u' :: 'e' :: rest => some (.bool true, rest)
      | 'f' :: 'a' :: 'l' :: 's' :: 'e' :: rest => some (.bool false, rest)
      | s => readNumber s

/-- The items of a list up to its bracket, and what follows. -/
def readItems : Nat → List Char → Option (List Json × List Char)
  | 0, _ => none
  | bound + 1, s => do
      let (item, rest) ← readValue bound s
      match skip rest with
      | ',' :: rest => do
          let (items, rest) ← readItems bound rest
          some (item :: items, rest)
      | ']' :: rest => some ([item], rest)
      | _ => none

/-- The fields of an object up to its brace, and what follows. -/
def readFields : Nat → List Char → Option (List (String × Json) × List Char)
  | 0, _ => none
  | bound + 1, s => do
      let (name, rest) ← readName s
      let (value, rest) ← readValue bound rest
      match skip rest with
      | ',' :: rest => do
          let (fields, rest) ← readFields bound rest
          some ((name, value) :: fields, rest)
      | '}' :: rest => some ([(name, value)], rest)
      | _ => none

end

/-- The value that a text holds. -/
def read? (s : List Char) : Option Json := do
  let (value, rest) ← readValue (2 * s.length + 2) s
  if (skip rest).isEmpty then some value else none

end Json

end ScriptLint
