import ScriptLint.Syntax.Node
import ScriptLint.Text.Digit

/-!
# String literals

The body of a string literal spells a sequence of code points.  A plain
character spells itself, and a backslash starts an escape.

* `\u{H...}`, `\uHHHH`, `\xHH` and one to three octal digits name a code point.
  One above U+10FFFF does not exist, and its escape spells itself.
* A line break after the backslash spells nothing.  It is a line feed, a
  carriage return, both in this order, or one of U+2028 and U+2029.
* The letters `n t r b f v` have their usual meaning.
* Any other character spells itself, as do `u` and `x` without enough digits.

A backslash at the very end spells itself.  Code points are numbers here, for
an escape can name half of a surrogate pair.

The raw text of a template literal is kept as it is, and a template with a
substitution has none.
-/

namespace ScriptLint

/-- The code points of a text. -/
def codePoints (s : String) : List Nat :=
  s.toList.map Char.toNat

namespace Literal

/-! ## Escapes -/

/-- What the characters after a backslash spell. -/
structure Escape where
  /-- How many characters belong to the escape. -/
  width : Nat
  /-- The code points that it spells. -/
  points : List Nat
deriving DecidableEq, Repr

/-- The code point that an escape names, with the number of characters that
belong to it. -/
structure Numeral where
  /-- How many characters belong to it. -/
  width : Nat
  /-- The code point. -/
  value : Nat
deriving DecidableEq, Repr

/-- The first `count` characters as digits of a base, if they all are. -/
def fixed? (digit? : Char → Option Nat) (base count : Nat) (s : List Char) : Option Nat :=
  if count ≤ s.length then ((s.take count).mapM digit?).map (Text.ofDigits base) else none

/-- Hexadecimal digits in braces, after the letter `u`. -/
def braced? : List Char → Option Numeral
  | '{' :: s =>
      let digits := s.takeWhile fun c => (Text.hexValue? c).isSome
      match digits, s.drop digits.length with
      | _ :: _, '}' :: _ =>
          some ⟨digits.length + 3, Text.ofDigits 16 (digits.filterMap Text.hexValue?)⟩
      | _, _ => none
  | _ => none

/-- At most three octal digits. -/
def octal? (s : List Char) : Option Numeral :=
  match (s.take 3).takeWhile fun c => (Text.octalValue? c).isSome with
  | [] => none
  | digits => some ⟨digits.length, Text.ofDigits 8 (digits.filterMap Text.octalValue?)⟩

/-- An escape that names a code point. -/
def numeral? : List Char → Option Numeral
  | 'u' :: s =>
      match braced? s with
      | some numeral => some numeral
      | none => (fixed? Text.hexValue? 16 4 s).map (⟨5, ·⟩)
  | 'x' :: s => (fixed? Text.hexValue? 16 2 s).map (⟨3, ·⟩)
  | s => octal? s

/-- The meaning of an escaped letter. -/
def letter? : Char → Option Nat
  | 'n' => some 10
  | 't' => some 9
  | 'r' => some 13
  | 'b' => some 8
  | 'f' => some 12
  | 'v' => some 11
  | _ => none

/-- The number of characters of a line continuation. -/
def continuation? : List Char → Option Nat
  | '\r' :: '\n' :: _ => some 2
  | '\n' :: _ => some 1
  | '\r' :: _ => some 1
  | '\u2028' :: _ => some 1
  | '\u2029' :: _ => some 1
  | _ => none

/-- The escape that starts after a backslash, if anything follows. -/
def escape? (s : List Char) : Option Escape :=
  match numeral? s with
  | some ⟨width, value⟩ =>
      some ⟨width,
        if value ≤ 0x10FFFF then [value] else '\\'.toNat :: (s.take width).map Char.toNat⟩
  | none =>
      match continuation? s, s with
      | some width, _ => some ⟨width, []⟩
      | none, [] => none
      | none, c :: _ => some ⟨1, [(letter? c).getD c.toNat]⟩

/-! ## Bodies -/

/-- What a body spells after its first `skip` characters. -/
def cookAfter : Nat → List Char → List Nat
  | _, [] => []
  | skip + 1, _ :: s => cookAfter skip s
  | 0, c :: s =>
      if c = '\\' then
        match escape? s with
        | some ⟨width, points⟩ => points ++ cookAfter width s
        | none => [c.toNat]
      else c.toNat :: cookAfter 0 s

/-- The code points that the body of a string literal spells. -/
def cook (body : List Char) : List Nat :=
  cookAfter 0 body

/-- The text between the delimiters of a literal. -/
def body (s : List Char) : List Char :=
  s.tail.dropLast

end Literal

/-! ## Literals in a source -/

namespace Source

/-- The code points that a string literal spells. -/
def stringValue (s : Source) (n : Node) : List Nat :=
  Literal.cook (Literal.body (s.charsOf n))

/-- The raw code points of a template literal without substitutions. -/
def templateRaw? (s : Source) (n : Node) : Option (List Nat) :=
  if n.namedChildren.any (·.kind == "template_substitution") then none
  else some ((Literal.body (s.charsOf n)).map Char.toNat)

end Source

/-! ## Tests -/

example : Literal.cook "a\\x41\\u{1F600}\\101\\n\\q".toList
    = [97, 65, 0x1F600, 65, 10, 113] := by decide
example : Literal.cook "\\u{110000}\\uD83D\\u12".toList
    = "\\u{110000}".toList.map Char.toNat ++ [0xD83D, 117, 49, 50] := by decide
example : Literal.cook ['a', '\\', '\r', '\n', 'b', '\\'] = [97, 98, 92] := by decide

end ScriptLint
