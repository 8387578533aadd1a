/-!
# Blanks and line breaks

Two classes of characters decide how text is trimmed and cut.  A *blank* is
what `strip` removes at both ends and what separates words.  A *line break*
ends a line for `splitLines`, with a carriage return and a line feed together
counting as one.  `isBlank_of_isLineBreak` says that every line break is a
blank, so a stripped text that is not empty has a first line that is not empty
either.

`splitWhere` cuts at every element of a class and keeps empty pieces, and
`words` is that cut without them.  Rows of a source are counted by `splitOn`
at the line feed alone, where `splitLines` also knows the other line breaks.

Texts are lists of characters here.
-/

namespace ScriptLint.Text

/-! ## The two classes -/

/-- Characters that count as white space: the ASCII ones, the four separators
from U+001C, and the spaces and separators of the rest of Unicode. -/
def isBlank (c : Char) : Bool :=
  let n := c.toNat
  (9 ≤ n && n ≤ 13) || (0x1C ≤ n && n ≤ 0x20) || n == 0x85 || n == 0xA0 || n == 0x1680
    || (0x2000 ≤ n && n ≤ 0x200A) || n == 0x2028 || n == 0x2029 || n == 0x202F || n == 0x205F
    || n == 0x3000

/-- Characters that end a line. -/
def isLineBreak (c : Char) : Bool :=
  let n := c.toNat
  (10 ≤ n && n ≤ 13) || (0x1C ≤ n && n ≤ 0x1E) || n == 0x85 || n == 0x2028 || n == 0x2029

/-- Every line break is a blank. -/
theorem isBlank_of_isLineBreak {c : Char} (h : isLineBreak c = true) : isBlank c = true := by
  simp only [isLineBreak, isBlank, Bool.or_eq_true, Bool.and_eq_true, decide_eq_true_eq,
    beq_iff_eq] at h ⊢
  omega

/-! ## Trimming -/

/-- The text without the characters at its end that satisfy `p`. -/
def dropTrailing (p : Char → Bool) (s : List Char) : List Char :=
  (s.reverse.dropWhile p).reverse

/-- The text without the blanks at its two ends. -/
def strip (s : List Char) : List Char :=
  dropTrailing isBlank (s.dropWhile isBlank)

/-- The string without the blanks at its two ends. -/
def stripped (s : String) : String :=
  String.ofList (strip s.toList)

/-! ## Cutting -/

/-- The pieces between the elements that satisfy `p`, one more than there are
such elements. -/
def splitWhere {α : Type} (p : α → Bool) : List α → List (List α)
  | [] => [[]]
  | a :: as =>
      if p a then [] :: splitWhere p as else (splitWhere p as).modifyHead (a :: ·)

/-- The pieces between the occurrences of `sep`. -/
def splitOn {α : Type} [BEq α] (sep : α) (as : List α) : List (List α) :=
  splitWhere (· == sep) as

theorem splitWhere_ne_nil {α : Type} (p : α → Bool) : ∀ as : List α, splitWhere p as ≠ []
  | [] => by simp [splitWhere]
  | a :: as => by
      have ih := splitWhere_ne_nil p as
      by_cases h : p a = true
      · simp [splitWhere, h]
      · simp [splitWhere, h, ih]

/-- There is one piece more than there are elements to cut at. -/
theorem length_splitWhere {α : Type} (p : α → Bool) :
    ∀ as : List α, (splitWhere p as).length = as.countP p + 1
  | [] => rfl
  | a :: as => by
      have ih := length_splitWhere p as
      by_cases h : p a = true
      · simp [splitWhere, h, ih]
      · simp [splitWhere, h, ih]

/-- The maximal runs of characters that do not satisfy `sep`. -/
def words (sep : Char → Bool) (s : List Char) : List (List Char) :=
  (splitWhere sep s).filter (!·.isEmpty)

/-- The lines of a text without their line breaks.  A line break at the very
end opens no further line. -/
def splitLines : List Char → List (List Char)
  | [] => []
  | '\r' :: '\n' :: cs => [] :: splitLines cs
  | c :: cs =>
      if isLineBreak c then [] :: splitLines cs
      else match splitLines cs with
        | [] => [[c]]
        | line :: lines => (c :: line) :: lines

/-! ## Searching -/

/-- Whether a text occurs in another one. -/
def occursIn (needle : List Char) : List Char → Bool
  | [] => needle.isEmpty
  | c :: cs => needle.isPrefixOf (c :: cs) || occursIn needle cs

/-! ## Tests -/

example : strip "\t a b \u2003".toList = "a b".toList := by decide
example : splitOn '/' "a//b".toList = ["a".toList, [], "b".toList] := by decide
example : words isBlank " ab  c ".toList = ["ab".toList, "c".toList] := by decide
example : splitLines "a\r\nb\rc\n".toList = ["a".toList, "b".toList, "c".toList] := by decide

end ScriptLint.Text
