import ScriptLint.Json.Basic
import ScriptLint.Text.Digit

/-!
# Writing JSON

The text of a value is printable ASCII.  A character beyond ASCII is written by its
UTF-16 units, so one above U+FFFF takes two escapes, and so do the controls that
have no letter of their own, DEL among them.  The slash stands as it is.

A `Layout` says how far to indent.  Without indentation everything stands on
one line.  Empty lists and objects always do.
-/

namespace ScriptLint

namespace Json

/-! ## Texts -/

/-- The UTF-16 units of a character. -/
def units (c : Char) : List Nat :=
  if c.toNat < 0x10000 then [c.toNat]
  else [0xD800 + (c.toNat - 0x10000) / 0x400, 0xDC00 + (c.toNat - 0x10000) % 0x400]

/-- The escape of a UTF-16 unit. -/
def unitEscape (unit : Nat) : List Char :=
  '\\' :: 'u' :: Text.hex 4 unit

/-- A character inside a text. -/
def escapeChar (c : Char) : List Char :=
  if c = '"' then ['\\', '"']
  else if c = '\\' then ['\\', '\\']
  else if c = '\n' then ['\\', 'n']
  else if c = '\r' then ['\\', 'r']
  else if c = '\t' then ['\\', 't']
  else if c = '\x08' then ['\\', 'b']
  else if c = '\x0c' then ['\\', 'f']
  else if 0x20 ≤ c.toNat ∧ c.toNat < 0x7F then [c]
  else (units c).flatMap unitEscape

/-- A text in quotes. -/
def writeString (s : String) : List Char :=
  '"' :: s.toList.flatMap escapeChar ++ ['"']

/-! ## Values -/

/-- How a value is laid out. -/
structure Layout where
  /-- The spaces for each level, or nothing for one line. -/
  indent? : Option Nat
deriving DecidableEq, Repr

/-- Everything on one line. -/
def Layout.oneLine : Layout := ⟨none⟩

/-- Two spaces for each level. -/
def Layout.indented : Layout := ⟨some 2⟩

/-- What stands before an item at a depth. -/
def Layout.break (layout : Layout) (depth : Nat) : List Char :=
  match layout.indent? with
  | some width => '\n' :: List.replicate (width * depth) ' '
  | none => []

mutual

/-- The text of a value that stands at a depth. -/
def writeAt (layout : Layout) (depth : Nat) : Json → List Char
  | .null => ['n', 'u', 'l', 'l']
  | .bool true => ['t', 'r', 'u', 'e']
  | .bool false => ['f', 'a', 'l', 's', 'e']
  | .integer value => (toString value).toList
  | .decimal spelling => spelling.toList
  | .string value => writeString value
  | .array [] => ['[', ']']
  | .array (item :: items) =>
      '[' :: layout.break (depth + 1) ++ writeAt layout (depth + 1) item
        ++ writeItems layout (depth + 1) items ++ layout.break depth ++ [']']
  | .object [] => ['{', '}']
  | .object ((name, value) :: fields) =>
      '{' :: layout.break (depth + 1) ++ writeString name ++ [':', ' ']
        ++ writeAt layout (depth + 1) value
        ++ writeFields layout (depth + 1) fields ++ layout.break depth ++ ['}']

/-- The text of the items after the first. -/
def writeItems (layout : Layout) (depth : Nat) : List Json → List Char
  | [] => []
  | item :: items =>
      ',' :: layout.break depth ++ writeAt layout depth item ++ writeItems layout depth items

/-- The text of the fields after the first. -/
def writeFields (layout : Layout) (depth : Nat) : List (String × Json) → List Char
  | [] => []
  | (name, value) :: fields =>
      ',' :: layout.break depth ++ writeString name ++ [':', ' ']
        ++ writeAt layout depth value ++ writeFields layout depth fields

end

/-- The text of a value. -/
def write (layout : Layout) (j : Json) : String :=
  String.ofList (writeAt layout 0 j)

end Json

/-! ## Tests -/

example : Json.writeString "a\"é😀\n" = "\"a\\\"\\u00e9\\ud83d\\ude00\\n\"".toList := by decide

end ScriptLint
