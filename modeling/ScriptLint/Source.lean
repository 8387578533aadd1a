import ScriptLint.Text.Blank
import ScriptLint.Text.Utf8

/-!
# Sources and positions

A source is a sequence of bytes, meant as UTF-8 but not checked to be.  Syntax
trees point into it by byte offsets.  People want a line and a column, so a
`Position` holds all three.

* The row of a byte is the number of line feeds before it, and its line is one
  more.  No other line break counts.
* The column of a byte is the number of characters between the start of its row
  and the byte, decoded lossily.  A byte in the middle of a character counts
  the part before it as one character.

The text of a source is its lossy decoding.  Its lines are cut at line feeds
and shown without the carriage returns at their ends.

Lines and columns are integers, since a position can also be handed in from
outside with any numbers in it.
-/

namespace ScriptLint

/-! ## Positions -/

/-- A place in a source: line from 1, column from 0, byte from 0. -/
structure Position where
  /-- The line, counted from 1. -/
  line : Int
  /-- The characters before the place on its line. -/
  col : Int
  /-- The bytes before the place. -/
  byte : Nat
deriving DecidableEq, Repr, Inhabited

/-- A stretch of a source, from `start` up to `stop`. -/
structure Range where
  /-- Where it starts. -/
  start : Position
  /-- Where it ends, exclusively. -/
  stop : Position
deriving DecidableEq, Repr, Inhabited

/-- The empty range at a line and column, with no bytes of its own. -/
def Range.atPoint (line col : Int) : Range :=
  let place : Position := ⟨line, col, 0⟩
  ⟨place, place⟩

/-! ## Sources -/

/-- The bytes of a program. -/
structure Source where
  /-- The bytes, meant as UTF-8. -/
  bytes : List UInt8
deriving DecidableEq, Repr, Inhabited

namespace Source

/-- The source that encodes a text. -/
def ofString (s : String) : Source :=
  ⟨Utf8.encode s⟩

/-- The line feed. -/
def lineFeed : UInt8 := 10

/-- The number of bytes. -/
def size (s : Source) : Nat :=
  s.bytes.length

/-- The bytes from `start` up to `stop`, as many of them as there are. -/
def slice (s : Source) (start stop : Nat) : List UInt8 :=
  (s.bytes.take stop).drop start

/-- The characters from byte `start` up to byte `stop`. -/
def chars (s : Source) (start stop : Nat) : List Char :=
  Utf8.decode (s.slice start stop)

/-- The text from byte `start` up to byte `stop`. -/
def text (s : Source) (start stop : Nat) : String :=
  String.ofList (s.chars start stop)

/-! ## Places of bytes -/

/-- The number of line feeds before a byte. -/
def row (s : Source) (byte : Nat) : Nat :=
  (s.bytes.take byte).count lineFeed

/-- The bytes before a byte on its row. -/
def rowPrefix (s : Source) (byte : Nat) : List UInt8 :=
  ((s.bytes.take byte).reverse.takeWhile (· != lineFeed)).reverse

/-- The position of a byte. -/
def position (s : Source) (byte : Nat) : Position where
  line := s.row byte + 1
  col := (Utf8.decode (s.rowPrefix byte)).length
  byte := byte

/-- The range between two bytes. -/
def range (s : Source) (start stop : Nat) : Range :=
  ⟨s.position start, s.position stop⟩

/-! ## Lines -/

/-- The lines of the text, without the carriage returns at their ends. -/
def lines (s : Source) : List String :=
  (Text.splitOn '\n' (Utf8.decode s.bytes)).map fun line =>
    String.ofList (Text.dropTrailing (· == '\r') line)

/-- The line with a number, or nothing if there is no such line. -/
def lineText (s : Source) (line : Int) : String :=
  if line ≤ 0 then "" else s.lines.getD (line.toNat - 1) ""

end Source

/-! ## Tests -/

example : (Source.mk [0x61, 0x0A, 0xC3, 0xA9, 0x62]).position 4 = ⟨2, 1, 4⟩ := by decide
example : (Source.mk [0x61, 0x0A, 0xC3, 0xA9, 0x62]).position 3 = ⟨2, 1, 3⟩ := by decide

end ScriptLint
