import ScriptLint.Source
import ScriptLint.Failure

/-!
# Diagnostics

A diagnostic says where something is wrong and what.  It carries the code of
the rule that found it, a message, perhaps a hint, and the line of source that
it starts on, for show.

Diagnostics are ordered by file, line, column and code.  Sorting is stable, so
two diagnostics that agree in these four stay in the order they came in.

A file that cannot be parsed or read has one diagnostic of its own kind, which
points at a line and column but covers no bytes.
-/

namespace ScriptLint

/-- A finding in a file. -/
structure Diagnostic where
  /-- The file. -/
  filename : String
  /-- Where in the file. -/
  range : Range
  /-- The code of the rule. -/
  code : String
  /-- What is wrong. -/
  message : String
  /-- What to do about it. -/
  hint? : Option String := none
  /-- The line of source that it starts on. -/
  context : String := ""
deriving DecidableEq, Repr, Inhabited

namespace Diagnostic

/-- The line that a diagnostic starts on. -/
def line (d : Diagnostic) : Int := d.range.start.line

/-- The column that a diagnostic starts at. -/
def col (d : Diagnostic) : Int := d.range.start.col

/-! ## Order -/

/-- The order of diagnostics: by file, line, column and code. -/
def order : Diagnostic → Diagnostic → Ordering :=
  compareLex (compareOn filename) <| compareLex (compareOn line) <|
    compareLex (compareOn col) (compareOn code)

/-- Diagnostics in order.  Those that agree in file, line, column and code stay
as they are. -/
def sort (ds : List Diagnostic) : List Diagnostic :=
  ds.mergeSort fun a b => (order a b).isLE

/-! ## Text -/

/-- A diagnostic for people: place and message, then the line of source and the
hint, as far as there are any. -/
def text (d : Diagnostic) : String :=
  s!"{d.code} {d.filename}:{d.line}:{d.col}: {d.message}"
    ++ (if d.context = "" then "" else "\n    " ++ Text.stripped d.context)
    ++ (match d.hint? with
        | some hint => if hint = "" then "" else "\n    -> " ++ hint
        | none => "")

/-! ## Files that cannot be linted -/

/-- The code of syntax errors. -/
def parseErrorCode : String := "parse-error"

/-- The code of files that cannot be read. -/
def readErrorCode : String := "read-error"

/-- The diagnostic for a syntax error. -/
def ofParseError (e : ParseError) : Diagnostic where
  filename := e.filename
  range := .atPoint e.line e.col
  code := parseErrorCode
  message := s!"Parse error: {e.reason}"

/-- The diagnostic for a file that cannot be read. -/
def ofFileFault (filename : String) (fault : FileFault) : Diagnostic where
  filename := filename
  range := .atPoint 0 0
  code := readErrorCode
  message := s!"Cannot read file: {fault.words}"

end Diagnostic

end ScriptLint
