import ScriptLint.Json.Writer
import ScriptLint.Lint.Diagnostic
import ScriptLint.Text.Ordered

/-!
# Reports

A report collects diagnostics and the number of files that were checked.  It
renders in two ways, and both show the diagnostics in the order of
`Diagnostic.sort`.

* `Report.human` writes each diagnostic with a blank line after it, then the
  total, then the number of diagnostics for each code, codes in increasing
  order.  With nothing to report it is a single line.
* `Report.json` writes a list of objects.  It leaves out the bytes and the line
  of source.
-/

namespace ScriptLint

/-- Diagnostics and the number of files they come from. -/
structure Report where
  /-- The number of files checked. -/
  filesChecked : Int := 0
  /-- The diagnostics, in the order in which they came in. -/
  diagnostics : List Diagnostic := []
deriving DecidableEq, Repr, Inhabited

namespace Report

/-- A report with further diagnostics. -/
def extend (r : Report) (ds : List Diagnostic) : Report :=
  { r with diagnostics := r.diagnostics ++ ds }

/-- Whether there is anything to report. -/
def hasProblems (r : Report) : Bool :=
  !r.diagnostics.isEmpty

/-- The number of diagnostics for each code, in the order in which the codes
came up. -/
def counts (r : Report) : List (String × Nat) :=
  let codes := r.diagnostics.map Diagnostic.code
  codes.eraseDups.map fun code => (code, codes.count code)

/-! ## For people -/

/-- The lines for the numbers by code, in increasing order of the codes. -/
def countLines (r : Report) : List String :=
  (Text.ordered (r.diagnostics.map Diagnostic.code)).map fun code =>
    s!"  {code}: {(r.diagnostics.map Diagnostic.code).count code}"

/-- The report for people. -/
def human (r : Report) : String :=
  if r.hasProblems then
    "\n".intercalate <|
      (Diagnostic.sort r.diagnostics).flatMap (fun d => [d.text, ""])
        ++ [s!"Found {r.diagnostics.length} problem(s) in {r.filesChecked} checked file(s)"]
        ++ r.countLines
  else s!"Checked {r.filesChecked} file(s): OK - no problems"

/-! ## For programs -/

/-- The fields of a diagnostic that are reported. -/
def entry (d : Diagnostic) : Json :=
  .object [
    ("code", .string d.code),
    ("message", .string d.message),
    ("hint", .ofOption d.hint?),
    ("filename", .string d.filename),
    ("line", .integer d.line),
    ("col", .integer d.col),
    ("end_line", .integer d.range.stop.line),
    ("end_col", .integer d.range.stop.col)]

/-- The report as a value. -/
def entries (r : Report) : Json :=
  .array ((Diagnostic.sort r.diagnostics).map entry)

/-- The report for programs. -/
def json (r : Report) : String :=
  r.entries.write .indented

end Report

end ScriptLint
