import ScriptLint.CommandLine.Request
import ScriptLint.Lint.Files
import ScriptLint.Lint.Report

/-!
# Carrying out requests

`Request.outcome` carries out a request in a workspace.  The outcome is what the
program prints on its two channels, and its exit status.  The log is printed on
the second channel, before anything else that goes there.

* `lint` lints the given paths, or the directory it is started in.  The settings
  are those for the first path if that is a directory, and those for the current
  directory otherwise.  Options take precedence over settings.  The status is 1
  if there is anything to report, and 2 if the settings are bad.
* `rules` lists the rules.
* `parse` summarizes a file: its dialect and the number of its statements,
  comments left out, with at most twenty of them listed.  The status is 1 if the
  file is out of reach or holds a syntax error.

A failure that no command has words for ends the program without an outcome.
-/

namespace ScriptLint.CommandLine

/-- What the program prints and its exit status. -/
structure Outcome where
  /-- The exit status. -/
  status : Nat
  /-- The text on the first channel. -/
  output : String
  /-- The text on the second channel. -/
  errors : String
deriving DecidableEq, Repr, Inhabited

/-- A text of lines, each with its line feed. -/
def lines (texts : List String) : String :=
  String.join (texts.map (· ++ "\n"))

/-! ## Linting -/

/-- Whether the first of some paths is a directory, and which. -/
def leadingDirectory? (w : Workspace) : List Path → Except Failure (Option Path)
  | [] => .ok none
  | path :: _ => do
      match ← w.entry? path with
      | some (.directory _) => return some path
      | _ => return none

/-- Settings with what a command line says instead. -/
def LintRequest.override (r : LintRequest) (c : Config) : Config :=
  { c with
    jsonOutput := r.json
    selection :=
      { tags := r.tags?.getD c.selection.tags
        included := r.included?.getD c.selection.included
        excluded := r.excluded?.getD c.selection.excluded }
    jobs := (r.jobs?.map (max 1)).getD c.jobs }

/-- The settings file that a command line names.  An empty name is none. -/
def LintRequest.configPath? (r : LintRequest) : Option Path :=
  (r.config?.filter (· != "")).map Path.ofString

/-- Load the settings for a request. -/
def LintRequest.settings (r : LintRequest) (w : Workspace) : Activity Config := do
  let root? ← Activity.ofExcept (leadingDirectory? w (r.paths.map Path.ofString))
  w.loadConfig r.configPath? (root?.getD w.files.currentDirectory)

/-- Lint some paths and report. -/
def report (w : Workspace) (c : Config) (paths : List Path) : Activity Report := do
  let linter ← c.linter
  let files ← w.expand c paths
  let results ← w.lintPaths c linter files none
  return (results.foldl (fun report (_, ds) => report.extend ds) ⟨files.length, []⟩)

/-- The report of a request, and whether it is JSON. -/
def LintRequest.report (r : LintRequest) (w : Workspace) (c : Config) :
    Activity (Report × Bool) := do
  let paths := if r.paths.isEmpty then [c.root] else r.paths.map Path.ofString
  return (← CommandLine.report w (r.override c) paths, (r.override c).jsonOutput)

/-- Carry out a request to lint. -/
def LintRequest.run (r : LintRequest) (w : Workspace) : Activity Outcome := do
  match ← (r.settings w).attempt with
  | .error (.config e) => return ⟨2, "", lines [s!"Config error: {e.message}"]⟩
  | .error f => Activity.fail f
  | .ok c =>
      let (report, json) ← r.report w c
      return ⟨if report.hasProblems then 1 else 0,
        lines [if json then report.json else report.human], ""⟩

/-! ## Listing rules -/

/-- A rule as a value. -/
def ruleEntry (r : Rule) : Json :=
  .object [("code", .string r.code), ("tags", .ofStrings r.tags), ("docs", .string r.docs)]

/-- A line of a text that is set in. -/
def setIn (line : List Char) : String :=
  if line.isEmpty then "" else "    " ++ String.ofList line

/-- A rule as lines of text. -/
def ruleLines (docs : Bool) (r : Rule) : List String :=
  let tags := if r.tags.isEmpty then "-" else ", ".intercalate r.tags
  s!"{r.code}  [{tags}]" ::
    if docs then "" :: (Text.splitLines r.docs.toList).map setIn ++ [""] else []

/-- Carry out a request to list the rules. -/
def RulesRequest.run (r : RulesRequest) : Outcome :=
  if r.json then ⟨0, lines [(Json.array (Rule.all.map ruleEntry)).write .indented], ""⟩
  else ⟨0, lines (Rule.all.flatMap (ruleLines r.docs)), ""⟩

/-! ## Summarizing a file -/

/-- The statements of a program, comments left out. -/
def statements (p : Program) : List Node :=
  p.root.namedChildren.filter fun n => n.kind != "comment"

/-- How many statements are listed. -/
def listed : Nat := 20

/-- The lines that list the statements of a program. -/
def statementLines (p : Program) : List String :=
  let all := statements p
  (all.take listed).map (fun n => s!"  - {n.kind} (line {(p.source.position n.start).line})")
    ++ if listed < all.length then [s!"  ... and {all.length - listed} more"] else []

/-- The summary of a program, under the name it was asked for. -/
def summaryLines (file : String) (details : Bool) (p : Program) : List String :=
  [s!"Parsed: {file} ({p.dialect.name})", s!"Top-level statements: {(statements p).length}"]
    ++ if details then statementLines p else []

/-- Carry out a request to summarize a file. -/
def SummaryRequest.run (r : SummaryRequest) (w : Workspace) : Activity Outcome := do
  match ← (w.parseFile false (Path.ofString r.file)).attempt with
  | .error f => return ⟨1, "", lines [s!"Error: {f.message}"]⟩
  | .ok p =>
      let output := lines (summaryLines r.file r.details p)
      match p.parseError? with
      | some e => return ⟨1, output, lines [s!"Parse error: {e.message}"]⟩
      | none => return ⟨0, output, ""⟩

/-! ## The whole program -/

/-- Carry out a command. -/
def Command.run (w : Workspace) : Command → Activity Outcome
  | .lint r => r.run w
  | .rules r => return r.run
  | .summary r => r.run w

/-- How to use the program. -/
def usageText : String :=
  lines [
    "usage: workerlint [-h] [--version] [-v] COMMAND ...",
    "",
    "Lint JavaScript/TypeScript for Web APIs accessed via `window`",
    "",
    "commands:",
    "  lint [PATH ...] [--json] [--config FILE] [--rules-tags TAG ...]",
    "       [--rules-include CODE ...] [--rules-exclude CODE ...] [-j JOBS]",
    "  rules [--json] [--docs]",
    "  parse FILE [-d]"]

/-- The name and version of the program. -/
def versionText : String :=
  lines ["workerlint 0.1.0"]

/-- The outcome of an activity, with its log on the second channel. -/
def settle (verbose : Bool) (a : Activity Outcome) : Except Failure Outcome :=
  a.result.map fun o => { o with errors := LogRecord.lines verbose a.log ++ o.errors }

/-- Carry out a request in a workspace. -/
def Request.outcome (w : Workspace) : Request → Except Failure Outcome
  | .help => .ok ⟨0, usageText, ""⟩
  | .version => .ok ⟨0, versionText, ""⟩
  | .misuse => .ok ⟨2, "", usageText⟩
  | .run verbose command => settle verbose (command.run w)

/-- Run the program on the words of a command line. -/
def execute (w : Workspace) (words : List String) : Except Failure Outcome :=
  (Request.ofWords words).outcome w

end ScriptLint.CommandLine
