import ScriptLint.Keyed
import ScriptLint.Lint.Linter
import ScriptLint.Workspace

/-!
# Linting files

Paths given by a person are expanded first.  A file stands for itself if its
suffix has a dialect, whatever the settings say.  A directory stands for the
files below it whose suffix is among the extensions of the settings, except
those on whose way from the directory lies a name that is left out.  What is
neither is reported and skipped.  So the two ways of naming a file go by
different tests, and the letter case of a suffix matters only below a
directory.  Whether something is a file is asked of everything below a directory,
and a path that is too long to ask about ends the run.

`Workspace.lintPaths` lints the expanded files one by one, and keeps the
diagnostics of the files that have any, by the text of their paths.  A file that
comes up twice has one entry.  A file that cannot be read, or not be parsed, has
a diagnostic that says so.  A file whose suffix has no dialect ends the run.
-/

namespace ScriptLint

/-! ## Expanding paths -/

namespace Config

/-- Whether a file with a name has one of the extensions. -/
def hasExtension (c : Config) (names : List String) : Bool :=
  c.extensions.contains (Path.mk .here names).suffix

/-- The files below a directory that are linted. -/
def takenBelow (c : Config) (directory : Path) (entry : Entry) : List Path :=
  (entry.files.filter fun names => c.hasExtension names && !c.excludes names).map
    directory.descend

/-- The files below a directory that are left out for a name on the way. -/
def skippedBelow (c : Config) (directory : Path) (entry : Entry) : List Path :=
  (entry.files.filter fun names => c.hasExtension names && c.excludes names).map
    directory.descend

end Config

namespace Workspace

/-- The failure for a file that is out of reach. -/
def fileFailure (path : Path) (fault : FileFault) : Failure :=
  .file fault path.toString

/-- The entry at a path, if there is one. -/
def entry? (w : Workspace) (path : Path) : Except Failure (Option Entry) :=
  (w.files.entry? path).mapError (fileFailure path)

/-- The first path to something at or below an entry that is too long. -/
def overlong? (directory : Path) (entry : Entry) : Option Path :=
  (entry.places.map directory.descend).find? FileSystem.tooLong

/-- The files that one path stands for. -/
def expandOne (w : Workspace) (c : Config) (path : Path) : Activity (List Path) := do
  match ← Activity.ofExcept (w.entry? path) with
  | some (.file _) =>
      if (Dialect.ofPath? path).isSome then return [path]
      Activity.warn .linting s!"Unsupported file type, skipping: {path.toString}"
      return []
  | some (.directory entries) =>
      if let some place := overlong? path (.directory entries) then
        Activity.fail (fileFailure place .nameTooLong)
      Activity.records ((c.skippedBelow path (.directory entries)).map fun file =>
        ⟨.debug, .linting, s!"skipping excluded {file.toString}"⟩)
      return c.takenBelow path (.directory entries)
  | none =>
      Activity.warn .linting s!"No such file or directory: {path.toString}"
      return []

/-- The files that some paths stand for. -/
def expand (w : Workspace) (c : Config) (paths : List Path) : Activity (List Path) := do
  return (← Activity.each (w.expandOne c) paths).flatten

/-! ## Reading and linting -/

/-- Parse the file at a path. -/
def parseFile (w : Workspace) (strict : Bool) (path : Path) : Activity Program :=
  match Dialect.ofPath? path, w.files.read path with
  | none, _ => Activity.fail (.unsupported path.toString)
  | some _, .error fault => Activity.fail (fileFailure path fault)
  | some dialect, .ok source => parse w.grammar strict path.toString dialect source

/-- Lint the file at a path. -/
def lintFile (w : Workspace) (l : Linter) (path : Path) : Activity (List Diagnostic) := do
  match ← (w.parseFile true path).attempt with
  | .ok p => l.run p
  | .error (.syntaxError e) => Linter.reportParseError e
  | .error (.file fault name) =>
      Activity.warn .linting s!"Cannot read {name}: {fault.message name}"
      return [.ofFileFault name fault]
  | .error failure => Activity.fail failure

/-- The results of files that have any diagnostics, by the text of the path. -/
def collect (results : List (Path × List Diagnostic)) : List (String × List Diagnostic) :=
  results.foldl (fun found (path, ds) =>
    if ds.isEmpty then found else Keyed.put path.toString ds found) []

/-- The number of jobs: the one asked for, unless there is none or it is zero. -/
def jobsFor (c : Config) (jobs? : Option Int) : Int :=
  match jobs? with
  | some 0 => c.jobs
  | some n => n
  | none => c.jobs

/-- Lint the files that some paths stand for. -/
def lintPaths (w : Workspace) (c : Config) (l : Linter) (paths : List Path)
    (jobs? : Option Int) : Activity (List (String × List Diagnostic)) := do
  let files ← w.expand c paths
  Activity.debug .linting s!"linting {files.length} files with {jobsFor c jobs?} job(s)"
  let results ← Activity.each (w.lintFile l) files
  return collect (files.zip results)

end Workspace

/-- The linter for some settings. -/
def Config.linter (c : Config) : Activity Linter := do
  return ⟨← c.selection.choose, c.word⟩

end ScriptLint
