import ScriptLint.Json.Basic
import ScriptLint.Lint.Selection

/-!
# Settings

A `Config` says what to lint and how.  Its values come from a settings file, as
far as there is one, and from defaults.

A settings file holds a table, and `Config.apply` takes the values over.  A key
that is absent, or null, leaves the setting as it is, and an unknown key has no
effect.  The keys are checked in a fixed order, and the first bad value is the
error:

* `extensions` is a list of strings, each of them with or without its dot,
* `exclude-dirs` is a list of strings,
* `ignore-directive` is a string that is not blank, without the blanks around,
* `jobs` is an integer from 1 on,
* `rules` is a table with lists of strings under `tags`, `include` and
  `exclude`.
-/

namespace ScriptLint

/-! ## The settings -/

/-- What to lint and how. -/
structure Config where
  /-- The directory to lint by default. -/
  root : Path
  /-- Which rules run. -/
  selection : Selection := .recommended
  /-- The suffixes of the files to lint. -/
  extensions : List String := Dialect.suffixes.map (·.1)
  /-- The names of directories that are left out. -/
  excludedDirs : List String :=
    [".git", "node_modules", "dist", "build", "coverage", ".venv", "venv", "__pycache__"]
  /-- The word that ignore directives start with. -/
  word : String := "workerlint-ignore"
  /-- Whether to report as JSON. -/
  jsonOutput : Bool := false
  /-- How many files to lint at a time. -/
  jobs : Int := 1
  /-- The settings file. -/
  configPath? : Option Path := none
deriving DecidableEq, Repr, Inhabited

namespace Config

/-- Whether a path leads through a directory that is left out. -/
def excludes (c : Config) (components : List String) : Bool :=
  c.excludedDirs.any components.contains

/-! ## Values of a settings file -/

/-- Named values. -/
abbrev Settings := List (String × Json)

/-- The value of a key, if it is there and not null. -/
def value? (settings : Settings) (key : String) : Option Json :=
  match settings.lookup key with
  | some .null => none
  | value? => value?

/-- A list of strings, or nothing if the key has no value. -/
def strings? (settings : Settings) (key : String) : Except ConfigFault (Option (List String)) :=
  match value? settings key with
  | none => .ok none
  | some value =>
      match value.strings? with
      | some strings => .ok (some strings)
      | none => .error (.notStrings key)

/-- A suffix with its dot. -/
def dotted (extension : String) : String :=
  if extension.toList.head? = some '.' then extension else "." ++ extension

/-- The word for ignore directives, or nothing if the key has no value. -/
def directive? (settings : Settings) : Except ConfigFault (Option String) :=
  match value? settings "ignore-directive" with
  | none => .ok none
  | some (.string word) =>
      if Text.stripped word = "" then .error .badDirective else .ok (some (Text.stripped word))
  | some _ => .error .badDirective

/-- The number of jobs, or nothing if the key has no value. -/
def jobs? (settings : Settings) : Except ConfigFault (Option Int) :=
  match value? settings "jobs" with
  | none => .ok none
  | some (.integer n) => if 1 ≤ n then .ok (some n) else .error .badJobs
  | some _ => .error .badJobs

/-- The table of rule settings, empty if there is none. -/
def rules (settings : Settings) : Except ConfigFault Settings :=
  match settings.lookup "rules" with
  | none => .ok []
  | some (.object fields) => .ok fields
  | some _ => .error .badRules

/-- The settings with the values of a settings file at a path. -/
def apply (c : Config) (settings : Settings) (path : Path) : Except ConfigFault Config := do
  let extensions? ← strings? settings "extensions"
  let excludedDirs? ← strings? settings "exclude-dirs"
  let word? ← directive? settings
  let jobs? ← jobs? settings
  let rules ← rules settings
  let tags? ← strings? rules "tags"
  let included? ← strings? rules "include"
  let excluded? ← strings? rules "exclude"
  return { c with
    extensions := (extensions?.map (·.map dotted)).getD c.extensions
    excludedDirs := excludedDirs?.getD c.excludedDirs
    word := word?.getD c.word
    jobs := jobs?.getD c.jobs
    selection :=
      { tags := tags?.getD c.selection.tags
        included := included?.getD c.selection.included
        excluded := excluded?.getD c.selection.excluded }
    configPath? := some path }

end Config

end ScriptLint
