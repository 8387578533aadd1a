import ScriptLint.CommandLine.Options

/-!
# Requests

A command line asks for one thing: the version, help, a run of the linter, the
list of rules, or a summary of one file.  `Request.ofWords` finds out which.

Help and version are given as soon as they are read, even if something further
on is wrong.  So is the complaint about a number of jobs that is no integer or
about a command that does not exist.  All other complaints come at the end of
the line.
-/

namespace ScriptLint.CommandLine

/-! ## Requests -/

/-- What the linter is asked for. -/
structure LintRequest where
  /-- The files and directories to lint. -/
  paths : List String := []
  /-- Whether to report as JSON. -/
  json : Bool := false
  /-- The settings file. -/
  config? : Option String := none
  /-- The tags of the rules to run. -/
  tags? : Option (List String) := none
  /-- The codes of further rules to run. -/
  included? : Option (List String) := none
  /-- The codes of rules not to run. -/
  excluded? : Option (List String) := none
  /-- How many files to lint at a time. -/
  jobs? : Option Int := none
deriving DecidableEq, Repr, Inhabited

/-- How the rules are to be listed. -/
structure RulesRequest where
  /-- Whether to list them as JSON. -/
  json : Bool := false
  /-- Whether to show what they are about. -/
  docs : Bool := false
deriving DecidableEq, Repr, Inhabited

/-- What to summarize, and how. -/
structure SummaryRequest where
  /-- The file. -/
  file : String := ""
  /-- Whether to list the statements. -/
  details : Bool := false
deriving DecidableEq, Repr, Inhabited

/-- A command with what it is told. -/
inductive Command where
  /-- Lint files. -/
  | lint (request : LintRequest)
  /-- List the rules. -/
  | rules (request : RulesRequest)
  /-- Summarize a file. -/
  | summary (request : SummaryRequest)
deriving DecidableEq, Repr

/-- What a command line asks for. -/
inductive Request where
  /-- How to use the program. -/
  | help
  /-- Which version it is. -/
  | version
  /-- To carry out a command, and whether to log every step. -/
  | run (verbose : Bool) (command : Command)
  /-- Nothing that makes sense. -/
  | misuse
deriving DecidableEq, Repr

/-- Why reading a command line stops early. -/
inductive Stop where
  /-- Help is asked for. -/
  | help
  /-- The version is asked for. -/
  | version
  /-- Something is wrong. -/
  | misuse
deriving DecidableEq, Repr

/-- The request that a stop amounts to. -/
def Stop.request : Stop → Request
  | .help => .help
  | .version => .version
  | .misuse => .misuse

/-- Take in what a command line says, event by event, and complain at the end
if something was wrong. -/
def gather {ι α : Type} (step : α → Event ι → Except Stop α) (start : α) (r : Reading ι) :
    Except Stop α := do
  let a ← r.events.foldlM step start
  if r.misuse then throw .misuse else return a

/-! ## The commands -/

/-- The options that ask for help. -/
def helpNames : List String := ["-h", "--help"]

/-- What the options of `lint` stand for. -/
inductive LintOption where
  /-- Help. -/
  | help
  /-- JSON. -/
  | json
  /-- The settings file. -/
  | config
  /-- Tags of rules. -/
  | tags
  /-- Further rules. -/
  | included
  /-- Rules not to run. -/
  | excluded
  /-- The number of jobs. -/
  | jobs
deriving DecidableEq, Repr

/-- The command line of `lint`. -/
def lintUsage : Usage LintOption where
  flags := [
    ⟨.help, helpNames, .none⟩,
    ⟨.json, ["--json"], .none⟩,
    ⟨.config, ["--config"], .one⟩,
    ⟨.tags, ["--rules-tags"], .many⟩,
    ⟨.included, ["--rules-include"], .many⟩,
    ⟨.excluded, ["--rules-exclude"], .many⟩,
    ⟨.jobs, ["-j", "--jobs"], .one⟩]
  operands := .many

/-- Take in what the command line of `lint` says. -/
def LintRequest.step (r : LintRequest) : Event LintOption → Except Stop LintRequest
  | .flag .help _ => .error .help
  | .flag .json _ => .ok { r with json := true }
  | .flag .config values => .ok { r with config? := values.head? }
  | .flag .tags values => .ok { r with tags? := some values }
  | .flag .included values => .ok { r with included? := some values }
  | .flag .excluded values => .ok { r with excluded? := some values }
  | .flag .jobs values =>
      match values.head?.bind fun value => Text.integer? value.toList with
      | some jobs => .ok { r with jobs? := some jobs }
      | none => .error .misuse
  | .operands values => .ok { r with paths := values }
  | .command _ _ => .error .misuse

/-- What the options of `rules` stand for. -/
inductive RulesOption where
  /-- Help. -/
  | help
  /-- JSON. -/
  | json
  /-- What the rules are about. -/
  | docs
deriving DecidableEq, Repr

/-- The command line of `rules`. -/
def rulesUsage : Usage RulesOption where
  flags := [⟨.help, helpNames, .none⟩, ⟨.json, ["--json"], .none⟩, ⟨.docs, ["--docs"], .none⟩]
  operands := .none

/-- Take in what the command line of `rules` says. -/
def RulesRequest.step (r : RulesRequest) : Event RulesOption → Except Stop RulesRequest
  | .flag .help _ => .error .help
  | .flag .json _ => .ok { r with json := true }
  | .flag .docs _ => .ok { r with docs := true }
  | _ => .error .misuse

/-- What the options of `parse` stand for. -/
inductive SummaryOption where
  /-- Help. -/
  | help
  /-- The statements. -/
  | details
deriving DecidableEq, Repr

/-- The command line of `parse`. -/
def summaryUsage : Usage SummaryOption where
  flags := [⟨.help, helpNames, .none⟩, ⟨.details, ["-d", "--details"], .none⟩]
  operands := .one

/-- Take in what the command line of `parse` says. -/
def SummaryRequest.step (r : SummaryRequest) : Event SummaryOption → Except Stop SummaryRequest
  | .flag .help _ => .error .help
  | .flag .details _ => .ok { r with details := true }
  | .operands values => .ok { r with file := values.headD "" }
  | .command _ _ => .error .misuse

/-- The command with a name and the words after it. -/
def Command.ofWords (name : String) (words : List String) : Except Stop Command :=
  if name = "lint" then
    (gather LintRequest.step {} (lintUsage.read words)).map .lint
  else if name = "rules" then
    (gather RulesRequest.step {} (rulesUsage.read words)).map .rules
  else if name = "parse" then
    (gather SummaryRequest.step {} (summaryUsage.read words)).map .summary
  else .error .misuse

/-! ## The whole line -/

/-- What the options before the command stand for. -/
inductive GlobalOption where
  /-- Help. -/
  | help
  /-- The version. -/
  | version
  /-- A log of every step. -/
  | verbose
deriving DecidableEq, Repr

/-- The whole command line. -/
def globalUsage : Usage GlobalOption where
  flags := [⟨.help, helpNames, .none⟩, ⟨.version, ["--version"], .none⟩,
    ⟨.verbose, ["-v", "--verbose"], .none⟩]
  operands := .command

/-- What the whole command line has said so far. -/
structure Outline where
  /-- Whether every step is logged. -/
  verbose : Bool := false
  /-- The command. -/
  command? : Option Command := none

/-- Take in what the whole command line says. -/
def Outline.step (o : Outline) : Event GlobalOption → Except Stop Outline
  | .flag .help _ => .error .help
  | .flag .version _ => .error .version
  | .flag .verbose _ => .ok { o with verbose := true }
  | .command name rest => (Command.ofWords name rest).map fun c => { o with command? := some c }
  | .operands _ => .error .misuse

/-- What a command line asks for.  Without a command it asks for help. -/
def Request.ofWords (words : List String) : Request :=
  match gather Outline.step {} (globalUsage.read words) with
  | .error stop => stop.request
  | .ok ⟨_, none⟩ => .help
  | .ok ⟨verbose, some command⟩ => .run verbose command

/-! ## Tests -/

example : Request.ofWords ["lint", "a", "--js"] = .run false (.lint ⟨["a"], true, none, none, none,
    none, none⟩) := by decide +kernel
example : Request.ofWords ["-v", "lint", "-j", "-3"] = .run true (.lint ⟨[], false, none, none,
    none, none, some (-3)⟩) := by decide +kernel
example : Request.ofWords ["parse", "-dh"] = .help := by decide +kernel
example : Request.ofWords ["lint", "-j", "x", "-h"] = .misuse := by decide +kernel
example : Request.ofWords ["lint", "a", "--json", "b"] = .misuse := by decide +kernel

end ScriptLint.CommandLine
