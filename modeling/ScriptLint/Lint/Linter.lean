import ScriptLint.Lint.Directive
import ScriptLint.Lint.Selection

/-!
# Linting a program

A linter has rules and the word that starts its ignore directives.  It runs the
rules one after another, drops what the directives of the program silence, and
sorts the rest.  A program with a syntax error is not looked at by the rules,
and the error is its only diagnostic.
-/

namespace ScriptLint

/-- Rules and the word that silences them. -/
structure Linter where
  /-- The rules. -/
  rules : List Rule
  /-- The word that ignore directives start with. -/
  word : String

namespace Linter

/-- What the rules report, silenced or not. -/
def reports (l : Linter) (p : Program) : List Diagnostic :=
  l.rules.flatMap fun r => r.check p

/-- The diagnostics of a program, its syntax errors aside. -/
def lint (l : Linter) (p : Program) : List Diagnostic :=
  Diagnostic.sort ((Directives.ofProgram l.word p).filter (l.reports p))

/-- The diagnostics of a program. -/
def lintStrictly (l : Linter) (p : Program) : List Diagnostic :=
  match p.parseError? with
  | some e => [.ofParseError e]
  | none => l.lint p

end Linter

/-! ## With a log -/

/-- Parse a source.  With `strict` a syntax error is a failure. -/
def parse (grammar : Grammar) (strict : Bool) (filename : String) (dialect : Dialect)
    (source : Source) : Activity Program := do
  let p := Program.ofSource grammar filename dialect source
  if strict then
    if let some e := p.parseError? then Activity.fail (.syntaxError e)
  Activity.debug .parsing s!"parsed {filename} ({dialect.name}, {source.size} bytes)"
  return p

namespace Linter

/-- Lint a parsed program.  The first rule that asks for its scopes has them
built. -/
def run (l : Linter) (p : Program) : Activity (List Diagnostic) := do
  if l.rules.any (·.asksScopesOf p) then
    Activity.debug .scopes s!"{p.filename}: {p.scopes.size} scopes"
  return l.lint p

/-- Turn a syntax error into its diagnostic. -/
def reportParseError (e : ParseError) : Activity (List Diagnostic) := do
  Activity.debug .linting s!"parse error: {e.message}"
  return [.ofParseError e]

/-- Parse and lint a source. -/
def runSource (l : Linter) (grammar : Grammar) (filename : String) (dialect : Dialect)
    (source : Source) : Activity (List Diagnostic) := do
  match ← (parse grammar true filename dialect source).attempt with
  | .ok p => l.run p
  | .error (.syntaxError e) => reportParseError e
  | .error f => Activity.fail f

end Linter

end ScriptLint
