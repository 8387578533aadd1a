import ScriptLint.Keyed
import ScriptLint.Lint.Diagnostic
import ScriptLint.Program

/-!
# Ignore directives

A comment can silence diagnostics.  Its body starts with a fixed word, which is
followed by nothing or by a blank and more text:

* `workerlint-ignore` silences the line after the comment,
* `workerlint-ignore-file` silences the file, if only comments and the line
  that names the interpreter come before it at the top level.

The text after the word lists the codes to silence, between blanks and commas.
Two dashes end the list, and what follows explains.  A directive without codes
silences all of them.

`Directives.ofProgram` gathers the directives of a program.  Several directives
for the same line, or for the file, silence what any of them silences.  So a
directive without codes is not narrowed by another one, and the order in which
the comments are visited does not matter.  A comment inside a comment is none.
-/

namespace ScriptLint

/-! ## One directive -/

/-- What a comment silences. -/
structure Directive where
  /-- Whether it speaks of the file and not of the next line. -/
  wholeFile : Bool
  /-- The codes that it lists.  None means all. -/
  codes : List String
deriving DecidableEq, Repr

namespace Directive

/-- The text after a fixed beginning, if it has that beginning. -/
def after? (start s : List Char) : Option (List Char) :=
  if start.isPrefixOf s then some (s.drop start.length) else none

/-- A comment without its delimiters and the blanks inside them. -/
def commentBody (comment : List Char) : List Char :=
  match comment with
  | '/' :: '/' :: rest => Text.strip rest
  | '/' :: '*' :: rest =>
      if ['*', '/'].isSuffixOf comment then Text.strip rest.dropLast.dropLast
      else Text.strip rest
  | _ => Text.strip comment

/-- The text before the first two dashes in a row. -/
def beforeDashes : List Char → List Char
  | [] => []
  | '-' :: '-' :: _ => []
  | c :: s => c :: beforeDashes s

/-- Whether a character stands between codes. -/
def isSeparator (c : Char) : Bool :=
  Text.isBlank c || c == ','

/-- The codes that a text lists. -/
def codesIn (s : List Char) : List String :=
  (Text.words isSeparator (beforeDashes s)).map String.ofList

/-- Whether a text ends a word that stands before it. -/
def endsWord : List Char → Bool
  | [] => true
  | c :: _ => Text.isBlank c

/-- What makes a directive speak of the whole file. -/
def fileMark : List Char := ['-', 'f', 'i', 'l', 'e']

/-- The directive in a comment whose body starts with the word `word`. -/
def parse? (word comment : List Char) : Option Directive := do
  let rest ← after? word (commentBody comment)
  match (after? fileMark rest).filter endsWord with
  | some list => some ⟨true, codesIn list⟩
  | none => if endsWord rest then some ⟨false, codesIn rest⟩ else none

/-- Whether a list of codes covers a code.  The empty list covers all. -/
def covers (codes : List String) (code : String) : Bool :=
  codes.isEmpty || codes.contains code

/-- The codes that two directives silence together.  The empty list is all. -/
def join (codes others : List String) : List String :=
  if codes.isEmpty || others.isEmpty then [] else codes ++ others

/-- Two directives together silence what one of them silences. -/
theorem covers_join (codes others : List String) (code : String) :
    covers (join codes others) code = (covers codes code || covers others code) := by
  cases codes <;> cases others <;> simp [join, covers, Bool.or_assoc]

/-- The codes of a directive joined to those silenced before, if there were
any directives before. -/
def joined (codes : List String) (before? : Option (List String)) : List String :=
  match before? with
  | some before => join before codes
  | none => codes

end Directive

/-! ## All directives of a program -/

/-- What the directives of a program silence. -/
structure Directives where
  /-- The codes silenced in the whole file. -/
  fileCodes? : Option (List String) := none
  /-- The codes silenced by line. -/
  lineCodes : List (Int × List String) := []
deriving DecidableEq, Repr

namespace Directives

/-- Whether a diagnostic is silenced. -/
def suppresses (ds : Directives) (d : Diagnostic) : Bool :=
  ds.fileCodes?.any (Directive.covers · d.code) ||
    (ds.lineCodes.lookup d.line).any (Directive.covers · d.code)

/-- The diagnostics that are not silenced. -/
def filter (ds : Directives) (diagnostics : List Diagnostic) : List Diagnostic :=
  diagnostics.filter fun d => !ds.suppresses d

/-! ## Gathering -/

/-- The kinds of the line that names the interpreter. -/
def hashbangKinds : List String :=
  ["hash_bang_line", "hashbang_line"]

/-- Whether a node is a comment. -/
def isComment (n : Node) : Bool :=
  n.kind == "comment"

/-- The comments that only comments and the interpreter's line come before. -/
def leadingComments (root : Node) : List Node :=
  (root.namedChildren.filter fun n => !hashbangKinds.contains n.kind).takeWhile isComment

/-- The comments reached through named children, none below another one. -/
def comments (root : Node) : List Node :=
  ((root.walk fun parent child => !isComment parent && child.named).map Site.node).filter isComment

/-- The directive in a comment of a source. -/
def directiveIn? (source : Source) (word : String) (comment : Node) : Option Directive :=
  Directive.parse? word.toList (source.charsOf comment)

/-- The line that a comment silences. -/
def targetLine (source : Source) (comment : Node) : Int :=
  (source.rangeOf comment).stop.line + 1

/-- The codes that the leading comments silence in the whole file. -/
def fileCodesOf? (source : Source) (word : String) (root : Node) : Option (List String) :=
  (((leadingComments root).filterMap (directiveIn? source word)).filter (·.wholeFile)).foldl
    (fun codes? d => some (Directive.joined d.codes codes?)) none

/-- The codes that comments silence on the lines after them. -/
def lineCodesOf (source : Source) (word : String) (root : Node) : List (Int × List String) :=
  (comments root).foldl (fun lines comment =>
    match directiveIn? source word comment with
    | some d =>
        if d.wholeFile then lines
        else Keyed.update (targetLine source comment) (Directive.joined d.codes) lines
    | none => lines) []

/-- The directives of a program that start with `word`. -/
def ofProgram (word : String) (p : Program) : Directives :=
  ⟨fileCodesOf? p.source word p.root, lineCodesOf p.source word p.root⟩

end Directives

/-! ## Tests -/

example : Directive.parse? "skip".toList "/* skip-file a, b -- c */".toList
    = some ⟨true, ["a", "b"]⟩ := by decide
example : Directive.parse? "skip".toList "// skipped".toList = none := by decide
example : Directive.parse? "skip".toList "//skip".toList = some ⟨false, []⟩ := by decide

end ScriptLint
