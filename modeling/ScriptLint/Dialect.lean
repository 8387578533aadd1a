import ScriptLint.Path

/-!
# Dialects

A script is written in one of three dialects, each with a grammar of its own.
The suffix of the file name decides which, in either letter case.  JSX belongs
to the first dialect, and a declaration file `.d.ts` to the second.
-/

namespace ScriptLint

/-- The dialects that have a grammar. -/
inductive Dialect where
  /-- Plain scripts, JSX included. -/
  | javascript
  /-- Scripts with types. -/
  | typescript
  /-- Scripts with types and JSX. -/
  | tsx
deriving DecidableEq, Repr, Inhabited

namespace Dialect

/-- The name of a dialect. -/
def name : Dialect → String
  | .javascript => "javascript"
  | .typescript => "typescript"
  | .tsx => "tsx"

/-- The dialect with a name. -/
def ofName? (name : String) : Option Dialect :=
  [javascript, typescript, tsx].find? (·.name == name)

/-- The suffixes that have a dialect, in lower case. -/
def suffixes : List (String × Dialect) :=
  [(".js", .javascript), (".mjs", .javascript), (".cjs", .javascript), (".jsx", .javascript),
    (".ts", .typescript), (".mts", .typescript), (".cts", .typescript), (".tsx", .tsx)]

/-- The dialect of files with a suffix. -/
def ofSuffix? (suffix : String) : Option Dialect :=
  suffixes.lookup suffix.toLower

/-- The dialect of the file at a path. -/
def ofPath? (path : Path) : Option Dialect :=
  ofSuffix? path.suffix

end Dialect

end ScriptLint
