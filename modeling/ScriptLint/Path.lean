import ScriptLint.Text.Blank

/-!
# File paths

A path is an anchor and the names after it.  Reading a path drops what makes no
difference to where it leads: empty names from doubled slashes, and the name
`.`.  The name `..` stays, since what it means depends on the file system.  Two
leading slashes are an anchor of their own, any other positive number of them
is the root.

The suffix of a path is the end of its last name from the last dot on, unless
that dot is the first or the last character of the name.
-/

namespace ScriptLint

/-- Where a path starts. -/
inductive Anchor where
  /-- The current directory. -/
  | here
  /-- The root. -/
  | root
  /-- The root, spelled with two slashes. -/
  | doubleRoot
deriving DecidableEq, Repr, Inhabited

/-- The text of an anchor. -/
def Anchor.text : Anchor → String
  | .here => ""
  | .root => "/"
  | .doubleRoot => "//"

/-- An anchor and the names after it. -/
structure Path where
  /-- Where the path starts. -/
  anchor : Anchor
  /-- The names that lead on from there. -/
  names : List String
deriving DecidableEq, Repr, Inhabited

namespace Path

/-! ## Reading and writing -/

/-- The anchor that a text starts with. -/
def anchorOf (s : List Char) : Anchor :=
  match (s.takeWhile (· == '/')).length with
  | 0 => .here
  | 2 => .doubleRoot
  | _ => .root

/-- The names in a text, those that lead nowhere left out. -/
def namesOf (s : List Char) : List String :=
  ((Text.splitOn '/' s).map String.ofList).filter fun name => name != "" && name != "."

/-- The path that a text spells. -/
def ofString (s : String) : Path :=
  ⟨anchorOf s.toList, namesOf s.toList⟩

/-- The shortest text that spells a path. -/
def toString (p : Path) : String :=
  if p.anchor = .here ∧ p.names = [] then "."
  else p.anchor.text ++ "/".intercalate p.names

instance : ToString Path := ⟨toString⟩

/-! ## Parts -/

/-- The anchor, if it is spelled, and the names. -/
def components (p : Path) : List String :=
  if p.anchor = .here then p.names else p.anchor.text :: p.names

/-- The last name, or nothing. -/
def name (p : Path) : String :=
  p.names.getLast?.getD ""

/-- The suffix of a name. -/
def suffixOf (name : List Char) : List Char :=
  let extension := (name.reverse.takeWhile (· != '.')).reverse
  let stem := name.reverse.dropWhile (· != '.')
  if extension ≠ [] ∧ 2 ≤ stem.length then '.' :: extension else []

/-- The suffix of the last name. -/
def suffix (p : Path) : String :=
  String.ofList (suffixOf p.name.toList)

/-- The path one name further. -/
def child (p : Path) (name : String) : Path :=
  { p with names := p.names ++ [name] }

/-- The path some names further. -/
def descend (p : Path) (names : List String) : Path :=
  { p with names := p.names ++ names }

/-! ## Tests -/

example : namesOf "./a//b/../.".toList = ["a", "b", ".."] := by decide
example : suffixOf "e.d.ts".toList = ".ts".toList := by decide
example : suffixOf ".js".toList = [] := by decide
example : suffixOf "a.".toList = [] := by decide

end Path

end ScriptLint
