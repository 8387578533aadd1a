import ScriptLint.Dialect
import ScriptLint.Failure
import ScriptLint.Syntax.Site

/-!
# Programs

A program is a source with its syntax tree, the dialect that was parsed and the
file it comes from.  Grammars are not part of the library: a `Grammar` is
whatever turns a source into a tree, repairing errors on the way.

`Program.parseError?` is the strict reading.  A program with a faulty root is
blamed on its first error, in the order of the text.  The search keeps a stack of
nodes and follows faulty and missing children only, named or not.  The root
stands in when it finds nothing.
-/

namespace ScriptLint

/-- What turns sources into trees. -/
structure Grammar where
  /-- The tree of a source in a dialect. -/
  parse : Dialect → Source → Node

/-- A parsed source. -/
structure Program where
  /-- The file it comes from. -/
  filename : String
  /-- Its dialect. -/
  dialect : Dialect
  /-- Its bytes. -/
  source : Source
  /-- Its tree. -/
  root : Node
deriving Inhabited

/-! ## The first error -/

namespace Node

/-- Whether a node is itself an error, faults below it aside. -/
def isError (n : Node) : Bool :=
  n.kind == "ERROR" || n.missing

/-- The children that are or hold errors, by what the tree says of them. -/
def suspects (n : Node) : List Node :=
  n.children.filter fun c => c.faulty || c.missing

theorem sizeOf_filter_le (p : Node → Bool) : ∀ ns : List Node, sizeOf (ns.filter p) ≤ sizeOf ns
  | [] => Nat.le_refl _
  | n :: ns => by
      have ih := sizeOf_filter_le p ns
      rw [List.filter_cons, List.cons.sizeOf_spec]
      split
      · rw [List.cons.sizeOf_spec]
        omega
      · omega

theorem sizeOf_append_le : ∀ ms ns : List Node, sizeOf (ms ++ ns) ≤ sizeOf ms + sizeOf ns
  | [], ns => Nat.le_add_left ..
  | m :: ms, ns => by
      have ih := sizeOf_append_le ms ns
      rw [List.cons_append, List.cons.sizeOf_spec, List.cons.sizeOf_spec]
      omega

/-- Suspects are less than the node that they are taken from. -/
theorem sizeOf_suspects_lt (n : Node) : sizeOf n.suspects < sizeOf n := by
  obtain ⟨label, children⟩ := n
  have hle := sizeOf_filter_le (fun c => c.faulty || c.missing) children
  rw [Node.mk.sizeOf_spec]
  exact Nat.lt_of_le_of_lt hle (by omega)

/-- The first error among the nodes on a stack and the nodes below them.  The top
of the stack is looked at, and its suspects take its place if it is no error
itself. -/
def firstErrorOn? : List Node → Option Node
  | [] => none
  | n :: stack => if n.isError then some n else firstErrorOn? (n.suspects ++ stack)
termination_by stack => sizeOf stack
decreasing_by
  have hlt := sizeOf_suspects_lt n
  have hle := sizeOf_append_le n.suspects stack
  rw [List.cons.sizeOf_spec]
  omega

/-- The first error of a tree. -/
def firstError? (root : Node) : Option Node :=
  firstErrorOn? [root]

end Node

/-- What a piece of source in the wrong place starts like: at most twenty
characters of its first line, without the blanks before it. -/
def ParseFault.ofChars (s : List Char) : ParseFault :=
  match Text.splitLines (Text.strip s) with
  | [] => .unexpectedEnd
  | line :: _ => .unexpected (String.ofList (line.take 20))

namespace Program

/-- What a node is blamed for. -/
def faultOf (p : Program) (n : Node) : ParseFault :=
  if n.missing then .expected n.kind else .ofChars (p.source.charsOf n)

/-- The first syntax error, if there is any. -/
def parseError? (p : Program) : Option ParseError :=
  if p.root.faulty then
    let bad := p.root.firstError?.getD p.root
    let place := p.source.position bad.start
    some ⟨p.filename, place.line, place.col, p.faultOf bad⟩
  else none

/-- The source parsed by a grammar. -/
def ofSource (grammar : Grammar) (filename : String) (dialect : Dialect) (source : Source) :
    Program :=
  ⟨filename, dialect, source, grammar.parse dialect source⟩

/-- The name of a source that comes from no file.  It is a plain script. -/
def nameless : String := "<input>"

/-- The dialect of a source by the name of its file. -/
def dialectFor? (filename : String) : Option Dialect :=
  if filename = nameless then some .javascript else Dialect.ofPath? (Path.ofString filename)

end Program

end ScriptLint
