import ScriptLint.Source

/-!
# Syntax trees

A parser hands over a concrete syntax tree.  Every token and every construct
is a node with a kind, a stretch of bytes and the name of the field it fills in
its parent, if it fills one.  Constructs and meaningful tokens are *named*,
punctuation and keywords are not.  The parser recovers from errors, so a tree
can hold nodes of kind `ERROR` and *missing* nodes that stand for a token that
is not there.  A node is *faulty* when it is one of these or has one below it.

A node is told from the others of its tree by its `key`, the kind with the
stretch of bytes.  Keys stand in for identity wherever a node is looked up.

Parsers deliver trees as tables in preorder, one row per node with the number
of its parent's row.  `Node.ofRows?` rebuilds the tree.
-/

namespace ScriptLint

/-- What a node says about itself, its children aside. -/
structure Label where
  /-- The kind of construct or token. -/
  kind : String
  /-- Whether it is more than punctuation. -/
  named : Bool
  /-- Whether it stands for a token that is not in the source. -/
  missing : Bool
  /-- Whether it is an error or has one below it. -/
  faulty : Bool
  /-- The first byte. -/
  start : Nat
  /-- The byte after the last one. -/
  stop : Nat
  /-- The field it fills in its parent. -/
  field? : Option String
deriving DecidableEq, Repr, Inhabited

/-- A node with its children in order. -/
inductive Node where
  /-- A node from its label and its children. -/
  | mk (label : Label) (children : List Node)
deriving Inhabited

/-- The identity of a node within its tree. -/
structure NodeKey where
  /-- The first byte. -/
  start : Nat
  /-- The byte after the last one. -/
  stop : Nat
  /-- The kind. -/
  kind : String
deriving DecidableEq, Repr, Inhabited

namespace Node

/-! ## Parts -/

/-- The label of a node. -/
def label : Node → Label
  | .mk label _ => label

/-- The children of a node, named or not. -/
def children : Node → List Node
  | .mk _ children => children

/-- The kind of a node. -/
def kind (n : Node) : String := n.label.kind

/-- Whether a node is named. -/
def named (n : Node) : Bool := n.label.named

/-- Whether a node stands for a token that is not there. -/
def missing (n : Node) : Bool := n.label.missing

/-- Whether a node is or contains an error. -/
def faulty (n : Node) : Bool := n.label.faulty

/-- The first byte of a node. -/
def start (n : Node) : Nat := n.label.start

/-- The byte after the last one of a node. -/
def stop (n : Node) : Nat := n.label.stop

/-- The key of a node. -/
def key (n : Node) : NodeKey := ⟨n.start, n.stop, n.kind⟩

/-- The named children. -/
def namedChildren (n : Node) : List Node :=
  n.children.filter Node.named

/-- The first child that fills a field. -/
def child? (n : Node) (field : String) : Option Node :=
  n.children.find? fun c => c.label.field? == some field

/-! ## Trees from tables -/

/-- One row of a table: the number of the parent's row, none for the root, and
the label. -/
structure Row where
  /-- The number of the parent's row. -/
  parent? : Option Nat
  /-- The label of the node. -/
  label : Label
deriving Repr

/-- The nodes of the rows numbered from `i` whose parents are not among these
rows, each with the number of its parent's row. -/
def graft (i : Nat) : List Row → List (Option Nat × Node)
  | [] => []
  | row :: rows =>
      let (mine, others) := (graft (i + 1) rows).partition fun (parent?, _) => parent? == some i
      (row.parent?, .mk row.label (mine.map (·.2))) :: others

/-- The tree of a table whose first row is the root. -/
def ofRows? (rows : List Row) : Option Node :=
  (graft 0 rows).head?.map (·.2)

end Node

/-! ## Nodes in a source -/

namespace Source

/-- The characters that a node covers. -/
def charsOf (s : Source) (n : Node) : List Char :=
  s.chars n.start n.stop

/-- The text that a node covers. -/
def textOf (s : Source) (n : Node) : String :=
  s.text n.start n.stop

/-- The range that a node covers. -/
def rangeOf (s : Source) (n : Node) : Range :=
  s.range n.start n.stop

end Source

end ScriptLint
