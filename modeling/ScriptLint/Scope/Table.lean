import ScriptLint.Keyed
import ScriptLint.Program
import ScriptLint.Scope.Declaration
import ScriptLint.Scope.Forest

/-!
# The scopes of a program

A `ScopeTable` holds the scopes of one program, each under the key of the node
that opens it.  `Program.scopes` builds it in one pass in preorder, which
carries the scope at hand downwards.  At each visible node the pass declares
what the node declares outside, opens the node's scope if it has one, and
declares what the node declares inside.  The body of a function opens no scope
of its own, for it shares that of the parameters.

The table answers where a name leads.  `ScopeTable.scopeOf` walks outwards from
a site to the nearest node that has a scope, and `ScopeTable.resolve?` looks the
name up from there.  A name that no scope on the way declares is global.

A scope opened under a key that the table has already takes that key over.
-/

namespace ScriptLint

/-- The scopes of a program by the nodes that open them. -/
structure ScopeTable where
  /-- All scopes ever opened. -/
  forest : Forest
  /-- The keys of the nodes, in the order of their first use, with the numbers
  of their scopes. -/
  entries : List (NodeKey × Nat)
deriving DecidableEq, Repr, Inhabited

namespace ScopeTable

/-! ## Building -/

/-- The number of the program's own scope. -/
def moduleScope : Nat := 0

/-- The table with the program's own scope only. -/
def start (root : Node) : ScopeTable :=
  ⟨Forest.empty.push .module none, [(root.key, moduleScope)]⟩

/-- The scope that a declaration at some scope reaches. -/
def target (t : ScopeTable) (scope : Nat) : Reach → Nat
  | .here => scope
  | .hoisted => t.forest.hoistTarget scope
  | .program => moduleScope

/-- Enter a declaration made at a scope. -/
def declare (scope : Nat) (t : ScopeTable) (d : Declaration) : ScopeTable :=
  { t with forest := t.forest.declare (t.target scope d.reach) ⟨d.name, d.kind⟩ }

/-- Enter declarations made at a scope, in order. -/
def declareAll (t : ScopeTable) (scope : Nat) (ds : List Declaration) : ScopeTable :=
  ds.foldl (declare scope) t

/-- The kind of the scope that a node opens, below a parent of a kind. -/
def opens? (parentKind : String) (n : Node) : Option ScopeKind :=
  if functionKinds.contains n.kind then some .function
  else if classKinds.contains n.kind then some .classBody
  else if blockKinds.contains n.kind then
    if n.kind = "statement_block" ∧ functionKinds.contains parentKind then none else some .block
  else none

/-- The table and the scope at hand after a node has opened its scope. -/
def enter (t : ScopeTable) (parentKind : String) (scope : Nat) (n : Node) : ScopeTable × Nat :=
  match opens? parentKind n with
  | some kind =>
      let i := t.forest.size
      (⟨t.forest.push kind (some scope), Keyed.put n.key i t.entries⟩, i)
  | none => (t, scope)

/-- The table and the scope for the children after a node was visited. -/
def visit (source : Source) (t : ScopeTable) (parentKind : String) (scope : Nat) (n : Node) :
    ScopeTable × Nat :=
  let (t, inner) := (t.declareAll scope (n.outerDeclarations source)).enter parentKind scope n
  (t.declareAll inner (n.innerDeclarations source parentKind), inner)

mutual

/-- The table after a node and all that is visible below it. -/
def collect (source : Source) (parentKind : String) (scope : Nat) (t : ScopeTable) :
    Node → ScopeTable
  | .mk label children =>
      if (Node.mk label children).isTypeOnly then t
      else
        let (t, inner) := t.visit source parentKind scope (.mk label children)
        collectAmong source label.kind inner t children

/-- The table after the named nodes of a list of siblings. -/
def collectAmong (source : Source) (parentKind : String) (scope : Nat) (t : ScopeTable) :
    List Node → ScopeTable
  | [] => t
  | child :: rest =>
      collectAmong source parentKind scope
        (if child.named then collect source parentKind scope t child else t) rest

end

/-- The scopes of a tree. -/
def ofTree (source : Source) (root : Node) : ScopeTable :=
  collectAmong source root.kind moduleScope (start root) root.children

/-! ## Asking -/

/-- The number of keys. -/
def size (t : ScopeTable) : Nat :=
  t.entries.length

/-- The scope that a node opened. -/
def scopeAt? (t : ScopeTable) (key : NodeKey) : Option Nat :=
  t.entries.lookup key

/-- The innermost scope around a site. -/
def scopeOf (t : ScopeTable) (s : Site) : Nat :=
  (s.ancestors.findSome? fun n => t.scopeAt? n.key).getD moduleScope

/-- The scope that declares the name at a site, if any does. -/
def resolve? (t : ScopeTable) (source : Source) (s : Site) : Option Nat :=
  t.forest.lookup? (t.scopeOf s) (source.textOf s.node)

/-- Whether no scope declares the name at a site. -/
def isGlobal (t : ScopeTable) (source : Source) (s : Site) : Bool :=
  (t.resolve? source s).isNone

end ScopeTable

/-- The scopes of a program. -/
def Program.scopes (p : Program) : ScopeTable :=
  .ofTree p.source p.root

end ScriptLint
