import ScriptLint.Syntax.Node

/-!
# Sites and walks

A node does not know where it stands.  A `Site` is a node together with its
frames, the way back to the root: for each step up, the parent and the number
of the child that the way came from.  Two sites of one tree are equal exactly
when they are the same place, even if the nodes there look alike.

A *walk* visits a tree in preorder.  It starts at the root and enters a child
when `enter parent child` says so, so a whole subtree is left out at once.

* `Node.reached` enters the named children, and so visits the named nodes.
* `Node.visible` leaves out in addition the subtrees that hold only types.  No
  value is read or bound there, and rules do not look at them.
-/

namespace ScriptLint

/-- One step down a tree: a parent and which of its children comes next. -/
structure Frame where
  /-- The parent. -/
  parent : Node
  /-- The number of the child. -/
  index : Nat
deriving Inhabited

/-- A node with the way back to the root, the nearest frame first. -/
structure Site where
  /-- The node. -/
  node : Node
  /-- The way back to the root. -/
  frames : List Frame
deriving Inhabited

/-! ## Around a site -/

namespace Site

/-- The root of a tree as a site. -/
def root (n : Node) : Site := ⟨n, []⟩

/-- The parent, as a node. -/
def parent? (s : Site) : Option Node :=
  s.frames.head?.map Frame.parent

/-- The kind of the parent. -/
def parentKind? (s : Site) : Option String :=
  s.parent?.map Node.kind

/-- The nodes above, the nearest first. -/
def ancestors (s : Site) : List Node :=
  s.frames.map Frame.parent

/-- The numbers of the children that lead from the root to the site. -/
def path (s : Site) : List Nat :=
  (s.frames.map Frame.index).reverse

/-- The children as sites. -/
def children (s : Site) : List Site :=
  s.node.children.zipIdx.map fun (c, i) => ⟨c, ⟨s.node, i⟩ :: s.frames⟩

/-- The named children as sites. -/
def namedChildren (s : Site) : List Site :=
  s.children.filter (·.node.named)

/-- The first child that fills a field, as a site. -/
def child? (s : Site) (field : String) : Option Site :=
  s.children.find? fun c => c.node.label.field? == some field

theorem map_node_children (s : Site) : s.children.map Site.node = s.node.children := by
  rw [children, List.map_map]
  exact List.zipIdx_map_fst 0 s.node.children

theorem map_node_namedChildren (s : Site) :
    s.namedChildren.map Site.node = s.node.namedChildren := by
  rw [namedChildren, Node.namedChildren, ← map_node_children, List.filter_map]
  rfl

end Site

/-! ## Walks -/

mutual

/-- The sites of a walk that starts at a node, which stands below `frames`. -/
def Node.walkFrom (enter : Node → Node → Bool) (frames : List Frame) : Node → List Site
  | .mk label children =>
      ⟨.mk label children, frames⟩ ::
        Node.walkAmong enter (.mk label children) frames 0 children

/-- The sites of a walk through the children of `parent` from number `i` on. -/
def Node.walkAmong (enter : Node → Node → Bool) (parent : Node) (frames : List Frame) (i : Nat) :
    List Node → List Site
  | [] => []
  | child :: rest =>
      (if enter parent child then child.walkFrom enter (⟨parent, i⟩ :: frames) else []) ++
        Node.walkAmong enter parent frames (i + 1) rest

end

/-- The walk through a tree from its root. -/
def Node.walk (enter : Node → Node → Bool) (root : Node) : List Site :=
  root.walkFrom enter []

/-! ## What is reached and what is visible -/

/-- The kinds of nodes that hold only types. -/
def typeOnlyKinds : List String :=
  ["type_annotation", "type_alias_declaration", "interface_declaration", "type_arguments",
    "type_parameters", "type_query", "asserts_annotation", "type_predicate_annotation",
    "omitting_type_annotation", "opting_type_annotation"]

/-- Whether a node holds only types. -/
def Node.isTypeOnly (n : Node) : Bool :=
  typeOnlyKinds.contains n.kind

/-- The sites reached from the root through named children. -/
def Node.reached (root : Node) : List Site :=
  root.walk fun _ child => child.named

/-- The sites reached through named children with no type-only node on the way
or at the end. -/
def Node.visible (root : Node) : List Site :=
  if root.isTypeOnly then []
  else root.walk fun _ child => child.named && !child.isTypeOnly

end ScriptLint
