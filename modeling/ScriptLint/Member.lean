import ScriptLint.Literal
import ScriptLint.Program

/-!
# Member accesses

A member access reads a property of an object: `a.b`, `a.#b` or `a[b]`.  The
tree has two kinds of nodes for them, and an `Access` is the view that both
share.  The property is a name, a private name without its sign, or an
expression.

`Access.isObject` tells a link of a chain from its end.  The links of `a.b.c`
are `a.b.c` and `a.b`, and the second is the object of the first.  The test
compares keys.

The *symbol* of an access is the property's name, as code points, if it can be
read off the text: a name, a string, or a template without substitutions.
-/

namespace ScriptLint

/-- The kinds of nodes that access a member. -/
def memberKinds : List String :=
  ["member_expression", "subscript_expression"]

/-- Whether a node accesses a member. -/
def Node.isMember (n : Node) : Bool :=
  memberKinds.contains n.kind

/-- What is accessed. -/
inductive Property where
  /-- A property by its name. -/
  | ident (name : String)
  /-- A private property by its name without the sign. -/
  | privateName (name : String)
  /-- The property that an expression gives. -/
  | computed (index : Node)

/-- A member access in a program. -/
structure Access where
  /-- Where it stands. -/
  site : Site
  /-- The object. -/
  object : Site
  /-- The property. -/
  property : Property

namespace Access

/-- The property that a node names. -/
def propertyOf (source : Source) (n : Node) : Property :=
  let name := source.charsOf n
  if n.kind = "private_property_identifier" then
    .privateName (String.ofList (if name.head? = some '#' then name.tail else name))
  else .ident (String.ofList name)

/-- The property of a member access. -/
def property? (source : Source) (n : Node) : Option Property :=
  if n.kind = "subscript_expression" then (n.child? "index").map .computed
  else (n.child? "property").map (propertyOf source)

/-- A node viewed as a member access, if it is one and is complete. -/
def ofSite? (source : Source) (s : Site) : Option Access :=
  if s.node.isMember then
    match s.child? "object", property? source s.node with
    | some object, some property => some ⟨s, object, property⟩
    | _, _ => none
  else none

/-- Whether the access is the object of the access around it. -/
def isObject (a : Access) : Bool :=
  match a.site.parent? with
  | none => false
  | some parent =>
      parent.isMember && (parent.child? "object").any fun object => object.key == a.site.node.key

/-- The code points of the property's name, if the text gives them. -/
def symbol? (source : Source) (a : Access) : Option (List Nat) :=
  match a.property with
  | .ident name => some (codePoints name)
  | .privateName name => some (codePoints name)
  | .computed index =>
      if index.kind = "string" then some (source.stringValue index)
      else if index.kind = "template_string" then source.templateRaw? index
      else none

/-- The range of the whole access. -/
def range (source : Source) (a : Access) : Range :=
  source.rangeOf a.site.node

end Access

/-- The member accesses that rules look at, in preorder. -/
def Program.accesses (p : Program) : List Access :=
  p.root.visible.filterMap (Access.ofSite? p.source)

end ScriptLint
