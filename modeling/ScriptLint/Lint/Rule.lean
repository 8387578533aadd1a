import ScriptLint.Lint.Diagnostic
import ScriptLint.Member
import ScriptLint.Scope.Table

/-!
# Rules

A rule looks at a program and reports findings under its code.  All rules see
the program in the same way, as the *visits* of its visible nodes in preorder.
A member access is visited as such, once, and never as a node of its kind.
Every other node is visited as a node.  `Visit.onStack` keeps the sites that it
has still to come to on a stack.

A rule says what it finds at an access and what it finds at a node.  It may ask
for the scopes of the program when it looks at an access, and
`Rule.asksScopes` says at which accesses it does.
-/

namespace ScriptLint

/-! ## Visits -/

/-- One visit of a walk through a program. -/
inductive Visit where
  /-- A member access. -/
  | member (site : Site)
  /-- Any other node. -/
  | node (site : Site)

namespace Visit

/-- The place of a visit. -/
def site : Visit → Site
  | .member site => site
  | .node site => site

/-- The visit of a site, if it is a member access or a node of wanted kind. -/
def ofSite? (wanted : String → Bool) (s : Site) : Option Visit :=
  if s.node.isMember then some (.member s)
  else if wanted s.node.kind then some (.node s)
  else none

/-- The named children of a node are less than the node. -/
theorem sizeOf_namedChildren_lt (n : Node) : sizeOf n.namedChildren < sizeOf n := by
  obtain ⟨label, children⟩ := n
  have hle := Node.sizeOf_filter_le Node.named children
  rw [Node.mk.sizeOf_spec]
  exact Nat.lt_of_le_of_lt hle (by omega)

/-- The visits of the sites on a stack and of the sites below them.  The top of the
stack is visited, and its named children take its place, the first one on top.  If it
holds only types it is dropped. -/
def onStack (wanted : String → Bool) : List Site → List Visit
  | [] => []
  | s :: stack =>
      if s.node.isTypeOnly then onStack wanted stack
      else (ofSite? wanted s).toList ++ onStack wanted (s.namedChildren ++ stack)
termination_by stack => sizeOf (stack.map Site.node)
decreasing_by
  · rw [List.map_cons, List.cons.sizeOf_spec]
    omega
  · have hlt := sizeOf_namedChildren_lt s.node
    have hle := Node.sizeOf_append_le s.node.namedChildren (stack.map Site.node)
    rw [List.map_append, Site.map_node_namedChildren, List.map_cons, List.cons.sizeOf_spec]
    omega

end Visit

/-- The visits of the member accesses and of the nodes of wanted kinds. -/
def Program.visits (wanted : String → Bool) (p : Program) : List Visit :=
  Visit.onStack wanted [.root p.root]

/-! ## Rules -/

/-- What a rule reports at one place. -/
structure Finding where
  /-- The place. -/
  range : Range
  /-- What is wrong. -/
  message : String
  /-- What to do about it. -/
  hint? : Option String
deriving DecidableEq, Repr

/-- A way of looking at programs.

What a rule finds depends on the program alone.  The list that takes the reports of all rules is
not shown to it, so it cannot see what other rules have reported, and the order of the rules does
not matter. -/
structure Rule where
  /-- The name. -/
  name : String
  /-- The code that findings are reported under. -/
  code : String
  /-- The groups that the rule belongs to. -/
  tags : List String
  /-- What the rule is about. -/
  docs : String
  /-- What it finds at a member access. -/
  onMember : Program → ScopeTable → Access → List Finding
  /-- What it finds at any other node. -/
  onNode : Program → Site → List Finding
  /-- Whether it asks for the scopes at a member access. -/
  asksScopes : Program → Access → Bool

namespace Rule

/-- Name and code of a rule, for show. -/
def text (r : Rule) : String :=
  s!"{r.name}({Text.quoted r.code})"

/-- What a rule finds at a visit. -/
def findingsAt (r : Rule) (p : Program) (scopes : ScopeTable) : Visit → List Finding
  | .member site =>
      match Access.ofSite? p.source site with
      | some access => r.onMember p scopes access
      | none => []
  | .node site => r.onNode p site

/-- What a rule finds in a program, in the order of its visits. -/
def findings (r : Rule) (p : Program) : List Finding :=
  (p.visits fun _ => true).flatMap (r.findingsAt p p.scopes)

/-- The diagnostic for a finding of a rule. -/
def diagnostic (r : Rule) (p : Program) (f : Finding) : Diagnostic where
  filename := p.filename
  range := f.range
  code := r.code
  message := f.message
  hint? := f.hint?
  context := p.source.lineText f.range.start.line

/-- The diagnostics of a rule for a program. -/
def check (r : Rule) (p : Program) : List Diagnostic :=
  (r.findings p).map (r.diagnostic p)

/-- Whether a rule asks for the scopes of a program. -/
def asksScopesOf (r : Rule) (p : Program) : Bool :=
  p.accesses.any (r.asksScopes p)

end Rule

end ScriptLint
