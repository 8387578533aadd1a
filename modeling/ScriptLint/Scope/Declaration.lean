import ScriptLint.Syntax.Site

/-!
# Declarations

This module reads off a node which names it declares, and how far each
declaration reaches.

Some nodes declare into the scope they stand in (`Node.outerDeclarations`):
variable statements, functions, classes, imports, enumerations and namespaces.
Others declare into the scope they open, or that is open around a parameter
list (`Node.innerDeclarations`): parameters, the variable of a `catch`, the
head of a loop over keys or values, and the own name of a function or class
expression.

A declaration reaches the scope at hand, or rises to the nearest function, or
belongs to the whole program.

Where a pattern is declared, `Node.boundNames` finds the names in it, through
any nesting of object and array patterns, defaults and rest elements.
-/

namespace ScriptLint

/-! ## Names in patterns -/

/-- The kinds of nodes that are a bound name. -/
def boundNameKinds : List String :=
  ["identifier", "shorthand_property_identifier_pattern"]

/-- The kinds of patterns that bind what their named children bind. -/
def compoundPatternKinds : List String :=
  ["object_pattern", "array_pattern", "rest_pattern"]

/-- The field that holds the pattern proper, for kinds that wrap one. -/
def wrappedPatternField? (kind : String) : Option String :=
  if kind = "pair_pattern" then some "value"
  else if kind = "assignment_pattern" ∨ kind = "object_assignment_pattern" then some "left"
  else if kind = "required_parameter" ∨ kind = "optional_parameter" then some "pattern"
  else none

mutual

/-- The names that a pattern binds, from left to right. -/
def Node.boundNames (source : Source) : Node → List String
  | .mk label children =>
      if boundNameKinds.contains label.kind then [source.text label.start label.stop]
      else if compoundPatternKinds.contains label.kind then
        Node.boundNamesAmong source children
      else match wrappedPatternField? label.kind with
        | some field => Node.boundNamesIn source field children
        | none => []

/-- The names that the named nodes of a list bind. -/
def Node.boundNamesAmong (source : Source) : List Node → List String
  | [] => []
  | child :: rest =>
      (if child.named then child.boundNames source else []) ++ Node.boundNamesAmong source rest

/-- The names that the first node of a list in a field binds. -/
def Node.boundNamesIn (source : Source) (field : String) : List Node → List String
  | [] => []
  | child :: rest =>
      if child.label.field? == some field then child.boundNames source
      else Node.boundNamesIn source field rest

end

/-! ## Declarations -/

/-- How far a declaration reaches. -/
inductive Reach where
  /-- The scope at hand. -/
  | here
  /-- The nearest function, or the program. -/
  | hoisted
  /-- The program. -/
  | program
deriving DecidableEq, Repr

/-- A name, what declares it, and how far that reaches. -/
structure Declaration where
  /-- How far it reaches. -/
  reach : Reach
  /-- The name. -/
  name : String
  /-- What declares it. -/
  kind : String
deriving DecidableEq, Repr

/-- The declarations of some names that share kind and reach. -/
def Declaration.all (reach : Reach) (kind : String) (names : List String) : List Declaration :=
  names.map (⟨reach, ·, kind⟩)

namespace Node

/-- The declaration of the node's own name, if it has one that is an
identifier. -/
def ownName (source : Source) (kind : String) (n : Node) : List Declaration :=
  match n.child? "name" with
  | some name =>
      if name.kind = "identifier" ∨ name.kind = "type_identifier" then
        [⟨.here, source.textOf name, kind⟩]
      else []
  | none => []

/-- The names that the declarators of a variable statement bind. -/
def declaratorNames (source : Source) (n : Node) : List String :=
  n.namedChildren.flatMap fun declarator =>
    if declarator.kind = "variable_declarator" then
      match declarator.child? "name" with
      | some name => name.boundNames source
      | none => []
    else []

/-- The local name of one entry in an import list. -/
def importedName (source : Source) (entry : Node) : List String :=
  if entry.kind = "import_specifier" then
    match (entry.child? "alias").or (entry.child? "name") with
    | some name => if name.kind = "identifier" then [source.textOf name] else []
    | none => []
  else []

/-- The local names of one part of an import clause. -/
def importPartNames (source : Source) (part : Node) : List String :=
  if part.kind = "identifier" then [source.textOf part]
  else if part.kind = "namespace_import" then
    (part.namedChildren.filter (·.kind == "identifier")).map source.textOf
  else if part.kind = "named_imports" then
    part.namedChildren.flatMap (importedName source)
  else []

/-- The local names of an import. -/
def importNames (source : Source) (n : Node) : List String :=
  n.namedChildren.flatMap fun clause =>
    if clause.kind = "import_clause" ∨ clause.kind = "import_require_clause" then
      clause.namedChildren.flatMap (importPartNames source)
    else []

/-- The word that starts a declaration. -/
def keyword (source : Source) (default : String) (n : Node) : String :=
  match n.child? "kind" with
  | some word => source.textOf word
  | none => default

/-- What a node declares into the scope it stands in. -/
def outerDeclarations (source : Source) (n : Node) : List Declaration :=
  if n.kind = "variable_declaration" then
    Declaration.all .hoisted "var" (n.declaratorNames source)
  else if n.kind = "lexical_declaration" then
    Declaration.all .here (n.keyword source "let") (n.declaratorNames source)
  else if n.kind = "function_declaration" ∨ n.kind = "generator_function_declaration" then
    n.ownName source "function"
  else if n.kind = "class_declaration" ∨ n.kind = "abstract_class_declaration" then
    n.ownName source "class"
  else if n.kind = "import_statement" then
    Declaration.all .program "import" (n.importNames source)
  else if n.kind = "enum_declaration" ∨ n.kind = "internal_module" ∨ n.kind = "module" then
    n.ownName source "namespace"
  else []

/-- What the head of a loop over keys or values declares. -/
def loopDeclarations (source : Source) (n : Node) : List Declaration :=
  match n.child? "kind", n.child? "left" with
  | some word, some left =>
      let kind := source.textOf word
      Declaration.all (if kind = "var" then .hoisted else .here) kind (left.boundNames source)
  | _, _ => []

end Node

/-! ## Scopes that nodes open -/

/-- The kinds of nodes that open the scope of a function. -/
def functionKinds : List String :=
  ["function_declaration", "function_expression", "function", "generator_function_declaration",
    "generator_function", "arrow_function", "method_definition", "class_static_block"]

/-- The kinds of nodes that open the scope of a class. -/
def classKinds : List String :=
  ["class", "class_declaration", "abstract_class_declaration"]

/-- The kinds of nodes that open the scope of a block. -/
def blockKinds : List String :=
  ["statement_block", "for_statement", "for_in_statement", "catch_clause", "switch_body"]

namespace Node

/-- What a node with a parent of a kind declares into its own scope. -/
def innerDeclarations (source : Source) (parentKind : String) (n : Node) : List Declaration :=
  if n.kind = "function_expression" ∨ n.kind = "function" ∨ n.kind = "generator_function" ∨
      n.kind = "class" then
    n.ownName source "self"
  else if n.kind = "arrow_function" then
    match n.child? "parameter" with
    | some parameter => [⟨.here, source.textOf parameter, "param"⟩]
    | none => []
  else if n.kind = "formal_parameters" then
    if functionKinds.contains parentKind then
      Declaration.all .here "param" (n.namedChildren.flatMap (·.boundNames source))
    else []
  else if n.kind = "catch_clause" then
    match n.child? "parameter" with
    | some parameter => Declaration.all .here "catch" (parameter.boundNames source)
    | none => []
  else if n.kind = "for_in_statement" then n.loopDeclarations source
  else []

end Node

end ScriptLint
