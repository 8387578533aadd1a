import ScriptLint.Proofs.Syntax.Walk
import ScriptLint.Scope.Declaration

/-!
# Which node declares a name, and where

`Node.boundNames`, `Node.outerDeclarations` and `Node.innerDeclarations` compute
names.  This module says without computing what they should find.

* `Node.Binds` says that a pattern binds a name: one rule for each way of
  writing a pattern, nested as deep as it may be.
* `Site.Declares` says that a node declares a name in the scope that a certain
  site opens: one rule for each kind of declaration.  The site is the *target*.

A site *opens a scope* when it is the root, or a function, class, block, loop,
`catch` clause or `switch` body, except for a block that is the body of a
function (`Site.opensScope`).  A declaration with `var` belongs to the nearest
function above, or to the program (`Site.takesVar`).

`Site.declares_iff` says that the computed declarations are these, each with
its reach read as a site by `Reach.targetIn`.
-/

namespace ScriptLint

/-! ## Names in patterns -/

namespace Node

/-- The pattern `n` binds the name `x`. -/
inductive Binds (source : Source) (x : String) : Node → Prop where
  /-- An identifier binds its text, and so does a shorthand for a property. -/
  | name {n : Node} :
      n.kind ∈ ["identifier", "shorthand_property_identifier_pattern"] →
      source.textOf n = x → Binds source x n
  /-- Object, array and rest patterns bind what a named part of them binds. -/
  | part {n c : Node} :
      n.kind ∈ ["object_pattern", "array_pattern", "rest_pattern"] →
      c ∈ n.namedChildren → Binds source x c → Binds source x n
  /-- A property with a pattern binds what the pattern binds. -/
  | value {n c : Node} :
      n.kind = "pair_pattern" → n.child? "value" = some c → Binds source x c → Binds source x n
  /-- A pattern with a default binds what the pattern binds. -/
  | withDefault {n c : Node} :
      n.kind ∈ ["assignment_pattern", "object_assignment_pattern"] →
      n.child? "left" = some c → Binds source x c → Binds source x n
  /-- A parameter with a type binds what its pattern binds. -/
  | typed {n c : Node} :
      n.kind ∈ ["required_parameter", "optional_parameter"] →
      n.child? "pattern" = some c → Binds source x c → Binds source x n

/-- What the wrapped pattern binds is bound. -/
theorem Binds.wrapped {source : Source} {x field : String} {n c : Node}
    (hfield : wrappedPatternField? n.kind = some field) (hc : n.child? field = some c)
    (h : c.Binds source x) : n.Binds source x := by
  unfold wrappedPatternField? at hfield
  split at hfield
  · next hk =>
      cases hfield
      exact .value hk hc h
  · split at hfield
    · next hk =>
        cases hfield
        exact .withDefault (by simpa using hk) hc h
    · split at hfield
      · next hk =>
          cases hfield
          exact .typed (by simpa using hk) hc h
      · cases hfield

/-- A pattern that is neither a name nor compound binds what it wraps. -/
theorem Binds.exists_wrapped {source : Source} {x : String} {n : Node} (h : n.Binds source x)
    (hname : n.kind ∉ boundNameKinds) (hpart : n.kind ∉ compoundPatternKinds) :
    ∃ field c, wrappedPatternField? n.kind = some field ∧ n.child? field = some c ∧
      c.Binds source x := by
  cases h with
  | name hk _ => exact absurd hk hname
  | part hk _ _ => exact absurd hk hpart
  | value hk hc h => exact ⟨"value", _, by simp [wrappedPatternField?, hk], hc, h⟩
  | withDefault hk hc h =>
      refine ⟨"left", _, ?_, hc, h⟩
      simp only [List.mem_cons, List.not_mem_nil, or_false] at hk
      cases hk with
      | inl hk => simp [wrappedPatternField?, hk]
      | inr hk => simp [wrappedPatternField?, hk]
  | typed hk hc h =>
      refine ⟨"pattern", _, ?_, hc, h⟩
      simp only [List.mem_cons, List.not_mem_nil, or_false] at hk
      cases hk with
      | inl hk => simp [wrappedPatternField?, hk]
      | inr hk => simp [wrappedPatternField?, hk]

/-- A compound pattern binds no more than its parts do. -/
theorem Binds.exists_part {source : Source} {x : String} {n : Node} (h : n.Binds source x)
    (hpart : n.kind ∈ compoundPatternKinds) : ∃ c ∈ n.namedChildren, c.Binds source x := by
  cases h with
  | part _ hc h => exact ⟨_, hc, h⟩
  | name hk _ => simp [compoundPatternKinds] at hk hpart; grind
  | value hk _ _ => simp [compoundPatternKinds, hk] at hpart
  | withDefault hk _ _ => simp [compoundPatternKinds] at hk hpart; grind
  | typed hk _ _ => simp [compoundPatternKinds] at hk hpart; grind

/-- A name binds no more than its text. -/
theorem Binds.text_eq {source : Source} {x : String} {n : Node} (h : n.Binds source x)
    (hname : n.kind ∈ boundNameKinds) : source.textOf n = x := by
  cases h with
  | name _ htext => exact htext
  | part hk _ _ => simp [boundNameKinds] at hk hname; grind
  | value hk _ _ => simp [boundNameKinds, hk] at hname
  | withDefault hk _ _ => simp [boundNameKinds] at hk hname; grind
  | typed hk _ _ => simp [boundNameKinds] at hk hname; grind

mutual

/-- The names that are computed from a pattern are those that it binds. -/
theorem mem_boundNames (source : Source) (x : String) :
    ∀ n : Node, x ∈ n.boundNames source ↔ n.Binds source x
  | .mk label children => by
      have hkind : (Node.mk label children).kind = label.kind := rfl
      rw [boundNames]
      by_cases hname : boundNameKinds.contains label.kind = true
      · rw [if_pos hname, List.mem_singleton]
        have hmem : (Node.mk label children).kind ∈ boundNameKinds := by simpa [hkind] using hname
        exact ⟨fun h => .name hmem h.symm, fun h => (h.text_eq hmem).symm⟩
      · rw [if_neg hname]
        have hname' : (Node.mk label children).kind ∉ boundNameKinds := by simpa [hkind] using hname
        by_cases hpart : compoundPatternKinds.contains label.kind = true
        · rw [if_pos hpart, mem_boundNamesAmong source x children]
          have hmem : (Node.mk label children).kind ∈ compoundPatternKinds := by
            simpa [hkind] using hpart
          constructor
          · rintro ⟨c, hc, hnamed, h⟩
            exact .part hmem (List.mem_filter.2 ⟨hc, hnamed⟩) h
          · intro h
            obtain ⟨c, hc, h⟩ := h.exists_part hmem
            obtain ⟨hc, hnamed⟩ := List.mem_filter.1 hc
            exact ⟨c, hc, hnamed, h⟩
        · rw [if_neg hpart]
          have hpart' : (Node.mk label children).kind ∉ compoundPatternKinds := by
            simpa [hkind] using hpart
          constructor
          · intro h
            cases hfield : wrappedPatternField? label.kind with
            | none => simp [hfield] at h
            | some field =>
                rw [hfield] at h
                obtain ⟨c, hc, h⟩ := (mem_boundNamesIn source x field children).1 h
                exact h.wrapped (n := .mk label children) hfield hc
          · intro h
            obtain ⟨field, c, hfield, hc, h⟩ := h.exists_wrapped hname' hpart'
            rw [hkind] at hfield
            rw [hfield]
            exact (mem_boundNamesIn source x field children).2 ⟨c, hc, h⟩

theorem mem_boundNamesAmong (source : Source) (x : String) :
    ∀ l : List Node, x ∈ boundNamesAmong source l ↔
      ∃ c ∈ l, c.named = true ∧ c.Binds source x
  | [] => by simp [boundNamesAmong]
  | child :: rest => by
      have ih := mem_boundNamesAmong source x rest
      have hchild := mem_boundNames source x child
      rw [boundNamesAmong, List.mem_append, ih]
      by_cases hnamed : child.named = true
      · simp [hnamed, hchild]
      · simp [hnamed]

theorem mem_boundNamesIn (source : Source) (x field : String) :
    ∀ l : List Node, x ∈ boundNamesIn source field l ↔
      ∃ c, (l.find? fun c => c.label.field? == some field) = some c ∧ c.Binds source x
  | [] => by simp [boundNamesIn]
  | child :: rest => by
      have ih := mem_boundNamesIn source x field rest
      have hchild := mem_boundNames source x child
      rw [boundNamesIn]
      by_cases hfield : (child.label.field? == some field) = true
      · rw [if_pos hfield, hchild, List.find?_cons, hfield]
        simp
      · rw [if_neg hfield, ih, List.find?_cons, Bool.eq_false_iff.2 hfield]

end

/-! ## Names of statements -/

/-- A declarator of the statement `n` binds the name `x`. -/
def DeclaratorBinds (source : Source) (x : String) (n : Node) : Prop :=
  ∃ d ∈ n.namedChildren, d.kind = "variable_declarator" ∧
    ∃ pattern, d.child? "name" = some pattern ∧ pattern.Binds source x

/-- The node `n` has the name `x`. -/
def IsNamed (source : Source) (x : String) (n : Node) : Prop :=
  ∃ name, n.child? "name" = some name ∧ name.kind ∈ ["identifier", "type_identifier"] ∧
    source.textOf name = x

/-- The import `n` makes the name `x` available. -/
inductive Imports (source : Source) (x : String) (n : Node) : Prop where
  /-- A default import, or an import by `require`. -/
  | default (clause name : Node) :
      clause ∈ n.namedChildren → clause.kind ∈ ["import_clause", "import_require_clause"] →
      name ∈ clause.namedChildren → name.kind = "identifier" → source.textOf name = x →
      Imports source x n
  /-- A whole module under a name. -/
  | whole (clause part name : Node) :
      clause ∈ n.namedChildren → clause.kind ∈ ["import_clause", "import_require_clause"] →
      part ∈ clause.namedChildren → part.kind = "namespace_import" →
      name ∈ part.namedChildren → name.kind = "identifier" → source.textOf name = x →
      Imports source x n
  /-- One name out of a list, under its local name. -/
  | listed (clause part entry name : Node) :
      clause ∈ n.namedChildren → clause.kind ∈ ["import_clause", "import_require_clause"] →
      part ∈ clause.namedChildren → part.kind = "named_imports" →
      entry ∈ part.namedChildren → entry.kind = "import_specifier" →
      (entry.child? "alias").or (entry.child? "name") = some name →
      name.kind = "identifier" → source.textOf name = x → Imports source x n

theorem mem_declaratorNames {source : Source} {x : String} {n : Node} :
    x ∈ n.declaratorNames source ↔ n.DeclaratorBinds source x := by
  rw [declaratorNames, List.mem_flatMap]
  refine exists_congr fun d => and_congr_right fun _ => ?_
  by_cases hk : d.kind = "variable_declarator"
  · rw [if_pos hk]
    cases hname : d.child? "name" with
    | none => simp
    | some pattern => simp [hk, mem_boundNames]
  · simp [hk]

theorem mem_ownName {source : Source} {kind : String} {n : Node} {d : Declaration} :
    d ∈ n.ownName source kind ↔ ∃ x, n.IsNamed source x ∧ d = ⟨.here, x, kind⟩ := by
  unfold ownName IsNamed
  cases n.child? "name" with
  | none => simp
  | some name =>
      by_cases hk : name.kind = "identifier" ∨ name.kind = "type_identifier"
      · simp [hk]
      · simp [hk]

theorem mem_importPartNames {source : Source} {x : String} {n clause : Node}
    (hclause : clause ∈ n.namedChildren)
    (hkind : clause.kind ∈ ["import_clause", "import_require_clause"]) {part : Node}
    (hpart : part ∈ clause.namedChildren) (h : x ∈ part.importPartNames source) :
    n.Imports source x := by
  unfold importPartNames at h
  split at h
  · next hk =>
      rw [List.mem_singleton] at h
      exact .default clause part hclause hkind hpart hk h.symm
  · split at h
    · next hk =>
        obtain ⟨name, hname, htext⟩ := List.mem_map.1 h
        obtain ⟨hname, hk'⟩ := List.mem_filter.1 hname
        exact .whole clause part name hclause hkind hpart hk hname (by simpa using hk') htext
    · split at h
      · next hk =>
          obtain ⟨entry, hentry, h⟩ := List.mem_flatMap.1 h
          unfold importedName at h
          split at h
          · next hk' =>
              split at h
              · next name hname =>
                  split at h
                  · next hk'' =>
                      rw [List.mem_singleton] at h
                      exact .listed clause part entry name hclause hkind hpart hk hentry hk' hname
                        hk'' h.symm
                  · cases h
              · cases h
          · cases h
      · cases h

theorem mem_importNames {source : Source} {x : String} {n : Node} :
    x ∈ n.importNames source ↔ n.Imports source x := by
  rw [importNames, List.mem_flatMap]
  constructor
  · rintro ⟨clause, hclause, h⟩
    split at h
    · next hk =>
        obtain ⟨part, hpart, h⟩ := List.mem_flatMap.1 h
        exact mem_importPartNames hclause (by simpa using hk) hpart h
    · cases h
  · intro h
    have hclauses {clause : Node} (hk : clause.kind ∈ ["import_clause", "import_require_clause"]) :
        clause.kind = "import_clause" ∨ clause.kind = "import_require_clause" := by
      simpa using hk
    cases h with
    | default clause name hclause hk hname hk' htext =>
        refine ⟨clause, hclause, ?_⟩
        rw [if_pos (hclauses hk), List.mem_flatMap]
        exact ⟨name, hname, by simp [importPartNames, hk', htext]⟩
    | whole clause part name hclause hk hpart hk' hname hk'' htext =>
        refine ⟨clause, hclause, ?_⟩
        rw [if_pos (hclauses hk), List.mem_flatMap]
        refine ⟨part, hpart, ?_⟩
        simpa [importPartNames, hk'] using ⟨name, ⟨hname, hk''⟩, htext⟩
    | listed clause part entry name hclause hk hpart hk' hentry hk'' hname hk''' htext =>
        refine ⟨clause, hclause, ?_⟩
        rw [if_pos (hclauses hk), List.mem_flatMap]
        refine ⟨part, hpart, ?_⟩
        have hentryNames : x ∈ entry.importedName source := by
          simp [importedName, hk'', hname, hk''', htext]
        simpa [importPartNames, hk'] using ⟨entry, hentry, hentryNames⟩

end Node

/-! ## Targets -/

namespace Site

/-- Whether a site is the block that is the body of a function. -/
def isFunctionBody (s : Site) : Bool :=
  s.node.kind == "statement_block" && s.parent?.any (functionKinds.contains ·.kind)

/-- Whether a site opens a scope. -/
def opensScope (s : Site) : Bool :=
  s.frames.isEmpty ||
    ((functionKinds ++ classKinds ++ blockKinds).contains s.node.kind && !s.isFunctionBody)

/-- Whether a site opens a scope that declarations with `var` rise to. -/
def takesVar (s : Site) : Bool :=
  s.frames.isEmpty || functionKinds.contains s.node.kind

/-- The node at a site declares the name `x` in the scope that the second site
opens. -/
inductive Declares (source : Source) (x : String) : Site → Site → Prop where
  /-- A statement with `var` declares in the nearest function above. -/
  | var {s a : Site} :
      s.node.kind = "variable_declaration" → s.node.DeclaratorBinds source x →
      s.enclosing.find? takesVar = some a → Declares source x s a
  /-- A statement with `let` or `const` declares in the nearest scope above. -/
  | lexical {s a : Site} :
      s.node.kind = "lexical_declaration" → s.node.DeclaratorBinds source x →
      s.enclosing.find? opensScope = some a → Declares source x s a
  /-- Functions, classes, enumerations and namespaces declare their names in
  the nearest scope above. -/
  | named {s a : Site} :
      s.node.kind ∈ ["function_declaration", "generator_function_declaration",
        "class_declaration", "abstract_class_declaration",
        "enum_declaration", "internal_module", "module"] →
      s.node.IsNamed source x → s.enclosing.find? opensScope = some a → Declares source x s a
  /-- An import declares in the program. -/
  | imported {s a : Site} :
      s.node.kind = "import_statement" → s.node.Imports source x →
      s.enclosing.getLast? = some a → Declares source x s a
  /-- Function and class expressions declare their names in their own scopes. -/
  | own {s : Site} :
      s.node.kind ∈ ["function_expression", "function", "generator_function", "class"] →
      s.node.IsNamed source x → Declares source x s s
  /-- A parameter without parentheses is declared in the scope of its function. -/
  | bareParameter {s : Site} {n : Node} :
      s.node.kind = "arrow_function" → s.node.child? "parameter" = some n →
      source.textOf n = x → Declares source x s s
  /-- Other parameters are declared in the scope of the function above. -/
  | parameter {s a : Site} {n : Node} :
      s.node.kind = "formal_parameters" → s.enclosing.head? = some a →
      a.node.kind ∈ functionKinds → n ∈ s.node.namedChildren → n.Binds source x →
      Declares source x s a
  /-- A caught value is declared in the scope of the clause. -/
  | caught {s : Site} {n : Node} :
      s.node.kind = "catch_clause" → s.node.child? "parameter" = some n → n.Binds source x →
      Declares source x s s
  /-- The head of a loop with `var` declares in the nearest function above. -/
  | loopVar {s a : Site} {word n : Node} :
      s.node.kind = "for_in_statement" → s.node.child? "kind" = some word →
      source.textOf word = "var" → s.node.child? "left" = some n → n.Binds source x →
      s.enclosing.find? takesVar = some a → Declares source x s a
  /-- The head of a loop with another word declares in the scope of the loop. -/
  | loopLexical {s : Site} {word n : Node} :
      s.node.kind = "for_in_statement" → s.node.child? "kind" = some word →
      source.textOf word ≠ "var" → s.node.child? "left" = some n → n.Binds source x →
      Declares source x s s

/-- The target of a declaration is the site itself or above it. -/
theorem Declares.target_mem {source : Source} {x : String} {s a : Site}
    (h : s.Declares source x a) :
    a ∈ s :: s.enclosing := by
  rw [List.mem_cons]
  cases h with
  | var _ _ ha => exact Or.inr (List.mem_of_find?_eq_some ha)
  | lexical _ _ ha => exact Or.inr (List.mem_of_find?_eq_some ha)
  | named _ _ ha => exact Or.inr (List.mem_of_find?_eq_some ha)
  | imported _ _ ha => exact Or.inr (List.mem_of_getLast? ha)
  | own => exact Or.inl rfl
  | bareParameter => exact Or.inl rfl
  | parameter _ ha => exact Or.inr (List.mem_of_head? ha)
  | caught => exact Or.inl rfl
  | loopVar _ _ _ _ _ ha => exact Or.inr (List.mem_of_find?_eq_some ha)
  | loopLexical => exact Or.inl rfl

/-- The kind of the parent, and nothing for the root. -/
def parentKind (s : Site) : String :=
  s.parentKind?.getD ""

end Site

/-- The site whose scope a declaration reaches, out of those around it. -/
def Reach.targetIn : Reach → List Site → Option Site
  | .here, around => around.find? Site.opensScope
  | .hoisted, around => around.find? Site.takesVar
  | .program, around => around.getLast?

namespace Site

/-- A node of a kind that opens scopes opens one, if it is not a block. -/
theorem opensScope_of_kind {s : Site}
    (h : s.node.kind ∈ functionKinds ++ classKinds ++ blockKinds)
    (hne : s.node.kind ≠ "statement_block") : s.opensScope = true := by
  have hbody : s.isFunctionBody = false := by simp [isFunctionBody, hne]
  simp only [opensScope, hbody, Bool.not_false, Bool.and_true, Bool.or_eq_true]
  exact Or.inr (List.contains_iff_mem.2 h)

/-- A function opens a scope. -/
theorem opensScope_of_mem_functionKinds {s : Site} (h : s.node.kind ∈ functionKinds) :
    s.opensScope = true := by
  refine opensScope_of_kind (by simp [h]) fun he => ?_
  simp [he, functionKinds] at h

/-- A declaration into the scope that a site opens is there and not above. -/
theorem targetIn_here_self {s : Site} (h : s.opensScope = true) (l : List Site) :
    Reach.here.targetIn (s :: l) = some s :=
  List.find?_cons_of_pos h

theorem targetIn_here_above {s : Site} (h : s.opensScope = false) (l : List Site) :
    Reach.here.targetIn (s :: l) = Reach.here.targetIn l :=
  List.find?_cons_of_neg (by simp [h])

theorem targetIn_hoisted_above {s : Site} (h : s.takesVar = false) (l : List Site) :
    Reach.hoisted.targetIn (s :: l) = Reach.hoisted.targetIn l :=
  List.find?_cons_of_neg (by simp [h])

/-- The parent of a site below the root comes first among the sites above it. -/
theorem enclosing_of_frames {s : Site} {frame : Frame} {frames : List Frame}
    (h : s.frames = frame :: frames) : s.enclosing = ⟨frame.parent, frames⟩ :: above frames := by
  rw [enclosing, h]
  rfl

theorem parentKind_of_frames {s : Site} {frame : Frame} {frames : List Frame}
    (h : s.frames = frame :: frames) : s.parentKind = frame.parent.kind := by
  rw [parentKind, parentKind?, parent?, h]
  rfl

/-- Parameters are declared in the scope of the function that they are of. -/
theorem targetIn_parameters {s a : Site} (hs : s.frames ≠ [])
    (hk : s.node.kind = "formal_parameters") (hfun : a.node.kind ∈ functionKinds)
    (ha : s.enclosing.head? = some a) :
    Reach.here.targetIn (s :: s.enclosing) = some a := by
  have hself : s.opensScope = false := by
    simp [opensScope, hs, hk, functionKinds, classKinds, blockKinds]
  obtain ⟨l, hl⟩ := List.head?_eq_some_iff.1 ha
  rw [targetIn_here_above hself, hl, targetIn_here_self (opensScope_of_mem_functionKinds hfun)]

/-- What rises from the head of a loop rises past the loop. -/
theorem targetIn_loop {s : Site} (hs : s.frames ≠ []) (hk : s.node.kind = "for_in_statement") :
    Reach.hoisted.targetIn (s :: s.enclosing) = s.enclosing.find? takesVar :=
  targetIn_hoisted_above (by simp [takesVar, hs, hk, functionKinds]) _

/-- Clauses and loops open scopes. -/
theorem opensScope_of_mem_blockKinds {s : Site} (h : s.node.kind ∈ blockKinds)
    (hne : s.node.kind ≠ "statement_block") : s.opensScope = true :=
  opensScope_of_kind (by simp [h]) hne

/-- Expressions with names of their own open scopes. -/
theorem opensScope_of_own {s : Site}
    (h : s.node.kind ∈ ["function_expression", "function", "generator_function", "class"]) :
    s.opensScope = true := by
  simp only [List.mem_cons, List.not_mem_nil, or_false] at h
  refine opensScope_of_kind ?_ ?_ <;>
    rcases h with h | h | h | h <;> simp [h, functionKinds, classKinds]

end Site

/-! ## What is computed -/

theorem Declaration.of_mem_all {reach : Reach} {kind : String} {names : List String}
    {d : Declaration} (h : d ∈ Declaration.all reach kind names) :
    d.reach = reach ∧ d.name ∈ names := by
  obtain ⟨x, hx, rfl⟩ := List.mem_map.1 h
  exact ⟨rfl, hx⟩

theorem Declaration.mem_all {reach : Reach} {kind x : String} {names : List String}
    (h : x ∈ names) : (⟨reach, x, kind⟩ : Declaration) ∈ Declaration.all reach kind names :=
  List.mem_map_of_mem h

namespace Site

/-- What is computed from a node outside its scope are its declarations there. -/
theorem declares_of_mem_outerDeclarations {source : Source} {s a : Site} {d : Declaration}
    (hd : d ∈ s.node.outerDeclarations source) (ha : d.reach.targetIn s.enclosing = some a) :
    s.Declares source d.name a := by
  unfold Node.outerDeclarations at hd
  split at hd
  · next hk =>
      obtain ⟨hreach, hname⟩ := Declaration.of_mem_all hd
      rw [hreach] at ha
      exact .var hk (Node.mem_declaratorNames.1 hname) ha
  · split at hd
    · next hk =>
        obtain ⟨hreach, hname⟩ := Declaration.of_mem_all hd
        rw [hreach] at ha
        exact .lexical hk (Node.mem_declaratorNames.1 hname) ha
    · split at hd
      · next hk =>
          obtain ⟨x, hx, rfl⟩ := Node.mem_ownName.1 hd
          exact .named (by rcases hk with hk | hk <;> simp [hk]) hx ha
      · split at hd
        · next hk =>
            obtain ⟨x, hx, rfl⟩ := Node.mem_ownName.1 hd
            exact .named (by rcases hk with hk | hk <;> simp [hk]) hx ha
        · split at hd
          · next hk =>
              obtain ⟨hreach, hname⟩ := Declaration.of_mem_all hd
              rw [hreach] at ha
              exact .imported hk (Node.mem_importNames.1 hname) ha
          · split at hd
            · next hk =>
                obtain ⟨x, hx, rfl⟩ := Node.mem_ownName.1 hd
                exact .named (by rcases hk with hk | hk | hk <;> simp [hk]) hx ha
            · cases hd

/-- What is computed from the head of a loop are its declarations. -/
theorem declares_of_mem_loopDeclarations {source : Source} {s a : Site} {d : Declaration}
    (hs : s.frames ≠ []) (hk : s.node.kind = "for_in_statement")
    (hd : d ∈ s.node.loopDeclarations source)
    (ha : d.reach.targetIn (s :: s.enclosing) = some a) : s.Declares source d.name a := by
  unfold Node.loopDeclarations at hd
  split at hd
  · next word n hword hn =>
      obtain ⟨hreach, hname⟩ := Declaration.of_mem_all hd
      have hbinds := (Node.mem_boundNames ..).1 hname
      split at hreach
      · next hvar =>
          rw [hreach, targetIn_loop hs hk] at ha
          exact .loopVar hk hword hvar hn hbinds ha
      · next hvar =>
          have hopens := opensScope_of_mem_blockKinds (s := s) (by simp [hk, blockKinds])
            (by simp [hk])
          rw [hreach, targetIn_here_self hopens, Option.some.injEq] at ha
          exact ha ▸ .loopLexical hk hword hvar hn hbinds
  · cases hd

/-- What is computed from parameters are their declarations. -/
theorem declares_of_mem_parameters {source : Source} {s a : Site} {d : Declaration}
    (hs : s.frames ≠ []) (hk : s.node.kind = "formal_parameters")
    (hparent : s.parentKind ∈ functionKinds)
    (hd : d ∈ Declaration.all .here "param"
      (s.node.namedChildren.flatMap (·.boundNames source)))
    (ha : d.reach.targetIn (s :: s.enclosing) = some a) : s.Declares source d.name a := by
  obtain ⟨hreach, hname⟩ := Declaration.of_mem_all hd
  obtain ⟨n, hn, hx⟩ := List.mem_flatMap.1 hname
  obtain ⟨frame, frames, hcons⟩ := List.exists_cons_of_ne_nil hs
  have hfun : frame.parent.kind ∈ functionKinds := parentKind_of_frames hcons ▸ hparent
  have hhead : s.enclosing.head? = some ⟨frame.parent, frames⟩ := by
    rw [enclosing_of_frames hcons]
    rfl
  rw [hreach, targetIn_parameters hs hk hfun hhead, Option.some.injEq] at ha
  exact ha ▸ .parameter hk hhead hfun hn ((Node.mem_boundNames ..).1 hx)

/-- What is computed from a node inside its scope are its declarations there. -/
theorem declares_of_mem_innerDeclarations {source : Source} {s a : Site} {d : Declaration}
    (hs : s.frames ≠ []) (hd : d ∈ s.node.innerDeclarations source s.parentKind)
    (ha : d.reach.targetIn (s :: s.enclosing) = some a) : s.Declares source d.name a := by
  have hself (hreach : d.reach = .here) (hopens : s.opensScope = true) : s = a := by
    rw [hreach, targetIn_here_self hopens, Option.some.injEq] at ha
    exact ha
  unfold Node.innerDeclarations at hd
  split at hd
  · next hk =>
      obtain ⟨x, hx, rfl⟩ := Node.mem_ownName.1 hd
      have hk' : s.node.kind ∈
          ["function_expression", "function", "generator_function", "class"] := by simpa using hk
      exact hself rfl (opensScope_of_own hk') ▸ .own hk' hx
  · split at hd
    · next hk =>
        split at hd
        · next n hn =>
            rw [List.mem_singleton] at hd
            have hopens := opensScope_of_mem_functionKinds (s := s) (by simp [hk, functionKinds])
            exact hself (by rw [hd]) hopens ▸ .bareParameter hk hn (by rw [hd])
        · cases hd
    · split at hd
      · next hk =>
          split at hd
          · next hparent =>
              exact declares_of_mem_parameters hs hk (List.contains_iff_mem.1 hparent) hd ha
          · cases hd
      · split at hd
        · next hk =>
            split at hd
            · next n hn =>
                obtain ⟨hreach, hname⟩ := Declaration.of_mem_all hd
                have hopens := opensScope_of_mem_blockKinds (s := s) (by simp [hk, blockKinds])
                  (by simp [hk])
                exact hself hreach hopens ▸ .caught hk hn ((Node.mem_boundNames ..).1 hname)
            · cases hd
        · split at hd
          · next hk => exact declares_of_mem_loopDeclarations hs hk hd ha
          · cases hd

/-- What a node computes for a name that it has. -/
theorem mem_ownName_of_isNamed {source : Source} {x kind : String} {n : Node}
    (h : n.IsNamed source x) : (⟨.here, x, kind⟩ : Declaration) ∈ n.ownName source kind :=
  Node.mem_ownName.2 ⟨x, h, rfl⟩

/-- A declaration at a site below the root is computed from its node. -/
theorem Declares.exists_mem {source : Source} {x : String} {s a : Site}
    (h : s.Declares source x a) (hs : s.frames ≠ []) :
    (∃ d ∈ s.node.outerDeclarations source,
      d.name = x ∧ d.reach.targetIn s.enclosing = some a) ∨
    (∃ d ∈ s.node.innerDeclarations source s.parentKind,
      d.name = x ∧ d.reach.targetIn (s :: s.enclosing) = some a) := by
  cases h with
  | var hk hx ha =>
      refine Or.inl ⟨⟨.hoisted, x, "var"⟩, ?_, rfl, ha⟩
      rw [Node.outerDeclarations, if_pos hk]
      exact Declaration.mem_all (Node.mem_declaratorNames.2 hx)
  | lexical hk hx ha =>
      refine Or.inl ⟨⟨.here, x, s.node.keyword source "let"⟩, ?_, rfl, ha⟩
      simp only [Node.outerDeclarations, hk]
      exact Declaration.mem_all (Node.mem_declaratorNames.2 hx)
  | named hk hx ha =>
      have hmem : ∃ kind, (⟨.here, x, kind⟩ : Declaration) ∈ s.node.outerDeclarations source := by
        simp only [List.mem_cons, List.not_mem_nil, or_false] at hk
        rcases hk with hk | hk | hk | hk | hk | hk | hk <;>
          exact ⟨_, by simpa [Node.outerDeclarations, hk] using mem_ownName_of_isNamed hx⟩
      obtain ⟨kind, hmem⟩ := hmem
      exact Or.inl ⟨_, hmem, rfl, ha⟩
  | imported hk hx ha =>
      refine Or.inl ⟨⟨.program, x, "import"⟩, ?_, rfl, ha⟩
      simp only [Node.outerDeclarations, hk]
      exact Declaration.mem_all (Node.mem_importNames.2 hx)
  | own hk hx =>
      refine Or.inr ⟨⟨.here, x, "self"⟩, ?_, rfl, targetIn_here_self (opensScope_of_own hk) _⟩
      simp only [List.mem_cons, List.not_mem_nil, or_false] at hk
      rw [Node.innerDeclarations, if_pos hk]
      exact mem_ownName_of_isNamed hx
  | bareParameter hk hn hx =>
      have hopens := opensScope_of_mem_functionKinds (s := s) (by simp [hk, functionKinds])
      refine Or.inr ⟨⟨.here, x, "param"⟩, ?_, rfl, targetIn_here_self hopens _⟩
      simp [Node.innerDeclarations, hk, hn, hx]
  | parameter hk ha hfun hn hx =>
      have hpk : functionKinds.contains s.parentKind = true := by
        obtain ⟨frame, frames, hcons⟩ := List.exists_cons_of_ne_nil hs
        rw [enclosing_of_frames hcons, List.head?_cons, Option.some.injEq] at ha
        rw [← ha] at hfun
        rw [parentKind_of_frames hcons]
        exact List.contains_iff_mem.2 hfun
      refine Or.inr ⟨⟨.here, x, "param"⟩, ?_, rfl, targetIn_parameters hs hk hfun ha⟩
      simp only [Node.innerDeclarations, hk, hpk]
      exact Declaration.mem_all (List.mem_flatMap.2 ⟨_, hn, (Node.mem_boundNames ..).2 hx⟩)
  | caught hk hn hx =>
      have hopens := opensScope_of_mem_blockKinds (s := s) (by simp [hk, blockKinds]) (by simp [hk])
      refine Or.inr ⟨⟨.here, x, "catch"⟩, ?_, rfl, targetIn_here_self hopens _⟩
      simp only [Node.innerDeclarations, hk, hn]
      exact Declaration.mem_all ((Node.mem_boundNames ..).2 hx)
  | loopVar hk hword hvar hn hx ha =>
      refine Or.inr ⟨⟨.hoisted, x, "var"⟩, ?_, rfl, (targetIn_loop hs hk).trans ha⟩
      simp only [Node.innerDeclarations, Node.loopDeclarations, hk, hword, hn, hvar]
      exact Declaration.mem_all ((Node.mem_boundNames ..).2 hx)
  | @loopLexical word n hk hword hvar hn hx =>
      have hopens := opensScope_of_mem_blockKinds (s := s) (by simp [hk, blockKinds]) (by simp [hk])
      refine Or.inr ⟨⟨.here, x, source.textOf word⟩, ?_, rfl, targetIn_here_self hopens _⟩
      simp only [Node.innerDeclarations, Node.loopDeclarations, hk, hword, hn, if_neg hvar]
      exact Declaration.mem_all ((Node.mem_boundNames ..).2 hx)

/-- The computed declarations of a site below the root are its declarations. -/
theorem declares_iff {source : Source} {x : String} {s a : Site} (hs : s.frames ≠ []) :
    s.Declares source x a ↔
      (∃ d ∈ s.node.outerDeclarations source,
        d.name = x ∧ d.reach.targetIn s.enclosing = some a) ∨
      (∃ d ∈ s.node.innerDeclarations source s.parentKind,
        d.name = x ∧ d.reach.targetIn (s :: s.enclosing) = some a) := by
  refine ⟨fun h => h.exists_mem hs, ?_⟩
  rintro (⟨d, hd, rfl, ha⟩ | ⟨d, hd, rfl, ha⟩)
  · exact declares_of_mem_outerDeclarations hd ha
  · exact declares_of_mem_innerDeclarations hs hd ha

end Site

end ScriptLint
