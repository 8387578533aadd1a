import Mathlib.Data.List.Flatten
import Mathlib.Tactic.MkIffOfInductiveProp
import ScriptLint.Proofs.Scope.Binding

/-!
# Where declared names stand

A node that declares names has a place for each of them below it, the identifier that the name
is the text of.  `Site.BindsAt` says which places a pattern has, and `Site.DeclaresAt` which ones
a declaring node has.

The computed names are the texts of these places in the order of the tree
(`Site.spread_declaredNames`).  `Spread` is what is shown of a list of names on the way there,
and it is put together as the computation is: from the named children of a node
(`Spread.namedChildren`) or from the child in a field (`Spread.child?`).

All names that a node declares share their kind (`Site.declarationKind`) and the scope that they
reach (`Site.aim`).
-/

namespace ScriptLint

namespace Site

/-! ## Subtrees -/

/-- The sites of the subtree at a site, in preorder. -/
def subtree (s : Site) : List Site :=
  s.node.walkFrom (fun _ _ => true) s.frames

/-- A subtree is its root and the subtrees of the children. -/
theorem subtree_eq (s : Site) : s.subtree = s :: s.children.flatMap subtree := by
  rw [subtree, Node.walkFrom_eq, List.filter_true]
  rfl

theorem sizeOf_lt_of_mem_children {s c : Site} (h : c ∈ s.children) :
    sizeOf c.node < sizeOf s.node := by
  have hmem := node_mem_of_mem_children h
  obtain ⟨⟨label, children⟩, frames⟩ := s
  have hlt := List.sizeOf_lt_of_mem hmem
  change sizeOf c.node < sizeOf (Node.mk label children)
  rw [Node.mk.sizeOf_spec]
  change sizeOf c.node < sizeOf children at hlt
  omega

/-! ## Places -/

/-- The pattern at a site binds a name at a place. -/
@[mk_iff]
inductive BindsAt : Site → Site → Prop where
  /-- A bound name stands for itself. -/
  | name {n : Site} : n.node.kind ∈ boundNameKinds → BindsAt n n
  /-- Object, array and rest patterns bind what a named part of them binds. -/
  | part {n c i : Site} :
      n.node.kind ∈ compoundPatternKinds → c ∈ n.namedChildren → BindsAt c i → BindsAt n i
  /-- A pattern that wraps another one binds what that binds. -/
  | wrapped {n c i : Site} {field : String} :
      wrappedPatternField? n.node.kind = some field → n.child? field = some c → BindsAt c i →
      BindsAt n i

/-- A declarator of the statement at a site binds a name at a place. -/
def DeclaratorBindsAt (s i : Site) : Prop :=
  ∃ d ∈ s.namedChildren, d.node.kind = "variable_declarator" ∧
    ∃ pattern, d.child? "name" = some pattern ∧ pattern.BindsAt i

/-- The node at a site has its name at a place. -/
def NamedAt (s i : Site) : Prop :=
  s.child? "name" = some i ∧ i.node.kind ∈ ["identifier", "type_identifier"]

/-- A part of an import clause makes a name available at a place. -/
@[mk_iff]
inductive ImportsAt (part : Site) : Site → Prop where
  /-- A default import, or an import by `require`. -/
  | default : part.node.kind = "identifier" → ImportsAt part part
  /-- A whole module under a name. -/
  | whole {i : Site} :
      part.node.kind = "namespace_import" → i ∈ part.namedChildren →
      i.node.kind = "identifier" → ImportsAt part i
  /-- One name out of a list, under its local name. -/
  | listed {entry i : Site} :
      part.node.kind = "named_imports" → entry ∈ part.namedChildren →
      entry.node.kind = "import_specifier" →
      (entry.child? "alias").or (entry.child? "name") = some i → i.node.kind = "identifier" →
      ImportsAt part i

/-- The node at a site declares a name at a place, in the scope that it stands in. -/
@[mk_iff]
inductive DeclaresOutsideAt (s : Site) : Site → Prop where
  /-- A statement with `var`, `let` or `const`. -/
  | declarator {i : Site} :
      s.node.kind ∈ ["variable_declaration", "lexical_declaration"] → s.DeclaratorBindsAt i →
      DeclaresOutsideAt s i
  /-- A function, class, enumeration or namespace. -/
  | named {i : Site} :
      s.node.kind ∈ ["function_declaration", "generator_function_declaration",
        "class_declaration", "abstract_class_declaration",
        "enum_declaration", "internal_module", "module"] →
      s.NamedAt i → DeclaresOutsideAt s i
  /-- An import. -/
  | imported {clause part i : Site} :
      s.node.kind = "import_statement" → clause ∈ s.namedChildren →
      clause.node.kind ∈ ["import_clause", "import_require_clause"] →
      part ∈ clause.namedChildren → part.ImportsAt i → DeclaresOutsideAt s i

/-- The node at a site declares a name at a place, in the scope that it opens or that is open
around a parameter list. -/
@[mk_iff]
inductive DeclaresInsideAt (s : Site) : Site → Prop where
  /-- A function or class expression with a name. -/
  | named {i : Site} :
      s.node.kind ∈ ["function_expression", "function", "generator_function", "class"] →
      s.NamedAt i → DeclaresInsideAt s i
  /-- A parameter without parentheses. -/
  | bareParameter {i : Site} :
      s.node.kind = "arrow_function" → s.child? "parameter" = some i → DeclaresInsideAt s i
  /-- The parameters of a function. -/
  | parameter {c i : Site} :
      s.node.kind = "formal_parameters" → s.parentKind ∈ functionKinds → c ∈ s.namedChildren →
      c.BindsAt i → DeclaresInsideAt s i
  /-- A caught value. -/
  | caught {c i : Site} :
      s.node.kind = "catch_clause" → s.child? "parameter" = some c → c.BindsAt i →
      DeclaresInsideAt s i
  /-- The head of a loop over keys or values that has a word for the declaration. -/
  | loop {word c i : Site} :
      s.node.kind = "for_in_statement" → s.child? "kind" = some word →
      s.child? "left" = some c → c.BindsAt i → DeclaresInsideAt s i

/-- The node at a site declares a name at a place. -/
def DeclaresAt (s i : Site) : Prop :=
  s.DeclaresOutsideAt i ∨ s.DeclaresInsideAt i

end Site

/-! ## Names in the order of their places -/

/-- The names are the texts of the places that `P` says, in the order of `sites`. -/
def Spread (source : Source) (names : List String) (sites : List Site) (P : Site → Prop) : Prop :=
  ∃ places : List Site, (places.map fun i => source.textOf i.node) = names ∧
    places.Sublist sites ∧ ∀ i, i ∈ places ↔ P i

namespace Spread

variable {source : Source} {names names' : List String} {sites sites' : List Site}
  {P P' : Site → Prop}

theorem empty (h : ∀ i, ¬ P i) : Spread source [] sites P :=
  ⟨[], rfl, List.nil_sublist _, fun i => by simp [h i]⟩

theorem single {i : Site} (h : i ∈ sites) :
    Spread source [source.textOf i.node] sites (· = i) :=
  ⟨[i], rfl, List.singleton_sublist.2 h, fun j => by simp⟩

theorem congr (h : Spread source names sites P) (hP : ∀ i, P i ↔ P' i) :
    Spread source names sites P' := by
  obtain ⟨places, hnames, horder, hmem⟩ := h
  exact ⟨places, hnames, horder, fun i => (hmem i).trans (hP i)⟩

theorem sublist (h : Spread source names sites P) (hsites : sites.Sublist sites') :
    Spread source names sites' P := by
  obtain ⟨places, hnames, horder, hmem⟩ := h
  exact ⟨places, hnames, horder.trans hsites, hmem⟩

/-- Names in one stretch and names in the next. -/
theorem append (h : Spread source names sites P) (h' : Spread source names' sites' P') :
    Spread source (names ++ names') (sites ++ sites') fun i => P i ∨ P' i := by
  obtain ⟨places, hnames, horder, hmem⟩ := h
  obtain ⟨places', hnames', horder', hmem'⟩ := h'
  exact ⟨places ++ places', by rw [List.map_append, hnames, hnames'], horder.append horder',
    fun i => by rw [List.mem_append, hmem, hmem']⟩

/-- Where there are no names there is no place. -/
theorem not_of_nil (h : Spread source [] sites P) (i : Site) : ¬ P i := by
  obtain ⟨places, hnames, -, hmem⟩ := h
  rw [List.map_eq_nil_iff] at hnames
  rw [← hmem, hnames]
  exact List.not_mem_nil

/-- Names under a condition. -/
theorem guard (c : Prop) [Decidable c] (h : c → Spread source names sites P) :
    Spread source (if c then names else []) sites fun i => c ∧ P i := by
  by_cases hc : c
  · rw [if_pos hc]
    exact (h hc).congr fun i => (and_iff_right hc).symm
  · rw [if_neg hc]
    exact empty fun i hi => hc hi.1

/-- Names one node after another. -/
theorem flatMap {f : Node → List String} {B : Site → Site → Prop} {l : List Site}
    (h : ∀ c ∈ l, Spread source (f c.node) c.subtree (B c)) :
    Spread source ((l.map Site.node).flatMap f) (l.flatMap Site.subtree)
      fun i => ∃ c ∈ l, B c i := by
  induction l with
  | nil => exact empty fun i hi => by simp at hi
  | cons c l ih =>
      rw [List.forall_mem_cons] at h
      exact ((h.1).append (ih h.2)).congr fun i => by simp

end Spread

namespace Site

theorem mem_children_of_mem_namedChildren {s c : Site} (h : c ∈ s.namedChildren) :
    c ∈ s.children :=
  List.mem_of_mem_filter h

theorem subtree_sublist_of_mem_children {s c : Site} (h : c ∈ s.children) :
    c.subtree.Sublist s.subtree := by
  have hmem : c.subtree ∈ s.children.map subtree := List.mem_map_of_mem h
  rw [subtree_eq s, List.flatMap_def]
  exact (List.sublist_flatten_of_mem hmem).trans (List.sublist_cons_self ..)

theorem self_mem_subtree (s : Site) : s ∈ s.subtree := by
  rw [subtree_eq]
  exact List.mem_cons_self ..

end Site

namespace Spread

variable {source : Source} {f : Node → List String} {B : Site → Site → Prop} {s : Site}

/-- Names from the named children. -/
theorem namedChildren (h : ∀ c ∈ s.namedChildren, Spread source (f c.node) c.subtree (B c)) :
    Spread source (s.node.namedChildren.flatMap f) s.subtree
      fun i => ∃ c ∈ s.namedChildren, B c i := by
  rw [← Site.map_node_namedChildren, Site.subtree_eq]
  have hsublist : (s.namedChildren.flatMap Site.subtree).Sublist
      (s.children.flatMap Site.subtree) :=
    List.filter_sublist.flatMap _
  exact (flatMap h).sublist (hsublist.trans (List.sublist_cons_self ..))

/-- Names from a child, if there is one. -/
theorem optional {c? : Option Site} (hmem : ∀ c, c? = some c → c ∈ s.children)
    (h : ∀ c, c? = some c → Spread source (f c.node) c.subtree (B c)) :
    Spread source (match c?.map Site.node with | some n => f n | none => []) s.subtree
      fun i => ∃ c, c? = some c ∧ B c i := by
  cases c? with
  | none => exact empty fun i hi => by simp at hi
  | some c =>
      have hsublist := Site.subtree_sublist_of_mem_children (hmem c rfl)
      exact ((h c rfl).sublist hsublist).congr fun i => by simp

/-- Names from the child in a field. -/
theorem child? (field : String)
    (h : ∀ c, s.child? field = some c → Spread source (f c.node) c.subtree (B c)) :
    Spread source (match s.node.child? field with | some n => f n | none => []) s.subtree
      fun i => ∃ c, s.child? field = some c ∧ B c i := by
  rw [← Site.map_node_child?]
  exact optional (fun c hc => Site.mem_children_of_child? hc) h

/-- Names of declarations from the child in a field. -/
theorem declared {f : Node → List Declaration} (field : String)
    (h : ∀ c, s.child? field = some c →
      Spread source ((f c.node).map Declaration.name) c.subtree (B c)) :
    Spread source
      ((match s.node.child? field with | some n => f n | none => []).map Declaration.name)
      s.subtree fun i => ∃ c, s.child? field = some c ∧ B c i := by
  have hnames := child? (f := fun n => (f n).map Declaration.name) field h
  cases hc : s.node.child? field with
  | none =>
      rw [hc] at hnames
      exact hnames
  | some n =>
      rw [hc] at hnames
      exact hnames

end Spread

/-! ## Patterns -/

namespace Node

theorem boundNamesAmong_eq (source : Source) (l : List Node) :
    boundNamesAmong source l = (l.filter Node.named).flatMap (boundNames source) := by
  induction l with
  | nil => rw [boundNamesAmong]; rfl
  | cons child rest ih =>
      rw [boundNamesAmong, ih]
      cases hnamed : child.named with
      | true => simp [hnamed]
      | false => simp [hnamed]

theorem boundNamesIn_eq (source : Source) (field : String) (l : List Node) :
    boundNamesIn source field l =
      match l.find? fun c => c.label.field? == some field with
      | some c => c.boundNames source
      | none => [] := by
  induction l with
  | nil => rw [boundNamesIn]; rfl
  | cons child rest ih =>
      rw [boundNamesIn, ih, List.find?_cons]
      cases child.label.field? == some field with
      | true => rfl
      | false => rfl

/-- The names of a pattern, from those of its parts. -/
theorem boundNames_eq (source : Source) (n : Node) :
    n.boundNames source =
      if boundNameKinds.contains n.kind then [source.textOf n]
      else if compoundPatternKinds.contains n.kind then
        n.namedChildren.flatMap (boundNames source)
      else match wrappedPatternField? n.kind with
        | some field => match n.child? field with
          | some c => c.boundNames source
          | none => []
        | none => [] := by
  obtain ⟨label, children⟩ := n
  rw [boundNames, boundNamesAmong_eq]
  simp only [boundNamesIn_eq]
  rfl

end Node

theorem wrappedPatternField?_eq_none {kind : String}
    (h : kind ∈ boundNameKinds ++ compoundPatternKinds) : wrappedPatternField? kind = none := by
  have hall : ∀ kind ∈ boundNameKinds ++ compoundPatternKinds, wrappedPatternField? kind = none := by
    decide
  exact hall kind h

theorem notMem_boundNameKinds {kind : String} (h : kind ∈ compoundPatternKinds) :
    kind ∉ boundNameKinds := by
  have hall : ∀ kind ∈ compoundPatternKinds, kind ∉ boundNameKinds := by decide
  exact hall kind h

/-- The names that a pattern binds are the texts of its places, in the order of the tree. -/
theorem Site.spread_boundNames (source : Source) (s : Site) :
    Spread source (s.node.boundNames source) s.subtree s.BindsAt := by
  have hchild (c : Site) (hc : c ∈ s.children) :
      Spread source (c.node.boundNames source) c.subtree c.BindsAt :=
    have := sizeOf_lt_of_mem_children hc
    c.spread_boundNames source
  rw [Node.boundNames_eq]
  by_cases hname : s.node.kind ∈ boundNameKinds
  · have hfield := wrappedPatternField?_eq_none (List.mem_append_left _ hname)
    rw [if_pos (List.contains_iff_mem.2 hname)]
    refine (Spread.single s.self_mem_subtree).congr fun i => ?_
    rw [bindsAt_iff]
    constructor
    · rintro rfl
      exact .inl ⟨hname, rfl⟩
    · rintro (⟨-, rfl⟩ | ⟨c, hk, -⟩ | ⟨c, field, hk, -⟩)
      · rfl
      · exact absurd hname (notMem_boundNameKinds hk)
      · rw [hfield] at hk
        cases hk
  · rw [if_neg fun h => hname (List.contains_iff_mem.1 h)]
    by_cases hpart : s.node.kind ∈ compoundPatternKinds
    · have hfield := wrappedPatternField?_eq_none (List.mem_append_right _ hpart)
      rw [if_pos (List.contains_iff_mem.2 hpart)]
      refine (Spread.namedChildren fun c hc =>
        hchild c (mem_children_of_mem_namedChildren hc)).congr fun i => ?_
      rw [bindsAt_iff]
      simp [hname, hpart, hfield]
    · rw [if_neg fun h => hpart (List.contains_iff_mem.1 h)]
      cases hfield : wrappedPatternField? s.node.kind with
      | none =>
          refine Spread.empty fun i hi => ?_
          rw [bindsAt_iff] at hi
          simp [hname, hpart, hfield] at hi
      | some field =>
          refine (Spread.child? field fun c hc =>
            hchild c (mem_children_of_child? hc)).congr fun i => ?_
          rw [bindsAt_iff]
          simp [hname, hpart, hfield]
termination_by sizeOf s.node

/-! ## Declaring nodes -/

/-- The names of some declarations that share kind and reach. -/
theorem Declaration.map_name_all (reach : Reach) (kind : String) (names : List String) :
    (Declaration.all reach kind names).map (·.name) = names := by
  rw [Declaration.all, List.map_map]
  exact List.map_id names

namespace Site

variable (source : Source) (s : Site)

theorem spread_declaratorNames :
    Spread source (s.node.declaratorNames source) s.subtree s.DeclaratorBindsAt :=
  Spread.namedChildren fun _ _ => Spread.guard _ fun _ =>
    Spread.child? "name" fun pattern _ => pattern.spread_boundNames source

theorem spread_ownName (kind : String) :
    Spread source ((s.node.ownName source kind).map (·.name)) s.subtree s.NamedAt := by
  refine (Spread.declared (B := fun c i =>
    (c.node.kind = "identifier" ∨ c.node.kind = "type_identifier") ∧ i = c) "name"
      fun name _ => ?_).congr fun i => ?_
  · rw [apply_ite (List.map Declaration.name)]
    exact Spread.guard _ fun _ => Spread.single name.self_mem_subtree
  · simp only [NamedAt, List.mem_cons, List.not_mem_nil, or_false]
    constructor
    · intro h
      obtain ⟨c, hc, hk, rfl⟩ := h
      exact ⟨hc, hk⟩
    · intro h
      exact ⟨i, h.1, h.2, rfl⟩

theorem spread_importedName :
    Spread source (s.node.importedName source) s.subtree fun i =>
      s.node.kind = "import_specifier" ∧ ∃ c, (s.child? "alias").or (s.child? "name") = some c ∧
        c.node.kind = "identifier" ∧ i = c := by
  have hlocal : (s.node.child? "alias").or (s.node.child? "name") =
      ((s.child? "alias").or (s.child? "name")).map Site.node := by
    rw [← map_node_child?, ← map_node_child?, Option.map_or]
  rw [Node.importedName, hlocal]
  refine Spread.guard _ fun _ => Spread.optional (fun c hc => ?_) fun c _ =>
    Spread.guard _ fun _ => Spread.single c.self_mem_subtree
  cases Option.or_eq_some_iff.1 hc with
  | inl h => exact mem_children_of_child? h
  | inr h => exact mem_children_of_child? h.2

theorem spread_importPartNames :
    Spread source (s.node.importPartNames source) s.subtree s.ImportsAt := by
  have hwhole (l : List Node) : (l.filter (·.kind == "identifier")).map source.textOf =
      l.flatMap fun n => if n.kind = "identifier" then [source.textOf n] else [] := by
    induction l with
    | nil => rfl
    | cons n l ih =>
        rw [List.flatMap_cons, ← ih]
        by_cases hk : n.kind = "identifier" <;> simp [hk]
  rw [Node.importPartNames, hwhole]
  split
  · next hk =>
      refine (Spread.single s.self_mem_subtree).congr fun i => ?_
      rw [importsAt_iff]
      simp [hk]
  · next hk =>
      split
      · next hk' =>
          refine (Spread.namedChildren fun c _ => Spread.guard _ fun _ =>
            Spread.single c.self_mem_subtree).congr fun i => ?_
          rw [importsAt_iff]
          simp [hk']
      · next hk' =>
          refine (Spread.guard _ fun _ => Spread.namedChildren fun entry _ =>
            entry.spread_importedName source).congr fun i => ?_
          rw [importsAt_iff]
          simp [hk, hk']

theorem spread_importNames (hk : s.node.kind = "import_statement") :
    Spread source (s.node.importNames source) s.subtree s.DeclaresOutsideAt := by
  refine (Spread.namedChildren fun clause _ => Spread.guard _ fun _ =>
    Spread.namedChildren fun part _ => part.spread_importPartNames source).congr fun i => ?_
  rw [declaresOutsideAt_iff]
  simp [hk]

/-- What a node declares into the scope that it stands in, it declares at its places. -/
theorem spread_outerDeclarations :
    Spread source ((s.node.outerDeclarations source).map (·.name)) s.subtree
      s.DeclaresOutsideAt := by
  unfold Node.outerDeclarations
  split
  · next hk =>
      rw [Declaration.map_name_all]
      refine (s.spread_declaratorNames source).congr fun i => ?_
      rw [declaresOutsideAt_iff]
      simp [hk]
  · split
    · next hk =>
        rw [Declaration.map_name_all]
        refine (s.spread_declaratorNames source).congr fun i => ?_
        rw [declaresOutsideAt_iff]
        simp [hk]
    · split
      · next hk =>
          refine (s.spread_ownName source "function").congr fun i => ?_
          rw [declaresOutsideAt_iff]
          rcases hk with hk | hk <;> simp [hk]
      · split
        · next hk =>
            refine (s.spread_ownName source "class").congr fun i => ?_
            rw [declaresOutsideAt_iff]
            rcases hk with hk | hk <;> simp [hk]
        · split
          · next hk =>
              rw [Declaration.map_name_all]
              exact s.spread_importNames source hk
          · split
            · next hk =>
                refine (s.spread_ownName source "namespace").congr fun i => ?_
                rw [declaresOutsideAt_iff]
                rcases hk with hk | hk | hk <;> simp [hk]
            · refine Spread.empty fun i hi => ?_
              rw [declaresOutsideAt_iff] at hi
              simp_all

/-- What the head of a loop declares, it declares at its places. -/
theorem spread_loopDeclarations :
    Spread source ((s.node.loopDeclarations source).map (·.name)) s.subtree fun i =>
      ∃ word, s.child? "kind" = some word ∧ ∃ c, s.child? "left" = some c ∧ c.BindsAt i := by
  rw [Node.loopDeclarations, ← map_node_child? s "kind"]
  cases hword : s.child? "kind" with
  | none => exact Spread.empty fun i hi => by simp at hi
  | some word =>
      have hnames := Spread.child? (s := s) "left" fun c _ => c.spread_boundNames source
      cases hleft : s.node.child? "left" with
      | none =>
          rw [hleft] at hnames
          exact hnames.congr fun i => by simp
      | some left =>
          rw [hleft] at hnames
          simp only [Option.map_some, Declaration.map_name_all]
          exact hnames.congr fun i => by simp

/-- What a node declares into the scope that it opens, it declares at its places. -/
theorem spread_innerDeclarations :
    Spread source ((s.node.innerDeclarations source s.parentKind).map (·.name)) s.subtree
      s.DeclaresInsideAt := by
  unfold Node.innerDeclarations
  split
  · next hk =>
      refine (s.spread_ownName source "self").congr fun i => ?_
      rw [declaresInsideAt_iff]
      rcases hk with hk | hk | hk | hk <;> simp [hk]
  · split
    · next hk =>
        refine (Spread.declared (B := fun c i => i = c) "parameter" fun c _ =>
          Spread.single c.self_mem_subtree).congr fun i => ?_
        rw [declaresInsideAt_iff]
        simp [hk]
    · split
      · next hk =>
          split
          · next hparent =>
              rw [Declaration.map_name_all]
              refine (Spread.namedChildren fun c _ => c.spread_boundNames source).congr fun i => ?_
              rw [declaresInsideAt_iff]
              simp [hk, List.contains_iff_mem.1 hparent]
          · next hparent =>
              refine Spread.empty fun i hi => ?_
              rw [declaresInsideAt_iff] at hi
              have hparent' : s.parentKind ∉ functionKinds := fun h =>
                hparent (List.contains_iff_mem.2 h)
              simp [hk, hparent'] at hi
      · split
        · next hk =>
            refine (Spread.declared (B := fun c i => c.BindsAt i) "parameter" fun c _ => ?_).congr
              fun i => ?_
            · rw [Declaration.map_name_all]
              exact c.spread_boundNames source
            · rw [declaresInsideAt_iff]
              simp [hk]
        · split
          · next hk =>
              refine (s.spread_loopDeclarations source).congr fun i => ?_
              rw [declaresInsideAt_iff]
              simp [hk]
          · refine Spread.empty fun i hi => ?_
            rw [declaresInsideAt_iff] at hi
            simp_all

/-- The names that a node declares. -/
def declaredNames : List String :=
  (s.node.outerDeclarations source ++ s.node.innerDeclarations source s.parentKind).map (·.name)

/-- The kinds of nodes that declare names into the scope they stand in. -/
def outsideKinds : List String :=
  ["variable_declaration", "lexical_declaration", "function_declaration",
    "generator_function_declaration", "class_declaration", "abstract_class_declaration",
    "import_statement", "enum_declaration", "internal_module", "module"]

theorem outerDeclarations_of_notMem (hk : s.node.kind ∉ outsideKinds) :
    s.node.outerDeclarations source = [] := by
  simp only [outsideKinds, List.mem_cons, List.not_mem_nil, or_false, not_or] at hk
  simp [Node.outerDeclarations, hk]

theorem innerDeclarations_of_mem (hk : s.node.kind ∈ outsideKinds) :
    s.node.innerDeclarations source s.parentKind = [] := by
  have hinside : ∀ kind ∈ outsideKinds, kind ∉ ["function_expression", "function",
      "generator_function", "class", "arrow_function", "formal_parameters", "catch_clause",
      "for_in_statement"] := by decide
  have hnot := hinside _ hk
  simp only [List.mem_cons, List.not_mem_nil, or_false, not_or] at hnot
  simp [Node.innerDeclarations, hnot]

/-- **Names in the order of their places.**  The names that a node declares are the texts of its
places, in the order of the tree. -/
theorem spread_declaredNames : Spread source (s.declaredNames source) s.subtree s.DeclaresAt := by
  have houter := s.spread_outerDeclarations source
  have hinner := s.spread_innerDeclarations source
  rw [declaredNames, List.map_append]
  by_cases hk : s.node.kind ∈ outsideKinds
  · rw [s.innerDeclarations_of_mem source hk] at hinner ⊢
    rw [List.map_nil, List.append_nil]
    exact houter.congr fun i => (or_iff_left (hinner.not_of_nil i)).symm
  · rw [s.outerDeclarations_of_notMem source hk] at houter ⊢
    exact hinner.congr fun i => (or_iff_right (houter.not_of_nil i)).symm

/-! ## Kinds and targets -/

/-- The text of the word that starts a declaration, if there is one. -/
def word? : Option String :=
  (s.child? "kind").map fun word => source.textOf word.node

/-- What the names that a node declares are declared as. -/
def declarationKind : String :=
  if s.node.kind = "variable_declaration" then "var"
  else if s.node.kind = "lexical_declaration" then (s.word? source).getD "let"
  else if s.node.kind = "for_in_statement" then (s.word? source).getD ""
  else if s.node.kind ∈ ["function_declaration", "generator_function_declaration"] then "function"
  else if s.node.kind ∈ ["class_declaration", "abstract_class_declaration"] then "class"
  else if s.node.kind = "import_statement" then "import"
  else if s.node.kind ∈ ["enum_declaration", "internal_module", "module"] then "namespace"
  else if s.node.kind ∈ ["function_expression", "function", "generator_function", "class"] then
    "self"
  else if s.node.kind ∈ ["arrow_function", "formal_parameters"] then "param"
  else "catch"

/-- The site whose scope the names that a node declares are declared in.  Imports reach the
program, and `var` reaches the nearest function.  Other statements reach the nearest scope
around, and what is declared inside a node reaches the scope of the node, if it has one. -/
def aim : Option Site :=
  if s.node.kind = "import_statement" then s.enclosing.getLast?
  else if s.node.kind = "variable_declaration" ∨
      (s.node.kind = "for_in_statement" ∧ s.word? source = some "var") then
    s.enclosing.find? takesVar
  else if s.node.kind ∈ outsideKinds then s.enclosing.find? opensScope
  else (s :: s.enclosing).find? opensScope

theorem keyword_eq (default : String) :
    s.node.keyword source default = (s.word? source).getD default := by
  rw [Node.keyword, word?, ← map_node_child?]
  cases s.child? "kind" <;> rfl

/-- What a node declares into the scope around it has its kind and its target. -/
theorem of_mem_outerDeclarations {d : Declaration} (hd : d ∈ s.node.outerDeclarations source) :
    d.kind = s.declarationKind source ∧ d.reach.targetIn s.enclosing = s.aim source := by
  unfold Node.outerDeclarations at hd
  split at hd
  · next hk =>
      obtain ⟨x, -, rfl⟩ := List.mem_map.1 hd
      simp [declarationKind, aim, hk, Reach.targetIn]
  · split at hd
    · next hk =>
        obtain ⟨x, -, rfl⟩ := List.mem_map.1 hd
        simp [declarationKind, aim, hk, Reach.targetIn, keyword_eq, outsideKinds]
    · split at hd
      · next hk =>
          obtain ⟨x, -, rfl⟩ := Node.mem_ownName.1 hd
          rcases hk with hk | hk <;> simp [declarationKind, aim, hk, Reach.targetIn, outsideKinds]
      · split at hd
        · next hk =>
            obtain ⟨x, -, rfl⟩ := Node.mem_ownName.1 hd
            rcases hk with hk | hk <;> simp [declarationKind, aim, hk, Reach.targetIn, outsideKinds]
        · split at hd
          · next hk =>
              obtain ⟨x, -, rfl⟩ := List.mem_map.1 hd
              simp [declarationKind, aim, hk, Reach.targetIn]
          · split at hd
            · next hk =>
                obtain ⟨x, -, rfl⟩ := Node.mem_ownName.1 hd
                rcases hk with hk | hk | hk <;>
                  simp [declarationKind, aim, hk, Reach.targetIn, outsideKinds]
            · cases hd

/-- What the head of a loop declares has its kind and its target. -/
theorem of_mem_loopDeclarations (hs : s.frames ≠ []) (hk : s.node.kind = "for_in_statement")
    {d : Declaration} (hd : d ∈ s.node.loopDeclarations source) :
    d.kind = s.declarationKind source ∧ d.reach.targetIn (s :: s.enclosing) = s.aim source := by
  unfold Node.loopDeclarations at hd
  split at hd
  · next word left hword _ =>
      have hword? : s.word? source = some (source.textOf word) := by
        obtain ⟨c, hc, rfl⟩ := Option.map_eq_some_iff.1 ((map_node_child? s "kind").trans hword)
        rw [Site.word?, hc]
        rfl
      obtain ⟨x, -, rfl⟩ := List.mem_map.1 hd
      refine ⟨by simp [declarationKind, hk, hword?], ?_⟩
      split
      · next hvar => simp [targetIn_loop hs hk, aim, hk, hword?, hvar]
      · next hvar => simp [Reach.targetIn, aim, hk, hword?, hvar, outsideKinds]
  · cases hd

/-- What a node declares inside has its kind and its target. -/
theorem of_mem_innerDeclarations (hs : s.frames ≠ []) {d : Declaration}
    (hd : d ∈ s.node.innerDeclarations source s.parentKind) :
    d.kind = s.declarationKind source ∧ d.reach.targetIn (s :: s.enclosing) = s.aim source := by
  unfold Node.innerDeclarations at hd
  split at hd
  · next hk =>
      obtain ⟨x, -, rfl⟩ := Node.mem_ownName.1 hd
      rcases hk with hk | hk | hk | hk <;>
        simp [declarationKind, aim, hk, Reach.targetIn, outsideKinds]
  · split at hd
    · next hk =>
        split at hd
        · rw [List.mem_singleton] at hd
          simp [hd, declarationKind, aim, hk, Reach.targetIn, outsideKinds]
        · cases hd
    · split at hd
      · next hk =>
          split at hd
          · obtain ⟨x, -, rfl⟩ := List.mem_map.1 hd
            simp [declarationKind, aim, hk, Reach.targetIn, outsideKinds]
          · cases hd
      · split at hd
        · next hk =>
            split at hd
            · obtain ⟨x, -, rfl⟩ := List.mem_map.1 hd
              simp [declarationKind, aim, hk, Reach.targetIn, outsideKinds]
            · cases hd
        · split at hd
          · next hk => exact s.of_mem_loopDeclarations source hs hk hd
          · cases hd

/-- A site declares the names that it declares in the scope that it aims at. -/
theorem declares_iff_mem_declaredNames {x : String} {a : Site} (hs : s.frames ≠ []) :
    s.Declares source x a ↔ s.aim source = some a ∧ x ∈ s.declaredNames source := by
  rw [declares_iff hs, declaredNames, List.mem_map]
  simp only [List.mem_append]
  constructor
  · rintro (⟨d, hd, rfl, ha⟩ | ⟨d, hd, rfl, ha⟩)
    · exact ⟨(s.of_mem_outerDeclarations source hd).2 ▸ ha, d, .inl hd, rfl⟩
    · exact ⟨(s.of_mem_innerDeclarations source hs hd).2 ▸ ha, d, .inr hd, rfl⟩
  · rintro ⟨ha, d, hd | hd, rfl⟩
    · exact .inl ⟨d, hd, rfl, (s.of_mem_outerDeclarations source hd).2.trans ha⟩
    · exact .inr ⟨d, hd, rfl, (s.of_mem_innerDeclarations source hs hd).2.trans ha⟩

end Site

end ScriptLint
