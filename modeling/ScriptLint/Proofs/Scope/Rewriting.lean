import ScriptLint.Proofs.Scope.Binding

/-!
# What a node declares does not depend on the inside of a namespace

Declarations are read off a node and the nodes below it: the names in a pattern,
the declarators of a statement, the parts of an import clause.  None of this
looks further into a TypeScript namespace than its name.

`Node.Rewrites n n'` says that `n'` is `n` after all that is below the children of
one namespace was replaced.  Then both declare the same
(`Node.Rewrites.outerDeclarations_eq`, `Node.Rewrites.innerDeclarations_eq`).
-/

namespace ScriptLint

/-- The kinds of nodes that are a TypeScript namespace. -/
def namespaceKinds : List String :=
  ["internal_module", "module"]

namespace Node

/-- The second node is the first one with other nodes below the children of one
namespace. -/
inductive Rewrites : Node → Node → Prop where
  /-- The node is the namespace. -/
  | self {n n' : Node} :
      n.kind ∈ namespaceKinds → n'.label = n.label →
      n'.children.map label = n.children.map label → Rewrites n n'
  /-- The namespace is in one of the children. -/
  | child {label : Label} {before after : List Node} {c c' : Node} :
      Rewrites c c' →
      Rewrites (.mk label (before ++ c :: after)) (.mk label (before ++ c' :: after))

namespace Rewrites

variable {n n' : Node}

/-! ## Labels -/

theorem label_eq (h : Rewrites n n') : n'.label = n.label := by
  cases h with
  | self _ hlabel _ => exact hlabel
  | child _ => rfl

theorem kind_eq (h : Rewrites n n') : n'.kind = n.kind :=
  congrArg Label.kind h.label_eq

theorem named_eq (h : Rewrites n n') : n'.named = n.named :=
  congrArg Label.named h.label_eq

theorem textOf_eq (h : Rewrites n n') (source : Source) :
    source.textOf n' = source.textOf n :=
  congrArg (fun l : Label => source.text l.start l.stop) h.label_eq

theorem map_label_children (h : Rewrites n n') :
    n'.children.map label = n.children.map label := by
  cases h with
  | self _ _ hchildren => exact hchildren
  | child h => simp [children, h.label_eq]

theorem map_label_child? (h : Rewrites n n') (field : String) :
    (n'.child? field).map label = (n.child? field).map label := by
  have hfind (l : List Node) : (l.find? fun c => c.label.field? == some field).map label
      = (l.map label).find? fun l => l.field? == some field := by
    rw [List.find?_map]
    rfl
  rw [child?, child?, hfind, hfind, h.map_label_children]

/-- What is read off the label of the child in a field is the same. -/
theorem child?_cases (h : Rewrites n n') (field : String) :
    (n.child? field = none ∧ n'.child? field = none) ∨
      ∃ c c', n.child? field = some c ∧ n'.child? field = some c' ∧ c'.label = c.label := by
  have hlabel := h.map_label_child? field
  cases hc : n.child? field with
  | none => exact Or.inl ⟨rfl, by simpa [hc] using hlabel⟩
  | some c =>
      rw [hc] at hlabel
      obtain ⟨c', hc', hl⟩ := Option.map_eq_some_iff.1 hlabel
      exact Or.inr ⟨c, c', rfl, hc', hl⟩

/-! ## Children -/

/-- A child in a field is the same, or has the namespace in it. -/
theorem child?_eq_or (h : Rewrites n n') (hk : n.kind ∉ namespaceKinds) (field : String) :
    n'.child? field = n.child? field ∨
      ∃ c c', n.child? field = some c ∧ n'.child? field = some c' ∧ Rewrites c c' := by
  cases h with
  | self hk' _ _ => exact absurd hk' hk
  | @child label before after c c' h =>
      simp only [child?, children, List.find?_append, List.find?_cons, h.label_eq]
      cases before.find? fun c => c.label.field? == some field with
      | some d => exact Or.inl rfl
      | none =>
          cases c.label.field? == some field with
          | true => exact Or.inr ⟨c, c', rfl, rfl, h⟩
          | false => exact Or.inl rfl

/-- What is collected from the named children is the same, if it is the same
from a child that has the namespace in it. -/
theorem flatMap_namedChildren_eq {β : Type} (h : Rewrites n n') (hk : n.kind ∉ namespaceKinds)
    {f : Node → List β} (hf : ∀ c c', Rewrites c c' → f c' = f c) :
    n'.namedChildren.flatMap f = n.namedChildren.flatMap f := by
  cases h with
  | self hk' _ _ => exact absurd hk' hk
  | @child label before after c c' h =>
      simp only [namedChildren, children, List.filter_append, List.filter_cons, h.named_eq,
        List.flatMap_append]
      split
      · rw [List.flatMap_cons, List.flatMap_cons, hf c c' h]
      · rfl

/-! ## Names in patterns -/

variable (source : Source)

theorem boundNamesAmong_eq {c c' : Node} (hnamed : c'.named = c.named)
    (hnames : c'.boundNames source = c.boundNames source) (before after : List Node) :
    boundNamesAmong source (before ++ c' :: after)
      = boundNamesAmong source (before ++ c :: after) := by
  induction before with
  | nil => simp only [List.nil_append, boundNamesAmong, hnamed, hnames]
  | cons d before ih => simp only [List.cons_append, boundNamesAmong, ih]

theorem boundNamesIn_eq {c c' : Node} (hlabel : c'.label = c.label)
    (hnames : c'.boundNames source = c.boundNames source) (field : String)
    (before after : List Node) :
    boundNamesIn source field (before ++ c' :: after)
      = boundNamesIn source field (before ++ c :: after) := by
  induction before with
  | nil => simp only [List.nil_append, boundNamesIn, hlabel, hnames]
  | cons d before ih => simp only [List.cons_append, boundNamesIn, ih]

/-- A namespace is no pattern. -/
theorem boundNames_of_namespace (hk : n.kind ∈ namespaceKinds) : n.boundNames source = [] := by
  obtain ⟨label, children⟩ := n
  have hk' : label.kind = "internal_module" ∨ label.kind = "module" := by
    rwa [namespaceKinds, List.mem_cons, List.mem_singleton] at hk
  rcases hk' with hk' | hk' <;>
    simp [boundNames, hk', boundNameKinds, compoundPatternKinds, wrappedPatternField?]

theorem boundNames_eq (h : Rewrites n n') : n'.boundNames source = n.boundNames source := by
  induction h with
  | self hk hlabel _ =>
      rw [boundNames_of_namespace source hk]
      exact boundNames_of_namespace source (by rwa [kind, hlabel])
  | child h ih =>
      simp only [boundNames, boundNamesAmong_eq source h.named_eq ih,
        boundNamesIn_eq source h.label_eq ih]

/-! ## Names of statements -/

theorem ownName_eq (h : Rewrites n n') (kind : String) :
    n'.ownName source kind = n.ownName source kind := by
  unfold ownName
  rcases h.child?_cases "name" with ⟨hc, hc'⟩ | ⟨⟨_, _⟩, ⟨_, _⟩, hc, hc', rfl⟩
  · rw [hc, hc']
  · rw [hc, hc']
    rfl

theorem keyword_eq (h : Rewrites n n') (default : String) :
    n'.keyword source default = n.keyword source default := by
  unfold keyword
  rcases h.child?_cases "kind" with ⟨hc, hc'⟩ | ⟨⟨_, _⟩, ⟨_, _⟩, hc, hc', rfl⟩
  · rw [hc, hc']
  · rw [hc, hc']
    rfl

theorem declaratorNames_eq (h : Rewrites n n') (hk : n.kind ∉ namespaceKinds) :
    n'.declaratorNames source = n.declaratorNames source := by
  refine h.flatMap_namedChildren_eq hk fun d d' hd => ?_
  rw [hd.kind_eq]
  split
  · next hkind =>
      rcases hd.child?_eq_or (by simp [hkind, namespaceKinds]) "name" with
        he | ⟨name, name', hname, hname', hnames⟩
      · rw [he]
      · rw [hname, hname']
        exact hnames.boundNames_eq source
  · rfl

/-! ## Names of imports -/

theorem importedName_eq (h : Rewrites n n') :
    n'.importedName source = n.importedName source := by
  unfold importedName
  rw [h.kind_eq]
  rcases h.child?_cases "alias" with ⟨ha, ha'⟩ | ⟨⟨_, _⟩, ⟨_, _⟩, ha, ha', rfl⟩
  · rcases h.child?_cases "name" with ⟨hc, hc'⟩ | ⟨⟨_, _⟩, ⟨_, _⟩, hc, hc', rfl⟩
    · rw [ha, ha', hc, hc']
    · rw [ha, ha', hc, hc']
      rfl
  · rw [ha, ha']
    rfl

/-- The texts of the named children of a kind are read off labels. -/
theorem texts_eq (h : Rewrites n n') (kind : String) :
    (n'.namedChildren.filter (·.kind == kind)).map source.textOf
      = (n.namedChildren.filter (·.kind == kind)).map source.textOf := by
  have hlabels (m : Node) : (m.namedChildren.filter (·.kind == kind)).map source.textOf
      = (((m.children.map label).filter Label.named).filter (·.kind == kind)).map
          fun l => source.text l.start l.stop := by
    rw [List.filter_map, List.filter_map, List.map_map]
    rfl
  rw [hlabels, hlabels, h.map_label_children]

theorem importPartNames_eq (h : Rewrites n n') :
    n'.importPartNames source = n.importPartNames source := by
  unfold importPartNames
  rw [h.kind_eq, h.textOf_eq, h.texts_eq]
  split
  · rfl
  · split
    · rfl
    · split
      · next hkind =>
          exact h.flatMap_namedChildren_eq (by simp [hkind, namespaceKinds])
            fun _ _ hentry => hentry.importedName_eq source
      · rfl

theorem importNames_eq (h : Rewrites n n') (hk : n.kind ∉ namespaceKinds) :
    n'.importNames source = n.importNames source := by
  refine h.flatMap_namedChildren_eq hk fun clause clause' hclause => ?_
  rw [hclause.kind_eq]
  split
  · next hkind =>
      have hk' : clause.kind ∉ namespaceKinds := by
        rcases hkind with hkind | hkind <;> simp [hkind, namespaceKinds]
      exact hclause.flatMap_namedChildren_eq hk' fun _ _ hpart => hpart.importPartNames_eq source
  · rfl

/-! ## Declarations -/

/-- What a node declares into the scope it stands in does not depend on the inside
of a namespace. -/
theorem outerDeclarations_eq (h : Rewrites n n') :
    n'.outerDeclarations source = n.outerDeclarations source := by
  unfold outerDeclarations
  simp only [h.kind_eq, h.ownName_eq, h.keyword_eq]
  split
  · next hk => rw [h.declaratorNames_eq source (by simp [hk, namespaceKinds])]
  · split
    · next hk => rw [h.declaratorNames_eq source (by simp [hk, namespaceKinds])]
    · split
      · rfl
      · split
        · rfl
        · split
          · next hk => rw [h.importNames_eq source (by simp [hk, namespaceKinds])]
          · rfl

theorem loopDeclarations_eq (h : Rewrites n n') (hk : n.kind ∉ namespaceKinds) :
    n'.loopDeclarations source = n.loopDeclarations source := by
  unfold loopDeclarations
  rcases h.child?_cases "kind" with ⟨hc, hc'⟩ | ⟨⟨_, _⟩, ⟨_, _⟩, hc, hc', rfl⟩
  · rw [hc, hc']
  · rcases h.child?_eq_or hk "left" with he | ⟨left, left', hleft, hleft', hnames⟩
    · rw [hc, hc', he]
      cases n.child? "left" <;> rfl
    · rw [hc, hc', hleft, hleft']
      simp only [hnames.boundNames_eq source]
      rfl

/-- What a node declares into its own scope does not depend on the inside of a
namespace. -/
theorem innerDeclarations_eq (h : Rewrites n n') (parentKind : String) :
    n'.innerDeclarations source parentKind = n.innerDeclarations source parentKind := by
  unfold innerDeclarations
  simp only [h.kind_eq, h.ownName_eq]
  split
  · rfl
  · split
    · rcases h.child?_cases "parameter" with ⟨hc, hc'⟩ | ⟨⟨_, _⟩, ⟨_, _⟩, hc, hc', rfl⟩
      · rw [hc, hc']
      · rw [hc, hc']
        rfl
    · split
      · next hk =>
          rw [h.flatMap_namedChildren_eq (by simp [hk, namespaceKinds])
            fun _ _ hnames => hnames.boundNames_eq source]
      · split
        · next hk =>
            rcases h.child?_eq_or (by simp [hk, namespaceKinds]) "parameter" with
              he | ⟨p, p', hp, hp', hnames⟩
            · rw [he]
            · rw [hp, hp']
              simp only [hnames.boundNames_eq source]
        · split
          · next hk => exact h.loopDeclarations_eq source (by simp [hk, namespaceKinds])
          · rfl

end Rewrites

end Node

end ScriptLint
