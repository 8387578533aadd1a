import ScriptLint.Proofs.Scope.Resolution
import ScriptLint.Proofs.Scope.Rewriting
import ScriptLint.Proofs.Syntax.Emptying

/-!
# What leaves the body of a namespace

The body of a TypeScript namespace is a block.  It opens a scope, but not one
that takes declarations with `var`, and imports go past every scope.  So three
kinds of declarations leave it: statements and loop heads with `var` that have no
function around them in the body, and imports (`Site.Leaks`).  All others stay.

`Program.isGlobal_eq_emptied_iff` compares a program to the one without what is in
the body.  Outside, a name is global in both or in none, unless one of these
declarations alone makes the difference.

The two trees are compared site by site.  A site outside of the body declares the
same in both (`Site.declares_emptied`), so what is declared without the body is
what sites outside of it declare (`Program.declaredAt_emptied`).
-/

namespace ScriptLint

/-! ## Nodes around the body -/

namespace Node

/-- If a child is rewritten by emptying a node in it, so is its parent. -/
theorem Rewrites.emptyAt_parent {n c : Node} {i : Nat} {rest : List Nat}
    (hc : n.children[i]? = some c) (h : Rewrites c (c.emptyAt rest)) :
    Rewrites n (n.emptyAt (i :: rest)) := by
  obtain ⟨label, children⟩ := n
  change children[i]? = some c at hc
  obtain ⟨hlt, hget⟩ := List.getElem?_eq_some_iff.1 hc
  have hsplit : children = children.take i ++ c :: children.drop (i + 1) := by
    rw [← hget, List.getElem_cons_drop, List.take_append_drop]
  have hmodify : children.modify i (emptyAt rest)
      = children.take i ++ c.emptyAt rest :: children.drop (i + 1) := by
    rw [List.modify_eq_take_cons_drop hlt, hget]
  have hempty : (Node.mk label children).emptyAt (i :: rest)
      = .mk label (children.modify i (emptyAt rest)) := rfl
  rw [hempty, hmodify]
  nth_rewrite 1 [hsplit]
  exact .child h

/-- A namespace is rewritten by emptying a child. -/
theorem Rewrites.emptyAt_self {n : Node} (hk : n.kind ∈ namespaceKinds) (i : Nat) :
    Rewrites n (n.emptyAt [i]) := by
  refine .self hk (label_emptyAt ..) ?_
  refine List.ext_getElem? fun j => ?_
  rw [children_emptyAt_cons, List.getElem?_map, List.getElem?_map, List.getElem?_modify]
  split <;> simp [Function.comp_def]

end Node

namespace Site

variable {root : Node} {path : List Nat} {source : Source} {x : String}

/-- Nodes above a site are rewritten when its node is. -/
theorem rewrites_emptied {t : Site} (ht : t ∈ root.sites) {rest : List Nat}
    (h : Node.Rewrites t.node (t.node.emptyAt rest)) :
    ∀ s ∈ t :: t.enclosing, Node.Rewrites s.node (s.emptied (t.path ++ rest)).node := by
  -- The walk goes down, so the rest of the path varies: it is longer from further up.
  refine Node.walk_induction (P := fun t => ∀ rest, Node.Rewrites t.node (t.node.emptyAt rest) →
    ∀ s ∈ t :: t.enclosing, Node.Rewrites s.node (s.emptied (t.path ++ rest)).node)
    ?_ ?_ t ht rest h
  · intro rest h s hs
    rw [List.mem_singleton.1 hs, emptied, Node.emptiedFrom_append]
    exact h
  · intro t c _ ih hc _ rest h s hs
    rw [enclosing_of_mem_children hc, List.mem_cons] at hs
    obtain ⟨i, hi, -, hpath⟩ := exists_path_of_mem_children hc
    cases hs with
    | inl hs =>
        rw [hs, emptied, Node.emptiedFrom_append]
        exact h
    | inr hs =>
        rw [hpath, List.append_assoc]
        exact ih (i :: rest) (h.emptyAt_parent hi) s hs

/-- The block at `b` is the body of a namespace of the tree. -/
structure IsNamespaceBody (root : Node) (b : Site) : Prop where
  /-- It is a block. -/
  kind_eq : b.node.kind = "statement_block"
  /-- It is the body of a namespace. -/
  namespace_body : ∃ m ∈ root.sites, m.node.kind ∈ namespaceKinds ∧ m.child? "body" = some b

namespace IsNamespaceBody

variable {b : Site} (hb : IsNamespaceBody root b)

include hb

theorem mem_sites : b ∈ root.sites := by
  obtain ⟨m, hm, -, hbody⟩ := hb.namespace_body
  exact Node.mem_sites_of_mem_children hm (mem_children_of_child? hbody)

/-- A body opens a scope. -/
theorem opensScope : b.opensScope = true := by
  obtain ⟨m, -, hk, hbody⟩ := hb.namespace_body
  obtain ⟨i, -, hframes⟩ := mem_children.1 (mem_children_of_child? hbody)
  have hno : m.node.kind ∉ functionKinds := by
    rw [namespaceKinds, List.mem_cons, List.mem_singleton] at hk
    rcases hk with hk | hk <;> simp [hk, functionKinds]
  simp [Site.opensScope, isFunctionBody, parent?, hframes, hb.kind_eq, blockKinds, hno]

/-- The scope of a body takes no declarations with `var`. -/
theorem takesVar : b.takesVar = false := by
  obtain ⟨m, -, -, hbody⟩ := hb.namespace_body
  obtain ⟨i, -, hframes⟩ := mem_children.1 (mem_children_of_child? hbody)
  simp [Site.takesVar, hframes, hb.kind_eq, functionKinds]

/-- What a site declares does not depend on what is in the body. -/
theorem declarations_eq {s : Site} (hs : s ∈ root.sites) (source : Source) (parentKind : String) :
    (s.emptied b.path).node.outerDeclarations source = s.node.outerDeclarations source ∧
      (s.emptied b.path).node.innerDeclarations source parentKind
        = s.node.innerDeclarations source parentKind := by
  by_cases habove : s ∈ b :: b.enclosing
  · rw [List.mem_cons] at habove
    cases habove with
    | inl he =>
        -- The block itself loses its children, but blocks declare nothing.
        have hk : s.node.kind = "statement_block" := he ▸ hb.kind_eq
        simp [Node.outerDeclarations, Node.innerDeclarations, hk]
    | inr habove =>
        -- All that is above the block is the namespace, or above that.
        obtain ⟨m, hm, hk, hbody⟩ := hb.namespace_body
        have hchild := mem_children_of_child? hbody
        obtain ⟨i, -, -, hpath⟩ := exists_path_of_mem_children hchild
        rw [enclosing_of_mem_children hchild] at habove
        have h := rewrites_emptied hm (Node.Rewrites.emptyAt_self hk i) s habove
        rw [← hpath] at h
        exact ⟨h.outerDeclarations_eq source, h.innerDeclarations_eq source parentKind⟩
  · rw [node_emptied_of_beside hs hb.mem_sites habove]
    exact ⟨rfl, rfl⟩

end IsNamespaceBody

/-! ## Targets -/

@[simp] theorem isFunctionBody_emptied (s : Site) :
    (s.emptied path).isFunctionBody = s.isFunctionBody := by
  have hparent (t : Site) : (t.parent?.any fun n => functionKinds.contains n.kind)
      = t.parentKind?.any functionKinds.contains := by
    rw [parentKind?, Option.any_map]
  rw [isFunctionBody, isFunctionBody, hparent, hparent, parentKind?_emptied, kind_emptied]

@[simp] theorem opensScope_emptied (s : Site) : (s.emptied path).opensScope = s.opensScope := by
  simp [opensScope]

@[simp] theorem takesVar_emptied (s : Site) : (s.emptied path).takesVar = s.takesVar := by
  simp [takesVar]

theorem targetIn_map_emptied (reach : Reach) (around : List Site) :
    reach.targetIn (around.map (emptied path)) = (reach.targetIn around).map (emptied path) := by
  cases reach with
  | here =>
      have hcomp : opensScope ∘ emptied path = opensScope := funext fun s => opensScope_emptied s
      simp only [Reach.targetIn, List.find?_map, hcomp]
  | hoisted =>
      have hcomp : takesVar ∘ emptied path = takesVar := funext fun s => takesVar_emptied s
      simp only [Reach.targetIn, List.find?_map, hcomp]
  | program => simp only [Reach.targetIn, List.getLast?_map]

/-- A site outside of a body declares the same without it. -/
theorem declares_emptied {b s a' : Site} (hb : IsNamespaceBody root b) (hs : s ∈ root.sites)
    (hne : s.frames ≠ []) :
    (s.emptied b.path).Declares source x a' ↔
      ∃ a, s.Declares source x a ∧ a.emptied b.path = a' := by
  have hne' : (s.emptied b.path).frames ≠ [] := mt (frames_emptied_eq_nil b.path s).1 hne
  have hparent : (s.emptied b.path).parentKind = s.parentKind := by simp [parentKind]
  obtain ⟨houter, hinner⟩ := hb.declarations_eq hs source s.parentKind
  have haround : s.emptied b.path :: (s.emptied b.path).enclosing
      = (s :: s.enclosing).map (emptied b.path) := by simp
  rw [declares_iff hne', hparent, houter, hinner, haround, enclosing_emptied]
  simp only [targetIn_map_emptied, Option.map_eq_some_iff, declares_iff hne]
  constructor
  · rintro (⟨d, hd, hx, a, ha, he⟩ | ⟨d, hd, hx, a, ha, he⟩)
    · exact ⟨a, Or.inl ⟨d, hd, hx, ha⟩, he⟩
    · exact ⟨a, Or.inr ⟨d, hd, hx, ha⟩, he⟩
  · rintro ⟨a, ⟨d, hd, hx, ha⟩ | ⟨d, hd, hx, ha⟩, he⟩
    · exact Or.inl ⟨d, hd, hx, a, ha, he⟩
    · exact Or.inr ⟨d, hd, hx, a, ha, he⟩

/-! ## What is declared beyond the body -/

/-- The node at the first site is in the block at `b` and declares the name `x`
in the scope of the second site, which is around the block.  It is an import, or
has `var` and no function between itself and the block. -/
inductive Leaks (source : Source) (x : String) (b : Site) : Site → Site → Prop where
  /-- A statement with `var`. -/
  | var {s a : Site} {inner : List Site} :
      s.enclosing = inner ++ b :: b.enclosing → (∀ c ∈ inner, c.node.kind ∉ functionKinds) →
      s.node.kind = "variable_declaration" → s.node.DeclaratorBinds source x →
      b.enclosing.find? takesVar = some a → Leaks source x b s a
  /-- The head of a loop with `var`. -/
  | loopVar {s a : Site} {inner : List Site} {word n : Node} :
      s.enclosing = inner ++ b :: b.enclosing → (∀ c ∈ inner, c.node.kind ∉ functionKinds) →
      s.node.kind = "for_in_statement" → s.node.child? "kind" = some word →
      source.textOf word = "var" → s.node.child? "left" = some n → n.Binds source x →
      b.enclosing.find? takesVar = some a → Leaks source x b s a
  /-- An import. -/
  | imported {s a : Site} :
      b ∈ s.enclosing → s.node.kind = "import_statement" → s.node.Imports source x →
      b.enclosing.getLast? = some a → Leaks source x b s a

section Body

variable {b s a : Site} {inner : List Site}

/-- A site above `b` is not one of those between `b` and a site below. -/
theorem not_mem_inner (hinner : ∀ c ∈ inner, b ∈ c.enclosing) (ha : a ∈ b.enclosing) :
    a ∉ inner ∧ a ≠ b := by
  have hlt := length_frames_lt ha
  constructor
  · intro hmem
    have hgt := length_frames_lt (hinner a hmem)
    omega
  · rintro rfl
    omega

/-- A site above `b` that is the first to satisfy a test is so from `b` on. -/
theorem find?_above {p : Site → Bool} (hinner : ∀ c ∈ inner, b ∈ c.enclosing)
    (ha : a ∈ b.enclosing) :
    (inner ++ b :: b.enclosing).find? p = some a ↔
      (∀ c ∈ inner, p c = false) ∧ p b = false ∧ b.enclosing.find? p = some a := by
  obtain ⟨hnot, hne⟩ := not_mem_inner hinner ha
  rw [List.find?_append, List.find?_cons]
  cases hfind : inner.find? p with
  | some c =>
      have hc := List.mem_of_find?_eq_some hfind
      have hpc := List.find?_some hfind
      constructor
      · intro h
        rw [Option.some_or, Option.some.injEq] at h
        exact absurd (h ▸ hc) hnot
      · rintro ⟨hall, -, -⟩
        rw [hall c hc] at hpc
        cases hpc
  | none =>
      have hall : ∀ c ∈ inner, p c = false := by simpa using hfind
      cases hpb : p b with
      | true => simpa using fun he => absurd he.symm hne
      | false => simpa using fun _ => hall

theorem getLast?_above (inner : List Site) (ha : a ∈ b.enclosing) :
    (inner ++ b :: b.enclosing).getLast? = b.enclosing.getLast? := by
  obtain ⟨c, above, hcons⟩ := List.exists_cons_of_ne_nil (List.ne_nil_of_mem ha)
  rw [List.getLast?_append_cons, hcons, List.getLast?_cons_cons]

/-- Below the root a site takes `var` if it is a function. -/
theorem takesVar_eq_false {c : Site} (hc : b ∈ c.enclosing) :
    c.takesVar = false ↔ c.node.kind ∉ functionKinds := by
  have hne : c.frames.isEmpty = false := by
    obtain ⟨n, frames⟩ := c
    cases frames with
    | nil => cases hc
    | cons => rfl
  simp [takesVar, hne]

variable {root : Node} (hb : IsNamespaceBody root b)

include hb

theorem find?_takesVar_above (hinner : ∀ c ∈ inner, b ∈ c.enclosing) (ha : a ∈ b.enclosing) :
    (inner ++ b :: b.enclosing).find? takesVar = some a ↔
      (∀ c ∈ inner, c.node.kind ∉ functionKinds) ∧ b.enclosing.find? takesVar = some a := by
  rw [find?_above hinner ha]
  constructor
  · rintro ⟨hall, -, hfind⟩
    exact ⟨fun c hc => (takesVar_eq_false (hinner c hc)).1 (hall c hc), hfind⟩
  · rintro ⟨hall, hfind⟩
    exact ⟨fun c hc => (takesVar_eq_false (hinner c hc)).2 (hall c hc), hb.takesVar, hfind⟩

/-- No declaration but those that escape reaches beyond the body. -/
theorem Declares.leaks (h : s.Declares source x a) (hs : b ∈ s.enclosing)
    (ha : a ∈ b.enclosing) : Leaks source x b s a := by
  obtain ⟨inner, hsplit, hinner⟩ := exists_enclosing_eq_append hs
  obtain ⟨hnot, hne⟩ := not_mem_inner hinner ha
  have hself : s ∉ b.enclosing := fun hmem => by
    have hlt := length_frames_lt hs
    have hgt := length_frames_lt hmem
    omega
  -- The body opens a scope, so what goes to the nearest scope gets no further.
  have hhere : s.enclosing.find? opensScope ≠ some a := fun hfind => by
    rw [hsplit, find?_above hinner ha, hb.opensScope] at hfind
    cases hfind.2.1
  cases h with
  | var hk hx hfind =>
      rw [hsplit, find?_takesVar_above hb hinner ha] at hfind
      exact .var hsplit hfind.1 hk hx hfind.2
  | lexical _ _ hfind => exact absurd hfind hhere
  | named _ _ hfind => exact absurd hfind hhere
  | imported hk hx hlast =>
      rw [hsplit, getLast?_above inner ha] at hlast
      exact .imported hs hk hx hlast
  | own => exact absurd ha hself
  | bareParameter => exact absurd ha hself
  | parameter _ hhead =>
      rw [hsplit] at hhead
      cases inner with
      | nil => exact absurd (Option.some.inj hhead).symm hne
      | cons c inner => exact absurd (Option.some.inj hhead ▸ List.mem_cons_self ..) hnot
  | caught => exact absurd ha hself
  | loopVar hk hword hvar hn hx hfind =>
      rw [hsplit, find?_takesVar_above hb hinner ha] at hfind
      exact .loopVar hsplit hfind.1 hk hword hvar hn hx hfind.2
  | loopLexical => exact absurd ha hself

omit hb in
theorem Leaks.kind_mem (h : b.Leaks source x s a) :
    s.node.kind ∈ ["variable_declaration", "for_in_statement", "import_statement"] := by
  cases h <;> simp [*]

omit hb in
theorem Leaks.mem (h : b.Leaks source x s a) : b ∈ s.enclosing ∧ a ∈ b.enclosing := by
  cases h with
  | var hsplit _ _ _ hfind => exact ⟨hsplit ▸ by simp, List.mem_of_find?_eq_some hfind⟩
  | loopVar hsplit _ _ _ _ _ _ hfind => exact ⟨hsplit ▸ by simp, List.mem_of_find?_eq_some hfind⟩
  | imported hs _ _ hlast => exact ⟨hs, List.mem_of_getLast? hlast⟩

/-- A declaration that escapes is one. -/
theorem Leaks.declares (h : b.Leaks source x s a) : s.Declares source x a := by
  obtain ⟨hs, ha⟩ := h.mem
  obtain ⟨inner', hsplit', hinner⟩ := exists_enclosing_eq_append hs
  have hfind {inner : List Site} (hsplit : s.enclosing = inner ++ b :: b.enclosing)
      (hall : ∀ c ∈ inner, c.node.kind ∉ functionKinds)
      (hfind : b.enclosing.find? takesVar = some a) : s.enclosing.find? takesVar = some a := by
    have he : inner = inner' := List.append_cancel_right (hsplit.symm.trans hsplit')
    subst he
    rw [hsplit, find?_takesVar_above hb hinner ha]
    exact ⟨hall, hfind⟩
  cases h with
  | var hsplit hall hk hx h => exact .var hk hx (hfind hsplit hall h)
  | loopVar hsplit hall hk hword hvar hn hx h =>
      exact .loopVar hk hword hvar hn hx (hfind hsplit hall h)
  | imported _ hk hx hlast =>
      refine .imported hk hx ?_
      rw [hsplit', getLast?_above inner' ha, hlast]

end Body

end Site

/-! ## The program without the body -/

namespace Program

/-- The program without what is below the node at a site. -/
def emptied (p : Program) (b : Site) : Program :=
  { p with root := p.root.emptyAt b.path }

/-- A declaration of the name `x` leaves the block at `b` for the scope of the site
`a`.  The node that makes it is reached through named children, and neither it nor a
node above it holds only types. -/
def Leaks (p : Program) (b : Site) (x : String) (a : Site) : Prop :=
  ∃ s ∈ p.root.reached, (∀ c ∈ s :: s.enclosing, c.node.isTypeOnly = false) ∧
    b.Leaks p.source x s a

variable {p : Program} {b i : Site}

theorem kind_emptied_root : (p.emptied b).root.kind = p.root.kind :=
  congrArg Label.kind (Node.label_emptyAt ..)

theorem scopesDistinct_emptied (h : p.root.ScopesDistinct) : (p.emptied b).root.ScopesDistinct where
  keys := h.keys.emptyAt b.path
  root s' hs' hkey := by
    obtain ⟨s, hs, -, rfl⟩ := Node.mem_sites_emptyAt.1 hs'
    have hroot : (p.emptied b).root.key = p.root.key := by
      simp [Node.key, Node.kind, Node.start, Node.stop, emptied]
    rw [Site.key_emptied, hroot] at hkey
    exact (Site.frames_emptied_eq_nil b.path s).2 (h.root s hs hkey)

/-- Outside of the node at `b` means not below its path. -/
theorem not_mem_enclosing_iff (hb : b ∈ p.root.sites) {s : Site} (hs : s ∈ p.root.sites) :
    b ∉ s.enclosing ↔ ∀ a ∈ s.enclosing, a.path ≠ b.path := by
  constructor
  · intro h a ha hpath
    have hsites : a ∈ p.root.sites := Node.mem_walk_of_mem_enclosing hs ha
    exact h (Site.eq_of_path_eq hsites hb hpath ▸ ha)
  · exact fun h hmem => h b hmem rfl

/-- A site outside of the node at `b` is still there, at the same path. -/
theorem emptied_mem_sites (hb : b ∈ p.root.sites) (hi : i ∈ p.root.sites) (hout : b ∉ i.enclosing) :
    i.emptied b.path ∈ (p.emptied b).root.sites :=
  Node.mem_sites_emptyAt.2 ⟨i, hi, (not_mem_enclosing_iff hb hi).1 hout, rfl⟩

theorem frames_ne_nil_of_kind {s : Site} (hs : s ∈ p.root.sites) (h : s.node.kind ≠ p.root.kind) :
    s.frames ≠ [] := by
  intro hnil
  rw [ScopeTable.eq_root_of_frames_eq_nil hs hnil] at h
  exact h rfl

/-- Without the body, the declarations are those of sites outside of it. -/
theorem declaredAt_emptied (hroot : p.root.kind = "program") (hb : b.IsNamespaceBody p.root)
    {x : String} {a' : Site} :
    (p.emptied b).DeclaredAt x a' ↔
      ∃ s ∈ p.root.reached, b ∉ s.enclosing ∧
        (∀ c ∈ s :: s.enclosing, c.node.isTypeOnly = false) ∧
        ∃ a, s.Declares p.source x a ∧ a.emptied b.path = a' := by
  have hsites {s : Site} (hs : s ∈ p.root.reached) : s ∈ p.root.sites :=
    (Node.walk_sublist_sites p.root).subset hs
  have htypes (s : Site) : (∀ c ∈ s.emptied b.path :: (s.emptied b.path).enclosing,
      c.node.isTypeOnly = false) ↔ ∀ c ∈ s :: s.enclosing, c.node.isTypeOnly = false := by
    simp
  constructor
  · rintro ⟨s', hs', htype, hd⟩
    obtain ⟨s, hs, hout, rfl⟩ := Node.mem_reached_emptyAt.1 hs'
    have hk := hd.kind_ne_program
    rw [Site.kind_emptied, ← hroot] at hk
    have hne := frames_ne_nil_of_kind (hsites hs) hk
    exact ⟨s, hs, (not_mem_enclosing_iff hb.mem_sites (hsites hs)).2 hout, (htypes s).1 htype,
      (Site.declares_emptied hb (hsites hs) hne).1 hd⟩
  · rintro ⟨s, hs, hout, htype, a, hd, rfl⟩
    have hk := hd.kind_ne_program
    rw [← hroot] at hk
    have hne := frames_ne_nil_of_kind (hsites hs) hk
    refine ⟨s.emptied b.path, Node.mem_reached_emptyAt.2 ⟨s, hs, ?_, rfl⟩, (htypes s).2 htype,
      (Site.declares_emptied hb (hsites hs) hne).2 ⟨a, hd, rfl⟩⟩
    exact (not_mem_enclosing_iff hb.mem_sites (hsites hs)).1 hout

/-- What is declared at a site that is not in the body is declared there without
the body, or leaks. -/
theorem declaredAt_iff_emptied (hroot : p.root.kind = "program") (hb : b.IsNamespaceBody p.root)
    {x : String} {a : Site} (ha : a ∈ p.root.sites) (hne : a ≠ b) (hout : b ∉ a.enclosing) :
    p.DeclaredAt x a ↔ (p.emptied b).DeclaredAt x (a.emptied b.path) ∨ p.Leaks b x a := by
  rw [declaredAt_emptied hroot hb]
  constructor
  · rintro ⟨s, hs, htype, hd⟩
    by_cases hin : b ∈ s.enclosing
    · refine Or.inr ⟨s, hs, htype, hd.leaks hb hin ?_⟩
      obtain ⟨inner, hsplit, hinner⟩ := Site.exists_enclosing_eq_append hin
      have hmem := hd.target_mem
      rw [hsplit, List.mem_cons, List.mem_append, List.mem_cons] at hmem
      rcases hmem with hmem | hmem | hmem | hmem
      · exact absurd (hmem ▸ hin) hout
      · exact absurd (hinner a hmem) hout
      · exact absurd hmem hne
      · exact hmem
    · exact Or.inl ⟨s, hs, hin, htype, a, hd, rfl⟩
  · rintro (⟨s, hs, -, htype, c, hd, he⟩ | ⟨s, hs, htype, hesc⟩)
    · -- The target is known in the emptied tree only, and there by its path.
      have hsites : s ∈ p.root.sites := (Node.walk_sublist_sites p.root).subset hs
      have hc : c ∈ p.root.sites := by
        have hmem := hd.target_mem
        rw [List.mem_cons] at hmem
        exact hmem.elim (fun h => h ▸ hsites) (Node.mem_walk_of_mem_enclosing hsites)
      have hpath : c.path = a.path := by
        rw [← Site.path_emptied b.path c, he, Site.path_emptied]
      exact ⟨s, hs, htype, Site.eq_of_path_eq hc ha hpath ▸ hd⟩
    · exact ⟨s, hs, htype, hesc.declares hb⟩

/-- Outside of the body of a namespace, a name is global when it is so without the
body and no declaration of it leaks to where it is visible. -/
theorem isGlobal_iff_emptied (hroot : p.root.kind = "program") (hscopes : p.root.ScopesDistinct)
    (hb : b.IsNamespaceBody p.root) (hi : i ∈ p.root.sites) (hne : i.frames ≠ [])
    (hout : b ∉ i.enclosing) :
    p.scopes.isGlobal p.source i = true ↔
      (p.emptied b).scopes.isGlobal p.source (i.emptied b.path) = true ∧
        ∀ a ∈ i.enclosing, ¬ p.Leaks b (p.source.textOf i.node) a := by
  have hne' : (i.emptied b.path).frames ≠ [] := mt (Site.frames_emptied_eq_nil b.path i).1 hne
  have hglobal' := isGlobal_iff (kind_emptied_root.trans hroot) (scopesDistinct_emptied hscopes)
    (emptied_mem_sites hb.mem_sites hi hout) hne'
  have hdeclared : ∀ a ∈ i.enclosing, (p.DeclaredAt (p.source.textOf i.node) a ↔
      (p.emptied b).DeclaredAt (p.source.textOf i.node) (a.emptied b.path) ∨
        p.Leaks b (p.source.textOf i.node) a) := fun a ha => by
    refine declaredAt_iff_emptied hroot hb (Node.mem_walk_of_mem_enclosing hi ha)
      (fun he => hout (he ▸ ha)) fun hmem => hout ?_
    obtain ⟨inner, hsplit, -⟩ := Site.exists_enclosing_eq_append ha
    rw [hsplit]
    exact List.mem_append_right _ (List.mem_cons_of_mem _ hmem)
  have hsource : (p.emptied b).source = p.source := rfl
  rw [hsource, Site.textOf_emptied, Site.enclosing_emptied, List.forall_mem_map] at hglobal'
  rw [isGlobal_iff hroot hscopes hi hne, hglobal', ← forall₂_and]
  refine forall₂_congr fun a ha => ?_
  rw [hdeclared a ha, not_or]

/-- **A namespace body is closed but for `var` and imports.**  Outside of the body, a
name is global in the program exactly when it is in the program without what is in
the body, unless it is global there and the body leaks a declaration of it to a scope
around it. -/
theorem isGlobal_eq_emptied_iff (hroot : p.root.kind = "program") (hscopes : p.root.ScopesDistinct)
    (hb : b.IsNamespaceBody p.root) (hi : i ∈ p.root.sites) (hident : i.node.kind = "identifier")
    (hout : b ∉ i.enclosing) {i' : Site} (hi' : i' ∈ (p.emptied b).root.sites)
    (hpath : i'.path = i.path) :
    p.scopes.isGlobal p.source i = (p.emptied b).scopes.isGlobal (p.emptied b).source i' ↔
      ((p.emptied b).scopes.isGlobal (p.emptied b).source i' = true →
        ∀ a ∈ i.enclosing, ¬ p.Leaks b (p.source.textOf i.node) a) := by
  have hne : i.frames ≠ [] := frames_ne_nil_of_kind hi (by rw [hident, hroot]; decide)
  have hsame : i' = i.emptied b.path :=
    Site.eq_of_path_eq hi' (emptied_mem_sites hb.mem_sites hi hout)
      (hpath.trans (Site.path_emptied ..).symm)
  have hglobal := isGlobal_iff_emptied hroot hscopes hb hi hne hout
  have hsource : (p.emptied b).source = p.source := rfl
  rw [hsame, hsource, Bool.eq_iff_iff, hglobal]
  exact ⟨fun h hg => (h.2 hg).2, fun h => ⟨fun hg => hg.1, fun hg => ⟨hg, h hg⟩⟩⟩

/-! ## A namespace with one variable -/

/-- A namespace that declares `window` by a statement of a kind, and an access
behind it. -/
def namespaced (text kind : String) : Program where
  filename := "n.ts"
  dialect := .typescript
  source := .ofString text
  root :=
    threeWindows.plain "program" 0 45 none [
      threeWindows.plain "internal_module" 0 30 none [
        threeWindows.plain "identifier" 10 11 (some "name") [],
        threeWindows.plain "statement_block" 12 30 (some "body") [
          threeWindows.plain kind 14 28 none [
            threeWindows.plain "variable_declarator" 18 28 none [
              threeWindows.plain "identifier" 18 24 (some "name") [],
              threeWindows.plain "number" 27 28 (some "value") []]]]],
      threeWindows.plain "expression_statement" 31 45 none [
        threeWindows.plain "call_expression" 31 45 none [
          threeWindows.windowFetch 31 (some "function"),
          threeWindows.plain "arguments" 43 45 (some "arguments") []]]]

/-- A namespace with `let`. -/
def namespacedLet : Program :=
  namespaced "namespace N { let window = 1 }\nwindow.fetch()" "lexical_declaration"

/-- A namespace with `var`. -/
def namespacedVar : Program :=
  namespaced "namespace N { var window = 1 }\nwindow.fetch()" "variable_declaration"

/-- What `let` declares in the namespace is closed in. -/
theorem isGlobal_namespacedLet :
    namespacedLet.scopes.isGlobal namespacedLet.source (namespacedLet.root.sites.get ⟨11, by decide⟩)
      = (namespacedLet.emptied (namespacedLet.root.sites.get ⟨3, by decide⟩)).scopes.isGlobal
          namespacedLet.source
          ((namespacedLet.emptied (namespacedLet.root.sites.get ⟨3, by decide⟩)).root.sites.get
            ⟨7, by decide⟩) := by
  have hroot : namespacedLet.root.kind = "program" := rfl
  have hscopes : namespacedLet.root.ScopesDistinct := ⟨by decide, by decide⟩
  have hb : (namespacedLet.root.sites.get ⟨3, by decide⟩).IsNamespaceBody namespacedLet.root :=
    ⟨rfl, namespacedLet.root.sites.get ⟨1, by decide⟩, List.get_mem .., by decide, rfl⟩
  have hi := List.get_mem namespacedLet.root.sites ⟨11, by decide⟩
  have hout := (not_mem_enclosing_iff hb.mem_sites hi).2 (by decide)
  refine (isGlobal_eq_emptied_iff hroot hscopes hb hi rfl hout (List.get_mem ..) rfl).2 ?_
  rintro - a - ⟨s, hs, -, hleaks⟩
  have hkinds : ∀ s ∈ namespacedLet.root.reached,
      s.node.kind ∉ ["variable_declaration", "for_in_statement", "import_statement"] := by decide
  exact hkinds s hs hleaks.kind_mem

/-- What `var` declares in the namespace is not: the access behind it is global
without the body only. -/
theorem isGlobal_namespacedVar :
    ∃ b i i', b.IsNamespaceBody namespacedVar.root ∧ i ∈ namespacedVar.root.sites ∧
      i.node.kind = "identifier" ∧ b ∉ i.enclosing ∧
      i' ∈ (namespacedVar.emptied b).root.sites ∧ i'.path = i.path ∧
      namespacedVar.scopes.isGlobal namespacedVar.source i = false ∧
      (namespacedVar.emptied b).scopes.isGlobal (namespacedVar.emptied b).source i' = true := by
  have hb : (namespacedVar.root.sites.get ⟨3, by decide⟩).IsNamespaceBody namespacedVar.root :=
    ⟨rfl, namespacedVar.root.sites.get ⟨1, by decide⟩, List.get_mem .., by decide, rfl⟩
  have hi := List.get_mem namespacedVar.root.sites ⟨11, by decide⟩
  have hout := (not_mem_enclosing_iff hb.mem_sites hi).2 (by decide)
  exact ⟨_, _, (namespacedVar.emptied (namespacedVar.root.sites.get ⟨3, by decide⟩)).root.sites.get
    ⟨7, by decide⟩, hb, hi, rfl, hout, List.get_mem .., rfl, by decide +kernel, by decide +kernel⟩

end Program

end ScriptLint
