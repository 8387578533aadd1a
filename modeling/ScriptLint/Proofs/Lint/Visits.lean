import ScriptLint.Lint.Rule
import ScriptLint.Proofs.Syntax.Layout

/-!
# Visits in the order of the text

The visits come from a loop that keeps a stack of sites.  What the loop has still to visit is
what is visible below the sites on its stack, one after the other (`Visit.onStack_eq`).  One
round takes the top away and puts its named children there.  That leaves the list of visible
sites as it is, but for the top itself (`Site.visible_eq`).

So a program is visited as the recursion over its tree says (`Program.visits_eq`), each node
once, and in a nested tree from left to right (`Program.visits_exact`).
-/

namespace ScriptLint

/-! ## Below one site -/

namespace Site

/-- What is visible at and below a site, in preorder. -/
def visible (s : Site) : List Site :=
  if s.node.isTypeOnly then []
  else s.node.walkFrom (fun _ child => child.named && !child.isTypeOnly) s.frames

theorem visible_root (n : Node) : (root n).visible = n.visible := rfl

theorem visible_of_isTypeOnly {s : Site} (h : s.node.isTypeOnly = true) : s.visible = [] :=
  if_pos h

theorem visible_eq_walkFrom {s : Site} (h : s.node.isTypeOnly = false) :
    s.visible = s.node.walkFrom (fun _ child => child.named && !child.isTypeOnly) s.frames := by
  rw [visible, h]
  rfl

/-- What is visible below some sites is visible below those that do not hold only types. -/
theorem flatMap_visible (l : List Site) :
    l.flatMap visible = (l.filter fun s => !s.node.isTypeOnly).flatMap
      fun s => s.node.walkFrom (fun _ child => child.named && !child.isTypeOnly) s.frames := by
  induction l with
  | nil => rfl
  | cons s l ih =>
      rw [List.flatMap_cons, ih]
      cases h : s.node.isTypeOnly with
      | true =>
          rw [visible_of_isTypeOnly h, List.nil_append, List.filter_cons_of_neg (by simp [h])]
      | false =>
          rw [visible_eq_walkFrom h, List.filter_cons_of_pos (by simp [h]), List.flatMap_cons]

/-- A site that does not hold only types is visible, and then what is visible below its
named children. -/
theorem visible_eq {s : Site} (h : s.node.isTypeOnly = false) :
    s.visible = s :: s.namedChildren.flatMap visible := by
  rw [visible_eq_walkFrom h, Node.walkFrom_eq, flatMap_visible, namedChildren, List.filter_filter]
  simp only [Bool.and_comm]

end Site

/-! ## The loop -/

namespace Visit

variable {wanted : String → Bool}

theorem filterMap_cons (s : Site) (l : List Site) :
    (s :: l).filterMap (ofSite? wanted) =
      (ofSite? wanted s).toList ++ l.filterMap (ofSite? wanted) := by
  rw [List.filterMap_cons]
  cases ofSite? wanted s with
  | none => rfl
  | some v => rfl

/-- The loop visits what is visible below the sites on its stack, from the top on. -/
theorem onStack_eq (stack : List Site) :
    onStack wanted stack = (stack.flatMap Site.visible).filterMap (ofSite? wanted) := by
  fun_induction onStack wanted stack with
  | case1 => rfl
  | case2 s stack htype ih =>
      rw [ih, List.flatMap_cons, Site.visible_of_isTypeOnly htype, List.nil_append]
  | case3 s stack htype ih =>
      have hvisible := Site.visible_eq (Bool.not_eq_true _ ▸ htype)
      rw [ih, List.flatMap_cons, hvisible, List.cons_append, filterMap_cons, List.flatMap_append]

/-- A visit is made at a member access, and then as such, or at a node of wanted kind. -/
theorem ofSite?_cases (wanted : String → Bool) (s : Site) :
    (s.node.kind ∈ memberKinds ∧ ofSite? wanted s = some (.member s)) ∨
      (s.node.kind ∉ memberKinds ∧ wanted s.node.kind = true ∧
        ofSite? wanted s = some (.node s)) ∨
      (s.node.kind ∉ memberKinds ∧ wanted s.node.kind = false ∧ ofSite? wanted s = none) := by
  rw [ofSite?]
  by_cases hmember : s.node.isMember = true
  · exact .inl ⟨List.contains_iff_mem.1 hmember, if_pos hmember⟩
  · have hkind : s.node.kind ∉ memberKinds := fun h => hmember (List.contains_iff_mem.2 h)
    rw [if_neg hmember]
    cases hwanted : wanted s.node.kind with
    | true => exact .inr (.inl ⟨hkind, rfl, rfl⟩)
    | false => exact .inr (.inr ⟨hkind, rfl, rfl⟩)

theorem map_site_ofSite? (wanted : String → Bool) (s : Site) :
    (ofSite? wanted s).map site =
      Option.guard (fun s => memberKinds.contains s.node.kind || wanted s.node.kind) s := by
  rw [Option.guard]
  rcases ofSite?_cases wanted s with ⟨hkind, h⟩ | ⟨hkind, hwanted, h⟩ | ⟨hkind, hwanted, h⟩
  · simp [h, hkind, site]
  · simp [h, hwanted, site]
  · simp [h, hkind, hwanted]

/-- The sites of the visits are those of member accesses and of nodes of wanted kinds. -/
theorem map_site_filterMap (wanted : String → Bool) (l : List Site) :
    (l.filterMap (ofSite? wanted)).map site =
      l.filter fun s => memberKinds.contains s.node.kind || wanted s.node.kind := by
  rw [List.map_filterMap]
  simp only [map_site_ofSite?]
  exact congrFun List.filterMap_eq_filter l

/-- A visit is one of an access exactly if its site is an access. -/
theorem eq_member_iff {s : Site} {v : Visit} (h : ofSite? wanted s = some v) :
    v = .member v.site ↔ v.site.node.kind ∈ memberKinds := by
  rcases ofSite?_cases wanted s with ⟨hkind, h'⟩ | ⟨hkind, -, h'⟩ | ⟨-, -, h'⟩
  · cases h.symm.trans h'
    exact iff_of_true rfl hkind
  · cases h.symm.trans h'
    exact iff_of_false (fun he => by cases he) hkind
  · cases h.symm.trans h'

end Visit

namespace Program

variable (p : Program) (wanted : String → Bool)

/-- The visits are those of the visible sites, in their order. -/
theorem visits_eq : p.visits wanted = p.root.visible.filterMap (Visit.ofSite? wanted) := by
  rw [visits, Visit.onStack_eq, List.flatMap_singleton, Site.visible_root]

/-- **Each node is visited once, in the order of the text.**  The visits are those of the nodes
that are reached, in preorder, less all that is type-only or below a type-only node, and of the
rest the member accesses and the nodes of wanted kinds.  A member access is visited as such and
in no other way, whatever kinds are wanted.  In a nested tree no visit starts before the one
that comes before it. -/
theorem visits_exact :
    (p.visits wanted).map Visit.site = (p.root.reached.filter fun s =>
        (s :: s.enclosing).all (fun b => !b.node.isTypeOnly) &&
          (memberKinds.contains s.node.kind || wanted s.node.kind)) ∧
      ((p.visits wanted).map Visit.site).Nodup ∧
      (∀ v ∈ p.visits wanted, v = .member v.site ↔ v.site.node.kind ∈ memberKinds) ∧
      (p.root.Nested → (p.visits wanted).Pairwise fun v v' =>
        v.site.node.start ≤ v'.site.node.start) := by
  have hsites : (p.visits wanted).map Visit.site = p.root.visible.filter fun s =>
      memberKinds.contains s.node.kind || wanted s.node.kind := by
    rw [visits_eq, Visit.map_site_filterMap]
  have hreached := Node.visible_sublist_reached p.root
  have hvisible : p.root.visible =
      p.root.reached.filter fun s => (s :: s.enclosing).all fun b => !b.node.isTypeOnly := by
    refine eq_filter_of_sublist hreached p.root.walk_nodup fun s hs => ?_
    rw [Node.mem_visible]
    simp [hs]
  refine ⟨?_, ?_, ?_, ?_⟩
  · rw [hsites, hvisible, List.filter_filter]
    simp only [Bool.and_comm]
  · rw [hsites]
    exact (hreached.nodup p.root.walk_nodup).filter _
  · intro v hv
    rw [visits_eq, List.mem_filterMap] at hv
    obtain ⟨s, -, hs⟩ := hv
    exact Visit.eq_member_iff hs
  · intro hnested
    rw [← List.pairwise_map (f := Visit.site) (R := fun s s' => s.node.start ≤ s'.node.start),
      hsites]
    exact hnested.walk_start_le.sublist (List.filter_sublist.trans hreached)

/-- A declaration with a type, whose value is a chain of accesses.

    let w: T.U = v.x.y; -/
def typedLet : Program where
  filename := "typed.ts"
  dialect := .typescript
  source := .ofString "let w: T.U = v.x.y;"
  root :=
    .plain "program" 0 19 none [
      .plain "lexical_declaration" 0 19 none [
        .plain "variable_declarator" 4 18 none [
          .plain "identifier" 4 5 (some "name") [],
          .plain "type_annotation" 5 10 (some "type") [
            .plain "nested_type_identifier" 7 10 none [
              .plain "identifier" 7 8 (some "module") [],
              .plain "type_identifier" 9 10 (some "name") []]],
          .plain "member_expression" 13 18 (some "value") [
            .plain "member_expression" 13 16 (some "object") [
              .plain "identifier" 13 14 (some "object") [],
              .plain "property_identifier" 15 16 (some "property") []],
            .plain "property_identifier" 17 18 (some "property") []]]]]

/-- The name in the type is not visited, and the accesses are visited as such although their
kind is wanted. -/
theorem visits_typedLet :
    let visits := typedLet.visits ["identifier", "member_expression"].contains
    typedLet.root.Nested ∧
      (visits.map Visit.site).map (·.node.key) =
        [⟨4, 5, "identifier"⟩, ⟨13, 18, "member_expression"⟩, ⟨13, 16, "member_expression"⟩,
          ⟨13, 14, "identifier"⟩] ∧
      (∀ v ∈ visits, v.site.node.kind = "member_expression" → v = .member v.site) ∧
      visits.Pairwise fun v v' => v.site.node.start ≤ v'.site.node.start := by
  intro visits
  have hnested : typedLet.root.Nested := by decide
  obtain ⟨hsites, -, hmember, hordered⟩ :=
    visits_exact typedLet ["identifier", "member_expression"].contains
  refine ⟨hnested, ?_, ?_, hordered hnested⟩
  · rw [hsites]
    decide
  · intro v hv hkind
    refine (hmember v hv).2 ?_
    rw [hkind]
    exact List.mem_cons_self

end Program

end ScriptLint
