import ScriptLint.Proofs.Scope.Lookup

/-!
# Where a name leads

A declaration is *visible* from a site when its target lies above the site.  A
name resolves to the scope of the nearest target of a visible declaration, and is
global when there is none (`Program.resolution_exact`).

Nothing here looks at the pass again.  A scope of the table holds a name exactly if
a visible node declares the name in it (`Program.any_name_iff`), and the way
outwards from a site is that of `ScopeTable.Draws.resolve?`.
-/

namespace ScriptLint

/-- A node declares the name `x` in the scope that the site `a` opens.  The node
is reached through named children, and neither it nor a node above it holds only
types. -/
def Program.DeclaredAt (p : Program) (x : String) (a : Site) : Prop :=
  ∃ s ∈ p.root.reached, (∀ b ∈ s :: s.enclosing, b.node.isTypeOnly = false) ∧
    s.Declares p.source x a

/-- The site `a` is the nearest above `i` whose scope declares the name `x`. -/
def Program.Innermost (p : Program) (x : String) (i a : Site) : Prop :=
  ∃ inner outer, i.enclosing = inner ++ a :: outer ∧ p.DeclaredAt x a ∧
    ∀ b ∈ inner, ¬ p.DeclaredAt x b

/-- The root of a program declares nothing. -/
theorem Site.Declares.kind_ne_program {source : Source} {x : String} {s a : Site}
    (h : s.Declares source x a) : s.node.kind ≠ "program" := by
  intro hk
  cases h <;> simp_all

/-- A site adds a name to the scope of another one if it declares the name there. -/
theorem Site.any_declaredIn (source : Source) {s : Site} (hs : s.frames ≠ []) (a : Site)
    (x : String) :
    (s.declaredIn source a).any (·.name == x) = true ↔ s.Declares source x a := by
  rw [s.declares_iff_mem_declaredNames source hs, declaredIn]
  by_cases haim : s.aim source = some a
  · simp [haim]
  · simp [haim]

namespace Program

variable {p : Program} {i : Site} {x : String}

/-! ## What the table holds -/

/-- What the visible nodes below the root declare in the scope of the site `a`. -/
noncomputable def bindingsIn (p : Program) (a : Site) : List Binding :=
  (ScopeTable.visibleBelow p.root).flatMap (·.declaredIn p.source a)

/-- The table of a program whose scopes are distinct. -/
theorem draws_scopes (hscopes : p.root.ScopesDistinct) :
    p.scopes.Draws p.root p.root.scopeSites p.bindingsIn :=
  ScopeTable.draws_below p.source hscopes.unique.nodup

/-- A name is declared at a site if a visible node below the root declares it there. -/
theorem declaredAt_iff (hroot : p.root.kind = "program") {a : Site} :
    p.DeclaredAt x a ↔ ∃ s ∈ ScopeTable.visibleBelow p.root, s.Declares p.source x a := by
  have hvisible := ScopeTable.visible_eq_cons_visibleBelow hroot
  constructor
  · rintro ⟨s, hs, hall, hd⟩
    rw [List.forall_mem_cons] at hall
    have hmem : s ∈ p.root.visible := Node.mem_visible.2 ⟨hs, hall.1, hall.2⟩
    rw [hvisible, List.mem_cons] at hmem
    cases hmem with
    | inl he => exact absurd (he ▸ hroot) hd.kind_ne_program
    | inr hmem => exact ⟨s, hmem, hd⟩
  · rintro ⟨s, hs, hd⟩
    have hmem : s ∈ p.root.visible := hvisible ▸ List.mem_cons_of_mem _ hs
    obtain ⟨hreached, hself, habove⟩ := Node.mem_visible.1 hmem
    exact ⟨s, hreached, List.forall_mem_cons.2 ⟨hself, habove⟩, hd⟩

/-- The scope of a site holds the names that are declared at it. -/
theorem any_name_iff (hroot : p.root.kind = "program") {a : Site} :
    (p.bindingsIn a).any (·.name == x) = true ↔ p.DeclaredAt x a := by
  rw [declaredAt_iff hroot, bindingsIn, List.any_flatMap, List.any_eq_true]
  refine exists_congr fun s => and_congr_right fun hs => ?_
  exact s.any_declaredIn p.source (ScopeTable.frames_ne_nil_of_mem_visibleBelow hs) a x

/-- Names are declared at sites that open scopes. -/
theorem DeclaredAt.mem_scopeSites (hroot : p.root.kind = "program")
    (hscopes : p.root.ScopesDistinct) {a : Site} (h : p.DeclaredAt x a) :
    a ∈ p.root.scopeSites :=
  (draws_scopes hscopes).mem_of_any ((any_name_iff hroot).2 h)

/-! ## Where it leads -/

/-- A name at a site below the root is global when no visible declaration
declares it. -/
theorem isGlobal_iff (hroot : p.root.kind = "program") (hscopes : p.root.ScopesDistinct)
    (hi : i ∈ p.root.sites) (hne : i.frames ≠ []) :
    p.scopes.isGlobal p.source i = true ↔
      ∀ a ∈ i.enclosing, ¬ p.DeclaredAt (p.source.textOf i.node) a := by
  have hleads := (draws_scopes hscopes).resolve? hscopes.unique p.source hi hne
  rw [ScopeTable.isGlobal, Option.isNone_iff_eq_none, ScopeTable.rel_eq_none_iff hleads,
    List.find?_eq_none]
  exact forall₂_congr fun a _ => not_congr (any_name_iff hroot)

/-- A name at a site below the root leads to the scope of the nearest target of a
visible declaration. -/
theorem resolve?_of_innermost (hroot : p.root.kind = "program")
    (hscopes : p.root.ScopesDistinct) (hi : i ∈ p.root.sites) (hne : i.frames ≠ [])
    {a : Site} (ha : p.Innermost (p.source.textOf i.node) i a) :
    ∃ n, p.scopes.resolve? p.source i = some n ∧
      ∀ key, p.scopes.scopeAt? key = some n ↔ key = a.node.key := by
  have hdraws := draws_scopes hscopes
  have hleads := hdraws.resolve? hscopes.unique p.source hi hne
  obtain ⟨inner, outer, hsplit, hD, hnot⟩ := ha
  have hfind : i.enclosing.find?
      (fun b => (p.bindingsIn b).any (·.name == p.source.textOf i.node)) = some a :=
    List.find?_eq_some_iff_append.2 ⟨(any_name_iff hroot).2 hD, inner, outer, hsplit, fun b hb => by
      rw [Bool.not_eq_true', Bool.eq_false_iff, ne_eq, any_name_iff hroot]
      exact hnot b hb⟩
  rw [hfind] at hleads
  obtain ⟨n, hn, hnumber⟩ := ScopeTable.exists_of_rel_some hleads
  refine ⟨n, hn, fun key => ?_⟩
  rw [hdraws.scopeAt?_eq_some, hnumber]
  simp [eq_comm]

/-- If a name is declared above a site, one of the declaring sites is nearest. -/
theorem exists_innermost (h : ∃ a ∈ i.enclosing, p.DeclaredAt x a) : ∃ a, p.Innermost x i a := by
  obtain ⟨a, inner, outer, hsplit, hD, hnot⟩ := exists_first h
  exact ⟨a, inner, outer, hsplit, hD, hnot⟩

/-- **Scope resolution is exact.**  In a program whose scopes are distinct, an
identifier that is reached is global exactly when no declaration of its text is
visible from it.  Else it leads to the innermost scope among the targets of
these declarations. -/
theorem resolution_exact (hroot : p.root.kind = "program")
    (hscopes : p.root.ScopesDistinct) (hi : i ∈ p.root.reached)
    (hident : i.node.kind = "identifier") :
    (p.scopes.isGlobal p.source i = true ↔
      ∀ a ∈ i.enclosing, ¬ p.DeclaredAt (p.source.textOf i.node) a) ∧
    (p.scopes.isGlobal p.source i = false → ∃ a, p.Innermost (p.source.textOf i.node) i a) ∧
    ∀ a, p.Innermost (p.source.textOf i.node) i a →
      ∃ n, p.scopes.resolve? p.source i = some n ∧
        ∀ key, p.scopes.scopeAt? key = some n ↔ key = a.node.key := by
  have hsites : i ∈ p.root.sites := (Node.walk_sublist_sites p.root).subset hi
  have hne : i.frames ≠ [] := fun hnil => by
    rw [ScopeTable.eq_root_of_frames_eq_nil hsites hnil] at hident
    exact absurd (hroot.symm.trans hident) (by decide)
  have hglobal := isGlobal_iff hroot hscopes hsites hne
  refine ⟨hglobal, fun hno => ?_, fun a ha => resolve?_of_innermost hroot hscopes hsites hne ha⟩
  refine exists_innermost ?_
  by_contra hall
  rw [hglobal.2 fun a ha hD => hall ⟨a, ha, hD⟩] at hno
  cases hno

/-! ## A parameter with a default -/

/-- A program that reads `window` three times.

    window.fetch
    ({window = 1}) => window.fetch
    window["close"]
-/
def threeWindows : Program where
  filename := "three.js"
  dialect := .javascript
  source := .ofString "window.fetch\n({window = 1}) => window.fetch\nwindow[\"close\"]"
  root :=
    plain "program" 0 59 none [
      plain "expression_statement" 0 12 none [windowFetch 0 none],
      plain "expression_statement" 13 43 none [
        plain "arrow_function" 13 43 none [
          plain "formal_parameters" 13 27 (some "parameters") [
            plain "object_pattern" 14 26 none [
              plain "object_assignment_pattern" 15 25 none [
                plain "shorthand_property_identifier_pattern" 15 21 (some "left") [],
                plain "number" 24 25 (some "right") []]]],
          windowFetch 31 (some "body")]],
      plain "expression_statement" 44 59 none [
        plain "subscript_expression" 44 59 none [
          plain "identifier" 44 50 (some "object") [],
          plain "string" 51 58 (some "index") [plain "string_fragment" 52 57 none []]]]]
where
  /-- A named node. -/
  plain (kind : String) (start stop : Nat) (field? : Option String) (children : List Node) :
      Node :=
    .mk ⟨kind, true, false, false, start, stop, field?⟩ children
  /-- The access `window.fetch` from a byte on. -/
  windowFetch (start : Nat) (field? : Option String) : Node :=
    plain "member_expression" start (start + 12) field? [
      plain "identifier" start (start + 6) (some "object") [],
      plain "property_identifier" (start + 7) (start + 12) (some "property") []]

/-- Below the parameter the name leads to the function, not beyond it. -/
theorem resolve?_default_parameter :
    ∃ n, threeWindows.scopes.resolve? threeWindows.source
        (threeWindows.root.reached.get ⟨13, by decide⟩) = some n ∧
      ∀ key, threeWindows.scopes.scopeAt? key = some n ↔ key = ⟨13, 43, "arrow_function"⟩ := by
  have hroot : threeWindows.root.kind = "program" := rfl
  have hscopes : threeWindows.root.ScopesDistinct := ⟨by decide, by decide⟩
  have hdeclared :
      threeWindows.DeclaredAt "window" (threeWindows.root.reached.get ⟨6, by decide⟩) := by
    refine ⟨threeWindows.root.reached.get ⟨7, by decide⟩, List.get_mem .., by decide, ?_⟩
    refine .parameter rfl rfl (by decide) (List.mem_singleton.2 rfl) ?_
    refine .part (by decide) (List.mem_singleton.2 rfl) ?_
    exact .withDefault (by decide) rfl (.name (by decide) (by decide +kernel))
  have haccess :
      ¬ threeWindows.DeclaredAt "window" (threeWindows.root.reached.get ⟨12, by decide⟩) :=
    fun h => absurd (Node.opensScope_of_mem_scopeSites (h.mem_scopeSites hroot hscopes)) (by decide)
  have hresolution := resolution_exact hroot hscopes
    (List.get_mem threeWindows.root.reached ⟨13, by decide⟩) rfl
  have htext : threeWindows.source.textOf (threeWindows.root.reached.get ⟨13, by decide⟩).node =
      "window" := by decide +kernel
  rw [htext] at hresolution
  exact hresolution.2.2 (threeWindows.root.reached.get ⟨6, by decide⟩)
    ⟨[threeWindows.root.reached.get ⟨12, by decide⟩], _, rfl, hdeclared, by simpa using haccess⟩

end Program

end ScriptLint
