import ScriptLint.Lint.WindowAccess
import ScriptLint.Proofs.Lint.Visits
import ScriptLint.Proofs.Scope.Resolution
import ScriptLint.Proofs.Syntax.Access

/-!
# What is reported about the window

`WindowAccess.Offence` says of a site that it is an access to be reported, with
nothing computed: no table of scopes, no symbols, no keys.

The rule reports the offences and nothing else, each once, in preorder
(`WindowAccess.check_exact`).  The way there has two steps.

* What a rule reports is a filter of what is visible (`WindowAccess.check_eq`).
* The test of this filter holds of a visible site exactly when the site is an
  offence (`WindowAccess.reports_iff`).  Scopes are read off by
  `Program.isGlobal_iff`, names by `Access.symbol?_eq_some_iff` and chains by
  `Access.isObject_iff`.
-/

namespace ScriptLint

namespace WindowAccess

/-- The site is an access to a denied name through the global `window`. -/
structure Offence (p : Program) (s : Site) : Prop where
  /-- It is reached through named children. -/
  reached : s ∈ p.root.reached
  /-- Neither it nor a node above it holds only types. -/
  untyped : ∀ b ∈ s :: s.enclosing, b.node.isTypeOnly = false
  /-- It is an access. -/
  access : s.node.kind ∈ memberKinds
  /-- It is the end of its chain. -/
  outermost : ¬ s.IsObject
  /-- Its object is the identifier `window`, which nothing around it declares. -/
  object : ∃ o, s.child? "object" = some o ∧ o.node.kind = "identifier" ∧
    p.source.textOf o.node = "window" ∧ ∀ a ∈ o.enclosing, ¬ p.DeclaredAt "window" a
  /-- It spells a denied name. -/
  denied : ∃ name ∈ deniedNames, s.node.Spells p.source name

/-- What is reported at a site. -/
def report (p : Program) (s : Site) : Diagnostic where
  filename := p.filename
  range := p.source.rangeOf s.node
  code := code
  message := message
  hint? := some hint
  context := p.source.lineText (p.source.rangeOf s.node).start.line

/-- Whether something is reported at a site. -/
def reports (p : Program) (s : Site) : Bool :=
  (Access.ofSite? p.source s).any (offends p p.scopes)

/-! ## The filter -/

theorem reports_eq_false_of_not_isMember {p : Program} {s : Site} (h : ¬ s.node.isMember = true) :
    reports p s = false := by
  rw [reports, Access.ofSite?, if_neg h]
  rfl

/-- What is found at the visit of an access. -/
theorem findingsAt_member (p : Program) (s : Site) :
    (rule.findingsAt p p.scopes (.member s)).map (rule.diagnostic p)
      = if reports p s then [report p s] else [] := by
  rw [Rule.findingsAt, reports]
  cases ha : Access.ofSite? p.source s with
  | none => rfl
  | some a =>
      obtain ⟨-, rfl, -, -⟩ := Access.ofSite?_eq_some.1 ha
      simp only [rule, Option.any_some]
      split
      · rfl
      · rfl

/-- What is reported are the visible sites that the test lets through. -/
theorem check_eq (p : Program) :
    rule.check p = (p.root.visible.filter (reports p)).map (report p) := by
  unfold Rule.check Rule.findings
  rw [p.visits_eq]
  generalize p.root.visible = sites
  induction sites with
  | nil => rfl
  | cons s sites ih =>
      by_cases hmember : s.node.isMember = true
      · have hvisit : Visit.ofSite? (fun _ => true) s = some (.member s) := if_pos hmember
        rw [List.filterMap_cons_some hvisit, List.flatMap_cons, List.map_append, ih,
          findingsAt_member]
        cases hreports : reports p s with
        | true => rw [List.filter_cons_of_pos hreports]; rfl
        | false => rw [List.filter_cons_of_neg (by simp [hreports])]; rfl
      · have hvisit : Visit.ofSite? (fun _ => true) s = some (.node s) := by
          rw [Visit.ofSite?, if_neg hmember]
          rfl
        have hreports := reports_eq_false_of_not_isMember (p := p) hmember
        rw [List.filterMap_cons_some hvisit, List.flatMap_cons, List.map_append, ih,
          List.filter_cons_of_neg (by simp [hreports])]
        rfl

/-! ## The test -/

theorem isDeniedSymbol_iff {p : Program} {s : Site} {a : Access}
    (ha : Access.ofSite? p.source s = some a) :
    (a.symbol? p.source).any isDeniedSymbol = true ↔
      ∃ name ∈ deniedNames, s.node.Spells p.source name := by
  rw [Option.any_eq_true]
  constructor
  · rintro ⟨symbol, hsymbol, hdenied⟩
    obtain ⟨name, hname, hpoints⟩ := List.any_eq_true.1 hdenied
    refine ⟨name, hname, (Access.symbol?_eq_some_iff ha).1 ?_⟩
    rw [hsymbol, beq_iff_eq.1 hpoints]
  · rintro ⟨name, hname, hspells⟩
    refine ⟨codePoints name, (Access.symbol?_eq_some_iff ha).2 hspells, ?_⟩
    exact List.any_eq_true.2 ⟨name, hname, beq_iff_eq.2 rfl⟩

/-- What the test asks of a site, read off its node as far as it goes. -/
theorem reports_eq_true {p : Program} {s : Site} :
    reports p s = true ↔
      ∃ a, Access.ofSite? p.source s = some a ∧ s.node.kind ∈ memberKinds ∧
        s.child? "object" = some a.object ∧ a.object.node.kind = "identifier" ∧
        p.source.textOf a.object.node = "window" ∧
        (∃ name ∈ deniedNames, s.node.Spells p.source name) ∧
        a.isObject = false ∧ p.scopes.isGlobal p.source a.object = true := by
  rw [reports, Option.any_eq_true]
  refine exists_congr fun a => and_congr_right fun ha => ?_
  obtain ⟨hmember, -, ho, -⟩ := Access.ofSite?_eq_some.1 ha
  simp only [offends, isCandidate, Bool.and_eq_true, Bool.not_eq_true', beq_iff_eq,
    isDeniedSymbol_iff ha, Node.isMember_iff.1 hmember, ho, true_and]
  constructor
  · rintro ⟨⟨⟨⟨hend, hident⟩, htext⟩, hglobal⟩, hdenied⟩
    exact ⟨hident, htext, hdenied, hend, hglobal⟩
  · rintro ⟨hident, htext, hdenied, hend, hglobal⟩
    exact ⟨⟨⟨⟨hend, hident⟩, htext⟩, hglobal⟩, hdenied⟩

/-- The object of an access is global when nothing around it declares it. -/
theorem isGlobal_object_iff {p : Program} (hroot : p.root.kind = "program")
    (hscopes : p.root.ScopesDistinct) {s o : Site} (hs : s ∈ p.root.sites)
    (ho : s.child? "object" = some o) {x : String} (htext : p.source.textOf o.node = x) :
    p.scopes.isGlobal p.source o = true ↔ ∀ a ∈ o.enclosing, ¬ p.DeclaredAt x a := by
  have hchild := Site.mem_children_of_child? ho
  have hne : o.frames ≠ [] := fun hnil => by
    obtain ⟨i, -, hframes⟩ := Site.mem_children.1 hchild
    rw [hframes] at hnil
    cases hnil
  rw [← htext]
  exact Program.isGlobal_iff hroot hscopes (Node.mem_sites_of_mem_children hs hchild) hne

/-- A visible site passes the test when it is an offence. -/
theorem reports_iff {p : Program} (hroot : p.root.kind = "program")
    (hscopes : p.root.ScopesDistinct) (hmembers : p.root.KeysDistinct memberKinds)
    {s : Site} (hs : s ∈ p.root.visible) : reports p s = true ↔ Offence p s := by
  obtain ⟨hreached, hself, habove⟩ := Node.mem_visible.1 hs
  have hsites : s ∈ p.root.sites := (Node.walk_sublist_sites p.root).subset hreached
  rw [reports_eq_true]
  constructor
  · rintro ⟨a, ha, hkind, ho, hident, htext, hdenied, hend, hglobal⟩
    obtain ⟨-, rfl, -, -⟩ := Access.ofSite?_eq_some.1 ha
    refine ⟨hreached, List.forall_mem_cons.2 ⟨hself, habove⟩, hkind, fun hlink => ?_,
      ⟨a.object, ho, hident, htext, ?_⟩, hdenied⟩
    · rw [(Access.isObject_iff hmembers hsites hkind).2 hlink] at hend
      cases hend
    · exact (isGlobal_object_iff hroot hscopes hsites ho htext).1 hglobal
  · intro h
    obtain ⟨o, ho, hident, htext, hglobal⟩ := h.object
    obtain ⟨name, hname, hspells⟩ := h.denied
    obtain ⟨a, ha, rfl⟩ := hspells.exists_access h.access ho
    obtain ⟨-, rfl, -, -⟩ := Access.ofSite?_eq_some.1 ha
    have hend : a.isObject = false := by
      rw [Bool.eq_false_iff, Ne, Access.isObject_iff hmembers hsites h.access]
      exact h.outermost
    exact ⟨a, ha, h.access, ho, hident, htext, h.denied, hend,
      (isGlobal_object_iff hroot hscopes hsites ho htext).2 hglobal⟩

/-- **The rule reports exactly the offences.**  In a program whose scopes are
distinct, and whose accesses have distinct keys, there is one diagnostic for each
offence, in preorder, and no other. -/
theorem check_exact {p : Program} (hroot : p.root.kind = "program")
    (hscopes : p.root.ScopesDistinct) (hmembers : p.root.KeysDistinct memberKinds) :
    ∃ sites : List Site, sites.Sublist p.root.reached ∧ sites.Nodup ∧
      (∀ s, s ∈ sites ↔ Offence p s) ∧ rule.check p = sites.map (report p) := by
  have hsublist : (p.root.visible.filter (reports p)).Sublist p.root.reached :=
    List.filter_sublist.trans (Node.visible_sublist_reached p.root)
  refine ⟨_, hsublist, hsublist.nodup p.root.walk_nodup, fun s => ?_, check_eq p⟩
  rw [List.mem_filter]
  constructor
  · exact fun h => (reports_iff hroot hscopes hmembers h.1).1 h.2
  · intro h
    obtain ⟨hself, habove⟩ := List.forall_mem_cons.1 h.untyped
    have hs : s ∈ p.root.visible := Node.mem_visible.2 ⟨h.reached, hself, habove⟩
    exact ⟨hs, (reports_iff hroot hscopes hmembers hs).2 h⟩

/-- Of three accesses, the one below the parameter `window` is no offence. -/
theorem check_threeWindows :
    ∃ s t, (∀ u, Offence Program.threeWindows u ↔ u = s ∨ u = t) ∧
      rule.check Program.threeWindows =
        [report Program.threeWindows s, report Program.threeWindows t] := by
  obtain ⟨sites, -, -, hsites, hcheck⟩ := check_exact (p := Program.threeWindows) rfl
    ⟨by decide, by decide⟩ (by decide)
  have hlength : sites.length = 2 := by
    have h : (rule.check Program.threeWindows).length = 2 := by decide +kernel
    rwa [hcheck, List.length_map] at h
  obtain ⟨s, t, rfl⟩ := List.length_eq_two.1 hlength
  exact ⟨s, t, fun u => by rw [← hsites, List.mem_pair], hcheck⟩

end WindowAccess

end ScriptLint
