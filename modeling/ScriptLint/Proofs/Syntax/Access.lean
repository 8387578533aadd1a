import ScriptLint.Member
import ScriptLint.Proofs.Syntax.Walk

/-!
# Which name an access spells, and where its chain ends

`Node.Spells` says how the name of a property can be written: as a name, as a
private name, as a string, or as a template without substitutions.
`Access.symbol?` reads off what is spelled (`Access.symbol?_eq_some_iff`).

`Site.IsObject` says that a site is the object of the access around it.
`Access.isObject` compares keys instead of places, which is the same if no two
accesses have one key (`Access.isObject_iff`).
-/

namespace ScriptLint

/-! ## Names -/

/-- The access `n` spells the name `x` after its object. -/
inductive Node.Spells (source : Source) (x : String) (n : Node) : Prop where
  /-- A property by its name. -/
  | name {c : Node} :
      n.kind ≠ "subscript_expression" → n.child? "property" = some c →
      c.kind ≠ "private_property_identifier" → source.textOf c = x → Spells source x n
  /-- A private property by its name with the sign. -/
  | privateName {c : Node} :
      n.kind ≠ "subscript_expression" → n.child? "property" = some c →
      c.kind = "private_property_identifier" → source.charsOf c = '#' :: x.toList →
      Spells source x n
  /-- A private property that the source writes without the sign. -/
  | unsignedName {c : Node} :
      n.kind ≠ "subscript_expression" → n.child? "property" = some c →
      c.kind = "private_property_identifier" → source.charsOf c = x.toList →
      x.toList.head? ≠ some '#' → Spells source x n
  /-- A string. -/
  | string {c : Node} :
      n.kind = "subscript_expression" → n.child? "index" = some c → c.kind = "string" →
      source.stringValue c = codePoints x → Spells source x n
  /-- A template without substitutions, whose body counts as it is. -/
  | template {c : Node} :
      n.kind = "subscript_expression" → n.child? "index" = some c →
      c.kind = "template_string" → (∀ d ∈ c.namedChildren, d.kind ≠ "template_substitution") →
      Literal.body (source.charsOf c) = x.toList → Spells source x n

theorem codePoints_inj {x y : String} (h : codePoints x = codePoints y) : x = y :=
  String.toList_injective (List.map_injective_iff.2 (fun _ _ => Char.toNat_inj.1) h)

theorem codePoints_ofList (s : List Char) : codePoints (String.ofList s) = s.map Char.toNat := by
  rw [codePoints, String.toList_ofList]

theorem map_toNat_eq_codePoints {s : List Char} {x : String} :
    s.map Char.toNat = codePoints x ↔ s = x.toList := by
  rw [← codePoints_ofList]
  constructor
  · intro h
    rw [← codePoints_inj h, String.toList_ofList]
  · rintro rfl
    rw [String.ofList_toList]

namespace Access

variable {source : Source} {s : Site} {a : Access}

theorem ofSite?_eq_some :
    ofSite? source s = some a ↔ s.node.isMember = true ∧ a.site = s ∧
      s.child? "object" = some a.object ∧ property? source s.node = some a.property := by
  obtain ⟨site, object, property⟩ := a
  unfold ofSite?
  split
  · next hmember =>
      split
      · next o p ho hp =>
          rw [ho, hp]
          simp only [Option.some.injEq, Access.mk.injEq, hmember, true_and]
          exact and_congr_left' eq_comm
      · next hnone =>
          simp only [reduceCtorEq, false_iff]
          rintro ⟨-, -, ho, hp⟩
          exact hnone _ _ ho hp
  · next hmember => simp [hmember]

/-- What is read off a named property is what it spells. -/
theorem symbol?_named {n c : Node} {x : String} (hn : n.kind ≠ "subscript_expression")
    (hc : n.child? "property" = some c) (ha : a.property = propertyOf source c) :
    a.symbol? source = some (codePoints x) ↔ n.Spells source x := by
  have hkey {d : Node} (hd : n.child? "property" = some d) : d = c :=
    Option.some.inj (hd.symm.trans hc)
  rw [symbol?, ha, propertyOf]
  by_cases hk : c.kind = "private_property_identifier"
  · rw [if_pos hk]
    simp only [Option.some.injEq, codePoints_ofList]
    rw [map_toNat_eq_codePoints]
    constructor
    · intro h
      by_cases hsign : (source.charsOf c).head? = some '#'
      · obtain ⟨rest, hs⟩ := List.head?_eq_some_iff.1 hsign
        rw [if_pos hsign, hs, List.tail_cons] at h
        exact .privateName hn hc hk (h ▸ hs)
      · rw [if_neg hsign] at h
        exact .unsignedName hn hc hk h (h ▸ hsign)
    · intro h
      cases h with
      | name _ hd hk' _ => exact absurd (hkey hd ▸ hk) hk'
      | privateName _ hd _ htext =>
          rw [← hkey hd, htext, List.head?_cons, if_pos rfl, List.tail_cons]
      | unsignedName _ hd _ htext hsign => rw [← hkey hd, htext, if_neg hsign]
      | string hn' _ _ _ => exact absurd hn' hn
      | template hn' _ _ _ _ => exact absurd hn' hn
  · rw [if_neg hk]
    simp only [Option.some.injEq]
    constructor
    · exact fun h => .name hn hc hk (codePoints_inj h)
    · intro h
      cases h with
      | name _ hd _ htext =>
          rw [hkey hd] at htext
          exact congrArg codePoints htext
      | privateName _ hd hk' _ => exact absurd (hkey hd ▸ hk') hk
      | unsignedName _ hd hk' _ _ => exact absurd (hkey hd ▸ hk') hk
      | string hn' _ _ _ => exact absurd hn' hn
      | template hn' _ _ _ _ => exact absurd hn' hn

/-- What is read off an expression is what it spells. -/
theorem symbol?_computed {n c : Node} {x : String} (hn : n.kind = "subscript_expression")
    (hc : n.child? "index" = some c) (ha : a.property = .computed c) :
    a.symbol? source = some (codePoints x) ↔ n.Spells source x := by
  have hkey {d : Node} (hd : n.child? "index" = some d) : d = c :=
    Option.some.inj (hd.symm.trans hc)
  rw [symbol?, ha]
  constructor
  · intro h
    simp only at h
    split at h
    · next hk => exact .string hn hc hk (Option.some.inj h)
    · split at h
      · next hk =>
          unfold Source.templateRaw? at h
          split at h
          · cases h
          · next hany =>
              refine .template hn hc hk (fun d hd hk' => hany ?_)
                (map_toNat_eq_codePoints.1 (Option.some.inj h))
              exact List.any_eq_true.2 ⟨d, hd, beq_iff_eq.2 hk'⟩
      · cases h
  · intro h
    cases h with
    | name hn' _ _ _ => exact absurd hn hn'
    | privateName hn' _ _ _ => exact absurd hn hn'
    | unsignedName hn' _ _ _ _ => exact absurd hn hn'
    | string _ hd hk hvalue =>
        rw [hkey hd] at hk hvalue
        simp only [hk, if_true, hvalue]
    | template _ hd hk hplain hbody =>
        rw [hkey hd] at hk hplain hbody
        have hany : ¬ (c.namedChildren.any (·.kind == "template_substitution")) = true := by
          simpa using hplain
        simp only [hk, Source.templateRaw?, if_neg hany, if_true, hbody]
        rfl

/-- An access has the symbol that its node spells. -/
theorem symbol?_eq_some_iff {x : String} (h : ofSite? source s = some a) :
    a.symbol? source = some (codePoints x) ↔ s.node.Spells source x := by
  obtain ⟨-, -, -, hproperty⟩ := ofSite?_eq_some.1 h
  unfold property? at hproperty
  split at hproperty
  · next hn =>
      obtain ⟨c, hc, ha⟩ := Option.map_eq_some_iff.1 hproperty
      exact symbol?_computed hn hc ha.symm
  · next hn =>
      obtain ⟨c, hc, ha⟩ := Option.map_eq_some_iff.1 hproperty
      exact symbol?_named hn hc ha.symm

end Access

/-- A node that spells a name and has an object can be viewed as an access. -/
theorem Node.Spells.exists_access {source : Source} {s o : Site} {x : String}
    (h : s.node.Spells source x) (hkind : s.node.kind ∈ memberKinds)
    (ho : s.child? "object" = some o) :
    ∃ a, Access.ofSite? source s = some a ∧ a.object = o := by
  have hproperty : ∃ property, Access.property? source s.node = some property := by
    unfold Access.property?
    cases h with
    | name hn hc _ _ => exact ⟨_, by rw [if_neg hn, hc, Option.map_some]⟩
    | privateName hn hc _ _ => exact ⟨_, by rw [if_neg hn, hc, Option.map_some]⟩
    | unsignedName hn hc _ _ _ => exact ⟨_, by rw [if_neg hn, hc, Option.map_some]⟩
    | string hn hc _ _ => exact ⟨_, by rw [if_pos hn, hc, Option.map_some]⟩
    | template hn hc _ _ _ => exact ⟨_, by rw [if_pos hn, hc, Option.map_some]⟩
  obtain ⟨property, hproperty⟩ := hproperty
  exact ⟨⟨s, o, property⟩,
    Access.ofSite?_eq_some.2 ⟨List.contains_iff_mem.2 hkind, rfl, ho, hproperty⟩, rfl⟩

/-! ## Chains -/

/-- The site is the object of an access, and that access is its parent. -/
def Site.IsObject (s : Site) : Prop :=
  ∃ parent ∈ s.enclosing.head?, parent.node.kind ∈ memberKinds ∧ parent.child? "object" = some s

theorem Node.isMember_iff {n : Node} : n.isMember = true ↔ n.kind ∈ memberKinds :=
  List.contains_iff_mem

namespace Access

/-- Where accesses have distinct keys, an access is the object of the access
around it when it stands in its place. -/
theorem isObject_iff {root : Node} (hkeys : root.KeysDistinct memberKinds) {a : Access}
    (hs : a.site ∈ root.sites) (hmember : a.site.node.kind ∈ memberKinds) :
    a.isObject = true ↔ a.site.IsObject := by
  obtain ⟨⟨n, frames⟩, object, property⟩ := a
  cases frames with
  | nil => simp [isObject, Site.parent?, Site.IsObject, Site.enclosing, Site.above]
  | cons frame frames =>
      have hparent : (⟨frame.parent, frames⟩ : Site) ∈ root.sites :=
        Node.mem_walk_of_mem_enclosing hs (List.mem_cons_self ..)
      have hhead : (Site.enclosing ⟨n, frame :: frames⟩).head? = some ⟨frame.parent, frames⟩ := rfl
      have hnode := Site.map_node_child? ⟨frame.parent, frames⟩ "object"
      simp only [Site.IsObject, hhead, Option.mem_some_iff, exists_eq_left', isObject, Site.parent?,
        List.head?_cons, Option.map_some, Bool.and_eq_true, Node.isMember_iff, ← hnode]
      refine and_congr_right fun _ => ?_
      cases ho : Site.child? ⟨frame.parent, frames⟩ "object" with
      | none => simp
      | some o =>
          simp only [Option.map_some, Option.any_some, beq_iff_eq, Option.some.injEq]
          constructor
          · intro hkey
            have hsites := Node.mem_sites_of_mem_children hparent (Site.mem_children_of_child? ho)
            exact (hkeys.eq_of_key_eq hs hsites hmember hkey.symm).symm
          · rintro rfl
            rfl

end Access

/-! ## Where accesses stand -/

theorem Program.site_mem_of_mem_accesses {p : Program} {a : Access} (ha : a ∈ p.accesses) :
    a.site ∈ p.root.sites ∧ a.site.node.kind ∈ memberKinds := by
  obtain ⟨s, hs, hview⟩ := List.mem_filterMap.1 ha
  obtain ⟨hmember, rfl, -, -⟩ := Access.ofSite?_eq_some.1 hview
  have hreached := (Node.visible_sublist_reached p.root).subset hs
  exact ⟨(Node.walk_sublist_sites p.root).subset hreached, Node.isMember_iff.1 hmember⟩

namespace Node

/-- Neither the node nor a node below it is an access. -/
def AccessFree (n : Node) : Prop :=
  ∀ s ∈ n.sites, s.node.kind ∉ memberKinds

instance (n : Node) : Decidable n.AccessFree :=
  inferInstanceAs (Decidable (∀ s ∈ n.sites, s.node.kind ∉ memberKinds))

/-- The field that an access has its key in. -/
def keyField (n : Node) : String :=
  if n.kind = "subscript_expression" then "index" else "property"

/-- Accesses stand nowhere but where the grammar puts them: inside an access only
in its object and its key, and never in identifiers, strings and templates
without substitutions. -/
structure AccessesInPlace (root : Node) : Prop where
  /-- Other children of an access have none. -/
  parts : ∀ s ∈ root.sites, s.node.kind ∈ memberKinds → ∀ c ∈ s.children,
    s.child? "object" ≠ some c → s.child? s.node.keyField ≠ some c → c.node.AccessFree
  /-- Identifiers and strings have none. -/
  names : ∀ s ∈ root.sites, s.node.kind ∈ ["identifier", "string"] → s.node.AccessFree
  /-- Templates without substitutions have none. -/
  templates : ∀ s ∈ root.sites, s.node.kind = "template_string" →
    (∀ d ∈ s.node.namedChildren, d.kind ≠ "template_substitution") → s.node.AccessFree

theorem AccessFree.kind_notMem {root : Node} {s t : Site} (h : s.node.AccessFree)
    (ht : t ∈ root.sites) (hs : s ∈ t :: t.enclosing) : t.node.kind ∉ memberKinds := by
  obtain ⟨u, hu, hnode⟩ := exists_mem_walk_of_mem_enclosing ht hs
  exact hnode ▸ h u hu

end Node

end ScriptLint
