import ScriptLint.Proofs.Scope.Binding
import ScriptLint.Scope.Table

/-!
# Which sites open scopes

What a tree says about its scopes before there is a table of them.  Nodes of certain kinds open
scopes (`scopeKinds`), and so does the root.  Those that a pass comes to are the root and the
openers among the sites that are visible below it (`Node.scopeSites`).

Scopes are found by the keys of the nodes that open them.  So the nodes must have keys of their
own (`Node.ScopeKeysUnique`), and they do if no two nodes of their kinds share one and none shares
that of the root (`Node.ScopesDistinct`).
-/

namespace ScriptLint

/-- The kinds of nodes that open scopes, the root aside. -/
def scopeKinds : List String :=
  functionKinds ++ classKinds ++ blockKinds

/-! ## The root and the sites around -/

namespace ScopeTable

/-- The site at the end of the way back is the root. -/
theorem eq_root_of_frames_eq_nil {root : Node} {s : Site} (hs : s ∈ root.sites)
    (h : s.frames = []) : s = .root root := by
  refine Node.walk_induction (P := fun s => s.frames = [] → s = .root root) (fun _ => rfl) ?_ s hs h
  intro s c _ _ hc _ hnil
  obtain ⟨i, -, hframes⟩ := Site.mem_children.1 hc
  rw [hframes] at hnil
  cases hnil

/-- The last of the sites above a site is the root. -/
theorem getLast?_enclosing {root : Node} {s : Site} (hs : s ∈ root.sites) :
    (s :: s.enclosing).getLast? = some (.root root) := by
  refine Node.walk_induction (P := fun s => (s :: s.enclosing).getLast? = some (.root root))
    rfl ?_ s hs
  intro s c _ ih hc _
  rw [Site.enclosing_of_mem_children hc, List.getLast?_cons_cons]
  exact ih

/-- A site below the root has the root above it. -/
theorem getLast?_enclosing_of_ne_nil {root : Node} {s : Site} (hs : s ∈ root.sites)
    (hne : s.frames ≠ []) : s.enclosing.getLast? = some (.root root) := by
  obtain ⟨frame, frames, hcons⟩ := List.exists_cons_of_ne_nil hne
  have hlast := getLast?_enclosing hs
  rw [Site.enclosing_of_frames hcons, List.getLast?_cons_cons] at hlast
  rw [Site.enclosing_of_frames hcons]
  exact hlast

end ScopeTable

/-! ## Sites that open scopes -/

namespace Site

/-- A site that takes declarations with `var` opens a scope. -/
theorem opensScope_of_takesVar {s : Site} (h : s.takesVar = true) : s.opensScope = true := by
  rw [takesVar, Bool.or_eq_true] at h
  cases h with
  | inl h => rw [opensScope, h, Bool.true_or]
  | inr h => exact opensScope_of_mem_functionKinds (List.contains_iff_mem.1 h)

/-- The kind of the scope that a site opens. -/
def scopeKind (s : Site) : ScopeKind :=
  if s.frames.isEmpty then .module
  else if functionKinds.contains s.node.kind then .function
  else if classKinds.contains s.node.kind then .classBody
  else .block

theorem scopeKind_stopsHoisting (s : Site) : s.scopeKind.stopsHoisting = s.takesVar := by
  unfold scopeKind takesVar
  cases s.frames.isEmpty with
  | true => rfl
  | false =>
      cases functionKinds.contains s.node.kind with
      | true => rfl
      | false => cases classKinds.contains s.node.kind <;> rfl

theorem isFunctionBody_iff {s : Site} (hs : s.frames ≠ []) :
    s.isFunctionBody = true ↔
      s.node.kind = "statement_block" ∧ functionKinds.contains s.parentKind = true := by
  obtain ⟨frame, frames, hcons⟩ := List.exists_cons_of_ne_nil hs
  have hparent : s.parent? = some frame.parent := by
    rw [parent?, hcons]
    rfl
  rw [isFunctionBody, hparent, Option.any_some, parentKind_of_frames hcons, Bool.and_eq_true,
    beq_iff_eq]

theorem opensScope_eq {s : Site} (hs : s.frames ≠ []) :
    s.opensScope = (scopeKinds.contains s.node.kind && !s.isFunctionBody) := by
  rw [opensScope, List.isEmpty_eq_false_iff.2 hs, Bool.false_or]
  rfl

/-- Below the root, a site opens a scope of its kind when its node does. -/
theorem opens?_eq {s : Site} (hs : s.frames ≠ []) :
    ScopeTable.opens? s.parentKind s.node = if s.opensScope then some s.scopeKind else none := by
  have hbody := isFunctionBody_iff hs
  rw [ScopeTable.opens?, scopeKind, List.isEmpty_eq_false_iff.2 hs, if_neg Bool.false_ne_true]
  by_cases hf : functionKinds.contains s.node.kind = true
  · rw [if_pos hf, if_pos hf, opensScope_of_mem_functionKinds (List.contains_iff_mem.1 hf)]
    rfl
  · rw [if_neg hf, if_neg hf]
    by_cases hc : classKinds.contains s.node.kind = true
    · have hne : ∀ kind ∈ classKinds, kind ≠ "statement_block" := by decide
      have hmem := List.contains_iff_mem.1 hc
      rw [if_pos hc, if_pos hc, opensScope_of_kind (by simp [hmem]) (hne _ hmem)]
      rfl
    · rw [if_neg hc, if_neg hc, opensScope_eq hs]
      have hkinds : scopeKinds.contains s.node.kind = blockKinds.contains s.node.kind := by
        rw [scopeKinds, List.contains_append, List.contains_append, Bool.eq_false_iff.2 hf,
          Bool.eq_false_iff.2 hc]
        rfl
      rw [hkinds]
      by_cases hb : blockKinds.contains s.node.kind = true
      · rw [if_pos hb, hb, Bool.true_and]
        simp only [← hbody]
        cases s.isFunctionBody <;> rfl
      · rw [if_neg hb, Bool.eq_false_iff.2 hb]
        rfl

/-- A site and those above it are the sites above a child. -/
theorem cons_enclosing (s : Site) :
    s :: s.enclosing = above (⟨s.node, 0⟩ :: s.frames) := rfl

end Site

/-- The sites out of some that open scopes. -/
def openers (l : List Site) : List Site :=
  l.filter Site.opensScope

theorem openers_append (l l' : List Site) : openers (l ++ l') = openers l ++ openers l' :=
  List.filter_append ..

theorem openers_cons (s : Site) (l : List Site) : openers (s :: l) = openers [s] ++ openers l :=
  openers_append [s] l

/-- Sites around another one open the same scopes from the first one that does on. -/
theorem openers_above {a : Site} : ∀ {frames : List Frame},
    (Site.above frames).find? Site.opensScope = some a →
      openers (Site.above frames) = openers (a :: a.enclosing)
  | [], h => by cases h
  | frame :: frames, h => by
      rw [Site.above, List.find?_cons] at h
      cases hopens : Site.opensScope ⟨frame.parent, frames⟩ with
      | true =>
          rw [hopens] at h
          cases h
          rfl
      | false =>
          rw [hopens] at h
          rw [Site.above, openers, List.filter_cons_of_neg (by simp [hopens])]
          exact openers_above h

/-- What only openers can be is found among them. -/
theorem find?_openers {q : Site → Bool} {l : List Site}
    (h : ∀ s, q s = true → s.opensScope = true) : (openers l).find? q = l.find? q := by
  rw [openers, List.find?_filter]
  congr 1
  funext s
  rw [Bool.eq_iff_iff, decide_eq_true_eq]
  exact and_iff_right_of_imp (h s)

/-! ## Visible sites -/

namespace ScopeTable

/-- Whether a pass enters a child: it is named, and does not hold only types. -/
def entersVisible (_parent child : Node) : Bool :=
  child.named && !child.isTypeOnly

/-- The pass leaves out a subtree that holds only types. -/
theorem collect_of_isTypeOnly (source : Source) (t : ScopeTable) (parentKind : String)
    (scope : Nat) {n : Node} (h : n.isTypeOnly = true) :
    t.collect source parentKind scope n = t := by
  cases n with
  | mk label children => rw [collect, if_pos h]

/-- The visible sites below the root of a tree. -/
def visibleBelow (root : Node) : List Site :=
  Node.walkAmong entersVisible root [] 0 root.children

theorem walk_eq_cons_visibleBelow (root : Node) :
    root.walk entersVisible = Site.root root :: visibleBelow root := by
  cases root with
  | mk label children => rw [Node.walk, Node.walkFrom]; rfl

/-- In a program, what is visible is the root and what is visible below it. -/
theorem visible_eq_cons_visibleBelow {root : Node} (hroot : root.kind = "program") :
    root.visible = Site.root root :: visibleBelow root := by
  have htype : root.isTypeOnly = false := by
    rw [Node.isTypeOnly, hroot]
    decide
  rw [← walk_eq_cons_visibleBelow]
  exact Node.visible_eq_walk htype

theorem visibleBelow_sublist_sites (root : Node) : (visibleBelow root).Sublist root.sites := by
  have hwalk : (root.walk entersVisible).Sublist root.sites := Node.walk_sublist_sites root
  rw [walk_eq_cons_visibleBelow] at hwalk
  exact (List.sublist_cons_self ..).trans hwalk

theorem frames_ne_nil_of_mem_visibleBelow {root : Node} {s : Site} (hs : s ∈ visibleBelow root) :
    s.frames ≠ [] := by
  intro hnil
  obtain ⟨j, -, hsuffix⟩ := Node.frames_suffix_of_mem_walkAmong hs
  rw [hnil] at hsuffix
  exact absurd hsuffix.length_le (by simp)

/-- A visible site that opens a scope is of a kind that does, the root aside. -/
theorem kind_of_mem_openers {root : Node} {s : Site} (hs : s ∈ openers (visibleBelow root)) :
    s.node.kind ∈ scopeKinds := by
  obtain ⟨hs, hopens⟩ := List.mem_filter.1 hs
  rw [Site.opensScope_eq (frames_ne_nil_of_mem_visibleBelow hs), Bool.and_eq_true] at hopens
  exact List.contains_iff_mem.1 hopens.1

end ScopeTable

/-! ## The scopes of a tree and their keys -/

namespace Node

/-- The root, and the sites below it at which the pass opens scopes. -/
def scopeSites (root : Node) : List Site :=
  .root root :: openers (ScopeTable.visibleBelow root)

/-- The root and the nodes that open scopes have keys of their own, which no other node has.

Keys hold the kind of their node.  What may not share the key of a node that opens a scope is thus
of such a kind too.  What may not share that of the root is a `program` below the root that has the
range of the root, and no parser yields such a node. -/
def ScopeKeysUnique (root : Node) : Prop :=
  ∀ a ∈ root.scopeSites, ∀ s ∈ root.sites, s.node.key = a.node.key → s = a

/-- No two nodes that open scopes have the same key, and no node has that of the
root, which opens the scope of the program.

Keys hold the kind of their node.  So the second condition shuts out nothing but a `program` below
the root that has the range of the root, and no parser yields such a node. -/
structure ScopesDistinct (root : Node) : Prop where
  /-- Keys tell nodes that open scopes apart. -/
  keys : root.KeysDistinct scopeKinds
  /-- The key of the root is its own. -/
  root : ∀ s ∈ root.sites, s.node.key = root.key → s.frames = []

variable {root : Node} {s : Site}

/-- What opens a scope stands in no node that holds only types. -/
theorem not_isTypeOnly_of_mem_scopeSites (hs : s ∈ root.scopeSites) :
    ∀ a ∈ s :: s.enclosing, a.frames ≠ [] → a.node.isTypeOnly = false := by
  have hwalk : s ∈ root.walk ScopeTable.entersVisible := by
    rw [ScopeTable.walk_eq_cons_visibleBelow]
    rcases List.mem_cons.1 hs with rfl | hs
    · exact List.mem_cons_self
    · exact List.mem_cons_of_mem _ (List.mem_of_mem_filter hs)
  refine walk_induction (P := fun s => ∀ a ∈ s :: s.enclosing, a.frames ≠ [] →
    a.node.isTypeOnly = false) ?_ ?_ s hwalk
  · intro a ha hne
    exact absurd (congrArg Site.frames (List.mem_singleton.1 ha)) hne
  · intro s c _ ih hc henter
    rw [ScopeTable.entersVisible, Bool.and_eq_true, Bool.not_eq_true'] at henter
    rw [Site.enclosing_of_mem_children hc, List.forall_mem_cons]
    exact ⟨fun _ => henter.2, ih⟩

theorem root_mem_scopeSites (root : Node) : Site.root root ∈ root.scopeSites :=
  List.mem_cons_self

theorem opensScope_of_mem_scopeSites (hs : s ∈ root.scopeSites) : s.opensScope = true := by
  rcases List.mem_cons.1 hs with rfl | hs
  · rfl
  · exact (List.mem_filter.1 hs).2

theorem scopeSites_subset_sites : root.scopeSites ⊆ root.sites := by
  intro s hs
  rcases List.mem_cons.1 hs with rfl | hs
  · exact root_mem_walk root
  · exact (ScopeTable.visibleBelow_sublist_sites root).subset (List.mem_of_mem_filter hs)

theorem scopeSites_nodup : root.scopeSites.Nodup := by
  have hwalk : (root.walk ScopeTable.entersVisible).Nodup := root.walk_nodup
  rw [ScopeTable.walk_eq_cons_visibleBelow] at hwalk
  exact hwalk.sublist (List.filter_sublist.cons_cons _)

/-- Keys of their own are distinct. -/
theorem ScopeKeysUnique.nodup (h : root.ScopeKeysUnique) :
    (root.scopeSites.map (·.node.key)).Nodup :=
  scopeSites_nodup.map_on fun s hs a ha hkey => h a ha s (scopeSites_subset_sites hs) hkey

/-- Scopes that are distinct have keys of their own. -/
theorem ScopesDistinct.unique (h : root.ScopesDistinct) : root.ScopeKeysUnique := by
  intro a ha s hs hkey
  have hsites := scopeSites_subset_sites ha
  rcases List.mem_cons.1 ha with rfl | ha
  · exact ScopeTable.eq_root_of_frames_eq_nil hs (h.root s hs hkey)
  · exact (h.keys.eq_of_key_eq hsites hs (ScopeTable.kind_of_mem_openers ha) hkey.symm).symm

end Node

end ScriptLint
