import ScriptLint.Proofs.Scope.Contents
import ScriptLint.Proofs.Syntax.Access
import ScriptLint.Proofs.Syntax.Layout

/-!
# Keys that tell nodes apart

Two nodes of a laid-out tree can cover the same bytes, but only if one lies in the other.  If
the outer one has two children or more, each of them is shorter than it is
(`Node.Fits.start_lt_or_stop_lt`), and so is all that lies in them.  So where nodes of some
kinds have two children or more, their keys are distinct (`Node.LaidOut.keysDistinct`).

Nodes that open scopes and accesses are of such kinds.  Keys can then stand in for the nodes: no
scope takes over the entry of another one, and the object of an access is known by its key
(`Program.keys_exact`).
-/

namespace ScriptLint

namespace Node

/-! ## Shorter than the node around -/

/-- A child of a node with two children or more leaves out some bytes of the node. -/
theorem Fits.start_lt_or_stop_lt {n c : Node} (h : n.Fits) (htwo : 2 ≤ n.children.length)
    (hc : c ∈ n.children) : n.start < c.start ∨ c.stop < n.stop := by
  obtain ⟨hwithin, hordered, hnonempty⟩ := h
  match hchildren : n.children with
  | [] => simp [hchildren] at htwo
  | [_] => simp [hchildren] at htwo
  | first :: second :: rest =>
      rw [hchildren] at hwithin hordered hnonempty hc
      obtain ⟨hfirst, -⟩ := List.pairwise_cons.1 hordered
      obtain ⟨hstart, -⟩ := hwithin first List.mem_cons_self
      have hlt := hnonempty first List.mem_cons_self
      rcases List.mem_cons.1 hc with rfl | hc
      · have hsecond : second ∈ c :: second :: rest := List.mem_cons_of_mem _ List.mem_cons_self
        have hbefore := hfirst second List.mem_cons_self
        have hafter := hnonempty second hsecond
        have hstop := (hwithin second hsecond).2
        omega
      · have hbefore := hfirst c hc
        omega

variable {root : Node}

/-- So does everything below. -/
theorem LaidOut.start_lt_or_stop_lt (h : root.LaidOut) {s t : Site} (hs : s ∈ root.sites)
    (ht : t ∈ root.sites) (hst : s ∈ t.enclosing) (htwo : 2 ≤ s.node.children.length) :
    s.node.start < t.node.start ∨ t.node.stop < s.node.stop := by
  obtain ⟨c, hc, hct⟩ := exists_child_of_mem_enclosing ht hst
  have hshorter := (h s hs).start_lt_or_stop_lt htwo (Site.node_mem_of_mem_children hc)
  rcases List.mem_cons.1 hct with rfl | hct
  · exact hshorter
  · have hwithin := h.nested.within_of_mem_enclosing ht hct
    omega

/-- A node below the root is not empty. -/
theorem LaidOut.eq_root_or_start_lt_stop (h : root.LaidOut) :
    ∀ s ∈ root.sites, s = .root root ∨ s.node.start < s.node.stop := by
  refine walk_induction (.inl rfl) fun s c hs _ hc _ => .inr ?_
  exact (h s hs).nonempty _ (Site.node_mem_of_mem_children hc)

/-- **Keys identify nodes.**  In a tree that is laid out, the nodes of some kinds have distinct
keys if each of them has two children or more and the root is none of them. -/
theorem LaidOut.keysDistinct (h : root.LaidOut) {kinds : List String} (hroot : root.kind ∉ kinds)
    (htwo : ∀ s ∈ root.sites, s.node.kind ∈ kinds → 2 ≤ s.node.children.length) :
    root.KeysDistinct kinds := by
  have hapart : root.sites.Pairwise fun s t => s ∈ t.enclosing ∨ s.node.stop ≤ t.node.start :=
    h.nested.walk_pairwise
  refine List.pairwise_map.2 ((hapart.sublist List.filter_sublist).imp_of_mem ?_)
  intro s t hs ht hor hkey
  obtain ⟨hs, hkind⟩ := List.mem_filter.1 hs
  have ht := List.mem_of_mem_filter ht
  have hkind := List.contains_iff_mem.1 hkind
  have hstart : s.node.start = t.node.start := congrArg NodeKey.start hkey
  have hstop : s.node.stop = t.node.stop := congrArg NodeKey.stop hkey
  rcases hor with hinside | hbefore
  · have hshorter := h.start_lt_or_stop_lt hs ht hinside (htwo s hs hkind)
    omega
  · rcases h.eq_root_or_start_lt_stop s hs with rfl | hlt
    · exact hroot hkind
    · omega

end Node

/-! ## Scopes and accesses -/

namespace ScopeTable

/-- The nodes that open scopes are among the nodes of their kinds. -/
theorem openers_sublist_sites (root : Node) :
    (openers (visibleBelow root)).Sublist
      (root.sites.filter fun s => scopeKinds.contains s.node.kind) := by
  have hself : (openers (visibleBelow root)).filter (fun s => scopeKinds.contains s.node.kind) =
      openers (visibleBelow root) :=
    List.filter_eq_self.2 fun s hs => List.contains_iff_mem.2 (kind_of_mem_openers hs)
  rw [← hself]
  exact (List.filter_sublist.trans (visibleBelow_sublist_sites root)).filter _

/-- The keys of the scopes differ if those of the nodes that open them do. -/
theorem nodup_keys_scopeSites {root : Node} (hkeys : root.KeysDistinct scopeKinds)
    (hroot : root.kind ∉ scopeKinds) : (root.scopeSites.map (·.node.key)).Nodup := by
  rw [Node.scopeSites, List.map_cons, List.nodup_cons]
  constructor
  · intro hmem
    obtain ⟨s, hs, hkey⟩ := List.mem_map.1 hmem
    have hkind : s.node.kind = root.kind := congrArg NodeKey.kind hkey
    exact hroot (hkind ▸ kind_of_mem_openers hs)
  · exact hkeys.sublist ((openers_sublist_sites root).map _)

end ScopeTable

namespace Program

/-- **A key stands for one node.**  Take a program whose root neither opens a scope nor accesses
a member, and in whose tree, laid out, each node of a kind that does has two children or more.
Then no two nodes of these kinds have one key.  So the table has an entry for every scope that
was opened, in the order in which they were, and an access counts as the object of the one
around it exactly if it stands in the place of the object. -/
theorem keys_exact (p : Program) (hlaid : p.root.LaidOut)
    (hroot : p.root.kind ∉ scopeKinds ++ memberKinds)
    (htwo : ∀ s ∈ p.root.sites, s.node.kind ∈ scopeKinds ++ memberKinds →
      2 ≤ s.node.children.length) :
    (∀ s ∈ p.root.sites, ∀ t ∈ p.root.sites, s.node.kind ∈ scopeKinds ++ memberKinds →
        s.node.key = t.node.key → s = t) ∧
      p.scopes.entries =
        (Site.root p.root :: openers (ScopeTable.visibleBelow p.root)).zipIdx.map
          (fun (s, i) => (s.node.key, i)) ∧
      p.scopes.forest.size = p.scopes.entries.length ∧
      ∀ a : Access, a.site ∈ p.root.sites → a.site.node.kind ∈ memberKinds →
        (a.isObject = true ↔ a.site.IsObject) := by
  have hboth : p.root.KeysDistinct (scopeKinds ++ memberKinds) := hlaid.keysDistinct hroot htwo
  have hscopes : p.root.KeysDistinct scopeKinds := hboth.of_subset (List.subset_append_left ..)
  have hmembers : p.root.KeysDistinct memberKinds := hboth.of_subset (List.subset_append_right ..)
  have hdraws := ScopeTable.draws_below p.source
    (ScopeTable.nodup_keys_scopeSites hscopes fun hkind => hroot (List.mem_append_left _ hkind))
  refine ⟨fun s hs t ht hkind => hboth.eq_of_key_eq hs ht hkind, hdraws.entries, ?_,
    fun a hs hkind => Access.isObject_iff hmembers hs hkind⟩
  rw [scopes, hdraws.size, hdraws.entries, List.length_map, List.length_zipIdx]

/-- A block in which `a.b.c` is all.

    { a.b.c } -/
def blockChain : Program where
  filename := "chain.js"
  dialect := .javascript
  source := .ofString "\x7b a.b.c \x7d"
  root :=
    .plain "program" 0 9 none [
      .plain "statement_block" 0 9 none [
        .token "\x7b" 0 1,
        .plain "expression_statement" 2 7 none [
          .plain "member_expression" 2 7 none [
            .plain "member_expression" 2 5 (some "object") [
              .plain "identifier" 2 3 (some "object") [],
              .plain "property_identifier" 4 5 (some "property") []],
            .plain "property_identifier" 6 7 (some "property") []]],
        .token "\x7d" 8 9]]

/-- The block covers the bytes of the program and has a scope of its own.  Of the two accesses
the shorter one is the object of the other. -/
theorem keys_blockChain :
    blockChain.root.LaidOut ∧
      blockChain.scopes.entries =
        [(⟨0, 9, "program"⟩, 0), (⟨0, 9, "statement_block"⟩, 1)] ∧
      blockChain.accesses.map (·.site.node.key) =
        [⟨2, 7, "member_expression"⟩, ⟨2, 5, "member_expression"⟩] ∧
      ∀ a ∈ blockChain.accesses,
        a.site.IsObject ↔ a.site.node.key = ⟨2, 5, "member_expression"⟩ := by
  have hlaid : blockChain.root.LaidOut := by decide
  have hroot : blockChain.root.kind ∉ scopeKinds ++ memberKinds := by decide
  have htwo : ∀ s ∈ blockChain.root.sites, s.node.kind ∈ scopeKinds ++ memberKinds →
      2 ≤ s.node.children.length := by decide
  obtain ⟨-, hentries, -, hobject⟩ := keys_exact blockChain hlaid hroot htwo
  refine ⟨hlaid, ?_, by decide, ?_⟩
  · rw [hentries]
    decide
  · have hfound : ∀ a ∈ blockChain.accesses,
        (a.isObject = true ↔ a.site.node.key = ⟨2, 5, "member_expression"⟩) := by decide
    intro a ha
    obtain ⟨hs, hkind⟩ := site_mem_of_mem_accesses ha
    exact (hobject a hs hkind).symm.trans (hfound a ha)

end Program

end ScriptLint
