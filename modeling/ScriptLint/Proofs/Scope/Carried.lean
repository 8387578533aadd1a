import ScriptLint.Proofs.Lint.Visits
import ScriptLint.Proofs.Scope.Lookup

/-!
# The scope that waits with a node

The pass that builds a table can be read as a loop with a stack.  Nodes wait on the stack, each
with the scope that was at hand when its parent was visited.  A round takes the top away
(`Pass.next`).  A node that holds only types is dropped, and any other one is visited and leaves
its named children in its place.  The loop comes to an end, with the table that the recursion
builds (`Pass.reaches_collect`).

A table is asked for the scope around a site when the pass is over, and goes by the keys of the
nodes above.  It finds the scope that waited with the node, if the nodes that open scopes have
keys of their own, and it finds the same one around all that lies in a node that was dropped
(`Program.carried_exact`).

`Pass.Tracks` is what a round keeps.  The table draws the sites that have opened their scopes, the
others are to be found at and below the sites on the stack, and with each of these waits the scope
of the nearest site above that opens one.
-/

namespace ScriptLint

/-! ## The loop -/

/-- A node that waits for its visit, and the scope that it is to be visited at. -/
structure Pending where
  /-- The node. -/
  site : Site
  /-- The number of the scope. -/
  scope : Nat

/-- A pass between two rounds. -/
structure Pass where
  /-- The scopes so far. -/
  table : ScopeTable
  /-- The nodes that wait, the next one first. -/
  stack : List Pending

namespace Pass

/-- The pass before the first round.  The root has its scope, and its named children wait. -/
def start (root : Node) : Pass :=
  ⟨.start root, (Site.root root).namedChildren.map (⟨·, ScopeTable.moduleScope⟩)⟩

/-- One round. -/
def next (source : Source) (q : Pass) : Pass :=
  match q.stack with
  | [] => q
  | top :: rest =>
      if top.site.node.isTypeOnly then ⟨q.table, rest⟩
      else
        let (t, inner) := q.table.visit source top.site.parentKind top.scope top.site.node
        ⟨t, top.site.namedChildren.map (⟨·, inner⟩) ++ rest⟩

/-- The pass after some rounds. -/
def after (source : Source) : Nat → Pass → Pass
  | 0, q => q
  | k + 1, q => after source k (q.next source)

/-- After some rounds the pass is at `q'`. -/
def Reaches (source : Source) (q q' : Pass) : Prop :=
  ∃ k, q.after source k = q'

variable {source : Source}

theorem after_add (q : Pass) (j k : Nat) :
    q.after source (j + k) = (q.after source j).after source k := by
  induction j generalizing q with
  | zero => rw [Nat.zero_add]; rfl
  | succ j ih => rw [Nat.succ_add]; exact ih (q.next source)

theorem after_succ (q : Pass) (k : Nat) :
    q.after source (k + 1) = (q.after source k).next source :=
  after_add q k 1

theorem Reaches.refl (q : Pass) : q.Reaches source q :=
  ⟨0, rfl⟩

theorem Reaches.step {q q' : Pass} (h : (q.next source).Reaches source q') :
    q.Reaches source q' := by
  obtain ⟨k, hk⟩ := h
  exact ⟨k + 1, hk⟩

theorem Reaches.trans {q q' q'' : Pass} (h : q.Reaches source q') (h' : q'.Reaches source q'') :
    q.Reaches source q'' := by
  obtain ⟨j, rfl⟩ := h
  obtain ⟨k, rfl⟩ := h'
  exact ⟨j + k, after_add q j k⟩

/-! ## Loop and recursion -/

theorem next_of_isTypeOnly {t : ScopeTable} {top : Pending} {rest : List Pending}
    (h : top.site.node.isTypeOnly = true) : next source ⟨t, top :: rest⟩ = ⟨t, rest⟩ :=
  if_pos h

theorem next_of_not_isTypeOnly {t : ScopeTable} {top : Pending} {rest : List Pending}
    (h : top.site.node.isTypeOnly = false) :
    next source ⟨t, top :: rest⟩ =
      ⟨(t.visit source top.site.parentKind top.scope top.site.node).1,
        top.site.namedChildren.map
          (⟨·, (t.visit source top.site.parentKind top.scope top.site.node).2⟩) ++ rest⟩ :=
  if_neg (by simp [h])

/-- The named children of a node that is visited wait in its place, with one scope for all. -/
theorem exists_stack_next (source : Source) {q : Pass} {s : Site} {n : Nat} {rest : List Pending}
    (hstack : q.stack = ⟨s, n⟩ :: rest) (htype : s.node.isTypeOnly = false) :
    ∃ inner, (q.next source).stack = s.namedChildren.map (⟨·, inner⟩) ++ rest := by
  obtain ⟨t, stack⟩ := q
  subst hstack
  exact ⟨_, congrArg stack (next_of_not_isTypeOnly htype)⟩

mutual

/-- The rounds from a node on, up to the nodes that waited below it, do what the recursion does
at the node. -/
theorem reaches_collect (source : Source) :
    ∀ (n : Node) (frames : List Frame) (t : ScopeTable) (scope : Nat) (rest : List Pending),
      Reaches source ⟨t, ⟨⟨n, frames⟩, scope⟩ :: rest⟩
        ⟨t.collect source (Site.parentKind ⟨n, frames⟩) scope n, rest⟩
  | .mk label children, frames, t, scope, rest => by
      refine Reaches.step ?_
      cases htype : (Node.mk label children).isTypeOnly with
      | true =>
          rw [next_of_isTypeOnly htype, ScopeTable.collect_of_isTypeOnly source t _ scope htype]
          exact .refl _
      | false =>
          rw [next_of_not_isTypeOnly htype, ScopeTable.collect, htype, if_neg Bool.false_ne_true]
          exact reaches_collectAmong source (.mk label children) frames children 0 _ _ rest

theorem reaches_collectAmong (source : Source) (parent : Node) (frames : List Frame) :
    ∀ (l : List Node) (i : Nat) (t : ScopeTable) (scope : Nat) (rest : List Pending),
      Reaches source
        ⟨t, (((l.zipIdx i).map fun (c, j) => (⟨c, ⟨parent, j⟩ :: frames⟩ : Site)).filter
          (·.node.named)).map (⟨·, scope⟩) ++ rest⟩
        ⟨t.collectAmong source parent.kind scope l, rest⟩
  | [], _, _, _, _ => .refl _
  | child :: l, i, t, scope, rest => by
      rw [ScopeTable.collectAmong, List.zipIdx_cons, List.map_cons, List.filter_cons]
      dsimp only
      cases hnamed : child.named with
      | false =>
          rw [if_neg Bool.false_ne_true, if_neg Bool.false_ne_true]
          exact reaches_collectAmong source parent frames l (i + 1) t scope rest
      | true =>
          rw [if_pos rfl, if_pos rfl, List.map_cons, List.cons_append]
          exact (reaches_collect source child (⟨parent, i⟩ :: frames) t scope _).trans
            (reaches_collectAmong source parent frames l (i + 1) _ scope rest)

end

/-- The loop comes to an end, with the table of the recursion. -/
theorem start_reaches (source : Source) (root : Node) :
    (start root).Reaches source ⟨.ofTree source root, []⟩ := by
  have h := reaches_collectAmong source root [] root.children 0 (.start root)
    ScopeTable.moduleScope []
  rw [List.append_nil] at h
  exact h

/-- The loop comes to each of the nodes that wait. -/
theorem exists_reaches_append (source : Source) (rest : List Pending) :
    ∀ (l : List Pending) (t : ScopeTable), ∃ t', Reaches source ⟨t, l ++ rest⟩ ⟨t', rest⟩
  | [], t => ⟨t, .refl _⟩
  | c :: l, t => by
      have hfirst := reaches_collect source c.site.node c.site.frames t c.scope (l ++ rest)
      obtain ⟨t', hrest⟩ := exists_reaches_append source rest l _
      exact ⟨t', hfirst.trans hrest⟩

end Pass

/-! ## Where the pass goes -/

/-- The pass comes to a site: it is below the root and reached through named children, and no
node between holds only types. -/
def Node.ComesTo (root : Node) (s : Site) : Prop :=
  s ∈ root.reached ∧ s.frames ≠ [] ∧ ∀ a ∈ s.enclosing, a.frames ≠ [] → a.node.isTypeOnly = false

namespace Node

variable {root : Node} {s c : Site}

theorem ComesTo.mem_sites (h : root.ComesTo s) : s ∈ root.sites :=
  root.walk_sublist_sites.subset h.1

theorem reached_of_mem_namedChildren (hs : s ∈ root.reached) (hc : c ∈ s.namedChildren) :
    c ∈ root.reached := by
  obtain ⟨hc, hnamed⟩ := List.mem_filter.1 hc
  exact mem_walk_of_child hs hc hnamed

theorem frames_ne_nil_of_mem_children (hc : c ∈ s.children) : c.frames ≠ [] := by
  obtain ⟨i, -, hframes⟩ := Site.mem_children.1 hc
  rw [hframes]
  exact List.cons_ne_nil _ _

/-- The pass comes to the named children of the root. -/
theorem comesTo_of_mem_root (hc : c ∈ (Site.root root).namedChildren) : root.ComesTo c := by
  have hchild := List.mem_of_mem_filter hc
  refine ⟨reached_of_mem_namedChildren (root_mem_walk root) hc,
    frames_ne_nil_of_mem_children hchild, fun a ha hne => ?_⟩
  rw [Site.enclosing_of_mem_children hchild] at ha
  exact absurd (congrArg Site.frames (List.mem_singleton.1 ha)) hne

/-- From a node that it visits, the pass comes to the named children. -/
theorem ComesTo.child (h : root.ComesTo s) (hs : s.node.isTypeOnly = false)
    (hc : c ∈ s.namedChildren) : root.ComesTo c := by
  have hchild := List.mem_of_mem_filter hc
  refine ⟨reached_of_mem_namedChildren h.1 hc, frames_ne_nil_of_mem_children hchild, ?_⟩
  rw [Site.enclosing_of_mem_children hchild, List.forall_mem_cons]
  exact ⟨fun _ => hs, h.2.2⟩

/-- The pass comes nowhere else. -/
theorem ComesTo.induction {P : Site → Prop}
    (hroot : ∀ c ∈ (Site.root root).namedChildren, P c)
    (step : ∀ s c, P s → s.node.isTypeOnly = false → c ∈ s.namedChildren → P c) :
    ∀ s, root.ComesTo s → P s := by
  intro s ⟨hs, hne, habove⟩
  refine walk_induction (P := fun s => s.frames ≠ [] →
    (∀ a ∈ s.enclosing, a.frames ≠ [] → a.node.isTypeOnly = false) → P s) ?_ ?_ s hs hne habove
  · exact fun hnil => absurd rfl hnil
  · intro s c hs ih hc hnamed _ habove
    have hc' : c ∈ s.namedChildren := List.mem_filter.2 ⟨hc, hnamed⟩
    rw [Site.enclosing_of_mem_children hc, List.forall_mem_cons] at habove
    by_cases hne : s.frames = []
    · have hsites : s ∈ root.sites := root.walk_sublist_sites.subset hs
      rw [ScopeTable.eq_root_of_frames_eq_nil hsites hne] at hc'
      exact hroot c hc'
    · exact step s c (ih hne habove.2) (habove.1 hne) hc'

end Node

/-! ## What a round keeps -/

namespace Pass

/-- What is known between two rounds, when the sites `opened` have opened their scopes. -/
structure Tracks (q : Pass) (root : Node) (opened : List Site) : Prop where
  /-- The table draws these sites. -/
  draws : ∃ B, q.table.Draws root opened B
  /-- The others are visible at and below the sites that wait. -/
  ahead : opened ++ openers (q.stack.flatMap (·.site.visible)) = root.scopeSites
  /-- The pass comes to the sites that wait. -/
  comes : ∀ c ∈ q.stack, root.ComesTo c.site
  /-- With each waits the scope of the nearest site above that opens one. -/
  carried : ∀ c ∈ q.stack, ScopeTable.AtHand opened c.scope c.site.enclosing

variable {root : Node}

theorem flatMap_visible_pending (l : List Site) (scope : Nat) :
    (l.map (⟨·, scope⟩) : List Pending).flatMap (·.site.visible) = l.flatMap Site.visible := by
  rw [List.flatMap_map]

/-- What is visible below the root is visible at and below its named children. -/
theorem flatMap_visible_root (root : Node) :
    (Site.root root).namedChildren.flatMap Site.visible = ScopeTable.visibleBelow root := by
  rw [ScopeTable.visibleBelow, Node.walkAmong_eq_flatMap, Site.flatMap_visible, Site.namedChildren,
    List.filter_filter]
  exact congrArg (List.flatMap _ ·) (List.filter_congr fun s _ => Bool.and_comm ..)

theorem tracks_start (root : Node) : (start root).Tracks root [.root root] where
  draws := ⟨_, ScopeTable.draws_start root⟩
  ahead := by
    rw [start, flatMap_visible_pending, flatMap_visible_root]
    rfl
  comes c hc := by
    obtain ⟨s, hs, rfl⟩ := List.mem_map.1 hc
    exact Node.comesTo_of_mem_root hs
  carried c hc := by
    obtain ⟨s, hs, rfl⟩ := List.mem_map.1 hc
    rw [Site.enclosing_of_mem_children (List.mem_of_mem_filter hs)]
    exact ⟨.root root, rfl, rfl⟩

namespace Tracks

variable {source : Source} {t : ScopeTable} {top : Pending} {rest : List Pending}
  {opened : List Site}

/-- A node that holds only types leaves no trace. -/
theorem drop (h : Tracks ⟨t, top :: rest⟩ root opened)
    (htype : top.site.node.isTypeOnly = true) : Tracks ⟨t, rest⟩ root opened where
  draws := h.draws
  ahead := by
    have hahead := h.ahead
    rw [List.flatMap_cons, Site.visible_of_isTypeOnly htype, List.nil_append] at hahead
    exact hahead
  comes := (List.forall_mem_cons.1 h.comes).2
  carried := (List.forall_mem_cons.1 h.carried).2

/-- A node that is visited opens its scope first, and then what is below it waits. -/
theorem visit (h : Tracks ⟨t, top :: rest⟩ root opened)
    (hkeys : (root.scopeSites.map (·.node.key)).Nodup) (htype : top.site.node.isTypeOnly = false) :
    Tracks ⟨(t.visit source top.site.parentKind top.scope top.site.node).1,
      top.site.namedChildren.map
        (⟨·, (t.visit source top.site.parentKind top.scope top.site.node).2⟩) ++ rest⟩
      root (opened ++ openers [top.site]) := by
  obtain ⟨B, hdraws⟩ := h.draws
  obtain ⟨hcomes, hrest⟩ := List.forall_mem_cons.1 h.comes
  obtain ⟨hhand, hcarried⟩ := List.forall_mem_cons.1 h.carried
  have hahead := h.ahead
  rw [List.flatMap_cons, Site.visible_eq htype, List.cons_append, openers_cons,
    ← List.append_assoc] at hahead
  have hfirst : ((opened ++ openers [top.site]).map (·.node.key)).Nodup := by
    rw [← hahead, List.map_append] at hkeys
    exact hkeys.of_append_left
  have hlast := ScopeTable.getLast?_enclosing_of_ne_nil hcomes.mem_sites hcomes.2.1
  obtain ⟨hvisit, hinside⟩ := hdraws.visit source hcomes.2.1 hhand hlast hfirst
  refine ⟨⟨_, hvisit⟩, ?_, ?_, ?_⟩
  · rw [List.flatMap_append, flatMap_visible_pending]
    exact hahead
  · refine List.forall_mem_append.2 ⟨fun c hc => ?_, hrest⟩
    obtain ⟨s, hs, rfl⟩ := List.mem_map.1 hc
    exact hcomes.child htype hs
  · refine List.forall_mem_append.2 ⟨fun c hc => ?_, fun c hc => (hcarried c hc).append _⟩
    obtain ⟨s, hs, rfl⟩ := List.mem_map.1 hc
    rw [Site.enclosing_of_mem_children (List.mem_of_mem_filter hs)]
    exact hinside

/-- A round keeps track. -/
theorem next (source : Source) {q : Pass} (h : q.Tracks root opened)
    (hkeys : (root.scopeSites.map (·.node.key)).Nodup) :
    ∃ opened', (q.next source).Tracks root opened' := by
  obtain ⟨t, stack⟩ := q
  cases stack with
  | nil => exact ⟨opened, h⟩
  | cons top rest =>
      cases htype : top.site.node.isTypeOnly with
      | true =>
          rw [next_of_isTypeOnly htype]
          exact ⟨opened, h.drop htype⟩
      | false =>
          rw [next_of_not_isTypeOnly htype]
          exact ⟨_, h.visit hkeys htype⟩

/-- So do all rounds. -/
theorem after (source : Source) (hkeys : (root.scopeSites.map (·.node.key)).Nodup) :
    ∀ (k : Nat) {q : Pass} {opened : List Site}, q.Tracks root opened →
      ∃ opened', (q.after source k).Tracks root opened'
  | 0, _, opened, h => ⟨opened, h⟩
  | k + 1, _, _, h => by
      obtain ⟨opened', hnext⟩ := h.next source hkeys
      exact Tracks.after source hkeys k hnext

/-- With what waits, the scope of the nearest site above waits that opens one. -/
theorem atHand {q : Pass} (h : q.Tracks root opened) {c : Pending} (hc : c ∈ q.stack) :
    ScopeTable.AtHand root.scopeSites c.scope c.site.enclosing :=
  h.ahead ▸ (h.carried c hc).append _

end Tracks

end Pass

/-! ## Carried and found -/

namespace Program

variable {p : Program} {s : Site} {n : Nat}

/-- The pass takes the site `s` from the stack, and the scope that waits with it is `n`. -/
def Carries (p : Program) (s : Site) (n : Nat) : Prop :=
  ∃ k rest, ((Pass.start p.root).after p.source k).stack = ⟨s, n⟩ :: rest

theorem Carries.tracks (h : p.Carries s n) (hkeys : p.root.ScopeKeysUnique) :
    p.root.ComesTo s ∧ ScopeTable.AtHand p.root.scopeSites n s.enclosing := by
  obtain ⟨k, rest, hstack⟩ := h
  obtain ⟨opened, htracks⟩ := (Pass.tracks_start p.root).after p.source hkeys.nodup k
  have htop : (⟨s, n⟩ : Pending) ∈ ((Pass.start p.root).after p.source k).stack :=
    hstack ▸ List.mem_cons_self
  exact ⟨htracks.comes _ htop, htracks.atHand htop⟩

/-- What waits at some time is taken from the stack later. -/
theorem carries_of_mem (k : Nat)
    (h : ⟨s, n⟩ ∈ ((Pass.start p.root).after p.source k).stack) : p.Carries s n := by
  obtain ⟨before, behind, hstack⟩ := List.append_of_mem h
  obtain ⟨t, j, hj⟩ := Pass.exists_reaches_append p.source (⟨s, n⟩ :: behind) before
    ((Pass.start p.root).after p.source k).table
  rw [← hstack] at hj
  refine ⟨k + j, behind, ?_⟩
  rw [Pass.after_add, hj]

/-- The pass takes every site that it comes to from the stack at some time. -/
theorem exists_carries : ∀ s, p.root.ComesTo s → ∃ n, p.Carries s n := by
  refine Node.ComesTo.induction (fun c hc => ?_) fun s c hs htype hc => ?_
  · exact ⟨ScopeTable.moduleScope, carries_of_mem 0 (List.mem_map_of_mem hc)⟩
  · obtain ⟨n, k, rest, hstack⟩ := hs
    obtain ⟨inner, hnext⟩ := Pass.exists_stack_next p.source hstack htype
    have hwaits : ⟨c, inner⟩ ∈ ((Pass.start p.root).after p.source (k + 1)).stack := by
      rw [Pass.after_succ, hnext]
      exact List.mem_append_left _ (List.mem_map_of_mem hc)
    exact ⟨inner, carries_of_mem (k + 1) hwaits⟩

/-- **What waits with a node is what is found around it.**  The pass ends, with the table of the
program, and takes from its stack exactly the sites that it comes to.  Let the root and the nodes
that open scopes have keys of their own.  Then the scope that waited with a site is the scope that
the table finds around the site, and if the node holds only types, it is also the one that the
table finds around all that lies in the node. -/
theorem carried_exact (p : Program) (hkeys : p.root.ScopeKeysUnique) :
    (∃ k, (Pass.start p.root).after p.source k = ⟨p.scopes, []⟩) ∧
      (∀ s, (∃ n, p.Carries s n) ↔ p.root.ComesTo s) ∧
      ∀ s n, p.Carries s n →
        p.scopes.scopeOf s = n ∧
          (s.node.isTypeOnly = true → ∀ b ∈ p.root.sites, s ∈ b.enclosing →
            p.scopes.scopeOf b = n) := by
  have hdraws : p.scopes.Draws p.root p.root.scopeSites _ :=
    ScopeTable.draws_below p.source hkeys.nodup
  refine ⟨Pass.start_reaches p.source p.root, fun s => ⟨?_, exists_carries s⟩, fun s n h => ?_⟩
  · rintro ⟨n, h⟩
    exact (h.tracks hkeys).1
  · obtain ⟨hcomes, a, hfind, hnumber⟩ := h.tracks hkeys
    have haround : p.root.ScopeAround s a :=
      Node.scopeAround_of_find? hfind (List.mem_of_getElem? hnumber)
    have hfound {b : Site} (hb : b ∈ p.root.sites) (hba : p.root.ScopeAround b a) :
        p.scopes.scopeOf b = n :=
      hdraws.number_inj (hdraws.scopeOf hkeys hb hba) hnumber
    exact ⟨hfound hcomes.mem_sites haround, fun htype b hb hsb =>
      hfound hb (haround.of_isTypeOnly hcomes.2.1 htype hsb)⟩

/-- A function with an interface in its body, in which the name of a property holds a function.

    function f() { interface I { [() => k]: T } } -/
def keyedInterface : Program where
  filename := "keyed.ts"
  dialect := .typescript
  source := .ofString "function f() \x7b interface I \x7b [() => k]: T \x7d \x7d"
  root :=
    .plain "program" 0 45 none [
      .plain "function_declaration" 0 45 none [
        .plain "identifier" 9 10 (some "name") [],
        .plain "formal_parameters" 10 12 (some "parameters") [],
        .plain "statement_block" 13 45 (some "body") [
          .plain "interface_declaration" 15 43 none [
            .plain "type_identifier" 25 26 (some "name") [],
            .plain "interface_body" 27 43 (some "body") [
              .plain "property_signature" 29 41 none [
                .plain "computed_property_name" 29 38 (some "name") [
                  .plain "arrow_function" 30 37 none [
                    .plain "formal_parameters" 30 32 (some "parameters") [],
                    .plain "identifier" 36 37 (some "body") []]],
                .plain "type_annotation" 38 41 (some "type") [
                  .plain "type_identifier" 40 41 none []]]]]]]]

/-- The interface waits with the scope of the outer function, which is found around it.  The inner
function has opened no scope, so the same one is found around `k`. -/
theorem carries_keyedInterface :
    keyedInterface.root.ScopeKeysUnique ∧
      keyedInterface.scopes.entries =
        [(⟨0, 45, "program"⟩, 0), (⟨0, 45, "function_declaration"⟩, 1)] ∧
      ∃ s ∈ keyedInterface.root.reached, ∃ b ∈ keyedInterface.root.reached,
        s.node.key = ⟨15, 43, "interface_declaration"⟩ ∧ b.node.key = ⟨36, 37, "identifier"⟩ ∧
          s ∈ b.enclosing ∧ keyedInterface.Carries s 1 ∧ keyedInterface.scopes.scopeOf s = 1 ∧
          keyedInterface.scopes.scopeOf b = 1 := by
  have hkeys : keyedInterface.root.ScopeKeysUnique :=
    Node.ScopesDistinct.unique ⟨by decide, by decide⟩
  obtain ⟨-, hcomes, hcarried⟩ := carried_exact keyedInterface hkeys
  let s := keyedInterface.root.reached.get ⟨5, by decide⟩
  let b := keyedInterface.root.reached.get ⟨12, by decide⟩
  have hs : s ∈ keyedInterface.root.reached := List.get_mem ..
  have hb : b ∈ keyedInterface.root.reached := List.get_mem ..
  have hsb : s ∈ b.enclosing := List.mem_of_getElem? (i := 4) rfl
  obtain ⟨n, hn⟩ := (hcomes s).2 ⟨hs, by decide, by decide⟩
  obtain ⟨hfound, hbelow⟩ := hcarried s n hn
  have hn1 : keyedInterface.scopes.scopeOf s = 1 := by decide
  obtain rfl : n = 1 := hfound.symm.trans hn1
  have hb1 := hbelow (by decide) b (keyedInterface.root.walk_sublist_sites.subset hb) hsb
  exact ⟨hkeys, by decide, s, hs, b, hb, rfl, rfl, hsb, hn, hfound, hb1⟩

end Program

end ScriptLint
