import ScriptLint.Proofs.Syntax.Walk

/-!
# Where the nodes of a tree lie

In a tree that a parser delivers, children lie inside their parent, in order and
apart from each other (`Node.Nested`).  A node for a token that is not in the source
is empty.  Where there is no such node, the tree is laid out (`Node.LaidOut`).

So the order of a walk is the order of the text.  Of two nodes that are visited
one after the other, the second lies in the first or begins where the first has
ended (`Node.Nested.walk_pairwise`), and it does not start before the first
(`Node.Nested.walk_start_le`).
-/

namespace ScriptLint

namespace Node

/-- The children of a node lie inside it, one after the other.  A child can be
empty. -/
structure Nests (n : Node) : Prop where
  /-- No child extends beyond the node, and none stops before it starts. -/
  within : ∀ c ∈ n.children, n.start ≤ c.start ∧ c.start ≤ c.stop ∧ c.stop ≤ n.stop
  /-- A child starts after those before it. -/
  ordered : n.children.Pairwise fun c d => c.stop ≤ d.start

instance (n : Node) : Decidable n.Nests :=
  decidable_of_iff
    ((∀ c ∈ n.children, n.start ≤ c.start ∧ c.start ≤ c.stop ∧ c.stop ≤ n.stop) ∧
      n.children.Pairwise fun c d => c.stop ≤ d.start)
    ⟨fun h => ⟨h.1, h.2⟩, fun h => ⟨h.within, h.ordered⟩⟩

/-- The nodes of a tree lie inside each other. -/
def Nested (root : Node) : Prop :=
  ∀ s ∈ root.sites, s.node.Nests

instance (root : Node) : Decidable root.Nested :=
  inferInstanceAs (Decidable (∀ s ∈ root.sites, s.node.Nests))

/-- The children of a node lie inside it, one after the other, and none is
empty. -/
structure Fits (n : Node) : Prop where
  /-- No child extends beyond the node. -/
  within : ∀ c ∈ n.children, n.start ≤ c.start ∧ c.stop ≤ n.stop
  /-- A child starts after those before it. -/
  ordered : n.children.Pairwise fun c d => c.stop ≤ d.start
  /-- No child is empty. -/
  nonempty : ∀ c ∈ n.children, c.start < c.stop

instance (n : Node) : Decidable n.Fits :=
  decidable_of_iff
    ((∀ c ∈ n.children, n.start ≤ c.start ∧ c.stop ≤ n.stop) ∧
      (n.children.Pairwise fun c d => c.stop ≤ d.start) ∧ ∀ c ∈ n.children, c.start < c.stop)
    ⟨fun h => ⟨h.1, h.2.1, h.2.2⟩, fun h => ⟨h.within, h.ordered, h.nonempty⟩⟩

/-- All nodes of a tree have children that fit. -/
def LaidOut (root : Node) : Prop :=
  ∀ s ∈ root.sites, s.node.Fits

instance (root : Node) : Decidable root.LaidOut :=
  inferInstanceAs (Decidable (∀ s ∈ root.sites, s.node.Fits))

theorem LaidOut.nested {root : Node} (h : root.LaidOut) : root.Nested := by
  intro s hs
  refine ⟨fun c hc => ?_, (h s hs).ordered⟩
  obtain ⟨hstart, hstop⟩ := (h s hs).within c hc
  exact ⟨hstart, Nat.le_of_lt ((h s hs).nonempty c hc), hstop⟩

variable {root : Node} {enter : Node → Node → Bool}

/-! ## Inside -/

theorem Nested.within_of_mem_children (h : root.Nested) {s c : Site} (hs : s ∈ root.sites)
    (hc : c ∈ s.children) : s.node.start ≤ c.node.start ∧ c.node.stop ≤ s.node.stop := by
  have hwithin := (h s hs).within _ (Site.node_mem_of_mem_children hc)
  exact ⟨hwithin.1, hwithin.2.2⟩

/-- A node below the root does not stop before it starts. -/
theorem Nested.eq_root_or_start_le_stop (h : root.Nested) :
    ∀ s ∈ root.sites, s = .root root ∨ s.node.start ≤ s.node.stop := by
  refine walk_induction (.inl rfl) fun s c hs _ hc _ => .inr ?_
  exact ((h s hs).within _ (Site.node_mem_of_mem_children hc)).2.1

theorem Nested.within_of_mem_walkFrom (h : root.Nested) {n : Node} {frames : List Frame}
    (hn : ⟨n, frames⟩ ∈ root.sites) :
    ∀ s ∈ n.walkFrom enter frames, n.start ≤ s.node.start ∧ s.node.stop ≤ n.stop := by
  have hboth : ∀ s ∈ n.walkFrom enter frames,
      s ∈ root.sites ∧ n.start ≤ s.node.start ∧ s.node.stop ≤ n.stop := by
    refine walkFrom_induction ?_ n frames ⟨hn, Nat.le_refl _, Nat.le_refl _⟩
    rintro s c ⟨hs, hstart, hstop⟩ hc -
    have hwithin := h.within_of_mem_children hs hc
    exact ⟨mem_sites_of_mem_children hs hc, Nat.le_trans hstart hwithin.1,
      Nat.le_trans hwithin.2 hstop⟩
  exact fun s hs => (hboth s hs).2

/-- A node lies inside those above it. -/
theorem Nested.within_of_mem_enclosing (h : root.Nested) {s t : Site} (ht : t ∈ root.sites)
    (hs : s ∈ t.enclosing) : s.node.start ≤ t.node.start ∧ t.node.stop ≤ s.node.stop := by
  refine walk_induction (P := fun t => ∀ s ∈ t.enclosing,
    s.node.start ≤ t.node.start ∧ t.node.stop ≤ s.node.stop) ?_ ?_ t ht s hs
  · intro s hs
    cases hs
  · intro t c ht ih hc _ s hs
    have hwithin := h.within_of_mem_children ht hc
    rw [Site.enclosing_of_mem_children hc, List.mem_cons] at hs
    cases hs with
    | inl he => exact he ▸ hwithin
    | inr hs =>
        have habove := ih s hs
        exact ⟨Nat.le_trans habove.1 hwithin.1, Nat.le_trans hwithin.2 habove.2⟩

/-! ## In order -/

theorem mem_sites_of_drop {parent child : Node} {frames : List Frame} {rest : List Node} {i : Nat}
    (hp : ⟨parent, frames⟩ ∈ root.sites) (hrest : parent.children.drop i = child :: rest) :
    (⟨child, ⟨parent, i⟩ :: frames⟩ : Site) ∈ root.sites := by
  exact mem_sites_of_mem_children hp (Site.mem_children.2 ⟨i, (of_drop_eq_cons hrest).1, rfl⟩)

theorem Nested.start_le_of_mem_walkAmong (h : root.Nested) {parent : Node} {frames : List Frame}
    (hp : ⟨parent, frames⟩ ∈ root.sites) {rest : List Node} {i : Nat}
    (hrest : parent.children.drop i = rest) {s : Site}
    (hs : s ∈ walkAmong enter parent frames i rest) : ∃ c ∈ rest, c.start ≤ s.node.start := by
  induction rest generalizing i with
  | nil => simp [walkAmong] at hs
  | cons child rest ih =>
      have htail := (of_drop_eq_cons hrest).2
      rw [walkAmong, List.mem_append] at hs
      cases hs with
      | inl hs =>
          by_cases he : enter parent child = true
          · rw [if_pos he] at hs
            have hchild := mem_sites_of_drop hp hrest
            exact ⟨child, List.mem_cons_self .., (h.within_of_mem_walkFrom hchild s hs).1⟩
          · rw [if_neg he] at hs
            cases hs
      | inr hs =>
          obtain ⟨c, hc, hle⟩ := ih htail hs
          exact ⟨c, List.mem_cons_of_mem _ hc, hle⟩

mutual

theorem Nested.walkFrom_pairwise (h : root.Nested) :
    ∀ (n : Node) (frames : List Frame), ⟨n, frames⟩ ∈ root.sites →
      (n.walkFrom enter frames).Pairwise fun s t =>
        s ∈ t.enclosing ∨ s.node.stop ≤ t.node.start
  | .mk label children, frames, hn => by
      rw [walkFrom, List.pairwise_cons]
      refine ⟨fun t ht => Or.inl ?_, h.walkAmong_pairwise _ frames hn children 0 rfl⟩
      obtain ⟨j, -, hsuffix⟩ := frames_suffix_of_mem_walkAmong ht
      exact Site.mem_enclosing_of_suffix hsuffix

theorem Nested.walkAmong_pairwise (h : root.Nested) (parent : Node) (frames : List Frame)
    (hp : ⟨parent, frames⟩ ∈ root.sites) :
    ∀ (rest : List Node) (i : Nat), parent.children.drop i = rest →
      (walkAmong enter parent frames i rest).Pairwise fun s t =>
        s ∈ t.enclosing ∨ s.node.stop ≤ t.node.start
  | [], _, _ => by
      rw [walkAmong]
      exact List.Pairwise.nil
  | child :: rest, i, hrest => by
      have htail := (of_drop_eq_cons hrest).2
      have hchild := mem_sites_of_drop hp hrest
      have hordered : (child :: rest).Pairwise fun c d => c.stop ≤ d.start :=
        hrest ▸ (h _ hp).ordered.sublist (List.drop_sublist ..)
      rw [walkAmong]
      refine List.pairwise_append.2
        ⟨?_, h.walkAmong_pairwise parent frames hp rest (i + 1) htail, ?_⟩
      · split
        · exact h.walkFrom_pairwise child _ hchild
        · exact List.Pairwise.nil
      · intro s hs t ht
        by_cases he : enter parent child = true
        · rw [if_pos he] at hs
          obtain ⟨c, hc, hle⟩ := h.start_le_of_mem_walkAmong hp htail ht
          have hstop := (h.within_of_mem_walkFrom hchild s hs).2
          have hnext := (List.pairwise_cons.1 hordered).1 c hc
          exact Or.inr (Nat.le_trans hstop (Nat.le_trans hnext hle))
        · rw [if_neg he] at hs
          cases hs

end

/-- What is visited later lies in what is visited earlier, or after it. -/
theorem Nested.walk_pairwise (h : root.Nested) :
    (root.walk enter).Pairwise fun s t => s ∈ t.enclosing ∨ s.node.stop ≤ t.node.start :=
  h.walkFrom_pairwise root [] (root_mem_walk root)

/-- What is visited later does not start before what is visited earlier. -/
theorem Nested.walk_start_le (h : root.Nested) :
    (root.walk enter).Pairwise fun s t => s.node.start ≤ t.node.start := by
  have hsites : ∀ s ∈ root.walk enter, s ∈ root.sites := fun s hs =>
    (walk_sublist_sites root).subset hs
  refine h.walk_pairwise.imp_of_mem fun {s t} hs ht hor => ?_
  cases hor with
  | inl habove => exact (h.within_of_mem_enclosing (hsites t ht) habove).1
  | inr hbefore =>
      rcases h.eq_root_or_start_le_stop s (hsites s hs) with rfl | hle
      · exact (h.within_of_mem_walkFrom (root_mem_walk root) t ht).1
      · exact Nat.le_trans hle hbefore

end Node

end ScriptLint
