import ScriptLint.Proofs.Syntax.Walk

/-!
# Emptying a node of a tree

`Node.emptyAt path` takes all children from the node that a path leads to.  Every
other node stays, and so does every label.

To compare the two trees, sites are followed from one to the other.
`Site.emptied path` is the site of the emptied tree at the same place.  It
changes the nodes on the way to the emptied node and nothing else, and it goes
together with every view of a site: the label, the path, the sites above
(`Site.enclosing_emptied`), the children (`Site.mem_children_emptied`) and the
walks that pass it (`Node.mem_walk_emptyAt`).

A path names a site, for no two sites of a tree have the same one
(`Site.eq_of_path_eq`).
-/

namespace ScriptLint

/-! ## Nodes -/

namespace Node

/-- The tree without the children of the node that a path leads to. -/
def emptyAt : List Nat → Node → Node
  | [], n => .mk n.label []
  | i :: path, n => .mk n.label (n.children.modify i (emptyAt path))

@[simp] theorem children_emptyAt_nil (n : Node) : (n.emptyAt []).children = [] := rfl

@[simp] theorem children_emptyAt_cons (i : Nat) (path : List Nat) (n : Node) :
    (n.emptyAt (i :: path)).children = n.children.modify i (emptyAt path) := rfl

@[simp] theorem label_emptyAt (path : List Nat) (n : Node) : (n.emptyAt path).label = n.label := by
  cases path <;> rfl

/-- The node at an address after the node at a path was emptied. -/
def emptiedFrom (path address : List Nat) (n : Node) : Node :=
  match path.dropPrefix? address with
  | some rest => n.emptyAt rest
  | none => n

@[simp] theorem label_emptiedFrom (path address : List Nat) (n : Node) :
    (n.emptiedFrom path address).label = n.label := by
  unfold emptiedFrom
  split <;> simp

theorem dropPrefix?_eq_some_iff {path address rest : List Nat} :
    path.dropPrefix? address = some rest ↔ path = address ++ rest := by
  simp [List.dropPrefix?_eq_some_iff]

/-- Beside the way to the emptied node nothing changes. -/
theorem emptiedFrom_of_beside {path address : List Nat} (n : Node)
    (h : ∀ rest, path ≠ address ++ rest) : n.emptiedFrom path address = n := by
  have hnone : path.dropPrefix? address = none :=
    Option.eq_none_iff_forall_ne_some.2 fun rest hrest => h rest (dropPrefix?_eq_some_iff.1 hrest)
  rw [emptiedFrom, hnone]

/-- On the way to the emptied node, what is emptied lies at the rest of the path. -/
theorem emptiedFrom_append (address rest : List Nat) (n : Node) :
    n.emptiedFrom (address ++ rest) address = n.emptyAt rest := by
  rw [emptiedFrom, dropPrefix?_eq_some_iff.2 rfl]

/-- The children of the emptied node are gone, and all others stay where they
are. -/
theorem getElem?_children_emptiedFrom (path address : List Nat) (n : Node) (i : Nat) :
    (n.emptiedFrom path address).children[i]? =
      if address = path then none
      else n.children[i]?.map (emptiedFrom path (address ++ [i])) := by
  by_cases h : ∃ rest, path = address ++ rest
  · obtain ⟨rest, rfl⟩ := h
    rw [emptiedFrom_append]
    cases rest with
    | nil => simp
    | cons j rest =>
        rw [if_neg (by simp), children_emptyAt_cons, List.getElem?_modify]
        by_cases hij : j = i
        · subst hij
          have hchild (c : Node) :
              c.emptiedFrom (address ++ j :: rest) (address ++ [j]) = c.emptyAt rest := by
            rw [← emptiedFrom_append (address ++ [j]), List.append_assoc]
            rfl
          simp [funext hchild]
        · have hchild (c : Node) : c.emptiedFrom (address ++ j :: rest) (address ++ [i]) = c :=
            c.emptiedFrom_of_beside fun tail htail => by simp [hij] at htail
          simp [hij, funext hchild]
  · have hchild (c : Node) : c.emptiedFrom path (address ++ [i]) = c :=
      c.emptiedFrom_of_beside fun rest hrest => h ⟨i :: rest, by simpa using hrest⟩
    have hne : address ≠ path := fun he => h ⟨[], by rw [he, List.append_nil]⟩
    rw [n.emptiedFrom_of_beside fun rest hrest => h ⟨rest, hrest⟩, if_neg hne]
    simp [funext hchild]

end Node

/-! ## Sites -/

namespace Site

/-- The frames at the same place after the node at a path was emptied. -/
def emptiedFrames (path : List Nat) : List Frame → List Frame
  | [] => []
  | frame :: frames =>
      ⟨frame.parent.emptiedFrom path (frames.map Frame.index).reverse, frame.index⟩ ::
        emptiedFrames path frames

/-- The site at the same place after the node at a path was emptied. -/
def emptied (path : List Nat) (s : Site) : Site :=
  ⟨s.node.emptiedFrom path s.path, emptiedFrames path s.frames⟩

variable (path : List Nat) (s : Site)

@[simp] theorem label_emptied : (s.emptied path).node.label = s.node.label :=
  Node.label_emptiedFrom ..

@[simp] theorem kind_emptied : (s.emptied path).node.kind = s.node.kind :=
  congrArg Label.kind (label_emptied path s)

@[simp] theorem named_emptied : (s.emptied path).node.named = s.node.named :=
  congrArg Label.named (label_emptied path s)

@[simp] theorem isTypeOnly_emptied : (s.emptied path).node.isTypeOnly = s.node.isTypeOnly := by
  simp [Node.isTypeOnly]

@[simp] theorem key_emptied : (s.emptied path).node.key = s.node.key := by
  simp [Node.key, Node.start, Node.stop]

@[simp] theorem textOf_emptied (source : Source) :
    source.textOf (s.emptied path).node = source.textOf s.node := by
  simp [Source.textOf, Node.start, Node.stop]

theorem map_index_emptiedFrames : ∀ frames : List Frame,
    (emptiedFrames path frames).map Frame.index = frames.map Frame.index
  | [] => rfl
  | frame :: frames => congrArg (frame.index :: ·) (map_index_emptiedFrames frames)

@[simp] theorem path_emptied : (s.emptied path).path = s.path :=
  congrArg List.reverse (map_index_emptiedFrames path s.frames)

@[simp] theorem isEmpty_frames_emptied :
    (s.emptied path).frames.isEmpty = s.frames.isEmpty := by
  obtain ⟨n, frames⟩ := s
  cases frames <;> rfl

theorem frames_emptied_eq_nil : (s.emptied path).frames = [] ↔ s.frames = [] := by
  rw [← List.isEmpty_iff, isEmpty_frames_emptied, List.isEmpty_iff]

theorem above_emptiedFrames : ∀ frames : List Frame,
    above (emptiedFrames path frames) = (above frames).map (emptied path)
  | [] => rfl
  | frame :: frames =>
      congrArg (emptied path ⟨frame.parent, frames⟩ :: ·) (above_emptiedFrames frames)

@[simp] theorem enclosing_emptied : (s.emptied path).enclosing = s.enclosing.map (emptied path) :=
  above_emptiedFrames path s.frames

@[simp] theorem parentKind?_emptied : (s.emptied path).parentKind? = s.parentKind? := by
  obtain ⟨n, frames⟩ := s
  cases frames with
  | nil => rfl
  | cons frame frames =>
      exact congrArg (fun l => some (Label.kind l)) (Node.label_emptiedFrom ..)

variable {path} {s}

theorem exists_path_of_mem_children {c : Site} (h : c ∈ s.children) :
    ∃ i, s.node.children[i]? = some c.node ∧ c.frames = ⟨s.node, i⟩ :: s.frames ∧
      c.path = s.path ++ [i] := by
  obtain ⟨i, hi, hframes⟩ := mem_children.1 h
  exact ⟨i, hi, hframes, by simp [Site.path, hframes]⟩

/-- The children of a site go along, unless they are those that are taken. -/
theorem mem_children_emptied {c' : Site} :
    c' ∈ (s.emptied path).children ↔
      s.path ≠ path ∧ ∃ c ∈ s.children, c.emptied path = c' := by
  have hget := Node.getElem?_children_emptiedFrom path s.path s.node
  have hat (c : Site) (i : Nat) (h : c.frames = ⟨s.node, i⟩ :: s.frames) :
      c.emptied path = ⟨c.node.emptiedFrom path (s.path ++ [i]),
        ⟨(s.emptied path).node, i⟩ :: (s.emptied path).frames⟩ := by
    have hpath : c.path = s.path ++ [i] := by simp [Site.path, h]
    rw [← hpath, emptied, h]
    rfl
  constructor
  · intro h
    obtain ⟨i, hi, hframes⟩ := mem_children.1 h
    have hi' := (hget i).symm.trans hi
    split at hi'
    · cases hi'
    · next hne =>
        obtain ⟨n, hn, hc⟩ := Option.map_eq_some_iff.1 hi'
        refine ⟨hne, ⟨n, ⟨s.node, i⟩ :: s.frames⟩, mem_children.2 ⟨i, hn, rfl⟩, ?_⟩
        rw [hat _ i rfl, hc, ← hframes]
  · rintro ⟨hne, c, hc, rfl⟩
    obtain ⟨i, hi, hframes⟩ := mem_children.1 hc
    refine mem_children.2 ⟨i, ?_, by rw [hat c i hframes]⟩
    rw [hat c i hframes]
    exact (hget i).trans (by rw [if_neg hne, hi]; rfl)

/-- A site of a tree is the root or a child of another one. -/
theorem eq_root_or_mem_children {root : Node} (hs : s ∈ root.sites) :
    s = .root root ∨ ∃ t ∈ root.sites, s ∈ t.children :=
  Node.walk_induction (P := fun s => s = .root root ∨ ∃ t ∈ root.sites, s ∈ t.children)
    (Or.inl rfl) (fun t _ ht _ hc _ => Or.inr ⟨t, ht, hc⟩) s hs

/-- No two sites of a tree have the same path. -/
theorem eq_of_path_eq {root : Node} {t : Site} (hs : s ∈ root.sites) (ht : t ∈ root.sites)
    (h : s.path = t.path) : s = t := by
  refine Node.walk_induction (P := fun s => ∀ t ∈ root.sites, s.path = t.path → s = t)
    ?_ ?_ s hs t ht h
  · intro t ht h
    rcases eq_root_or_mem_children ht with rfl | ⟨u, -, hu⟩
    · rfl
    · obtain ⟨i, -, -, hpath⟩ := exists_path_of_mem_children hu
      have hnil : u.path ++ [i] = [] := hpath.symm.trans h.symm
      simp at hnil
  · intro s c _ ih hc _ t ht h
    obtain ⟨i, hi, hframes, hpath⟩ := exists_path_of_mem_children hc
    rcases eq_root_or_mem_children ht with rfl | ⟨u, hu, hmem⟩
    · have hnil : s.path ++ [i] = [] := hpath.symm.trans h
      simp at hnil
    · obtain ⟨j, hj, hframes', hpath'⟩ := exists_path_of_mem_children hmem
      obtain ⟨hsu, hij⟩ := List.append_inj' (hpath.symm.trans (h.trans hpath')) rfl
      have hparent := ih u hu hsu
      subst hparent
      rw [List.cons.injEq] at hij
      rw [← hij.1] at hj hframes'
      obtain ⟨n, frames⟩ := c
      obtain ⟨n', frames'⟩ := t
      rw [Site.mk.injEq]
      exact ⟨Option.some.inj (hi.symm.trans hj), hframes.trans hframes'.symm⟩

/-- A site whose path leads to another one is that one or above it. -/
theorem mem_enclosing_of_path_eq {root : Node} {t : Site} (hs : s ∈ root.sites)
    (ht : t ∈ root.sites) {rest : List Nat} (h : t.path = s.path ++ rest) :
    s ∈ t :: t.enclosing := by
  refine Node.walk_induction (P := fun t => ∀ rest, t.path = s.path ++ rest → s ∈ t :: t.enclosing)
    ?_ ?_ t ht rest h
  · intro rest h
    have hnil : s.path = [] := (List.append_eq_nil_iff.1 h.symm).1
    rw [List.mem_cons]
    exact Or.inl (eq_of_path_eq hs (Node.root_mem_walk root) hnil)
  · intro t c ht ih hc _ rest h
    rw [enclosing_of_mem_children hc]
    obtain ⟨i, -, -, hpath⟩ := exists_path_of_mem_children hc
    rcases List.eq_nil_or_concat rest with rfl | ⟨rest, j, rfl⟩
    · rw [List.append_nil] at h
      rw [List.mem_cons]
      exact Or.inl (eq_of_path_eq hs (Node.mem_sites_of_mem_children ht hc) h.symm)
    · rw [hpath, List.concat_eq_append, ← List.append_assoc] at h
      exact List.mem_cons_of_mem _ (ih rest (List.append_inj' h rfl).1)

/-- Beside the way to the emptied node nothing changes. -/
theorem node_emptied_of_beside {root : Node} {t : Site} (hs : s ∈ root.sites) (ht : t ∈ root.sites)
    (h : s ∉ t :: t.enclosing) : (s.emptied t.path).node = s.node :=
  s.node.emptiedFrom_of_beside fun _ hpath => h (mem_enclosing_of_path_eq hs ht hpath)

end Site

/-! ## Walks -/

namespace Node

variable {path : List Nat} {root : Node} {enter : Node → Node → Bool}

theorem emptied_root (path : List Nat) (root : Node) :
    (Site.root root).emptied path = .root (root.emptyAt path) :=
  congrArg Site.root (emptiedFrom_append [] path root)

/-- A walk that goes by labels visits in the emptied tree what it visits in the
whole one outside of the emptied node. -/
theorem mem_walk_emptyAt
    (henter : ∀ s c : Site, enter (s.emptied path).node (c.emptied path).node
      = enter s.node c.node) {s' : Site} :
    s' ∈ (root.emptyAt path).walk enter ↔
      ∃ s ∈ root.walk enter, (∀ a ∈ s.enclosing, a.path ≠ path) ∧ s.emptied path = s' := by
  constructor
  · intro h
    refine walk_induction (P := fun s' => ∃ s ∈ root.walk enter,
      (∀ a ∈ s.enclosing, a.path ≠ path) ∧ s.emptied path = s') ?_ ?_ s' h
    · refine ⟨.root root, root_mem_walk root, ?_, emptied_root path root⟩
      intro a ha
      cases ha
    · rintro _ c' _ ⟨s, hs, habove, rfl⟩ hc' he
      obtain ⟨hne, c, hc, rfl⟩ := Site.mem_children_emptied.1 hc'
      rw [henter] at he
      refine ⟨c, mem_walk_of_child hs hc he, ?_, rfl⟩
      rw [Site.enclosing_of_mem_children hc, List.forall_mem_cons]
      exact ⟨hne, habove⟩
  · rintro ⟨s, hs, habove, rfl⟩
    refine walk_induction (P := fun s => (∀ a ∈ s.enclosing, a.path ≠ path) →
      s.emptied path ∈ (root.emptyAt path).walk enter) ?_ ?_ s hs habove
    · intro _
      rw [emptied_root]
      exact root_mem_walk _
    · intro s c _ ih hc he habove
      rw [Site.enclosing_of_mem_children hc, List.forall_mem_cons] at habove
      have hc' : c.emptied path ∈ (s.emptied path).children :=
        Site.mem_children_emptied.2 ⟨habove.1, c, hc, rfl⟩
      exact mem_walk_of_child (ih habove.2) hc' ((henter s c).trans he)

/-- The sites of the emptied tree are those outside of the emptied node. -/
theorem mem_sites_emptyAt {s' : Site} :
    s' ∈ (root.emptyAt path).sites ↔
      ∃ s ∈ root.sites, (∀ a ∈ s.enclosing, a.path ≠ path) ∧ s.emptied path = s' :=
  mem_walk_emptyAt fun _ _ => rfl

/-- What is reached in the emptied tree is what is reached outside of the emptied
node. -/
theorem mem_reached_emptyAt {s' : Site} :
    s' ∈ (root.emptyAt path).reached ↔
      ∃ s ∈ root.reached, (∀ a ∈ s.enclosing, a.path ≠ path) ∧ s.emptied path = s' :=
  mem_walk_emptyAt fun _ c => Site.named_emptied path c

/-- Keys that are distinct in a tree are so in what is left of it. -/
theorem KeysDistinct.emptyAt {kinds : List String} (h : root.KeysDistinct kinds)
    (path : List Nat) : (root.emptyAt path).KeysDistinct kinds := by
  -- No site comes twice, so it is enough that keys tell the sites that are left apart.
  refine List.Nodup.map_on ?_ ((walk_nodup _).filter _)
  intro s' hs' t' ht' hkey
  rw [List.mem_filter] at hs' ht'
  obtain ⟨s, hs, -, rfl⟩ := mem_sites_emptyAt.1 hs'.1
  obtain ⟨t, ht, -, rfl⟩ := mem_sites_emptyAt.1 ht'.1
  rw [Site.key_emptied, Site.key_emptied] at hkey
  have hkind := hs'.2
  rw [Site.kind_emptied] at hkind
  rw [h.eq_of_key_eq hs ht (List.contains_iff_mem.1 hkind) hkey]

end Node

end ScriptLint
