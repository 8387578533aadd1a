import Mathlib.Data.List.Nodup
import ScriptLint.Syntax.Site

/-!
# Where a walk goes

A walk is a list of sites.  Two facts about the list are used everywhere.

* It is the least set of sites that holds the root and, with a site, the
  children that are entered (`Node.walk_induction`, `Node.mem_walk_of_child`).
* No site comes twice (`Node.walk_nodup`).

The second one rests on the way back to the root: below different children of one
parent it ends in different frames.

`Node.sites` is the walk that enters every child.  Every other walk is a part of
it in the same order (`Node.walk_sublist`).

A key tells a node from others only if the tree sees to it.  `Node.KeysDistinct`
asks this of the nodes of some kinds.
-/

namespace ScriptLint

/-- A part of a list without repetitions is known by its members. -/
theorem eq_filter_of_sublist {α : Type} {p : α → Bool} {l l' : List α} (h : l.Sublist l')
    (hnodup : l'.Nodup) (hmem : ∀ a ∈ l', a ∈ l ↔ p a = true) : l = l'.filter p := by
  induction h with
  | slnil => rfl
  | @cons l l' a h ih =>
      rw [List.nodup_cons] at hnodup
      rw [List.forall_mem_cons] at hmem
      have hnot : ¬ p a = true := fun hp => hnodup.1 (h.subset (hmem.1.2 hp))
      rw [List.filter_cons_of_neg hnot]
      exact ih hnodup.2 hmem.2
  | @cons_cons l l' a h ih =>
      rw [List.nodup_cons] at hnodup
      rw [List.forall_mem_cons] at hmem
      rw [List.filter_cons_of_pos (hmem.1.1 (List.mem_cons_self ..))]
      refine congrArg _ (ih hnodup.2 fun b hb => ?_)
      have hne : b ≠ a := fun he => hnodup.1 (he ▸ hb)
      rw [← hmem.2 b hb, List.mem_cons, or_iff_right hne]

/-! ## The sites above a site -/

namespace Site

/-- The sites that frames lead to, the nearest first. -/
def above : List Frame → List Site
  | [] => []
  | frame :: frames => ⟨frame.parent, frames⟩ :: above frames

/-- The sites above a site, the nearest first. -/
def enclosing (s : Site) : List Site :=
  above s.frames

theorem map_node_above : ∀ frames : List Frame,
    (above frames).map Site.node = frames.map Frame.parent
  | [] => rfl
  | frame :: frames => congrArg (frame.parent :: ·) (map_node_above frames)

theorem ancestors_eq (s : Site) : s.ancestors = s.enclosing.map Site.node :=
  (map_node_above s.frames).symm

theorem mem_children {s c : Site} :
    c ∈ s.children ↔
      ∃ i, s.node.children[i]? = some c.node ∧ c.frames = ⟨s.node, i⟩ :: s.frames := by
  constructor
  · intro h
    obtain ⟨⟨n, i⟩, hmem, rfl⟩ := List.mem_map.1 h
    exact ⟨i, List.mem_zipIdx_iff_getElem?.1 hmem, rfl⟩
  · rintro ⟨i, hnode, hframes⟩
    refine List.mem_map.2 ⟨(c.node, i), List.mem_zipIdx_iff_getElem?.2 hnode, ?_⟩
    obtain ⟨n, frames⟩ := c
    cases hframes
    rfl

theorem node_mem_of_mem_children {s c : Site} (h : c ∈ s.children) : c.node ∈ s.node.children := by
  obtain ⟨i, hi, -⟩ := mem_children.1 h
  exact List.mem_of_getElem? hi

theorem enclosing_of_mem_children {s c : Site} (h : c ∈ s.children) :
    c.enclosing = s :: s.enclosing := by
  obtain ⟨i, -, hframes⟩ := mem_children.1 h
  rw [enclosing, hframes]
  rfl

theorem mem_above_of_suffix {n : Node} {i : Nat} {frames : List Frame} :
    ∀ {way : List Frame}, (⟨n, i⟩ :: frames) <:+ way → ⟨n, frames⟩ ∈ above way
  | [], h => by simp at h
  | frame :: way, h => by
      rw [List.suffix_cons_iff] at h
      rw [above, List.mem_cons]
      cases h with
      | inl he =>
          cases he
          exact Or.inl rfl
      | inr h => exact Or.inr (mem_above_of_suffix h)

/-- The parent of a frame on the way back is a site above. -/
theorem mem_enclosing_of_suffix {t : Site} {n : Node} {i : Nat} {frames : List Frame}
    (h : (⟨n, i⟩ :: frames) <:+ t.frames) : ⟨n, frames⟩ ∈ t.enclosing :=
  mem_above_of_suffix h

theorem length_lt_of_mem_above {a : Site} : ∀ {frames : List Frame},
    a ∈ above frames → a.frames.length < frames.length
  | [], h => by cases h
  | frame :: frames, h => by
      rw [above, List.mem_cons] at h
      cases h with
      | inl h => simp [h]
      | inr h => exact Nat.lt_succ_of_lt (length_lt_of_mem_above h)

/-- A site above stands less deep. -/
theorem length_frames_lt {s a : Site} (h : a ∈ s.enclosing) :
    a.frames.length < s.frames.length :=
  length_lt_of_mem_above h

/-- A site above another one splits what is above that into what is below the site
and what is above it. -/
theorem exists_enclosing_eq_append {s b : Site} (h : b ∈ s.enclosing) :
    ∃ inner, s.enclosing = inner ++ b :: b.enclosing ∧ ∀ c ∈ inner, b ∈ c.enclosing := by
  obtain ⟨n, frames⟩ := s
  change b ∈ above frames at h
  change ∃ inner, above frames = inner ++ b :: b.enclosing ∧ ∀ c ∈ inner, b ∈ c.enclosing
  induction frames with
  | nil => cases h
  | cons frame frames ih =>
      rw [above, List.mem_cons] at h
      cases h with
      | inl h =>
          refine ⟨[], ?_, fun c hc => by cases hc⟩
          rw [h]
          rfl
      | inr h =>
          obtain ⟨inner, hsplit, hinner⟩ := ih h
          refine ⟨⟨frame.parent, frames⟩ :: inner, by rw [above, hsplit]; rfl, ?_⟩
          rw [List.forall_mem_cons]
          exact ⟨h, hinner⟩

/-- What comes after a site on the way outwards is what is above it. -/
theorem enclosing_eq_append {s a : Site} {inner outer : List Site}
    (h : s.enclosing = inner ++ a :: outer) : s.enclosing = inner ++ a :: a.enclosing := by
  obtain ⟨n, frames⟩ := s
  change above frames = inner ++ a :: outer at h
  change above frames = inner ++ a :: a.enclosing
  induction frames generalizing inner with
  | nil => simp [above] at h
  | cons frame frames ih =>
      rw [above] at h ⊢
      cases inner with
      | nil =>
          rw [List.nil_append, List.cons.injEq] at h
          rw [← h.1]
          rfl
      | cons b inner =>
          rw [List.cons_append, List.cons.injEq] at h
          rw [List.cons_append, h.1, ih h.2]

/-- A child that fills a field is a child. -/
theorem mem_children_of_child? {s c : Site} {field : String} (h : s.child? field = some c) :
    c ∈ s.children :=
  List.mem_of_find?_eq_some h

/-- The child that fills a field is found as a site where it is found as a node. -/
theorem map_node_child? (s : Site) (field : String) :
    (s.child? field).map Site.node = s.node.child? field := by
  have hnodes (l : List Node) (i : Nat) :
      (((l.zipIdx i).map fun ci => (⟨ci.1, ⟨s.node, ci.2⟩ :: s.frames⟩ : Site)).find? fun c =>
        c.node.label.field? == some field).map Site.node
      = l.find? fun c => c.label.field? == some field := by
    induction l generalizing i with
    | nil => rfl
    | cons n l ih =>
        rw [List.zipIdx_cons, List.map_cons, List.find?_cons, List.find?_cons]
        cases n.label.field? == some field with
        | true => rfl
        | false => exact ih (i + 1)
  exact hnodes s.node.children 0

end Site

/-! ## What a walk holds -/

namespace Node

variable {enter : Node → Node → Bool}

/-- The first of the children from number `i` on has that number. -/
theorem of_drop_eq_cons {l rest : List Node} {n : Node} {i : Nat} (h : l.drop i = n :: rest) :
    l[i]? = some n ∧ l.drop (i + 1) = rest := by
  constructor
  · rw [← List.head?_drop, h, List.head?_cons]
  · rw [← List.tail_drop, h, List.tail_cons]

mutual

theorem walkFrom_induction {P : Site → Prop}
    (step : ∀ s c, P s → c ∈ s.children → enter s.node c.node = true → P c) :
    ∀ (n : Node) (frames : List Frame), P ⟨n, frames⟩ → ∀ s ∈ n.walkFrom enter frames, P s
  | .mk label children, frames, h, s, hs => by
      rw [walkFrom, List.mem_cons] at hs
      cases hs with
      | inl he => exact he ▸ h
      | inr hs => exact walkAmong_induction step (.mk label children) frames h children 0 rfl s hs

theorem walkAmong_induction {P : Site → Prop}
    (step : ∀ s c, P s → c ∈ s.children → enter s.node c.node = true → P c)
    (parent : Node) (frames : List Frame) (h : P ⟨parent, frames⟩) :
    ∀ (rest : List Node) (i : Nat), parent.children.drop i = rest →
      ∀ s ∈ walkAmong enter parent frames i rest, P s
  | [], _, _, s, hs => by simp [walkAmong] at hs
  | child :: rest, i, hrest, s, hs => by
      obtain ⟨hget, htail⟩ := of_drop_eq_cons hrest
      rw [walkAmong, List.mem_append] at hs
      cases hs with
      | inl hs =>
          by_cases he : enter parent child = true
          · rw [if_pos he] at hs
            have hmem : (⟨child, ⟨parent, i⟩ :: frames⟩ : Site) ∈ Site.children ⟨parent, frames⟩ :=
              Site.mem_children.2 ⟨i, hget, rfl⟩
            exact walkFrom_induction step child _ (step _ _ h hmem he) s hs
          · rw [if_neg he] at hs
            cases hs
      | inr hs => exact walkAmong_induction step parent frames h rest (i + 1) htail s hs

end

theorem walkAmong_eq_flatMap (parent : Node) (frames : List Frame) (rest : List Node) (i : Nat) :
    walkAmong enter parent frames i rest =
      (((rest.zipIdx i).map fun (c, j) => (⟨c, ⟨parent, j⟩ :: frames⟩ : Site)).filter
        fun c => enter parent c.node).flatMap fun c => c.node.walkFrom enter c.frames := by
  induction rest generalizing i with
  | nil =>
      rw [walkAmong]
      rfl
  | cons child rest ih =>
      rw [walkAmong, ih, List.zipIdx_cons, List.map_cons, List.filter_cons]
      dsimp only
      cases enter parent child with
      | true => rfl
      | false => rfl

/-- A walk takes its first site, and then walks through the children that are entered. -/
theorem walkFrom_eq (s : Site) :
    s.node.walkFrom enter s.frames =
      s :: (s.children.filter fun c => enter s.node c.node).flatMap
        fun c => c.node.walkFrom enter c.frames := by
  obtain ⟨⟨label, children⟩, frames⟩ := s
  rw [walkFrom, walkAmong_eq_flatMap]
  rfl

theorem self_mem_walkFrom (n : Node) (frames : List Frame) :
    (⟨n, frames⟩ : Site) ∈ n.walkFrom enter frames := by
  cases n with
  | mk label children =>
      rw [walkFrom]
      exact List.mem_cons_self ..

theorem walkFrom_subset_walkAmong {parent child : Node} {frames : List Frame}
    (he : enter parent child = true) {s : Site} :
    ∀ {rest : List Node} {i j : Nat}, rest[j]? = some child →
      s ∈ child.walkFrom enter (⟨parent, i + j⟩ :: frames) →
      s ∈ walkAmong enter parent frames i rest
  | [], _, _, hj, _ => by simp at hj
  | c :: rest, i, 0, hj, hs => by
      rw [List.getElem?_cons_zero, Option.some.injEq] at hj
      subst hj
      rw [walkAmong, if_pos he]
      exact List.mem_append_left _ hs
  | c :: rest, i, j + 1, hj, hs => by
      rw [List.getElem?_cons_succ] at hj
      have hij : i + (j + 1) = i + 1 + j := by omega
      rw [hij] at hs
      rw [walkAmong]
      exact List.mem_append_right _ (walkFrom_subset_walkAmong he hj hs)

mutual

theorem mem_walkFrom_of_child {s c : Site} (hc : c ∈ s.children)
    (he : enter s.node c.node = true) :
    ∀ (n : Node) (frames : List Frame), s ∈ n.walkFrom enter frames → c ∈ n.walkFrom enter frames
  | .mk label children, frames, hs => by
      rw [walkFrom, List.mem_cons] at hs ⊢
      right
      cases hs with
      | inl hs =>
          subst hs
          obtain ⟨i, hget, hframes⟩ := Site.mem_children.1 hc
          refine walkFrom_subset_walkAmong he hget ?_
          rw [Nat.zero_add, ← hframes]
          exact self_mem_walkFrom c.node c.frames
      | inr hs => exact mem_walkAmong_of_child hc he _ frames children 0 hs

theorem mem_walkAmong_of_child {s c : Site} (hc : c ∈ s.children)
    (he : enter s.node c.node = true) (parent : Node) (frames : List Frame) :
    ∀ (rest : List Node) (i : Nat), s ∈ walkAmong enter parent frames i rest →
      c ∈ walkAmong enter parent frames i rest
  | [], _, hs => by simp [walkAmong] at hs
  | child :: rest, i, hs => by
      rw [walkAmong, List.mem_append] at hs ⊢
      cases hs with
      | inl hs =>
          by_cases hin : enter parent child = true
          · rw [if_pos hin] at hs ⊢
            exact Or.inl (mem_walkFrom_of_child hc he child _ hs)
          · rw [if_neg hin] at hs
            cases hs
      | inr hs => exact Or.inr (mem_walkAmong_of_child hc he parent frames rest (i + 1) hs)

end

/-- With a site, a walk holds the children that it enters. -/
theorem mem_walk_of_child {root : Node} {s c : Site} (hs : s ∈ root.walk enter)
    (hc : c ∈ s.children) (he : enter s.node c.node = true) : c ∈ root.walk enter :=
  mem_walkFrom_of_child hc he root [] hs

theorem root_mem_walk (root : Node) : Site.root root ∈ root.walk enter :=
  self_mem_walkFrom root []

/-- What holds of the root, and of an entered child of a site of which it holds,
holds of all sites of a walk. -/
theorem walk_induction {root : Node} {P : Site → Prop} (hroot : P (.root root))
    (step : ∀ s c, s ∈ root.walk enter → P s → c ∈ s.children →
      enter s.node c.node = true → P c) :
    ∀ s ∈ root.walk enter, P s := by
  have hboth : ∀ s ∈ root.walk enter, s ∈ root.walk enter ∧ P s :=
    walkFrom_induction
      (fun s c hs hc he => ⟨mem_walk_of_child hs.1 hc he, step s c hs.1 hs.2 hc he⟩)
      root [] ⟨root_mem_walk root, hroot⟩
  exact fun s hs => (hboth s hs).2

/-- A walk holds what is above its sites. -/
theorem mem_walk_of_mem_enclosing {root : Node} {s a : Site} (hs : s ∈ root.walk enter)
    (ha : a ∈ s.enclosing) : a ∈ root.walk enter := by
  refine walk_induction (P := fun s => ∀ a ∈ s.enclosing, a ∈ root.walk enter) ?_ ?_ s hs a ha
  · intro a ha
    cases ha
  · intro s c hs ih hc he a ha
    rw [Site.enclosing_of_mem_children hc, List.mem_cons] at ha
    cases ha with
    | inl h => exact h ▸ hs
    | inr h => exact ih a h

/-! ## Subtrees -/

/-- The way down from a site above starts with one of its children. -/
theorem exists_child_of_mem_enclosing {root : Node} {s t : Site} (ht : t ∈ root.walk enter)
    (hs : s ∈ t.enclosing) : ∃ c ∈ s.children, c ∈ t :: t.enclosing := by
  refine walk_induction (P := fun t => ∀ s ∈ t.enclosing, ∃ c ∈ s.children, c ∈ t :: t.enclosing)
    ?_ ?_ t ht s hs
  · intro s hs
    cases hs
  · intro t c _ ih hc _ s hs
    rw [Site.enclosing_of_mem_children hc] at hs ⊢
    rw [List.mem_cons] at hs
    cases hs with
    | inl he => exact ⟨c, he ▸ hc, List.mem_cons_self ..⟩
    | inr hs =>
        obtain ⟨d, hd, hmem⟩ := ih s hs
        exact ⟨d, hd, List.mem_cons_of_mem _ hmem⟩

/-- The node of a site is a node of the tree of each site above. -/
theorem exists_mem_walk_of_mem_enclosing {root : Node} {s t : Site} (ht : t ∈ root.walk enter)
    (hs : s ∈ t :: t.enclosing) : ∃ u ∈ s.node.walk enter, u.node = t.node := by
  refine walk_induction (P := fun t => ∀ s ∈ t :: t.enclosing, ∃ u ∈ s.node.walk enter,
    u.node = t.node) ?_ ?_ t ht s hs
  · intro s hs
    rw [List.mem_singleton.1 hs]
    exact ⟨.root root, root_mem_walk root, rfl⟩
  · intro t c _ ih hc he s hs
    rw [List.mem_cons] at hs
    cases hs with
    | inl h =>
        rw [h]
        exact ⟨.root c.node, root_mem_walk c.node, rfl⟩
    | inr hs =>
        rw [Site.enclosing_of_mem_children hc] at hs
        obtain ⟨u, hu, hnode⟩ := ih s hs
        obtain ⟨i, hi, -⟩ := Site.mem_children.1 hc
        rw [← hnode] at hi he
        exact ⟨⟨c.node, ⟨u.node, i⟩ :: u.frames⟩,
          mem_walk_of_child hu (Site.mem_children.2 ⟨i, hi, rfl⟩) he, rfl⟩

/-! ## No site twice -/

/-- The way back from a site of a subtree ends with the way back from its root. -/
theorem frames_suffix_of_mem_walkFrom {n : Node} {frames : List Frame} {s : Site}
    (hs : s ∈ n.walkFrom enter frames) : frames <:+ s.frames := by
  refine walkFrom_induction (P := fun s => frames <:+ s.frames) ?_ n frames List.suffix_rfl s hs
  intro s c hsuffix hc _
  obtain ⟨i, -, hframes⟩ := Site.mem_children.1 hc
  rw [hframes]
  exact hsuffix.trans (List.suffix_cons ..)

/-- The way back from a site below the children from number `i` on passes
through one of them. -/
theorem frames_suffix_of_mem_walkAmong {parent : Node} {frames : List Frame} {s : Site} :
    ∀ {rest : List Node} {i : Nat}, s ∈ walkAmong enter parent frames i rest →
      ∃ j, i ≤ j ∧ (⟨parent, j⟩ :: frames) <:+ s.frames
  | [], _, hs => by simp [walkAmong] at hs
  | child :: rest, i, hs => by
      rw [walkAmong, List.mem_append] at hs
      cases hs with
      | inl hs =>
          by_cases he : enter parent child = true
          · rw [if_pos he] at hs
            exact ⟨i, Nat.le_refl i, frames_suffix_of_mem_walkFrom hs⟩
          · rw [if_neg he] at hs
            cases hs
      | inr hs =>
          obtain ⟨j, hj, hsuffix⟩ := frames_suffix_of_mem_walkAmong hs
          exact ⟨j, Nat.le_of_succ_le hj, hsuffix⟩

/-- Two suffixes of one list with equally many elements are the same. -/
theorem index_eq_of_suffix {parent : Node} {frames way : List Frame} {i j : Nat}
    (hi : (⟨parent, i⟩ :: frames) <:+ way) (hj : (⟨parent, j⟩ :: frames) <:+ way) : i = j := by
  have hsuffix := List.suffix_of_suffix_length_le hi hj (Nat.le_of_eq rfl)
  have heq := hsuffix.eq_of_length rfl
  rw [List.cons.injEq, Frame.mk.injEq] at heq
  exact heq.1.2

mutual

theorem walkFrom_nodup : ∀ (n : Node) (frames : List Frame), (n.walkFrom enter frames).Nodup
  | .mk label children, frames => by
      rw [walkFrom, List.nodup_cons]
      refine ⟨fun hmem => ?_, walkAmong_nodup _ frames children 0⟩
      obtain ⟨j, -, hsuffix⟩ := frames_suffix_of_mem_walkAmong hmem
      have hle : frames.length + 1 ≤ frames.length := hsuffix.length_le
      omega

theorem walkAmong_nodup (parent : Node) (frames : List Frame) :
    ∀ (rest : List Node) (i : Nat), (walkAmong enter parent frames i rest).Nodup
  | [], _ => by
      rw [walkAmong]
      exact List.nodup_nil
  | child :: rest, i => by
      rw [walkAmong]
      refine List.nodup_append.2 ⟨?_, walkAmong_nodup parent frames rest (i + 1), ?_⟩
      · split
        · exact walkFrom_nodup child _
        · exact List.nodup_nil
      · intro s hs t ht hst
        by_cases he : enter parent child = true
        · rw [if_pos he] at hs
          obtain ⟨j, hj, hsuffix⟩ := frames_suffix_of_mem_walkAmong ht
          have hij := index_eq_of_suffix (frames_suffix_of_mem_walkFrom hs) (hst ▸ hsuffix)
          omega
        · rw [if_neg he] at hs
          cases hs

end

/-- No site comes twice. -/
theorem walk_nodup (root : Node) : (root.walk enter).Nodup :=
  walkFrom_nodup root []

/-! ## Walks that enter more -/

variable {enter' : Node → Node → Bool}

mutual

theorem walkFrom_sublist
    (h : ∀ parent child, enter parent child = true → enter' parent child = true) :
    ∀ (n : Node) (frames : List Frame),
      (n.walkFrom enter frames).Sublist (n.walkFrom enter' frames)
  | .mk label children, frames => by
      rw [walkFrom, walkFrom]
      exact (walkAmong_sublist h _ frames children 0).cons_cons _

theorem walkAmong_sublist
    (h : ∀ parent child, enter parent child = true → enter' parent child = true)
    (parent : Node) (frames : List Frame) :
    ∀ (rest : List Node) (i : Nat),
      (walkAmong enter parent frames i rest).Sublist (walkAmong enter' parent frames i rest)
  | [], _ => by
      rw [walkAmong, walkAmong]
  | child :: rest, i => by
      have ih := walkAmong_sublist h parent frames rest (i + 1)
      rw [walkAmong, walkAmong]
      by_cases he : enter parent child = true
      · rw [if_pos he, if_pos (h parent child he)]
        exact (walkFrom_sublist h child _).append ih
      · rw [if_neg he, List.nil_append]
        exact ih.trans (List.sublist_append_right ..)

end

/-- A walk that enters more visits more, in the same order. -/
theorem walk_sublist (h : ∀ parent child, enter parent child = true → enter' parent child = true)
    (root : Node) : (root.walk enter).Sublist (root.walk enter') :=
  walkFrom_sublist h root []

/-- All sites of a tree. -/
def sites (root : Node) : List Site :=
  root.walk fun _ _ => true

theorem walk_sublist_sites (root : Node) : (root.walk enter).Sublist root.sites :=
  walk_sublist (fun _ _ _ => rfl) root

theorem mem_sites_of_mem_children {root : Node} {s c : Site} (hs : s ∈ root.sites)
    (hc : c ∈ s.children) : c ∈ root.sites :=
  mem_walk_of_child hs hc rfl

/-- The nodes of a tree in preorder, named or not. -/
def preorder (root : Node) : List Node :=
  root.sites.map Site.node

mutual

theorem map_node_walkFrom : ∀ (n : Node) (frames : List Frame),
    (n.walkFrom (fun _ _ => true) frames).map Site.node = n.preorder
  | .mk label children, frames => by
      rw [preorder, sites, walk, walkFrom, walkFrom, List.map_cons, List.map_cons,
        map_node_walkAmong, map_node_walkAmong]

theorem map_node_walkAmong (parent : Node) (frames : List Frame) : ∀ (rest : List Node) (i : Nat),
    (walkAmong (fun _ _ => true) parent frames i rest).map Site.node = rest.flatMap preorder
  | [], _ => by
      rw [walkAmong]
      rfl
  | child :: rest, i => by
      rw [walkAmong, if_pos rfl, List.map_append, map_node_walkFrom child,
        map_node_walkAmong parent frames rest, List.flatMap_cons]

end

/-- A node comes first, and then the nodes below each child. -/
theorem preorder_eq (n : Node) : n.preorder = n :: n.children.flatMap preorder := by
  obtain ⟨label, children⟩ := n
  rw [preorder, sites, walk, walkFrom, List.map_cons, map_node_walkAmong]
  rfl

theorem self_mem_preorder (n : Node) : n ∈ n.preorder := by
  rw [preorder_eq]
  exact List.mem_cons_self

theorem preorder_subset_of_mem_children {n c : Node} (hc : c ∈ n.children) :
    c.preorder ⊆ n.preorder := by
  intro m hm
  rw [preorder_eq n]
  exact List.mem_cons_of_mem _ (List.mem_flatMap.2 ⟨c, hc, hm⟩)

/-! ## What is visible -/

theorem visible_eq_walk {root : Node} (h : root.isTypeOnly = false) :
    root.visible = root.walk fun _ child => child.named && !child.isTypeOnly := by
  rw [visible, h]
  rfl

/-- What is visible is reached, in the same order. -/
theorem visible_sublist_reached (root : Node) : root.visible.Sublist root.reached := by
  unfold visible
  split
  · exact List.nil_sublist _
  · refine walk_sublist (fun _ child he => ?_) root
    rw [Bool.and_eq_true] at he
    exact he.1

/-- A site is visible when it is reached and no node that holds only types is
above it or is the site itself. -/
theorem mem_visible {root : Node} {s : Site} :
    s ∈ root.visible ↔
      s ∈ root.reached ∧ s.node.isTypeOnly = false ∧
        ∀ a ∈ s.enclosing, a.node.isTypeOnly = false := by
  constructor
  · intro hs
    have hreached := (visible_sublist_reached root).subset hs
    cases hroot : root.isTypeOnly with
    | true => simp [visible, hroot] at hs
    | false =>
        rw [visible_eq_walk hroot] at hs
        refine ⟨hreached, ?_⟩
        refine walk_induction (P := fun s => s.node.isTypeOnly = false ∧
          ∀ a ∈ s.enclosing, a.node.isTypeOnly = false) ⟨hroot, ?_⟩ ?_ s hs
        · intro a ha
          cases ha
        · intro s c _ ih hc he
          rw [Bool.and_eq_true, Bool.not_eq_true'] at he
          rw [Site.enclosing_of_mem_children hc, List.forall_mem_cons]
          exact ⟨he.2, ih⟩
  · rintro ⟨hs, hself, habove⟩
    refine walk_induction (P := fun s => s.node.isTypeOnly = false →
      (∀ a ∈ s.enclosing, a.node.isTypeOnly = false) → s ∈ root.visible) ?_ ?_ s hs hself habove
    · intro hroot _
      have hvisible : root.visible = root.walk _ := visible_eq_walk hroot
      rw [hvisible]
      exact root_mem_walk root
    · intro s c _ ih hc he hself habove
      rw [Site.enclosing_of_mem_children hc, List.forall_mem_cons] at habove
      have hs := ih habove.1 habove.2
      cases hroot : root.isTypeOnly with
      | true => simp [visible, hroot] at hs
      | false =>
          rw [visible_eq_walk hroot] at hs ⊢
          exact mem_walk_of_child hs hc (by simp [he, hself])

end Node

/-! ## Keys -/

/-- The keys of the sites whose nodes are of some kinds. -/
def keysOf (kinds : List String) (l : List Site) : List NodeKey :=
  (l.filter fun s => kinds.contains s.node.kind).map fun s => s.node.key

/-- No two nodes of some kinds have the same key. -/
def Node.KeysDistinct (kinds : List String) (root : Node) : Prop :=
  (keysOf kinds root.sites).Nodup

instance (kinds : List String) (root : Node) : Decidable (root.KeysDistinct kinds) :=
  inferInstanceAs (Decidable (List.Nodup _))

/-- Keys that tell nodes of some kinds apart do so for fewer kinds. -/
theorem Node.KeysDistinct.of_subset {kinds kinds' : List String} {root : Node}
    (h : root.KeysDistinct kinds') (hkinds : kinds ⊆ kinds') : root.KeysDistinct kinds := by
  refine h.sublist ((List.monotone_filter_right root.sites fun s hs => ?_).map _)
  exact List.contains_iff_mem.2 (hkinds (List.contains_iff_mem.1 hs))

/-- Where keys are distinct, a site whose kind counts is known by its key. -/
theorem Node.KeysDistinct.eq_of_key_eq {kinds : List String} {root : Node}
    (h : root.KeysDistinct kinds) {s t : Site} (hs : s ∈ root.sites) (ht : t ∈ root.sites)
    (hk : s.node.kind ∈ kinds) (hkey : s.node.key = t.node.key) : s = t := by
  have hkind : s.node.kind = t.node.kind := congrArg NodeKey.kind hkey
  refine List.inj_on_of_nodup_map h ?_ ?_ hkey
  · exact List.mem_filter.2 ⟨hs, List.contains_iff_mem.2 hk⟩
  · exact List.mem_filter.2 ⟨ht, List.contains_iff_mem.2 (hkind ▸ hk)⟩

/-! ## Trees written out -/

/-- A named node without errors. -/
def Node.plain (kind : String) (start stop : Nat) (field? : Option String)
    (children : List Node) : Node :=
  .mk ⟨kind, true, false, false, start, stop, field?⟩ children

/-- A node for punctuation. -/
def Node.token (kind : String) (start stop : Nat) : Node :=
  .mk ⟨kind, false, false, false, start, stop, none⟩ []

end ScriptLint
