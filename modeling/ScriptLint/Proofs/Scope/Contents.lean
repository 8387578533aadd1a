import ScriptLint.Proofs.Scope.Openers
import ScriptLint.Proofs.Scope.Places

/-!
# What a table of scopes holds

The table of a program has the scope of the program and then one for each visible site that
opens a scope, in the order of the tree.  A scope holds the names that are declared in it in the
order of the declaring nodes, and for one node in the order of its places.  Of several
declarations of a name the first one counts (`Program.scopes_exact`).

The pass is followed as it goes, with the scope that it carries.  `ScopeTable.Draws` says what
the table holds after some sites have opened their scopes, and `ScopeTable.AtHand` which of them
the carried number belongs to.  A visit adds the site and what it declares (`Draws.visit`), and
the pass over a subtree adds its sites one by one (`Draws.collect`).  No scope is looked up by
key, so keys matter for the order of the entries alone: two nodes with one key would share one.

This is all that is said about a step of the pass.  What the table answers when the pass is over
is derived from what it holds.
-/

namespace ScriptLint

/-! ## The first declaration of a name -/

namespace Binding

/-- Of the bindings of one name the first one only. -/
def firsts : List Binding → List Binding
  | [] => []
  | b :: bs => b :: (firsts bs).filter (·.name != b.name)

/-- No name is lost. -/
theorem any_firsts (bs : List Binding) (name : String) :
    (firsts bs).any (·.name == name) = bs.any (·.name == name) := by
  induction bs with
  | nil => rfl
  | cons b bs ih =>
      rw [firsts, List.any_cons, List.any_cons, List.any_filter, ← ih]
      cases hb : b.name == name with
      | true => rfl
      | false =>
          have hne : b.name ≠ name := beq_eq_false_iff_ne.1 hb
          congr 1
          refine List.any_congr rfl fun b' => ?_
          by_cases hb' : b'.name = name
          · simp [hb', Ne.symm hne]
          · simp [hb']

/-- A further binding counts if its name is new. -/
theorem firsts_append_singleton (bs : List Binding) (b : Binding) :
    firsts (bs ++ [b]) =
      if bs.any (·.name == b.name) then firsts bs else firsts bs ++ [b] := by
  induction bs with
  | nil => rfl
  | cons b' bs ih =>
      rw [List.cons_append, firsts, ih, List.any_cons, firsts]
      by_cases hb : b'.name = b.name
      · cases bs.any (·.name == b.name) <;> simp [hb]
      · cases bs.any (·.name == b.name) <;> simp [hb, Ne.symm hb]

end Binding

/-- A scope that holds the first ones of some bindings holds them after one more. -/
theorem Scope.declare_firsts (kind : ScopeKind) (parent? : Option Nat) (bs : List Binding)
    (b : Binding) :
    Scope.declare ⟨kind, parent?, Binding.firsts bs⟩ b =
      ⟨kind, parent?, Binding.firsts (bs ++ [b])⟩ := by
  rw [Scope.declare, Scope.declares, Binding.any_firsts, Binding.firsts_append_singleton]
  split <;> rfl

/-- The kinds of scopes that declarations with `var` rise to. -/
theorem ScopeKind.stopsHoisting_iff {kind : ScopeKind} :
    kind.stopsHoisting = true ↔ kind = .module ∨ kind = .function := by
  cases kind <;> simp [ScopeKind.stopsHoisting]

/-! ## What declarations add -/

open Classical in
/-- What some declarations add to the scope of a site, out of those around them. -/
noncomputable def landing (ds : List Declaration) (around : List Site) (a : Site) : List Binding :=
  (ds.filter fun d => d.reach.targetIn around = some a).map fun d => ⟨d.name, d.kind⟩

open Classical in
/-- What a node adds to the scope of a site. -/
noncomputable def Site.declaredIn (source : Source) (s a : Site) : List Binding :=
  if s.aim source = some a then
    (s.declaredNames source).map fun name => ⟨name, s.declarationKind source⟩
  else []

open Classical in
theorem landing_cons (d : Declaration) (ds : List Declaration) (around : List Site) (a : Site) :
    landing (d :: ds) around a =
      (if d.reach.targetIn around = some a then [⟨d.name, d.kind⟩] else []) ++
        landing ds around a := by
  rw [landing, landing, List.filter_cons]
  by_cases h : d.reach.targetIn around = some a
  · rw [if_pos h, if_pos (decide_eq_true h)]
    rfl
  · rw [if_neg h, if_neg (by simpa using h)]
    rfl

open Classical in
/-- Declarations that share kind and target add their names there. -/
theorem landing_eq {ds : List Declaration} {around : List Site} {kind : String}
    {target : Option Site} (h : ∀ d ∈ ds, d.kind = kind ∧ d.reach.targetIn around = target)
    (a : Site) :
    landing ds around a =
      if target = some a then (ds.map (·.name)).map fun name => ⟨name, kind⟩ else [] := by
  induction ds with
  | nil => simp [landing]
  | cons d ds ih =>
      rw [List.forall_mem_cons] at h
      rw [landing_cons, ih h.2, h.1.2, h.1.1]
      split <;> rfl

/-- What a node adds to the scope of a site comes from its declarations. -/
theorem Site.landing_declarations (source : Source) {s : Site} (hs : s.frames ≠ []) (a : Site) :
    landing (s.node.outerDeclarations source) s.enclosing a ++
        landing (s.node.innerDeclarations source s.parentKind) (s :: s.enclosing) a =
      s.declaredIn source a := by
  classical
  rw [landing_eq (fun d hd => s.of_mem_outerDeclarations source hd),
    landing_eq (fun d hd => s.of_mem_innerDeclarations source hs hd), declaredIn, declaredNames,
    List.map_append, List.map_append]
  split <;> rfl

namespace ScopeTable

/-! ## The picture -/

/-- The table holds the scopes of the sites `opened`, in this order, and the scope of a site
holds the first ones of the bindings that `B` says. -/
structure Draws (t : ScopeTable) (root : Node) (opened : List Site) (B : Site → List Binding) :
    Prop where
  /-- The root comes first. -/
  first : opened.head? = some (.root root)
  /-- Keys tell the sites apart. -/
  keys : (opened.map (·.node.key)).Nodup
  /-- The keys are registered in order. -/
  entries : t.entries = opened.zipIdx.map fun (s, i) => (s.node.key, i)
  /-- There are no other scopes. -/
  size : t.forest.size = opened.length
  /-- A scope is of its site, and its parent is the scope of the nearest site above. -/
  scope : ∀ i s, opened[i]? = some s → ∃ parent?,
    t.forest.get? i = some ⟨s.scopeKind, parent?, Binding.firsts (B s)⟩ ∧
      Option.Rel (fun j a => j < i ∧ opened[j]? = some a) parent?
        (s.enclosing.find? Site.opensScope)
  /-- The way outwards passes through the scopes of the sites above. -/
  chain : ∀ i s, opened[i]? = some s →
    List.Forall₂ (fun j a => opened[j]? = some a) (t.forest.chain i) (openers (s :: s.enclosing))
  /-- Nothing is declared elsewhere. -/
  quiet : ∀ s, s ∉ opened → B s = []

/-- The number `scope` is that of the nearest of the sites `around` that opens a scope. -/
def AtHand (opened : List Site) (scope : Nat) (around : List Site) : Prop :=
  ∃ a, around.find? Site.opensScope = some a ∧ opened[scope]? = some a

theorem getElem?_append_of_eq_some {l : List Site} {i : Nat} {a : Site} (h : l[i]? = some a)
    (l' : List Site) : (l ++ l')[i]? = some a := by
  rw [List.getElem?_append_left (List.getElem?_eq_some_iff.1 h).1, h]

theorem getElem?_append_singleton {l : List Site} {i : Nat} {a s : Site}
    (h : (l ++ [s])[i]? = some a) : l[i]? = some a ∨ (i = l.length ∧ a = s) := by
  rcases Nat.lt_trichotomy i l.length with hlt | rfl | hgt
  · exact .inl (List.getElem?_append_left hlt ▸ h)
  · rw [List.getElem?_concat_length] at h
    exact .inr ⟨rfl, (Option.some.inj h).symm⟩
  · rw [List.getElem?_eq_none (by simp; omega)] at h
    cases h

theorem getLast?_cons_of_eq_some {l : List Site} {a : Site} (h : l.getLast? = some a) (s : Site) :
    (s :: l).getLast? = some a := by
  rw [List.getLast?_cons, h, Option.getD_some]

theorem AtHand.append {opened : List Site} {scope : Nat} {around : List Site}
    (h : AtHand opened scope around) (more : List Site) : AtHand (opened ++ more) scope around := by
  obtain ⟨a, ha, hnumber⟩ := h
  exact ⟨a, ha, getElem?_append_of_eq_some hnumber more⟩

theorem rel_append {l : List Site} {i : Nat} {parent? : Option Nat} {a? : Option Site}
    (h : Option.Rel (fun j a => j < i ∧ l[j]? = some a) parent? a?) (l' : List Site) :
    Option.Rel (fun j a => j < i ∧ (l ++ l')[j]? = some a) parent? a? := by
  cases h with
  | none => exact .none
  | some h => exact .some ⟨h.1, getElem?_append_of_eq_some h.2 l'⟩

/-- What is found first on related ways is related. -/
theorem find?_forall₂ {α β : Type} {r : α → β → Prop} {p : α → Bool} {q : β → Bool} {l : List α}
    {l' : List β} (h : List.Forall₂ r l l') (hpq : ∀ a b, r a b → p a = q b) :
    Option.Rel r (l.find? p) (l'.find? q) := by
  induction h with
  | nil => exact .none
  | @cons a b l l' hab _ ih =>
      rw [List.find?_cons, List.find?_cons, hpq a b hab]
      cases q b with
      | true => exact .some hab
      | false => exact ih

/-- If one is there, so is the one that it is related to. -/
theorem exists_of_rel_some {α β : Type} {r : α → β → Prop} {a? : Option α} {b : β}
    (h : Option.Rel r a? (some b)) : ∃ a, a? = some a ∧ r a b := by
  cases h with
  | some hab => exact ⟨_, rfl, hab⟩

/-- Both are there or none is. -/
theorem rel_eq_none_iff {α β : Type} {r : α → β → Prop} {a? : Option α} {b? : Option β}
    (h : Option.Rel r a? b?) : a? = none ↔ b? = none := by
  cases h <;> simp

namespace Draws

variable {t : ScopeTable} {root : Node} {opened : List Site} {B B' : Site → List Binding}

theorem congr (h : t.Draws root opened B) (hB : ∀ s, B s = B' s) : t.Draws root opened B' :=
  (funext hB : B = B') ▸ h

theorem keys_entries (h : t.Draws root opened B) :
    t.entries.map (·.1) = opened.map (·.node.key) := by
  have hkeys : t.entries.map (·.1) = (opened.zipIdx.map (·.1)).map (·.node.key) := by
    rw [h.entries, List.map_map, List.map_map]
    rfl
  rw [hkeys, List.zipIdx_map_fst]

/-- A site has one number. -/
theorem number_inj (h : t.Draws root opened B) {i j : Nat} {s : Site} (hi : opened[i]? = some s)
    (hj : opened[j]? = some s) : i = j :=
  (List.getElem?_inj (List.getElem?_eq_some_iff.1 hi).1 (h.keys.of_map _)).1 (hi.trans hj.symm)

open Classical in
/-- A name is declared in the scope of a site. -/
theorem declareIn (h : t.Draws root opened B) {n : Nat} {a : Site} (hn : opened[n]? = some a)
    (b : Binding) :
    ({ t with forest := t.forest.declare n b } : ScopeTable).Draws root opened
      fun s => B s ++ if a = s then [b] else [] where
  first := h.first
  keys := h.keys
  entries := h.entries
  size := by rw [Forest.size_declare, h.size]
  scope i s hi := by
    obtain ⟨parent?, hget, hparent⟩ := h.scope i s hi
    refine ⟨parent?, ?_, hparent⟩
    rw [Forest.get?_declare, hget]
    by_cases hni : n = i
    · have hs : a = s := by
        rw [hni, hi] at hn
        exact (Option.some.inj hn).symm
      rw [if_pos hni, if_pos hs, Option.map_some, Scope.declare_firsts]
    · have hs : a ≠ s := fun he => hni (h.number_inj (he ▸ hn) hi)
      rw [if_neg hni, if_neg hs, List.append_nil]
  chain i s hi := by
    rw [Forest.chain_declare]
    exact h.chain i s hi
  quiet s hs := by
    have hne : a ≠ s := fun he => hs (he ▸ List.mem_of_getElem? hn)
    rw [h.quiet s hs, if_neg hne]
    rfl

/-- A scope takes declarations with `var` when its site does. -/
theorem stopsHoisting_eq (h : t.Draws root opened B) {i : Nat} {s : Site}
    (hi : opened[i]? = some s) : t.forest.stopsHoisting i = s.takesVar := by
  obtain ⟨parent?, hget, -⟩ := h.scope i s hi
  rw [Forest.stopsHoisting, hget, Option.any_some, Site.scopeKind_stopsHoisting]

/-- The way outwards from the number at hand. -/
theorem chain_of_atHand (h : t.Draws root opened B) {scope : Nat} {frames : List Frame}
    (hhand : AtHand opened scope (Site.above frames)) :
    List.Forall₂ (fun j a => opened[j]? = some a) (t.forest.chain scope)
      (openers (Site.above frames)) := by
  obtain ⟨a, ha, hnumber⟩ := hhand
  rw [openers_above ha]
  exact h.chain scope a hnumber

/-- The number that `var` rises to is that of the nearest site that takes it. -/
theorem hoistTarget (h : t.Draws root opened B) {scope : Nat} {frames : List Frame}
    (hhand : AtHand opened scope (Site.above frames))
    (hlast : (Site.above frames).getLast? = some (.root root)) :
    ∃ a, (Site.above frames).find? Site.takesVar = some a ∧
      opened[t.forest.hoistTarget scope]? = some a := by
  have hsome : ((Site.above frames).find? Site.takesVar).isSome = true :=
    List.find?_isSome.2 ⟨_, List.mem_of_getLast? hlast, rfl⟩
  obtain ⟨a, ha⟩ := Option.isSome_iff_exists.1 hsome
  refine ⟨a, ha, ?_⟩
  have hfind := find?_forall₂ (h.chain_of_atHand hhand) fun j b hj => h.stopsHoisting_eq hj
  rw [find?_openers fun _ => Site.opensScope_of_takesVar, ha] at hfind
  obtain ⟨j, hj, hnumber⟩ := exists_of_rel_some hfind
  rw [Forest.hoistTarget, hj]
  exact hnumber

/-- The number that a declaration reaches is that of its target. -/
theorem target (h : t.Draws root opened B) {scope : Nat} {frames : List Frame}
    (hhand : AtHand opened scope (Site.above frames))
    (hlast : (Site.above frames).getLast? = some (.root root)) (reach : Reach) :
    ∃ a, reach.targetIn (Site.above frames) = some a ∧
      opened[t.target scope reach]? = some a := by
  cases reach with
  | here => exact hhand
  | hoisted => exact h.hoistTarget hhand hlast
  | program => exact ⟨_, hlast, List.head?_eq_getElem? ▸ h.first⟩

/-- Declarations add what lands at each site. -/
theorem declareAll {scope : Nat} {frames : List Frame} (ds : List Declaration)
    (h : t.Draws root opened B) (hhand : AtHand opened scope (Site.above frames))
    (hlast : (Site.above frames).getLast? = some (.root root)) :
    (t.declareAll scope ds).Draws root opened fun s => B s ++ landing ds (Site.above frames) s := by
  induction ds generalizing t B with
  | nil => exact h.congr fun s => by simp [landing]
  | cons d ds ih =>
      obtain ⟨a, ha, hnumber⟩ := h.target hhand hlast d.reach
      have hd : (declare scope t d).Draws root opened _ := h.declareIn hnumber ⟨d.name, d.kind⟩
      refine (ih hd).congr fun s => ?_
      rw [landing_cons, List.append_assoc]
      by_cases hs : a = s
      · rw [if_pos hs, if_pos (ha.trans (congrArg some hs))]
      · rw [if_neg hs, if_neg fun he => hs (Option.some.inj (ha.symm.trans he))]

/-- A site opens its scope inside the one at hand. -/
theorem openScope {scope : Nat} {s : Site} (h : t.Draws root opened B)
    (hhand : AtHand opened scope s.enclosing) (hopens : s.opensScope = true)
    (hkeys : ((opened ++ [s]).map (·.node.key)).Nodup) :
    (⟨t.forest.push s.scopeKind (some scope),
      Keyed.put s.node.key t.forest.size t.entries⟩ : ScopeTable).Draws root (opened ++ [s]) B where
  first := by
    rw [List.head?_append, h.first]
    rfl
  keys := hkeys
  entries := by
    have hnew : s.node.key ∉ t.entries.map (·.1) := by
      rw [h.keys_entries]
      rw [List.map_append, List.nodup_append] at hkeys
      exact fun hmem => hkeys.2.2 _ hmem _ (List.mem_singleton_self _) rfl
    have hput : Keyed.put s.node.key t.forest.size t.entries =
        t.entries ++ [(s.node.key, t.forest.size)] := Keyed.update_of_notMem _ hnew
    rw [hput, h.entries, h.size, List.zipIdx_append, List.map_append, Nat.zero_add]
    rfl
  size := by rw [Forest.size_push, h.size, List.length_append, List.length_singleton]
  scope i a hi := by
    rw [Forest.get?_push, h.size]
    rcases getElem?_append_singleton hi with hi | ⟨rfl, rfl⟩
    · obtain ⟨parent?, hget, hparent⟩ := h.scope i a hi
      rw [if_neg (Nat.ne_of_lt (List.getElem?_eq_some_iff.1 hi).1)]
      exact ⟨parent?, hget, rel_append hparent _⟩
    · obtain ⟨b, hb, hnumber⟩ := hhand
      have hnew : a ∉ opened := fun hmem => by
        rw [List.map_append, List.nodup_append] at hkeys
        exact hkeys.2.2 _ (List.mem_map_of_mem hmem) _ (List.mem_singleton_self _) rfl
      rw [if_pos rfl, h.quiet a hnew, hb]
      exact ⟨some scope, rfl, .some ⟨(List.getElem?_eq_some_iff.1 hnumber).1,
        getElem?_append_of_eq_some hnumber _⟩⟩
  chain i a hi := by
    rcases getElem?_append_singleton hi with hi | ⟨rfl, rfl⟩
    · rw [Forest.chain_push _ _ _ (h.size ▸ (List.getElem?_eq_some_iff.1 hi).1)]
      exact (h.chain i a hi).imp fun j b hj => getElem?_append_of_eq_some hj _
    · rw [← h.size, Forest.chain_push_size, openers, List.filter_cons_of_pos hopens, h.size]
      exact .cons hi ((h.chain_of_atHand hhand).imp fun j b hj => getElem?_append_of_eq_some hj _)
  quiet a ha := h.quiet a fun hmem => ha (List.mem_append_left _ hmem)

/-- After a node was entered its site is drawn, and the scope for what is inside is at hand. -/
theorem enter {scope : Nat} {s : Site} (h : t.Draws root opened B) (hs : s.frames ≠ [])
    (hhand : AtHand opened scope s.enclosing)
    (hkeys : ((opened ++ openers [s]).map (·.node.key)).Nodup) :
    (t.enter s.parentKind scope s.node).1.Draws root (opened ++ openers [s]) B ∧
      AtHand (opened ++ openers [s]) (t.enter s.parentKind scope s.node).2 (s :: s.enclosing) := by
  rw [ScopeTable.enter, Site.opens?_eq hs]
  cases hopens : s.opensScope with
  | true =>
      have hself : openers [s] = [s] := List.filter_cons_of_pos hopens
      rw [hself] at hkeys ⊢
      refine ⟨h.openScope hhand hopens hkeys, s, List.find?_cons_of_pos hopens, ?_⟩
      change (opened ++ [s])[t.forest.size]? = some s
      rw [h.size, List.getElem?_concat_length]
  | false =>
      have hself : openers [s] = [] := List.filter_cons_of_neg (by simp [hopens])
      obtain ⟨a, ha, hnumber⟩ := hhand
      rw [hself, List.append_nil]
      exact ⟨h, a, (List.find?_cons_of_neg (by simp [hopens])).trans ha, hnumber⟩

/-- After a visit the site is drawn with what it declares, and the scope for the children is at
hand. -/
theorem visit (source : Source) {scope : Nat} {s : Site} (h : t.Draws root opened B)
    (hs : s.frames ≠ []) (hhand : AtHand opened scope s.enclosing)
    (hlast : s.enclosing.getLast? = some (.root root))
    (hkeys : ((opened ++ openers [s]).map (·.node.key)).Nodup) :
    (t.visit source s.parentKind scope s.node).1.Draws root (opened ++ openers [s])
        (fun a => B a ++ s.declaredIn source a) ∧
      AtHand (opened ++ openers [s]) (t.visit source s.parentKind scope s.node).2
        (s :: s.enclosing) := by
  have houter := h.declareAll (s.node.outerDeclarations source) hhand hlast
  obtain ⟨hentered, hinside⟩ := houter.enter hs hhand hkeys
  have hlast' : (s :: s.enclosing).getLast? = some (.root root) := getLast?_cons_of_eq_some hlast s
  rw [s.cons_enclosing] at hinside hlast'
  have hinner := hentered.declareAll (s.node.innerDeclarations source s.parentKind) hinside hlast'
  refine ⟨hinner.congr fun a => ?_, hinside⟩
  rw [List.append_assoc, ← s.cons_enclosing, ← Site.landing_declarations source hs]
  rfl

/-! ## The pass -/

mutual

/-- The pass over a subtree draws its visible sites. -/
theorem collect (source : Source) :
    ∀ (n : Node) (frames : List Frame) {t : ScopeTable} {opened : List Site}
      {B : Site → List Binding} {scope : Nat}, n.isTypeOnly = false → frames ≠ [] →
      t.Draws root opened B → AtHand opened scope (Site.above frames) →
      (Site.above frames).getLast? = some (.root root) →
      ((opened ++ openers (n.walkFrom entersVisible frames)).map (·.node.key)).Nodup →
      (t.collect source (Site.parentKind ⟨n, frames⟩) scope n).Draws root
        (opened ++ openers (n.walkFrom entersVisible frames))
        fun a => B a ++ (n.walkFrom entersVisible frames).flatMap (·.declaredIn source a)
  | .mk label children, frames, t, opened, B, scope, hn, hframes, h, hhand, hlast, hkeys => by
      rw [Node.walkFrom, openers_cons, ← List.append_assoc] at hkeys ⊢
      rw [ScopeTable.collect, hn, if_neg Bool.false_ne_true]
      have hfirst : ((opened ++ openers [⟨.mk label children, frames⟩]).map (·.node.key)).Nodup := by
        rw [List.map_append] at hkeys
        exact hkeys.of_append_left
      obtain ⟨hvisit, hinside⟩ :=
        h.visit source (s := ⟨.mk label children, frames⟩) hframes hhand hlast hfirst
      have hlast' : (⟨.mk label children, frames⟩ :: Site.above frames).getLast? =
          some (.root root) := getLast?_cons_of_eq_some hlast _
      have hbelow := collectAmong source (.mk label children) frames children 0 hvisit hinside
        hlast' hkeys
      exact hbelow.congr fun a => by rw [List.flatMap_cons, List.append_assoc]

/-- The pass over siblings draws the visible sites of each. -/
theorem collectAmong (source : Source) (parent : Node) (frames : List Frame) :
    ∀ (rest : List Node) (i : Nat) {t : ScopeTable} {opened : List Site}
      {B : Site → List Binding} {scope : Nat},
      t.Draws root opened B → AtHand opened scope (⟨parent, frames⟩ :: Site.above frames) →
      (⟨parent, frames⟩ :: Site.above frames).getLast? = some (.root root) →
      ((opened ++ openers (Node.walkAmong entersVisible parent frames i rest)).map
        (·.node.key)).Nodup →
      (t.collectAmong source parent.kind scope rest).Draws root
        (opened ++ openers (Node.walkAmong entersVisible parent frames i rest))
        fun a => B a ++
          (Node.walkAmong entersVisible parent frames i rest).flatMap (·.declaredIn source a)
  | [], i, t, opened, B, scope, h, hhand, hlast, hkeys => by
      rw [ScopeTable.collectAmong, Node.walkAmong, openers, List.filter_nil, List.append_nil]
      exact h.congr fun a => (List.append_nil _).symm
  | child :: rest, i, t, opened, B, scope, h, hhand, hlast, hkeys => by
      rw [Node.walkAmong, openers_append, ← List.append_assoc] at hkeys ⊢
      rw [ScopeTable.collectAmong]
      have hchild : (if child.named then t.collect source parent.kind scope child else t).Draws root
          (opened ++ openers (if entersVisible parent child = true then
            child.walkFrom entersVisible (⟨parent, i⟩ :: frames) else []))
          fun a => B a ++ (if entersVisible parent child = true then
            child.walkFrom entersVisible (⟨parent, i⟩ :: frames) else []).flatMap
              (·.declaredIn source a) := by
        cases hnamed : child.named with
        | false =>
            have henter : entersVisible parent child = false := by simp [entersVisible, hnamed]
            simpa [henter, openers] using h
        | true =>
            rw [if_pos rfl]
            cases htype : child.isTypeOnly with
            | true =>
                have henter : entersVisible parent child = false := by simp [entersVisible, htype]
                rw [collect_of_isTypeOnly source t parent.kind scope htype]
                simpa [henter, openers] using h
            | false =>
                have henter : entersVisible parent child = true := by
                  simp [entersVisible, hnamed, htype]
                rw [List.map_append, if_pos henter] at hkeys
                rw [if_pos henter]
                exact collect source child (⟨parent, i⟩ :: frames) htype (List.cons_ne_nil _ _) h
                  hhand hlast hkeys.of_append_left
      have hrest := collectAmong source parent frames rest (i + 1) hchild (hhand.append _) hlast hkeys
      exact hrest.congr fun a => by rw [List.flatMap_append, List.append_assoc]

end

end Draws

/-- At the start only the program's scope is there. -/
theorem draws_start (root : Node) : (start root).Draws root [.root root] fun _ => [] where
  first := rfl
  keys := List.nodup_singleton _
  entries := rfl
  size := rfl
  scope i s hi := by
    cases i with
    | zero =>
        cases hi
        exact ⟨none, rfl, .none⟩
    | succ i => cases hi
  chain i s hi := by
    cases i with
    | zero =>
        cases hi
        exact .cons rfl .nil
    | succ i => cases hi
  quiet _ _ := rfl

/-- The root of a program declares nothing. -/
theorem declaredIn_root (source : Source) {root : Node} (hroot : root.kind = "program") (a : Site) :
    (Site.root root).declaredIn source a = [] := by
  have hkind : (Site.root root).node.kind = "program" := hroot
  have hnames : (Site.root root).declaredNames source = [] := by
    rw [Site.declaredNames, Site.outerDeclarations_of_notMem _ _ (by rw [hkind]; decide)]
    simp [Node.innerDeclarations, hkind]
  rw [Site.declaredIn, hnames, List.map_nil, ite_self]

/-- The table of a tree draws the root and the sites that are visible below it. -/
theorem draws_below (source : Source) {root : Node}
    (hkeys : (root.scopeSites.map (·.node.key)).Nodup) :
    (ofTree source root).Draws root root.scopeSites
      fun a => (visibleBelow root).flatMap (·.declaredIn source a) := by
  have hhand : AtHand [.root root] moduleScope (.root root :: Site.above []) :=
    ⟨.root root, rfl, rfl⟩
  exact (draws_start root).collectAmong source root [] root.children 0 hhand rfl hkeys

/-- The table of a program draws its visible sites. -/
theorem draws_ofTree (source : Source) {root : Node} (hroot : root.kind = "program")
    (hkeys : ((openers root.visible).map (·.node.key)).Nodup) :
    (ofTree source root).Draws root (openers root.visible)
      fun a => root.visible.flatMap (·.declaredIn source a) := by
  rw [visible_eq_cons_visibleBelow hroot] at hkeys ⊢
  refine (draws_below source hkeys).congr fun a => ?_
  rw [List.flatMap_cons, declaredIn_root source hroot]
  rfl

/-- Below the root there is a nearest site above that opens a scope. -/
theorem exists_opener_above {root : Node} {s : Site} (hs : s ∈ root.sites) (hne : s.frames ≠ []) :
    ∃ a, s.enclosing.find? Site.opensScope = some a := by
  have hlast := getLast?_enclosing_of_ne_nil hs hne
  rw [← Option.isSome_iff_exists, List.find?_isSome]
  exact ⟨_, List.mem_of_getLast? hlast, rfl⟩

/-- Declarations with `var` rise to the scope of the nearest site that takes them. -/
theorem Draws.hoists {t : ScopeTable} {root : Node} {opened : List Site}
    {B : Site → List Binding} (h : t.Draws root opened B) {i : Nat} {s : Site}
    (hi : opened[i]? = some s) (hs : s ∈ root.sites) (hopens : s.opensScope = true) :
    ∃ a target, opened[t.forest.hoistTarget i]? = some a ∧
      (s :: s.enclosing).find? Site.takesVar = some a ∧
      t.forest.get? (t.forest.hoistTarget i) = some target ∧
      (target.kind = .module ∨ target.kind = .function) := by
  have hhand : AtHand opened i (s :: s.enclosing) := ⟨s, List.find?_cons_of_pos hopens, hi⟩
  have hlast := getLast?_enclosing hs
  rw [s.cons_enclosing] at hhand hlast
  obtain ⟨a, ha, hnumber⟩ := h.hoistTarget hhand hlast
  obtain ⟨parent?, hget, -⟩ := h.scope _ a hnumber
  refine ⟨a, _, hnumber, s.cons_enclosing ▸ ha, hget, ?_⟩
  rw [← ScopeKind.stopsHoisting_iff, Site.scopeKind_stopsHoisting]
  exact List.find?_some ha

end ScopeTable

/-! ## Declarations in order -/

open Classical in
/-- The places where a site declares names in the scope of `a`, in the order of the tree. -/
noncomputable def Site.placesIn (source : Source) (s a : Site) : List Site :=
  s.subtree.filter fun i => s.aim source = some a ∧ s.DeclaresAt i

/-- The binding that a site declares at a place. -/
def Site.bindingAt (source : Source) (s i : Site) : Binding :=
  ⟨source.textOf i.node, s.declarationKind source⟩

/-- What a site adds to a scope stands at its places. -/
theorem Site.declaredIn_eq (source : Source) (s a : Site) :
    s.declaredIn source a = (s.placesIn source a).map (s.bindingAt source) := by
  classical
  obtain ⟨places, hnames, horder, hmem⟩ := s.spread_declaredNames source
  rw [declaredIn]
  split
  · next haim =>
      have hplaces : places = s.placesIn source a :=
        eq_filter_of_sublist horder (Node.walkFrom_nodup ..) fun i _ => by simp [hmem, haim]
      rw [← hnames, ← hplaces, List.map_map]
      rfl
  · next haim =>
      have hnone : s.placesIn source a = [] := by simp [placesIn, haim]
      rw [hnone, List.map_nil]

namespace Program

/-- The declarations of a program that aim at the scope of `a`, each as the declaring site and
the place of the name.  They stand in the order of the declaring sites, and for one site in the
order of the places. -/
noncomputable def declarationsIn (p : Program) (a : Site) : List (Site × Site) :=
  p.root.visible.flatMap fun s => (s.placesIn p.source a).map (s, ·)

/-- The visible sites that open scopes, in the order of the tree. -/
def scopeSites (p : Program) : List Site :=
  openers p.root.visible

/-- The scope with number `i` is what the tree says about the site that opens it. -/
structure ScopeOf (p : Program) (i : Nat) (s : Site) (scope : Scope) : Prop where
  /-- It has the kind of the site. -/
  kind : scope.kind = s.scopeKind
  /-- The scope of the program is in no other one. -/
  outermost : s.frames = [] → scope.parent? = none
  /-- Any other one is in that of the nearest site above, which is older. -/
  inside : s.frames ≠ [] → ∃ j a, scope.parent? = some j ∧ j < i ∧ p.scopeSites[j]? = some a ∧
    s.enclosing.find? Site.opensScope = some a
  /-- Declarations with `var` rise to the nearest function, or to the program. -/
  hoists : ∃ a target, p.scopeSites[p.scopes.forest.hoistTarget i]? = some a ∧
    (s :: s.enclosing).find? Site.takesVar = some a ∧
    p.scopes.forest.get? (p.scopes.forest.hoistTarget i) = some target ∧
    (target.kind = .module ∨ target.kind = .function)
  /-- It holds what is declared in it, and of several declarations of a name the first one. -/
  bindings : scope.bindings =
    Binding.firsts ((p.declarationsIn s).map fun (x, place) => x.bindingAt p.source place)

theorem map_declarationsIn (p : Program) (a : Site) :
    (p.declarationsIn a).map (fun (x, place) => x.bindingAt p.source place) =
      p.root.visible.flatMap (·.declaredIn p.source a) := by
  rw [declarationsIn, List.map_flatMap]
  congr 1
  funext s
  rw [Site.declaredIn_eq, List.map_map]
  rfl

/-- **The exact scopes of a program.**  The table has a scope for each visible site that opens
one, the program first and the others in the order of the tree, and each is what the tree says
about its site. -/
theorem scopes_exact (p : Program) (hroot : p.root.kind = "program")
    (hkeys : (p.scopeSites.map (·.node.key)).Nodup) :
    p.scopeSites.head? = some (.root p.root) ∧
    p.scopes.entries = (p.scopeSites.zipIdx.map fun (s, i) => (s.node.key, i)) ∧
    p.scopes.forest.size = p.scopeSites.length ∧
    ∀ i s, p.scopeSites[i]? = some s →
      ∃ scope, p.scopes.forest.get? i = some scope ∧ p.ScopeOf i s scope := by
  have hdraws : p.scopes.Draws p.root p.scopeSites _ :=
    ScopeTable.draws_ofTree p.source hroot hkeys
  refine ⟨hdraws.first, hdraws.entries, hdraws.size, fun i s hi => ?_⟩
  obtain ⟨hvisible, hopens⟩ := List.mem_filter.1 (List.mem_of_getElem? hi)
  have hs : s ∈ p.root.sites :=
    (Node.walk_sublist_sites p.root).subset ((Node.visible_sublist_reached p.root).subset hvisible)
  obtain ⟨parent?, hget, hparent⟩ := hdraws.scope i s hi
  refine ⟨_, hget, rfl, fun hnil => ?_, fun hne => ?_, hdraws.hoists hi hs hopens, ?_⟩
  · rw [Site.enclosing, hnil] at hparent
    cases hparent
    rfl
  · obtain ⟨a, ha⟩ := ScopeTable.exists_opener_above hs hne
    rw [ha] at hparent
    obtain ⟨j, hj, hlt, hnumber⟩ := ScopeTable.exists_of_rel_some hparent
    exact ⟨j, a, hj, hlt, hnumber, ha⟩
  · rw [map_declarationsIn]

/-- A name that a block declares with `var` before a function takes it, with a parameter in the
function. -/
def hoisted : Program where
  filename := "hoisted.js"
  dialect := .javascript
  source := .ofString "\x7b var x \x7d function x(y) \x7b\x7d"
  root :=
    plain "program" 0 26 none [
      plain "statement_block" 0 9 none [
        plain "variable_declaration" 2 7 none [
          plain "variable_declarator" 6 7 none [plain "identifier" 6 7 (some "name") []]]],
      plain "function_declaration" 10 26 none [
        plain "identifier" 19 20 (some "name") [],
        plain "formal_parameters" 20 23 (some "parameters") [plain "identifier" 21 22 none []],
        plain "statement_block" 24 26 (some "body") []]]
where
  /-- A named node. -/
  plain (kind : String) (start stop : Nat) (field? : Option String) (children : List Node) :
      Node :=
    .mk ⟨kind, true, false, false, start, stop, field?⟩ children

/-- The program holds the first one of the two declarations. -/
theorem scopes_hoisted :
    hoisted.scopeSites.map (·.node.kind) = ["program", "statement_block", "function_declaration"] ∧
    ∃ scope, hoisted.scopes.forest.get? 0 = some scope ∧
      hoisted.ScopeOf 0 (.root hoisted.root) scope ∧ scope.bindings = [⟨"x", "var"⟩] := by
  have hroot : hoisted.root.kind = "program" := rfl
  have hkeys : (hoisted.scopeSites.map (·.node.key)).Nodup := by decide
  obtain ⟨-, -, -, hscopes⟩ := scopes_exact hoisted hroot hkeys
  obtain ⟨scope, hget, hscope⟩ := hscopes 0 (.root hoisted.root) rfl
  refine ⟨by decide, scope, hget, hscope, ?_⟩
  have hmodule : hoisted.scopes.forest.get? 0 = some ⟨.module, none, [⟨"x", "var"⟩]⟩ := by
    decide +kernel
  rw [hmodule] at hget
  cases hget
  rfl

end Program

end ScriptLint
