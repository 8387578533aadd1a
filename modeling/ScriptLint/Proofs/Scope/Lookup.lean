import ScriptLint.Proofs.Scope.Contents

/-!
# What a table of scopes answers

All that the table of a program answers follows from what it holds (`ScopeTable.Draws`), if the
nodes that open scopes have keys of their own.

A key leads to the scope of its node (`Draws.scopeAt?_eq_some`).  Around a site the table finds the
scope of the nearest site above at which one was opened (`Draws.scopeOf`), and a name leads from
there to the nearest site above whose scope holds it (`Draws.resolve?`).  Sites at which no scope
was opened do not count on the way: they have no number, and nothing is declared in them.
-/

namespace ScriptLint

/-- The first one out of some with a property. -/
theorem exists_first {α : Type} {P : α → Prop} {l : List α} (h : ∃ a ∈ l, P a) :
    ∃ a inner outer, l = inner ++ a :: outer ∧ P a ∧ ∀ b ∈ inner, ¬ P b := by
  classical
  obtain ⟨a, ha, hP⟩ := h
  have hsome : (l.find? fun a => decide (P a)).isSome = true :=
    List.find?_isSome.2 ⟨a, ha, decide_eq_true hP⟩
  obtain ⟨b, hb⟩ := Option.isSome_iff_exists.1 hsome
  obtain ⟨hPb, inner, outer, hsplit, hinner⟩ := List.find?_eq_some_iff_append.1 hb
  exact ⟨b, inner, outer, hsplit, of_decide_eq_true hPb, fun c hc => by simpa using hinner c hc⟩

/-! ## The nearest scope around -/

namespace Node

variable {root : Node} {s a b : Site}

/-- The site `a` is the nearest one above `s` at which a scope is opened. -/
def ScopeAround (root : Node) (s a : Site) : Prop :=
  ∃ inner, s.enclosing = inner ++ a :: a.enclosing ∧ a ∈ root.scopeSites ∧
    ∀ b ∈ inner, b ∉ root.scopeSites

/-- Below the root there is one. -/
theorem exists_scopeAround (hs : s ∈ root.sites) (hne : s.frames ≠ []) :
    ∃ a, root.ScopeAround s a := by
  have hlast := ScopeTable.getLast?_enclosing_of_ne_nil hs hne
  obtain ⟨a, inner, outer, hsplit, ha, hinner⟩ := exists_first (P := (· ∈ root.scopeSites))
    ⟨_, List.mem_of_getLast? hlast, root_mem_scopeSites root⟩
  exact ⟨a, inner, Site.enclosing_eq_append hsplit, ha, hinner⟩

/-- It is the nearest one that opens a scope, if that was visited. -/
theorem scopeAround_of_find? (hfind : s.enclosing.find? Site.opensScope = some a)
    (ha : a ∈ root.scopeSites) : root.ScopeAround s a := by
  obtain ⟨-, inner, outer, hsplit, hinner⟩ := List.find?_eq_some_iff_append.1 hfind
  refine ⟨inner, Site.enclosing_eq_append hsplit, ha, fun b hb hmem => ?_⟩
  have hno := hinner b hb
  rw [opensScope_of_mem_scopeSites hmem] at hno
  cases hno

/-- A node that holds only types opens no scope, and nothing in it does.  So around all that lies
in it the nearest scope is that around the node. -/
theorem ScopeAround.of_isTypeOnly (h : root.ScopeAround s a) (hne : s.frames ≠ [])
    (htype : s.node.isTypeOnly = true) (hsb : s ∈ b.enclosing) : root.ScopeAround b a := by
  obtain ⟨inner, hsplit, ha, hinner⟩ := h
  obtain ⟨below, hsplit', hbelow⟩ := Site.exists_enclosing_eq_append hsb
  -- No scope was opened at the node or in it, for the pass does not enter it.
  have hclosed : ∀ c, s ∈ c :: c.enclosing → c ∉ root.scopeSites := fun c hc hmem => by
    rw [not_isTypeOnly_of_mem_scopeSites hmem s hc hne] at htype
    cases htype
  refine ⟨below ++ s :: inner, by rw [hsplit', hsplit, List.append_assoc, List.cons_append], ha, ?_⟩
  rw [List.forall_mem_append, List.forall_mem_cons]
  exact ⟨fun c hc => hclosed c (List.mem_cons_of_mem _ (hbelow c hc)),
    hclosed s List.mem_cons_self, hinner⟩

/-- On the way outwards from a site, what only sites with scopes can be is found among those that
open scopes from the nearest one on. -/
theorem ScopeAround.find?_enclosing (h : root.ScopeAround s a) {q : Site → Bool}
    (hq : ∀ b, q b = true → b ∈ root.scopeSites) :
    s.enclosing.find? q = (openers (a :: a.enclosing)).find? q := by
  obtain ⟨inner, hsplit, -, hinner⟩ := h
  have hnone : inner.find? q = none :=
    List.find?_eq_none.2 fun b hb hqb => hinner b hb (hq b hqb)
  rw [hsplit, List.find?_append, hnone, Option.none_or,
    find?_openers fun b hb => opensScope_of_mem_scopeSites (hq b hb)]

end Node

namespace ScopeTable

variable {t : ScopeTable} {root : Node} {B : Site → List Binding}

/-! ## Keys -/

/-- A key is that of the site whose scope it stands for. -/
theorem Draws.scopeAt?_eq_some {opened : List Site} (h : t.Draws root opened B) {key : NodeKey}
    {n : Nat} : t.scopeAt? key = some n ↔ ∃ a, opened[n]? = some a ∧ a.node.key = key := by
  have hkeys : (t.entries.map (·.1)).Nodup := h.keys_entries ▸ h.keys
  rw [scopeAt?, Keyed.lookup_eq_some_iff hkeys, h.entries, List.mem_map]
  simp [List.mem_zipIdx_iff_getElem?, and_comm]

/-- No scope is found at a node that opened none. -/
theorem Draws.scopeAt?_eq_none (h : t.Draws root root.scopeSites B) (hkeys : root.ScopeKeysUnique)
    {s : Site} (hs : s ∈ root.sites) (hnot : s ∉ root.scopeSites) :
    t.scopeAt? s.node.key = none := by
  refine Option.eq_none_iff_forall_ne_some.2 fun n hn => ?_
  obtain ⟨a, ha, hkey⟩ := h.scopeAt?_eq_some.1 hn
  have hmem := List.mem_of_getElem? ha
  exact hnot (hkeys a hmem s hs hkey.symm ▸ hmem)

/-! ## Around a site -/

/-- Around a site the scope of the nearest site above is found that has one. -/
theorem Draws.scopeOf (h : t.Draws root root.scopeSites B) (hkeys : root.ScopeKeysUnique)
    {s a : Site} (hs : s ∈ root.sites) (ha : root.ScopeAround s a) :
    root.scopeSites[t.scopeOf s]? = some a := by
  obtain ⟨inner, hsplit, hmem, hinner⟩ := ha
  obtain ⟨n, hn⟩ := List.getElem?_of_mem hmem
  have hnone : ∀ b ∈ inner, t.scopeAt? b.node.key = none := fun b hb =>
    have hmem : b ∈ s.enclosing := by
      rw [hsplit]
      exact List.mem_append_left _ hb
    h.scopeAt?_eq_none hkeys (Node.mem_walk_of_mem_enclosing hs hmem) (hinner b hb)
  have hfound : s.enclosing.findSome? (fun b => t.scopeAt? b.node.key) = some n :=
    List.findSome?_eq_some_iff.2
      ⟨inner, a, a.enclosing, hsplit, h.scopeAt?_eq_some.2 ⟨a, hn, rfl⟩, hnone⟩
  have hscope : t.scopeOf s = n := by
    rw [ScopeTable.scopeOf, s.ancestors_eq, List.findSome?_map]
    exact congrArg (Option.getD · moduleScope) hfound
  rw [hscope, hn]

/-! ## Names -/

/-- A scope declares the names of its bindings. -/
theorem Draws.declares_eq {opened : List Site} (h : t.Draws root opened B) {n : Nat} {a : Site}
    (hn : opened[n]? = some a) (x : String) :
    t.forest.declares n x = (B a).any (·.name == x) := by
  obtain ⟨parent?, hget, -⟩ := h.scope n a hn
  rw [Forest.declares, hget, Option.any_some, Scope.declares, Binding.any_firsts]

/-- What holds a binding has opened its scope. -/
theorem Draws.mem_of_any {opened : List Site} (h : t.Draws root opened B) {a : Site}
    {q : Binding → Bool} (ha : (B a).any q = true) : a ∈ opened := by
  by_contra hnot
  rw [h.quiet a hnot] at ha
  cases ha

/-- **A name leads to the nearest site above whose scope holds it**, and is global if there is
none. -/
theorem Draws.resolve? (h : t.Draws root root.scopeSites B) (hkeys : root.ScopeKeysUnique)
    (source : Source) {s : Site} (hs : s ∈ root.sites) (hne : s.frames ≠ []) :
    Option.Rel (fun n a => root.scopeSites[n]? = some a) (t.resolve? source s)
      (s.enclosing.find? fun a => (B a).any (·.name == source.textOf s.node)) := by
  obtain ⟨a, ha⟩ := Node.exists_scopeAround hs hne
  -- Sites without scopes hold nothing, so both searches start at the scope that is found.
  rw [ScopeTable.resolve?, Forest.lookup?, ha.find?_enclosing fun b => h.mem_of_any]
  exact find?_forall₂ (h.chain _ a (h.scopeOf hkeys hs ha)) fun n b hn => h.declares_eq hn _

end ScopeTable

end ScriptLint
