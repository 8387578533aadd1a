import Mathlib.Data.List.Basic
import ScriptLint.Scope.Forest

/-!
# Scopes as they grow

A forest of scopes grows by steps: a scope is created, a name is declared in a scope, or a
name is declared so that it rises out of blocks.  What becomes of a name depends on what was
declared where, and not on when (`Forest.lookup?_run_exact`).  A name is found in the nearest
scope outwards that some step declared it in.  So the declarations of a run can come in any
order, and further steps can only bring in a nearer scope.

Parents and kinds are the `shape` of a forest, and the creations of a run alone determine it
(`shape_run`).  Ways outwards and the scopes that take rising declarations depend on nothing
else, so they stay as they are once they are there (`hoistTarget_extend`).  Both are known
by one step outwards at a time (`lookup?_eq`, `hoistTarget_eq`), which is how everything here
is proved about them.
-/

namespace ScriptLint.Forest

/-! ## One step outwards -/

/-- The scope around the one with a number. -/
def parent? (f : Forest) (i : Nat) : Option Nat :=
  (f.get? i).bind Scope.parent?

/-- Scopes are inside older ones. -/
def Founded (f : Forest) : Prop :=
  ∀ i p, f.parent? i = some p → p < i

/-- From a scope outwards, the scope itself included. -/
inductive Outward (f : Forest) : Nat → Nat → Prop where
  | self (i : Nat) : Outward f i i
  | parent {i p s : Nat} : f.parent? i = some p → Outward f p s → Outward f i s

/-- The nearest scope outwards with a property. -/
inductive Nearest (f : Forest) (P : Nat → Prop) : Nat → Nat → Prop where
  | here {i : Nat} : P i → Nearest f P i i
  | parent {i p s : Nat} : ¬ P i → f.parent? i = some p → Nearest f P p s → Nearest f P i s

variable {f g : Forest} {i j p s : Nat} {x : String}

theorem get?_eq_none (h : f.size ≤ i) : f.get? i = none := by
  rw [get?, List.getElem?_eq_none]
  simpa [toList, size] using h

theorem lt_size_of_parent? (h : f.parent? i = some p) : i < f.size := by
  by_contra hi
  rw [parent?, get?_eq_none (Nat.le_of_not_lt hi)] at h
  cases h

theorem lt_size_of_declares (h : f.declares i x = true) : i < f.size := by
  by_contra hi
  rw [declares, get?_eq_none (Nat.le_of_not_lt hi)] at h
  cases h

theorem chainIn_eq_nil : ∀ {l : List Scope}, l.length ≤ i → chainIn l i = []
  | [], _ => rfl
  | scope :: older, h => by
      have hlt : older.length < i := h
      rw [chainIn, if_neg (Nat.ne_of_gt hlt)]
      exact chainIn_eq_nil (Nat.le_of_lt hlt)

/-- A newer scope is on no way outwards from an older one. -/
theorem chainIn_cons_of_lt {scope : Scope} {older : List Scope} (h : i < older.length) :
    chainIn (scope :: older) i = chainIn older i := by
  rw [chainIn, if_neg (Nat.ne_of_lt h)]

theorem parent?_cons (scope : Scope) (older : List Scope) (i : Nat) :
    parent? ⟨scope :: older⟩ i = if i = older.length then scope.parent? else parent? ⟨older⟩ i := by
  have hlen : older.reverse.length = older.length := List.length_reverse
  rw [parent?, parent?, get?, get?, toList, toList, List.reverse_cons]
  split
  next hi => rw [hi, ← hlen, List.getElem?_concat_length, Option.bind_some]
  next hi =>
    rcases Nat.lt_or_gt_of_ne hi with hlt | hgt
    · rw [List.getElem?_append_left (hlen ▸ hlt)]
    · rw [List.getElem?_eq_none (by simp; omega), List.getElem?_eq_none (by simp; omega)]

/-- The way outwards is that of the parent, with the scope in front. -/
theorem chainIn_eq : ∀ {l : List Scope} {i : Nat}, Founded ⟨l⟩ → i < l.length →
    chainIn l i = i :: ((parent? ⟨l⟩ i).map (chainIn l)).getD []
  | [], _, _, h => by cases h
  | scope :: older, i, hfounded, h => by
      have hfurther : ((parent? ⟨scope :: older⟩ i).map (chainIn older)).getD [] =
          ((parent? ⟨scope :: older⟩ i).map (chainIn (scope :: older))).getD [] := by
        cases hp : parent? ⟨scope :: older⟩ i with
        | none => rfl
        | some p =>
            have hlt : p < older.length :=
              Nat.lt_of_lt_of_le (hfounded i p hp) (Nat.le_of_lt_succ h)
            exact (chainIn_cons_of_lt hlt).symm
      rw [← hfurther, parent?_cons]
      by_cases hi : i = older.length
      · rw [chainIn, if_pos hi, if_pos hi]
        cases scope.parent? <;> rfl
      · have hlt : i < older.length := by
          rw [List.length_cons] at h
          omega
        have hfounded' : Founded ⟨older⟩ := by
          intro j p hp
          have hj : j ≠ older.length := Nat.ne_of_lt (lt_size_of_parent? hp)
          refine hfounded j p ?_
          rw [parent?_cons, if_neg hj, hp]
        rw [if_neg hi, chainIn_cons_of_lt hlt]
        exact chainIn_eq hfounded' hlt

theorem chain_eq (hf : f.Founded) (hi : i < f.size) :
    f.chain i = i :: ((f.parent? i).map f.chain).getD [] :=
  chainIn_eq hf hi

/-- A name is looked up in a scope and then in the one around it. -/
theorem lookup?_eq (hf : f.Founded) (i : Nat) (x : String) :
    f.lookup? i x =
      if f.declares i x then some i else (f.parent? i).bind fun p => f.lookup? p x := by
  rcases Nat.lt_or_ge i f.size with hi | hi
  · rw [lookup?, chain_eq hf hi, List.find?_cons]
    cases f.declares i x with
    | true => rfl
    | false => cases f.parent? i <;> rfl
  · have hchain : f.chain i = [] := chainIn_eq_nil hi
    rw [lookup?, hchain, declares, parent?, get?_eq_none hi]
    rfl

/-- A declaration rises to a scope that stops it, or to one that is inside no other. -/
theorem hoistTarget_eq (hf : f.Founded) (hi : i < f.size) :
    f.hoistTarget i =
      if f.stopsHoisting i then i else ((f.parent? i).map f.hoistTarget).getD i := by
  rw [hoistTarget, chain_eq hf hi, List.find?_cons]
  cases f.stopsHoisting i with
  | true => rfl
  | false =>
      cases hp : f.parent? i with
      | none => rfl
      | some p =>
          have hchain := chain_eq hf (Nat.lt_trans (hf i p hp) hi)
          simp only [Option.map_some, Option.getD_some, Bool.false_eq_true, if_false, hoistTarget]
          rw [hchain, List.getLast?_cons_cons]
          rfl

/-! ## The nearest scope -/

theorem lookup?_eq_some (hf : f.Founded) :
    f.lookup? i x = some s ↔ f.Nearest (fun j => f.declares j x = true) i s := by
  -- The induction goes outwards: a scope's number is larger than its parent's.
  induction i using Nat.strongRecOn with
  | ind i ih =>
      rw [lookup?_eq hf]
      by_cases hi : f.declares i x = true
      · rw [if_pos hi, Option.some.injEq]
        constructor
        · rintro rfl
          exact .here hi
        · rintro (_ | ⟨hnot, -, -⟩)
          · rfl
          · exact absurd hi hnot
      · rw [if_neg hi]
        cases hp : f.parent? i with
        | none =>
            refine iff_of_false (by simp) ?_
            rintro (hhere | ⟨-, hparent, -⟩)
            · exact hi hhere
            · rw [hp] at hparent
              cases hparent
        | some p =>
            rw [Option.bind_some, ih p (hf i p hp)]
            constructor
            · exact .parent hi hp
            · rintro (hhere | ⟨-, hparent, hnearest⟩)
              · exact absurd hhere hi
              · rw [hp, Option.some.injEq] at hparent
                exact hparent ▸ hnearest

theorem lookup?_eq_none (hf : f.Founded) :
    f.lookup? i x = none ↔ ∀ s, f.Outward i s → ¬ f.declares s x = true := by
  induction i using Nat.strongRecOn with
  | ind i ih =>
      rw [lookup?_eq hf]
      by_cases hi : f.declares i x = true
      · rw [if_pos hi]
        exact iff_of_false (by simp) fun h => h i (.self i) hi
      · rw [if_neg hi]
        cases hp : f.parent? i with
        | none =>
            refine iff_of_true rfl ?_
            rintro s (_ | ⟨hparent, -⟩)
            · exact hi
            · rw [hp] at hparent
              cases hparent
        | some p =>
            rw [Option.bind_some, ih p (hf i p hp)]
            constructor
            · rintro h s (_ | ⟨hparent, hfurther⟩)
              · exact hi
              · rw [hp, Option.some.injEq] at hparent
                exact h s (hparent ▸ hfurther)
            · exact fun h s hfurther => h s (.parent hp hfurther)

theorem Outward.trans (h : f.Outward i j) (hs : f.Outward j s) : f.Outward i s := by
  induction h with
  | self => exact hs
  | parent hp _ ih => exact .parent hp (ih hs)

/-- Where more scopes have a property, the nearest one is no further out. -/
theorem Nearest.mono {P Q : Nat → Prop} (hPQ : ∀ j, P j → Q j)
    (hparent : ∀ j p, f.parent? j = some p → g.parent? j = some p) (h : f.Nearest P i s) :
    ∃ s', g.Nearest Q i s' ∧ g.Outward i s' ∧ g.Outward s' s := by
  induction h with
  | @here i hi => exact ⟨i, .here (hPQ i hi), .self i, .self i⟩
  | @parent i p s _ hp _ ih =>
      obtain ⟨s', hnearest, hout, hfurther⟩ := ih
      by_cases hi : Q i
      · exact ⟨i, .here hi, .self i, .parent (hparent i p hp) (hout.trans hfurther)⟩
      · exact ⟨s', .parent hi (hparent i p hp) hnearest, .parent (hparent i p hp) hout, hfurther⟩

theorem hoistTarget_lt_size (hf : f.Founded) (hi : i < f.size) : f.hoistTarget i < f.size := by
  induction i using Nat.strongRecOn with
  | ind i ih =>
      rw [hoistTarget_eq hf hi]
      split
      · exact hi
      · cases hp : f.parent? i with
        | none => exact hi
        | some p => exact ih p (hf i p hp) (Nat.lt_trans (hf i p hp) hi)

/-! ## Shapes -/

/-- The kinds and the parents of all scopes. -/
def shape (f : Forest) : List (ScopeKind × Option Nat) :=
  f.toList.map fun s => (s.kind, s.parent?)

theorem length_shape (f : Forest) : f.shape.length = f.size := by
  simp [shape, toList, size]

theorem getElem?_shape (f : Forest) (i : Nat) :
    f.shape[i]? = (f.get? i).map fun s => (s.kind, s.parent?) := by
  rw [shape, List.getElem?_map, get?]

theorem parent?_eq_shape (f : Forest) (i : Nat) : f.parent? i = (f.shape[i]?).bind (·.2) := by
  rw [getElem?_shape, parent?]
  cases f.get? i <;> rfl

theorem stopsHoisting_eq_shape (f : Forest) (i : Nat) :
    f.stopsHoisting i = (f.shape[i]?).any (·.1.stopsHoisting) := by
  rw [getElem?_shape, stopsHoisting]
  cases f.get? i <;> rfl

/-- The scopes that are there stay what they are when more come. -/
theorem getElem?_shape_extend (h : f.shape <+: g.shape) (hi : i < f.size) :
    g.shape[i]? = f.shape[i]? := by
  obtain ⟨more, h⟩ := h
  rw [← h, List.getElem?_append_left (by rwa [length_shape])]

theorem parent?_extend (h : f.shape <+: g.shape) (hi : i < f.size) :
    g.parent? i = f.parent? i := by
  rw [parent?_eq_shape, parent?_eq_shape, getElem?_shape_extend h hi]

theorem hoistTarget_extend (hf : f.Founded) (hg : g.Founded) (h : f.shape <+: g.shape)
    (hi : i < f.size) : g.hoistTarget i = f.hoistTarget i := by
  have hsize : f.size ≤ g.size := by
    rw [← length_shape, ← length_shape]
    exact h.length_le
  induction i using Nat.strongRecOn with
  | ind i ih =>
      rw [hoistTarget_eq hf hi, hoistTarget_eq hg (Nat.lt_of_lt_of_le hi hsize),
        parent?_extend h hi, stopsHoisting_eq_shape, stopsHoisting_eq_shape,
        getElem?_shape_extend h hi]
      cases hp : f.parent? i with
      | none => rfl
      | some p =>
          rw [Option.map_some, Option.map_some, ih p (hf i p hp) (Nat.lt_trans (hf i p hp) hi)]

theorem lookup?_congr (hf : f.Founded) (hg : g.Founded) (h : f.shape = g.shape)
    (hdeclares : ∀ j, f.declares j x = true ↔ g.declares j x = true) (i : Nat) :
    f.lookup? i x = g.lookup? i x := by
  induction i using Nat.strongRecOn with
  | ind i ih =>
      rw [lookup?_eq hf, lookup?_eq hg, Bool.eq_iff_iff.2 (hdeclares i), parent?_eq_shape f, h,
        ← parent?_eq_shape g]
      cases hp : g.parent? i with
      | none => rfl
      | some p => rw [Option.bind_some, Option.bind_some, ih p (hg i p hp)]

/-! ## One step -/

/-- One thing that is done to a forest. -/
inductive Step where
  /-- A scope is created. -/
  | create (kind : ScopeKind) (parent? : Option Nat)
  /-- A name is declared in a scope. -/
  | declare (i : Nat) (b : Binding)
  /-- A name is declared in a scope so that it rises out of blocks. -/
  | hoist (i : Nat) (b : Binding)
deriving DecidableEq, Repr

/-- The kind of the declaration of a name in a scope. -/
def kindOf? (f : Forest) (s : Nat) (x : String) : Option String :=
  (f.get? s).bind fun scope => (scope.bindings.find? (·.name == x)).map Binding.kind

namespace Step

/-- The scope that a step creates. -/
def created? : Step → Option (ScopeKind × Option Nat)
  | .create kind parent? => some (kind, parent?)
  | .declare _ _ => none
  | .hoist _ _ => none

/-- What a step declares, and the scope that takes it. -/
def declared? (f : Forest) : Step → Option (Nat × Binding)
  | .create _ _ => none
  | .declare i b => some (i, b)
  | .hoist i b => some (f.hoistTarget i, b)

/-- A forest after a step. -/
def apply (f : Forest) : Step → Forest
  | .create kind parent? => f.push kind parent?
  | .declare i b => f.declare i b
  | .hoist i b => f.declare (f.hoistTarget i) b

/-- The scopes that a step names are there. -/
def Fits (f : Forest) : Step → Prop
  | .create _ parent? => ∀ p, parent? = some p → p < f.size
  | .declare i _ => i < f.size
  | .hoist i _ => i < f.size

instance (f : Forest) : (step : Step) → Decidable (step.Fits f)
  | .create _ none => isTrue fun _ hp => nomatch hp
  | .create _ (some p) => decidable_of_iff (p < f.size) (by simp [Fits])
  | .declare i _ => inferInstanceAs (Decidable (i < f.size))
  | .hoist i _ => inferInstanceAs (Decidable (i < f.size))

end Step

variable {step : Step} {steps : List Step}

theorem shape_push (f : Forest) (kind : ScopeKind) (parent? : Option Nat) :
    (f.push kind parent?).shape = f.shape ++ [(kind, parent?)] := by
  simp [shape, toList, push]

theorem shape_declare (f : Forest) (i : Nat) (b : Binding) : (f.declare i b).shape = f.shape := by
  refine List.ext_getElem? fun j => ?_
  rw [getElem?_shape, getElem?_shape, get?_declare]
  split
  · cases f.get? j with
    | none => rfl
    | some scope =>
        simp only [Option.map_some, Scope.declare]
        split <;> rfl
  · rfl

theorem shape_apply (f : Forest) (step : Step) :
    (step.apply f).shape = f.shape ++ step.created?.toList := by
  cases step with
  | create kind parent? => exact shape_push f kind parent?
  | declare i b => simp [Step.apply, Step.created?, shape_declare]
  | hoist i b => simp [Step.apply, Step.created?, shape_declare]

theorem Step.Fits.mono (h : step.Fits f) (hsize : f.size ≤ g.size) : step.Fits g := by
  cases step with
  | create kind parent? => exact fun p hp => Nat.lt_of_lt_of_le (h p hp) hsize
  | declare i b => exact Nat.lt_of_lt_of_le h hsize
  | hoist i b => exact Nat.lt_of_lt_of_le h hsize

/-- What a step declares stays the same when more scopes come. -/
theorem declared?_extend (hf : f.Founded) (hg : g.Founded) (h : f.shape <+: g.shape)
    (hfits : step.Fits f) : step.declared? g = step.declared? f := by
  cases step with
  | create kind parent? => rfl
  | declare i b => rfl
  | hoist i b => rw [Step.declared?, Step.declared?, hoistTarget_extend hf hg h hfits]

theorem Founded.declare (hf : f.Founded) (i : Nat) (b : Binding) : (f.declare i b).Founded := by
  intro j p hp
  rw [parent?_eq_shape, shape_declare, ← parent?_eq_shape] at hp
  exact hf j p hp

theorem Founded.apply (hf : f.Founded) (h : step.Fits f) : (step.apply f).Founded := by
  cases step with
  | create kind parent? =>
      intro i p hp
      rw [Step.apply, push, parent?_cons] at hp
      split at hp
      next hi => exact hi ▸ h p hp
      next => exact hf i p hp
  | declare i b => exact hf.declare i b
  | hoist i b => exact hf.declare _ b

/-- After a step all is declared that was, and what the step declares. -/
theorem declares_apply (hf : f.Founded) (h : step.Fits f) :
    (step.apply f).declares s x = true ↔
      f.declares s x = true ∨ ∃ b, step.declared? f = some (s, b) ∧ b.name = x := by
  have hone (i : Nat) (b : Binding) :
      (i = s ∧ b.name = x) ↔ ∃ b', some (i, b) = some (s, b') ∧ b'.name = x := by
    constructor
    · rintro ⟨rfl, hname⟩
      exact ⟨b, rfl, hname⟩
    · rintro ⟨b', heq, hname⟩
      cases heq
      exact ⟨rfl, hname⟩
  cases step with
  | create kind parent? => simp [Step.apply, Step.declared?, declares_push]
  | declare i b => rw [Step.apply, Step.declared?, declares_declare h, hone]
  | hoist i b => rw [Step.apply, Step.declared?, declares_declare (hoistTarget_lt_size hf h), hone]

theorem kindOf?_declare {kind : String} (h : f.kindOf? s x = some kind) (i : Nat) (b : Binding) :
    (f.declare i b).kindOf? s x = some kind := by
  rw [kindOf?, Option.bind_eq_some_iff] at h
  obtain ⟨scope, hget, hkind⟩ := h
  obtain ⟨first, hfirst, rfl⟩ := Option.map_eq_some_iff.1 hkind
  rw [kindOf?, get?_declare, hget]
  split
  · rw [Option.map_some, Option.bind_some, Scope.declare]
    split
    · rw [hfirst, Option.map_some]
    · rw [List.find?_append, hfirst, Option.some_or, Option.map_some]
  · rw [Option.bind_some, hfirst, Option.map_some]

/-- A step leaves the kind of each declaration as it is. -/
theorem kindOf?_apply {kind : String} (h : f.kindOf? s x = some kind) (step : Step) :
    (step.apply f).kindOf? s x = some kind := by
  cases step with
  | create created parent? =>
      have hne : s ≠ f.size := by
        rintro rfl
        rw [kindOf?, get?_eq_none (Nat.le_refl _)] at h
        cases h
      rwa [kindOf?, Step.apply, get?_push, if_neg hne, ← kindOf?]
  | declare i b => exact kindOf?_declare h i b
  | hoist i b => exact kindOf?_declare h _ b

/-! ## Runs -/

/-- A forest after some steps. -/
def run (f : Forest) (steps : List Step) : Forest :=
  steps.foldl Step.apply f

/-- Every step of a run names scopes that are there. -/
def Runs (f : Forest) : List Step → Prop
  | [] => True
  | step :: steps => step.Fits f ∧ Runs (step.apply f) steps

instance decidableRuns : (f : Forest) → (steps : List Step) → Decidable (Runs f steps)
  | _, [] => isTrue trivial
  | f, step :: steps =>
      let := decidableRuns (step.apply f) steps
      inferInstanceAs (Decidable (step.Fits f ∧ Runs (step.apply f) steps))

/-- Some step of a run declares the name, and the scope takes it. -/
def DeclaredBy (f : Forest) (steps : List Step) (s : Nat) (x : String) : Prop :=
  ∃ before step after b, steps = before ++ step :: after ∧
    step.declared? (run f before) = some (s, b) ∧ b.name = x

theorem run_append (f : Forest) (steps more : List Step) :
    run f (steps ++ more) = run (run f steps) more :=
  List.foldl_append

theorem runs_append {more : List Step} :
    Runs f (steps ++ more) ↔ Runs f steps ∧ Runs (run f steps) more := by
  induction steps generalizing f with
  | nil => exact (and_iff_right trivial).symm
  | cons step steps ih => rw [List.cons_append, Runs, Runs, ih, and_assoc]; rfl

theorem shape_run (f : Forest) (steps : List Step) :
    (run f steps).shape = f.shape ++ steps.filterMap Step.created? := by
  induction steps generalizing f with
  | nil => exact (List.append_nil _).symm
  | cons step steps ih =>
      have hcons : (step :: steps).filterMap Step.created? =
          step.created?.toList ++ steps.filterMap Step.created? := by
        cases h : step.created? <;> simp [h]
      rw [run, List.foldl_cons, ← run, ih, shape_apply, List.append_assoc, hcons]

theorem Founded.run (hf : f.Founded) (h : Runs f steps) : (run f steps).Founded := by
  induction steps generalizing f with
  | nil => exact hf
  | cons step steps ih => exact ih (hf.apply h.1) h.2

/-- No step of a run changes a scope that is there. -/
theorem shape_prefix_run (f : Forest) (steps : List Step) : f.shape <+: (run f steps).shape := by
  rw [shape_run]
  exact List.prefix_append _ _

theorem size_run_le (f : Forest) (steps : List Step) : f.size ≤ (run f steps).size := by
  rw [← length_shape, ← length_shape]
  exact (shape_prefix_run f steps).length_le

theorem declaredBy_cons : DeclaredBy f (step :: steps) s x ↔
    (∃ b, step.declared? f = some (s, b) ∧ b.name = x) ∨ DeclaredBy (step.apply f) steps s x := by
  constructor
  · rintro ⟨before, now, after, b, hsplit, hdeclared, hname⟩
    cases before with
    | nil =>
        cases hsplit
        exact .inl ⟨b, hdeclared, hname⟩
    | cons first before =>
        cases hsplit
        exact .inr ⟨before, now, after, b, rfl, hdeclared, hname⟩
  · rintro (⟨b, hdeclared, hname⟩ | ⟨before, now, after, b, rfl, hdeclared, hname⟩)
    · exact ⟨[], step, steps, b, rfl, hdeclared, hname⟩
    · exact ⟨step :: before, now, after, b, rfl, hdeclared, hname⟩

/-- After a run all is declared that was, and what its steps declare. -/
theorem declares_run (hf : f.Founded) (h : Runs f steps) :
    (run f steps).declares s x = true ↔ f.declares s x = true ∨ DeclaredBy f steps s x := by
  induction steps generalizing f with
  | nil =>
      have hnone : ¬ DeclaredBy f [] s x := by
        rintro ⟨before, step, after, b, hsplit, -⟩
        cases before <;> cases hsplit
      rw [run, List.foldl_nil, or_iff_left hnone]
  | cons step steps ih =>
      rw [run, List.foldl_cons, ← run, ih (hf.apply h.1) h.2, declares_apply hf h.1, or_assoc,
        declaredBy_cons]

/-- What a step of a run declares can be told when the run is over. -/
theorem declaredBy_iff (hf : f.Founded) (h : Runs f steps) : DeclaredBy f steps s x ↔
    ∃ step ∈ steps, ∃ b, step.declared? (run f steps) = some (s, b) ∧ b.name = x := by
  -- Where a step's declaration goes is settled once the scope it names is there.
  have hlater : ∀ before step after, steps = before ++ step :: after →
      step.declared? (run f steps) = step.declared? (run f before) := by
    rintro before step after rfl
    obtain ⟨hbefore, hfits, -⟩ := runs_append.1 h
    refine declared?_extend (hf.run hbefore) (hf.run h) ?_ hfits
    rw [run_append]
    exact shape_prefix_run _ _
  constructor
  · rintro ⟨before, step, after, b, hsplit, hdeclared, hname⟩
    refine ⟨step, by simp [hsplit], b, ?_, hname⟩
    rw [hlater before step after hsplit, hdeclared]
  · rintro ⟨step, hmem, b, hdeclared, hname⟩
    obtain ⟨before, after, hsplit⟩ := List.append_of_mem hmem
    refine ⟨before, step, after, b, hsplit, ?_, hname⟩
    rw [← hlater before step after hsplit, hdeclared]

theorem Runs.fits (h : Runs f steps) (hmem : step ∈ steps) : step.Fits (run f steps) := by
  obtain ⟨before, after, rfl⟩ := List.append_of_mem hmem
  obtain ⟨-, hfits, -⟩ := runs_append.1 h
  refine hfits.mono ?_
  rw [run_append]
  exact size_run_le _ _

/-- The same creations and the same declarations in another order declare the same. -/
theorem declaredBy_of_perm {steps' : List Step} (hf : f.Founded) (h : Runs f steps)
    (h' : Runs f steps') (hperm : steps'.Perm steps)
    (hcreated : steps'.filterMap Step.created? = steps.filterMap Step.created?) :
    DeclaredBy f steps' s x ↔ DeclaredBy f steps s x := by
  have hshape : (run f steps).shape = (run f steps').shape := by
    rw [shape_run, shape_run, hcreated]
  rw [declaredBy_iff hf h, declaredBy_iff hf h']
  refine exists_congr fun step => ?_
  rw [hperm.mem_iff]
  refine and_congr_right fun hmem => ?_
  rw [declared?_extend (hf.run h) (hf.run h') (hshape ▸ List.prefix_refl _) (h.fits hmem)]

theorem kindOf?_run {kind : String} (h : f.kindOf? s x = some kind) (steps : List Step) :
    (run f steps).kindOf? s x = some kind := by
  induction steps generalizing f with
  | nil => exact h
  | cons step steps ih => exact ih (kindOf?_apply h step)

/-- After a run a name that was found is found, in the same scope or nearer. -/
theorem exists_lookup?_run (hf : f.Founded) (h : Runs f steps) (hs : f.lookup? i x = some s) :
    ∃ s', (run f steps).lookup? i x = some s' ∧ (run f steps).Outward i s' ∧
      (run f steps).Outward s' s := by
  have hstill (j : Nat) (hj : f.declares j x = true) : (run f steps).declares j x = true :=
    (declares_run hf h).2 (.inl hj)
  have hparent (j p : Nat) (hp : f.parent? j = some p) : (run f steps).parent? j = some p := by
    rw [parent?_extend (shape_prefix_run f steps) (lt_size_of_parent? hp), hp]
  obtain ⟨s', hnearest, hout⟩ := ((lookup?_eq_some hf).1 hs).mono hstill hparent
  exact ⟨s', (lookup?_eq_some (hf.run h)).2 hnearest, hout⟩

theorem founded_empty : empty.Founded := by
  intro i p hp
  cases lt_size_of_parent? hp

theorem not_declares_empty : ¬ empty.declares s x = true := by
  intro h
  cases lt_size_of_declares h

theorem declares_run_empty (h : Runs empty steps) :
    (run empty steps).declares s x = true ↔ DeclaredBy empty steps s x := by
  rw [declares_run founded_empty h, or_iff_right not_declares_empty]

/-- **Scopes forget nothing.**  After a run from no scopes, a name is found in the nearest
scope outwards that takes it from some step of the run, and in none if there is no such
scope.  The declarations can come in any order.  After further steps a name is found that
was found before, in the same scope or nearer, and no kind of a declaration changes. -/
theorem lookup?_run_exact (h : Runs empty steps) :
    (∀ i x s, (run empty steps).lookup? i x = some s ↔
      (run empty steps).Nearest (DeclaredBy empty steps · x) i s) ∧
    (∀ i x, (run empty steps).lookup? i x = none ↔
      ∀ s, (run empty steps).Outward i s → ¬ DeclaredBy empty steps s x) ∧
    (∀ steps', Runs empty steps' → steps'.Perm steps →
      steps'.filterMap Step.created? = steps.filterMap Step.created? →
        ∀ i x, (run empty steps').lookup? i x = (run empty steps).lookup? i x) ∧
    ∀ more, Runs empty (steps ++ more) →
      (∀ i x s, (run empty steps).lookup? i x = some s →
        ∃ s', (run empty (steps ++ more)).lookup? i x = some s' ∧
          (run empty (steps ++ more)).Outward i s' ∧
          (run empty (steps ++ more)).Outward s' s) ∧
      ∀ s x kind, (run empty steps).kindOf? s x = some kind →
        (run empty (steps ++ more)).kindOf? s x = some kind := by
  have hf := founded_empty.run h
  refine ⟨?_, ?_, ?_, ?_⟩
  · intro i x s
    have hdeclares : (fun j => (run empty steps).declares j x = true) =
        (DeclaredBy empty steps · x) :=
      funext fun _ => propext (declares_run_empty h)
    rw [lookup?_eq_some hf, hdeclares]
  · intro i x
    rw [lookup?_eq_none hf]
    simp only [declares_run_empty h]
  · intro steps' h' hperm hcreated i x
    refine lookup?_congr (founded_empty.run h') hf ?_ ?_ i
    · rw [shape_run, shape_run, hcreated]
    · intro j
      rw [declares_run_empty h', declares_run_empty h,
        declaredBy_of_perm founded_empty h h' hperm hcreated]
  · intro more hmore
    obtain ⟨-, hfurther⟩ := runs_append.1 hmore
    rw [run_append]
    exact ⟨fun _ _ _ hs => exists_lookup?_run hf hfurther hs, fun _ _ _ hk => kindOf?_run hk more⟩

/-- A module, a function in it and a block in that.  The module declares a name, and so does
a `var` of the block. -/
def varInBlock : List Step :=
  [.create .module none, .declare 0 ⟨"x", "let"⟩, .create .function (some 0),
    .create .block (some 1), .hoist 2 ⟨"x", "var"⟩]

/-- The name of the block is the function's, whichever declaration comes first, and after
another `var` of the block it still is a `var`. -/
theorem lookup?_reordered :
    (run empty varInBlock).lookup? 2 "x" = some 1 ∧
    (run empty [.create .module none, .create .function (some 0), .create .block (some 1),
      .hoist 2 ⟨"x", "var"⟩, .declare 0 ⟨"x", "let"⟩]).lookup? 2 "x" = some 1 ∧
    (∃ s, (run empty (varInBlock ++ [.declare 2 ⟨"x", "const"⟩])).lookup? 2 "x" = some s ∧
      (run empty (varInBlock ++ [.declare 2 ⟨"x", "const"⟩])).Outward s 1) ∧
    (run empty (varInBlock ++ [.hoist 2 ⟨"x", "const"⟩])).kindOf? 1 "x" = some "var" := by
  obtain ⟨hfound, -, horder, hmore⟩ := lookup?_run_exact (show Runs empty varInBlock by decide)
  have hdeclared : DeclaredBy empty varInBlock 1 "x" :=
    (declares_run_empty (by decide)).1 (by decide)
  have hblock : ¬ DeclaredBy empty varInBlock 2 "x" :=
    mt (declares_run_empty (by decide)).2 (by decide)
  have hresolved : (run empty varInBlock).lookup? 2 "x" = some 1 :=
    (hfound 2 "x" 1).2 (.parent hblock (by decide) (.here hdeclared))
  refine ⟨hresolved, ?_, ?_, ?_⟩
  · rw [horder _ (by decide) (by decide) (by decide), hresolved]
  · obtain ⟨s, hs, -, hout⟩ := (hmore [.declare 2 ⟨"x", "const"⟩] (by decide)).1 2 "x" 1 hresolved
    exact ⟨s, hs, hout⟩
  · exact (hmore [.hoist 2 ⟨"x", "const"⟩] (by decide)).2 1 "x" "var" (by decide)

end ScriptLint.Forest
