/-!
# Scopes

A scope holds the names declared in one stretch of a program, each with the
kind of its first declaration.  Scopes lie inside one another, and a `Forest`
holds them all, numbered in the order of their creation.  A scope is created
inside an older one, so following parents always ends.

* `Forest.chain` is the way outwards from a scope, the scope itself first.
* `Forest.hoistTarget` is the scope that takes a declaration which rises out of
  blocks: the first of the chain that is a function or a module, or the last
  one if none is.
* `Forest.lookup?` is the first of the chain that declares a name.

Declaring a name twice in a scope leaves the first declaration in place.  No
operation changes a parent or a kind, so chains never change once they are
there.
-/

namespace ScriptLint

/-! ## One scope -/

/-- What opens a scope. -/
inductive ScopeKind where
  /-- A whole program. -/
  | module
  /-- A function. -/
  | function
  /-- A class. -/
  | classBody
  /-- A block. -/
  | block
deriving DecidableEq, Repr, Inhabited

namespace ScopeKind

/-- The name of a kind. -/
def name : ScopeKind → String
  | .module => "module"
  | .function => "function"
  | .classBody => "class"
  | .block => "block"

/-- The kind with a name. -/
def ofName? (name : String) : Option ScopeKind :=
  [module, function, classBody, block].find? (·.name == name)

/-- Whether declarations that rise out of blocks stop here. -/
def stopsHoisting : ScopeKind → Bool
  | .module | .function => true
  | .classBody | .block => false

end ScopeKind

/-- A declared name and the kind of its declaration. -/
structure Binding where
  /-- The name. -/
  name : String
  /-- What declared it. -/
  kind : String
deriving DecidableEq, Repr, Inhabited

/-- A scope and the names declared in it, in the order of their declaration. -/
structure Scope where
  /-- What opened it. -/
  kind : ScopeKind
  /-- The number of the scope around it. -/
  parent? : Option Nat
  /-- The declared names. -/
  bindings : List Binding
deriving DecidableEq, Repr, Inhabited

namespace Scope

/-- Whether a name is declared. -/
def declares (s : Scope) (name : String) : Bool :=
  s.bindings.any (·.name == name)

/-- Declare a name, unless it is declared already. -/
def declare (s : Scope) (b : Binding) : Scope :=
  if s.declares b.name then s else { s with bindings := s.bindings ++ [b] }

theorem declares_declare (s : Scope) (b : Binding) (name : String) :
    (s.declare b).declares name = true ↔ s.declares name = true ∨ b.name = name := by
  unfold declare
  split
  · next h =>
      refine ⟨Or.inl, fun h' => ?_⟩
      cases h' with
      | inl h' => exact h'
      | inr h' => exact h' ▸ h
  · simp [declares]

end Scope

/-! ## All scopes -/

/-- Scopes by number.  They are kept newest first, and the number of a scope is
the number of scopes older than it. -/
structure Forest where
  /-- The scopes, newest first. -/
  newestFirst : List Scope
deriving DecidableEq, Repr, Inhabited

namespace Forest

/-- No scopes. -/
def empty : Forest := ⟨[]⟩

/-- The number of scopes. -/
def size (f : Forest) : Nat :=
  f.newestFirst.length

/-- The scopes in the order of their creation. -/
def toList (f : Forest) : List Scope :=
  f.newestFirst.reverse

/-- The scope with a number. -/
def get? (f : Forest) (i : Nat) : Option Scope :=
  f.toList[i]?

/-- A new scope of a kind inside another one.  Its number is the size of the
forest before. -/
def push (f : Forest) (kind : ScopeKind) (parent? : Option Nat) : Forest :=
  ⟨⟨kind, parent?, []⟩ :: f.newestFirst⟩

/-- Declare a name in the scope with a number. -/
def declare (f : Forest) (i : Nat) (b : Binding) : Forest :=
  ⟨(f.toList.modify i (·.declare b)).reverse⟩

/-- Whether the scope with a number declares a name. -/
def declares (f : Forest) (i : Nat) (name : String) : Bool :=
  (f.get? i).any (·.declares name)

/-! ## The way outwards -/

/-- The way outwards from number `i` in a list of scopes, newest first. -/
def chainIn : List Scope → Nat → List Nat
  | [], _ => []
  | scope :: older, i =>
      if i = older.length then
        i :: (match scope.parent? with
          | some parent => chainIn older parent
          | none => [])
      else chainIn older i

/-- The numbers of the scopes from one outwards. -/
def chain (f : Forest) (i : Nat) : List Nat :=
  chainIn f.newestFirst i

/-- Whether the scope with a number takes the declarations that rise to it. -/
def stopsHoisting (f : Forest) (i : Nat) : Bool :=
  (f.get? i).any (·.kind.stopsHoisting)

/-- The scope that takes a declaration which rises out of blocks. -/
def hoistTarget (f : Forest) (i : Nat) : Nat :=
  match (f.chain i).find? f.stopsHoisting with
  | some j => j
  | none => (f.chain i).getLast?.getD i

/-- The nearest scope outwards that declares a name. -/
def lookup? (f : Forest) (i : Nat) (name : String) : Option Nat :=
  (f.chain i).find? fun j => f.declares j name

/-! ## What stays as it is -/

theorem size_push (f : Forest) (kind : ScopeKind) (parent? : Option Nat) :
    (f.push kind parent?).size = f.size + 1 := rfl

theorem size_declare (f : Forest) (i : Nat) (b : Binding) : (f.declare i b).size = f.size := by
  simp [declare, size, toList]

/-- The way outwards depends on nothing but the parents. -/
theorem chainIn_congr : ∀ {l l' : List Scope},
    l.map Scope.parent? = l'.map Scope.parent? → ∀ i, chainIn l i = chainIn l' i
  | [], [], _, _ => rfl
  | s :: older, s' :: older', h, i => by
      rw [List.map_cons, List.map_cons, List.cons.injEq] at h
      have ih := chainIn_congr h.2
      have hlen : older.length = older'.length := by
        simpa using congrArg List.length h.2
      rw [chainIn, chainIn, hlen, h.1, ih i]
      cases s'.parent? with
      | none => rfl
      | some parent => simp only [ih parent]

/-- Declaring a name leaves every way outwards as it is. -/
theorem chain_declare (f : Forest) (i j : Nat) (b : Binding) :
    (f.declare i b).chain j = f.chain j := by
  refine chainIn_congr ?_ j
  have hparent (s : Scope) : (s.declare b).parent? = s.parent? := by
    unfold Scope.declare
    split <;> rfl
  have hmodify (l : List Scope) :
      (l.modify i (·.declare b)).map Scope.parent? = l.map Scope.parent? := by
    induction l generalizing i with
    | nil => simp
    | cons s l ih => cases i <;> simp [hparent, ih]
  simp [declare, toList, List.map_reverse, hmodify]

/-- A new scope leaves the ways outwards from the older ones as they are. -/
theorem chain_push (f : Forest) (kind : ScopeKind) (parent? : Option Nat) {j : Nat}
    (h : j < f.size) : (f.push kind parent?).chain j = f.chain j := by
  have hne : j ≠ f.newestFirst.length := Nat.ne_of_lt h
  simp [chain, push, chainIn, hne]

/-- The way outwards from a new scope goes on as it does from the scope around
it. -/
theorem chain_push_size (f : Forest) (kind : ScopeKind) (parent : Nat) :
    (f.push kind (some parent)).chain f.size = f.size :: f.chain parent := by
  simp [chain, push, chainIn, size]

/-! ## What a scope is and declares -/

theorem get?_push (f : Forest) (kind : ScopeKind) (parent? : Option Nat) (j : Nat) :
    (f.push kind parent?).get? j = if j = f.size then some ⟨kind, parent?, []⟩ else f.get? j := by
  have hlen : f.newestFirst.reverse.length = f.size := List.length_reverse
  simp only [get?, push, toList, List.reverse_cons]
  by_cases hj : j = f.size
  · rw [if_pos hj, hj, ← hlen, List.getElem?_concat_length]
  · rw [if_neg hj]
    cases Nat.lt_or_gt_of_ne hj with
    | inl hlt => exact List.getElem?_append_left (hlen ▸ hlt)
    | inr hgt =>
        rw [List.getElem?_eq_none (by simp [hlen]; omega), List.getElem?_eq_none (by omega)]

theorem get?_declare (f : Forest) (i j : Nat) (b : Binding) :
    (f.declare i b).get? j = if i = j then (f.get? j).map (·.declare b) else f.get? j := by
  simp only [get?, declare, toList, List.reverse_reverse, List.getElem?_modify]
  split <;> simp

/-- A number that no scope has yet declares nothing. -/
theorem declares_size (f : Forest) (name : String) : f.declares f.size name = false := by
  have hnone : f.get? f.size = none := by
    rw [get?, List.getElem?_eq_none]
    simp [toList, size]
  rw [declares, hnone]
  rfl

/-- A new scope declares nothing. -/
theorem declares_push (f : Forest) (kind : ScopeKind) (parent? : Option Nat) (j : Nat)
    (name : String) : (f.push kind parent?).declares j name = f.declares j name := by
  by_cases hj : j = f.size
  · rw [hj, declares_size, declares, get?_push, if_pos rfl]
    rfl
  · rw [declares, get?_push, if_neg hj, declares]

/-- After a declaration its name is declared where it was put, and every name
that was declared before still is. -/
theorem declares_declare {f : Forest} {i j : Nat} (hi : i < f.size) (b : Binding) (name : String) :
    (f.declare i b).declares j name = true
      ↔ f.declares j name = true ∨ (i = j ∧ b.name = name) := by
  simp only [declares, get?_declare]
  by_cases hij : i = j
  · subst hij
    have hlt : i < f.toList.length := by simpa [toList, size] using hi
    obtain ⟨s, hs⟩ : ∃ s, f.get? i = some s := ⟨_, List.getElem?_eq_getElem hlt⟩
    rw [if_pos rfl, hs]
    simp only [Option.map_some, Option.any_some, true_and]
    exact Scope.declares_declare ..
  · simp [hij]

/-! ## Tests -/

section Tests

/-- A block in a function in a module. -/
def blockInFunction : Forest :=
  ((empty.push .module none).push .function (some 0)).push .block (some 1)

example : blockInFunction.chain 2 = [2, 1, 0] := by decide
example : blockInFunction.hoistTarget 2 = 1 := by decide
example : (blockInFunction.declare 0 ⟨"x", "let"⟩).lookup? 2 "x" = some 0 := by decide
example : ((blockInFunction.declare 2 ⟨"x", "let"⟩).declare 2 ⟨"x", "var"⟩).get? 2
    = some ⟨.block, some 1, [⟨"x", "let"⟩]⟩ := by decide

end Tests

end Forest

end ScriptLint
