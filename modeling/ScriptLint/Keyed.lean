/-!
# Keyed lists

A list of pairs is a table whose keys have an order that can be seen.  A key
stands where it was first put, and stays there when its value changes.  Reading
is `List.lookup`.

`lookup_update` says what can be read after a change: the new value under the
key that was changed, and what was there before under every other one.
`keys_update` says that no key moves, and that a new one comes last.  Where keys
differ, what can be read under a key is what stands with it (`lookup_eq_some_iff`).
-/

namespace ScriptLint.Keyed

variable {κ α : Type} [BEq κ]

/-- Give a key a value, made from the one it has. -/
def update (key : κ) (f : Option α → α) : List (κ × α) → List (κ × α)
  | [] => [(key, f none)]
  | (k, old) :: rest =>
      if key == k then (k, f (some old)) :: rest else (k, old) :: update key f rest

/-- Give a key a value, whatever it had. -/
def put (key : κ) (value : α) : List (κ × α) → List (κ × α) :=
  update key fun _ => value

/-! ## What can be read -/

variable [LawfulBEq κ]

theorem lookup_update (key k : κ) (f : Option α → α) :
    ∀ l : List (κ × α),
      (update key f l).lookup k = if k == key then some (f (l.lookup key)) else l.lookup k
  | [] => by
      rw [update, List.lookup_cons, List.lookup_nil, List.lookup_nil]
      cases k == key <;> rfl
  | (k', old) :: rest => by
      have ih := lookup_update key k f rest
      rw [update]
      by_cases h : key = k'
      · subst h
        cases hk : k == key <;> simp [List.lookup_cons, hk]
      · have hne : (key == k') = false := by simpa using h
        by_cases hk : k = k'
        · subst hk
          have hk' : (k == key) = false := by simpa using Ne.symm h
          simp [hne, hk']
        · have hk' : (k == k') = false := by simpa using hk
          simp [List.lookup_cons, hne, hk', ih]

theorem lookup_put (key k : κ) (value : α) (l : List (κ × α)) :
    (put key value l).lookup k = if k == key then some value else l.lookup k :=
  lookup_update key k _ l

/-- The keys stay in their places, and a new one comes last. -/
theorem keys_update (key : κ) (f : Option α → α) :
    ∀ l : List (κ × α),
      (update key f l).map (·.1)
        = if key ∈ l.map (·.1) then l.map (·.1) else l.map (·.1) ++ [key]
  | [] => by simp [update]
  | (k, old) :: rest => by
      have ih := keys_update key f rest
      rw [update]
      by_cases h : key = k
      · simp [h]
      · have hne : (key == k) = false := by simpa using h
        by_cases hmem : key ∈ rest.map (·.1)
        · simp [hne, ih, hmem]
        · simp [hne, ih, hmem, h]

/-- A new key comes last. -/
theorem update_of_notMem {key : κ} (f : Option α → α) {l : List (κ × α)}
    (h : key ∉ l.map (·.1)) : update key f l = l ++ [(key, f none)] := by
  induction l with
  | nil => rfl
  | cons entry rest ih =>
      rw [List.map_cons, List.mem_cons, not_or] at h
      have hne : (key == entry.1) = false := beq_eq_false_iff_ne.2 h.1
      rw [update, hne, if_neg Bool.false_ne_true, ih h.2, List.cons_append]

/-- Keys that differ go on to differ. -/
theorem nodup_keys_update (key : κ) (f : Option α → α) {l : List (κ × α)}
    (h : (l.map (·.1)).Nodup) : ((update key f l).map (·.1)).Nodup := by
  rw [keys_update]
  split
  · exact h
  · next hmem =>
      refine List.nodup_append.2 ⟨h, by simp, fun k hk k' hk' => ?_⟩
      rw [List.mem_singleton.1 hk']
      exact fun he => hmem (he ▸ hk)

/-- Where keys differ, a key is read as what stands with it. -/
theorem lookup_eq_some_iff {l : List (κ × α)} (h : (l.map (·.1)).Nodup) {key : κ} {value : α} :
    l.lookup key = some value ↔ (key, value) ∈ l := by
  induction l with
  | nil => simp
  | cons p rest ih =>
      obtain ⟨k, old⟩ := p
      simp only [List.map_cons, List.nodup_cons] at h
      have hne : ∀ value, (k, value) ∉ rest := fun value hmem => h.1 (List.mem_map_of_mem hmem)
      by_cases hkey : key = k
      · subst hkey
        simp [hne, eq_comm]
      · have hkey' : (key == k) = false := by simpa using hkey
        simp [List.lookup_cons, hkey', hkey, ih h.2]

/-! ## Tests -/

example : put "a" 3 [("a", 1), ("b", 2)] = [("a", 3), ("b", 2)] := by decide
example : put "c" 3 [("a", 1), ("b", 2)] = [("a", 1), ("b", 2), ("c", 3)] := by decide

end ScriptLint.Keyed
