import ScriptLint.Log

/-!
# The results of activities

What comes of an activity does not depend on what was logged.  So records can be
skipped when only results matter, and a list of activities has a result exactly when
each of them has one.
-/

namespace ScriptLint

variable {α β : Type}

theorem exists_of_bind_eq_ok {ε : Type} {a : Except ε α} {f : α → Except ε β} {b : β}
    (h : (a >>= f) = .ok b) : ∃ value, a = .ok value ∧ f value = .ok b := by
  cases a with
  | error e => cases h
  | ok value => exact ⟨value, rfl, h⟩

theorem bind_eq_error_iff {ε : Type} {a : Except ε α} {f : α → Except ε β} {e : ε} :
    (a >>= f) = .error e ↔ a = .error e ∨ ∃ value, a = .ok value ∧ f value = .error e := by
  cases a with
  | error e' => simp [Bind.bind, Except.bind]
  | ok value => simp [Bind.bind, Except.bind]

namespace Activity

@[simp]
theorem result_ofExcept (r : Except Failure α) : (ofExcept r).result = r := rfl

@[simp]
theorem result_debug (topic : Topic) (text : String) : (debug topic text).result = .ok () := rfl

@[simp]
theorem result_attempt (a : Activity α) : a.attempt.result = .ok a.result := rfl

theorem bind_result_of_ok {a : Activity α} {f : α → Activity β} {value : α}
    (h : a.result = .ok value) : (a >>= f).result = (f value).result := by
  rw [result_bind, h]
  rfl

theorem bind_result_of_error {a : Activity α} {f : α → Activity β} {failure : Failure}
    (h : a.result = .error failure) : (a >>= f).result = .error failure := by
  rw [result_bind, h]
  rfl

/-- An activity has a result only if the one before it has. -/
theorem exists_of_bind_result {a : Activity α} {f : α → Activity β} {b : β}
    (h : (a >>= f).result = .ok b) : ∃ value, a.result = .ok value ∧ (f value).result = .ok b := by
  rw [result_bind] at h
  exact exists_of_bind_eq_ok h

/-! ## Lists of activities -/

variable {f : α → Activity β} {as : List α}

theorem each_cons (a : α) :
    each f (a :: as) = (f a >>= fun b => each f as >>= fun bs => pure (b :: bs)) :=
  rfl

theorem result_each {g : α → β} (h : ∀ a ∈ as, (f a).result = .ok (g a)) :
    (each f as).result = .ok (as.map g) := by
  induction as with
  | nil => rfl
  | cons a as ih =>
      obtain ⟨ha, has⟩ := List.forall_mem_cons.1 h
      rw [each_cons, bind_result_of_ok ha, bind_result_of_ok (ih has)]
      rfl

theorem exists_of_result_each {bs : List β} (h : (each f as).result = .ok bs) :
    ∀ a ∈ as, ∃ b, (f a).result = .ok b := by
  induction as generalizing bs with
  | nil => simp
  | cons a as ih =>
      rw [each_cons] at h
      obtain ⟨b, ha, h⟩ := exists_of_bind_result h
      obtain ⟨bs, has, -⟩ := exists_of_bind_result h
      exact List.forall_mem_cons.2 ⟨⟨b, ha⟩, ih has⟩

end Activity

end ScriptLint
