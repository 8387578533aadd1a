import Mathlib.Data.String.Basic
import ScriptLint.Text.Ordered

/-!
# Strings in increasing order

`Text.ordered` has the strings of a list, no other ones, and in strictly increasing
order.  These two facts determine it (`Text.ordered_congr`).
-/

namespace ScriptLint.Text

theorem nodup_eraseDups (xs : List String) : xs.eraseDups.Nodup := by
  cases xs with
  | nil => simp
  | cons x xs =>
      rw [List.eraseDups_cons, List.nodup_cons]
      constructor
      · simp [List.mem_eraseDups]
      · exact nodup_eraseDups _
termination_by xs.length
decreasing_by
  simp only [List.length_cons]
  exact Nat.lt_succ_of_le (List.length_filter_le ..)

@[simp]
theorem mem_ordered {x : String} {xs : List String} : x ∈ ordered xs ↔ x ∈ xs := by
  simp [ordered, List.mem_eraseDups]

theorem ordered_pairwise (xs : List String) : (ordered xs).Pairwise (· < ·) := by
  have hle : (ordered xs).Pairwise fun a b => decide (a ≤ b) = true := by
    refine List.pairwise_mergeSort ?_ ?_ _
    · intro a b c hab hbc
      simp only [decide_eq_true_eq] at hab hbc ⊢
      exact le_trans hab hbc
    · intro a b
      simpa using le_total a b
  have hne : (ordered xs).Nodup := (List.mergeSort_perm _ _).nodup_iff.2 (nodup_eraseDups xs)
  refine (hle.and hne).imp ?_
  intro a b h
  exact lt_of_le_of_ne (of_decide_eq_true h.1) h.2

/-- The order and the number of times in which strings come make no difference. -/
theorem ordered_congr {xs ys : List String} (h : ∀ x, x ∈ xs ↔ x ∈ ys) :
    ordered xs = ordered ys := by
  have hxs := ordered_pairwise xs
  have hys := ordered_pairwise ys
  have hperm : (ordered xs).Perm (ordered ys) := by
    refine (List.perm_ext_iff_of_nodup (hxs.imp ne_of_lt) (hys.imp ne_of_lt)).2 fun x => ?_
    rw [mem_ordered, mem_ordered, h]
  exact hperm.eq_of_pairwise (fun _ _ _ _ hab hba => absurd hba (not_lt_of_gt hab)) hxs hys

end ScriptLint.Text
