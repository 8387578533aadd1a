import Mathlib.Algebra.BigOperators.Group.Finset.Basic
import Mathlib.Algebra.Order.Ring.Nat
import Mathlib.Data.List.Permutation
import ScriptLint.Proofs.Lint.Entries

/-!
# What a report tells people

A report for people shows the diagnostics that the report for programs shows, in the same order,
and adds them up.  `Text.tally` is the sum: the codes that came up, each with the number of times
that it did.  No code comes twice, and the numbers make up the whole (`Text.sum_tally`).

The line for a report without diagnostics can be told from all other reports, since it is the
only one without a line break (`Report.lineBreak_mem_human`).  So the two reports and the flag
agree on whether there is anything to report (`Report.human_exact`).
-/

namespace ScriptLint

/-! ## Adding up -/

namespace Text

/-- How often each of some strings comes, in increasing order of the strings. -/
def tally (xs : List String) : List (String × Nat) :=
  (ordered xs).map fun x => (x, xs.count x)

theorem map_fst_tally (xs : List String) : (tally xs).map (·.1) = ordered xs := by
  rw [tally, List.map_map]
  exact List.map_id _

theorem mem_tally {xs : List String} {x : String} {n : Nat} :
    (x, n) ∈ tally xs ↔ 0 < n ∧ xs.count x = n := by
  rw [tally, List.mem_map]
  constructor
  · rintro ⟨y, hy, he⟩
    obtain ⟨rfl, rfl⟩ := Prod.mk.inj he
    exact ⟨List.count_pos_iff.2 (mem_ordered.1 hy), rfl⟩
  · rintro ⟨hpos, rfl⟩
    exact ⟨x, mem_ordered.2 (List.count_pos_iff.1 hpos), rfl⟩

theorem ordered_perm_dedup (xs : List String) : (ordered xs).Perm xs.dedup := by
  have hnodup : (ordered xs).Nodup := (ordered_pairwise xs).imp ne_of_lt
  refine (List.perm_ext_iff_of_nodup hnodup xs.nodup_dedup).2 fun x => ?_
  rw [mem_ordered, List.mem_dedup]

/-- Each string is counted, and none is counted twice. -/
theorem sum_tally (xs : List String) : ((tally xs).map (·.2)).sum = xs.length := by
  rw [tally, List.map_map, ← List.sum_map_count_dedup_eq_length xs]
  exact ((ordered_perm_dedup xs).map _).sum_eq

/-! ## Line breaks -/

theorem lineBreak_notMem_toString (value : Int) : '\n' ∉ (toString value).toList := by
  intro hmem
  have hdigit : ∀ n, '\n' ∉ Nat.toDigits 10 n := fun n h =>
    absurd (Json.isDigit_of_mem_toDigits h) (by decide)
  cases value with
  | ofNat n =>
      rw [Int.ofNat_eq_natCast, Json.toList_toString_ofNat] at hmem
      exact hdigit n hmem
  | negSucc n =>
      rw [Json.toList_toString_negSucc, List.mem_cons] at hmem
      exact hmem.elim (by decide) (hdigit (n + 1))

theorem lineBreak_mem_intercalate (a b : String) (lines : List String) :
    '\n' ∈ ("\n".intercalate (a :: b :: lines)).toList := by
  rw [String.intercalate_cons_cons, String.toList_append, String.toList_append]
  simp

end Text

namespace Report

/-! ## One report and the other -/

theorem hasProblems_eq_false {r : Report} : r.hasProblems = false ↔ r.diagnostics = [] := by
  rw [hasProblems, Bool.not_eq_false', List.isEmpty_iff]

theorem counts_perm (r : Report) :
    (Text.tally (r.diagnostics.map Diagnostic.code)).Perm r.counts :=
  (List.mergeSort_perm ..).map _

/-- The report for people, where there is anything to report. -/
theorem human_eq {r : Report} (h : r.hasProblems = true) :
    r.human = "\n".intercalate
      ((Diagnostic.sort r.diagnostics).flatMap (fun d => [d.text, ""])
        ++ [s!"Found {r.diagnostics.length} problem(s) in {r.filesChecked} checked file(s)"]
        ++ (Text.tally (r.diagnostics.map Diagnostic.code)).map
          fun (code, n) => s!"  {code}: {n}") := by
  rw [human, if_pos h, countLines, Text.tally, List.map_map]
  rfl

theorem lineBreak_mem_human {r : Report} (h : r.hasProblems = true) : '\n' ∈ r.human.toList := by
  rw [human_eq h]
  cases hds : Diagnostic.sort r.diagnostics with
  | nil =>
      have hnil := Diagnostic.sort_eq_nil.1 hds
      rw [hasProblems_eq_false.2 hnil] at h
      cases h
  | cons d ds => exact Text.lineBreak_mem_intercalate _ _ _

/-- The line for a report without diagnostics stands for no other report. -/
theorem human_eq_clean_iff (r : Report) :
    r.human = s!"Checked {r.filesChecked} file(s): OK - no problems" ↔ r.hasProblems = false := by
  constructor
  · intro hclean
    refine Bool.not_eq_true _ ▸ fun hproblems => ?_
    have hbreak := lineBreak_mem_human hproblems
    have hnone := Text.lineBreak_notMem_toString r.filesChecked
    have hbefore : '\n' ∉ "Checked ".toList := by decide
    have hafter : '\n' ∉ " file(s): OK - no problems".toList := by decide
    rw [hclean, String.toList_append, String.toList_append, List.mem_append, List.mem_append]
      at hbreak
    rcases hbreak with (hmem | hmem) | hmem
    · exact hbefore hmem
    · exact hnone hmem
    · exact hafter hmem
  · intro hclean
    rw [human, hclean, if_neg Bool.false_ne_true]

/-- The empty list stands for no other report. -/
theorem json_eq_empty_iff (r : Report) : r.json = "[]" ↔ r.hasProblems = false := by
  have hwritten : (Json.array []).write .indented = "[]" := by decide
  rw [hasProblems_eq_false]
  constructor
  · intro hempty
    have hread : some r.entries = some (.array []) := by
      rw [← read?_json, hempty, ← hwritten, Json.read?_write .indented rfl]
    rw [entries, Option.some.injEq, Json.array.injEq, List.map_eq_nil_iff] at hread
    exact Diagnostic.sort_eq_nil.1 hread
  · intro hnil
    rw [json, entries, Diagnostic.sort_eq_nil.2 hnil, List.map_nil, hwritten]

/-- **The two reports agree.**  The report for people is the line that says that all is well
exactly if the report for programs is empty, and if the flag is down.  If it is up, the report for
people has the text of each diagnostic in the order of the objects in the report for programs,
then their number, and then a line for each code.  The codes increase, each with the number of
times that it came up, and the numbers add up to the one before them. -/
theorem human_exact (filesChecked : Int) (batches : List (List Diagnostic)) :
    let r := batches.foldl extend ⟨filesChecked, []⟩
    let ds := Diagnostic.sort batches.flatten
    let clean := s!"Checked {filesChecked} file(s): OK - no problems"
    (r.human = clean ↔ r.json = "[]") ∧
    (r.human = clean ↔ r.hasProblems = false) ∧
    ds.Perm batches.flatten ∧
    Json.read? r.json.toList = some (.array (ds.map entry)) ∧
    (r.hasProblems = true → ∃ tally : List (String × Nat),
      r.human = "\n".intercalate
        (ds.flatMap (fun d => [d.text, ""])
          ++ [s!"Found {ds.length} problem(s) in {filesChecked} checked file(s)"]
          ++ tally.map fun (code, n) => s!"  {code}: {n}") ∧
      (tally.map (·.1)).Pairwise (· < ·) ∧
      (∀ code n, (code, n) ∈ tally ↔
        0 < n ∧ (batches.flatten.map Diagnostic.code).count code = n) ∧
      (tally.map (·.2)).sum = ds.length ∧
      tally.Perm r.counts) := by
  intro r ds clean
  have hr : r = ⟨filesChecked, batches.flatten⟩ := by
    rw [show r = _ from foldl_extend batches _, List.nil_append]
  have hlength : ds.length = batches.flatten.length := List.length_mergeSort _
  have hclean : r.human = clean ↔ r.hasProblems = false := by
    rw [hr]
    exact human_eq_clean_iff _
  refine ⟨hclean.trans (json_eq_empty_iff r).symm, hclean, List.mergeSort_perm .., ?_, ?_⟩
  · rw [read?_json, hr]
    rfl
  · intro hproblems
    refine ⟨Text.tally (batches.flatten.map Diagnostic.code), ?_, ?_, fun _ _ => Text.mem_tally,
      ?_, ?_⟩
    · rw [human_eq hproblems, hr, hlength]
    · rw [Text.map_fst_tally]
      exact Text.ordered_pairwise _
    · rw [Text.sum_tally, List.length_map, hlength]
    · rw [hr]
      exact counts_perm ⟨filesChecked, batches.flatten⟩

/-- Diagnostics of two files, one of which has come in twice. -/
def repeatedBatches : List (List Diagnostic) :=
  [[⟨"b.js", .atPoint 2 0, "no-var", "first", none, ""⟩],
    [⟨"a.js", .atPoint 5 4, "no-var", "second", some "third", ""⟩,
      ⟨"a.js", .atPoint 1 0, "no-eval", "fourth", none, ""⟩],
    [],
    [⟨"b.js", .atPoint 2 0, "no-var", "first", none, ""⟩]]

/-- Both are in the report, and both count. -/
theorem human_repeatedBatches :
    let r := repeatedBatches.foldl extend ⟨2, []⟩
    let ds := Diagnostic.sort repeatedBatches.flatten
    r.hasProblems = true ∧
      ds.map Diagnostic.message = ["fourth", "second", "first", "first"] ∧
      ∃ tally : List (String × Nat),
        r.human = "\n".intercalate
          (ds.flatMap (fun d => [d.text, ""]) ++ ["Found 4 problem(s) in 2 checked file(s)"]
            ++ tally.map fun (code, n) => s!"  {code}: {n}") ∧
        ("no-eval", 1) ∈ tally ∧ ("no-var", 3) ∈ tally ∧ (tally.map (·.2)).sum = 4 := by
  intro r ds
  have hproblems : r.hasProblems = true := by decide
  have hlength : ds.length = 4 := List.length_mergeSort _
  obtain ⟨-, -, -, -, hhuman⟩ := human_exact 2 repeatedBatches
  obtain ⟨tally, htext, -, hmem, hsum, -⟩ := hhuman hproblems
  have hmessages : (Diagnostic.sort repeatedBatches.flatten).map Diagnostic.message =
      ["fourth", "second", "first", "first"] := by cbv
  refine ⟨hproblems, hmessages, tally, ?_, (hmem _ _).2 (by decide),
    (hmem _ _).2 (by decide), hsum.trans hlength⟩
  have htotal : (Diagnostic.sort repeatedBatches.flatten).length = 4 := hlength
  rw [htotal] at htext
  exact htext

end Report

end ScriptLint
