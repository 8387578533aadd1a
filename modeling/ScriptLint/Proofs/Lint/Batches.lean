import ScriptLint.Lint.Report
import ScriptLint.Proofs.Lint.Sorting
import ScriptLint.Proofs.Lint.WindowAccess
import ScriptLint.Proofs.Text.Ordered

/-!
# Batches in any order

Diagnostics tie if they agree in file, line, column and code.  Sorting keeps ties in
the order in which they came, and takes nothing else from that order: where the ties
are the same lists, the sorted lists are the same (`Diagnostic.sort_congr`).

Diagnostics come in batches, one for each rule or one for each file.  If batches never
tie with each other, all that tie stand in one batch, wherever it comes.  So the order of
the batches is lost in sorting (`Diagnostic.sort_flatten_perm`).  Rules with different
codes make such batches, and a linter says the same whatever the order of its rules is
(`Linter.lint_perm`).  So do different files, and a report reads the same whatever the
order is in which the files are done (`Report.render_perm`).
-/

namespace ScriptLint

namespace Diagnostic

/-! ## Ties -/

/-- The diagnostics that agree with one in file, line, column and code. -/
def ties (d : Diagnostic) (ds : List Diagnostic) : List Diagnostic :=
  ds.filter fun e => order d e == .eq

theorem mem_ties {d e : Diagnostic} {ds : List Diagnostic} :
    e ∈ ties d ds ↔ e ∈ ds ∧ order d e = .eq := by
  simp [ties]

theorem order_self (d : Diagnostic) : order d d = .eq :=
  Std.ReflCmp.compare_self

theorem ties_cons_of_eq {d e : Diagnostic} (h : order d e = .eq) (ds : List Diagnostic) :
    ties d (e :: ds) = e :: ties d ds := by
  simp [ties, h]

theorem ties_cons_of_ne {d e : Diagnostic} (h : order d e ≠ .eq) (ds : List Diagnostic) :
    ties d (e :: ds) = ties d ds := by
  simp [ties, h]

theorem ties_inOrder (d : Diagnostic) (ds : List Diagnostic) : InOrder (ties d ds) := by
  refine List.pairwise_of_forall_mem_list fun e he f hf => ?_
  have hed : order e d = .eq := Std.OrientedCmp.eq_symm (mem_ties.1 he).2
  have hef : order e f = .eq := Std.TransCmp.eq_trans hed (mem_ties.1 hf).2
  rw [hef]
  rfl

theorem ties_sort (d : Diagnostic) (ds : List Diagnostic) : ties d (sort ds) = ties d ds :=
  filter_sort (ties_inOrder d ds)

/-- What comes first in one list is not greater than what comes first in the other. -/
theorem InOrder.isLE_of_ties {d e : Diagnostic} {ds es : List Diagnostic} (hds : InOrder (d :: ds))
    (h : ∀ f, ties f (d :: ds) = ties f (e :: es)) : (order d e).isLE = true := by
  have he : e ∈ ties e (d :: ds) := by
    rw [h, mem_ties]
    exact ⟨List.mem_cons_self, order_self e⟩
  rcases List.mem_cons.1 (mem_ties.1 he).1 with rfl | hmem
  · rw [order_self]
    rfl
  · exact (List.pairwise_cons.1 hds).1 e hmem

/-- Diagnostics in order are determined by their ties. -/
theorem InOrder.eq_of_ties {ds es : List Diagnostic} (hds : InOrder ds) (hes : InOrder es)
    (h : ∀ d, ties d ds = ties d es) : ds = es := by
  induction ds generalizing es with
  | nil =>
      cases es with
      | nil => rfl
      | cons e es =>
          have he := h e
          rw [ties_cons_of_eq (order_self e)] at he
          cases he
  | cons d ds ih =>
      cases es with
      | nil =>
          have hd := h d
          rw [ties_cons_of_eq (order_self d)] at hd
          cases hd
      | cons e es =>
          have hde : order d e = .eq :=
            Std.OrientedCmp.isLE_antisymm (hds.isLE_of_ties h)
              (hes.isLE_of_ties fun f => (h f).symm)
          have hd := h d
          rw [ties_cons_of_eq (order_self d), ties_cons_of_eq hde, List.cons.injEq] at hd
          obtain ⟨rfl, -⟩ := hd
          have hrest : ∀ f, ties f ds = ties f es := by
            intro f
            have hf := h f
            by_cases hfd : order f d = .eq
            · rw [ties_cons_of_eq hfd, ties_cons_of_eq hfd] at hf
              exact (List.cons.inj hf).2
            · rwa [ties_cons_of_ne hfd, ties_cons_of_ne hfd] at hf
          rw [ih (List.pairwise_cons.1 hds).2 (List.pairwise_cons.1 hes).2 hrest]

/-- Sorting depends on the ties only. -/
theorem sort_congr {ds es : List Diagnostic} (h : ∀ d, ties d ds = ties d es) :
    sort ds = sort es :=
  (sort_inOrder ds).eq_of_ties (sort_inOrder es) fun d => by rw [ties_sort, ties_sort, h]

/-! ## Batches -/

/-- Two batches never tie. -/
def Apart (ds es : List Diagnostic) : Prop :=
  ∀ d ∈ ds, ∀ e ∈ es, order d e ≠ .eq

theorem Apart.symm {ds es : List Diagnostic} (h : Apart ds es) : Apart es ds :=
  fun e he d hd heq => h d hd e he (Std.OrientedCmp.eq_symm heq)

/-- Of two batches that never tie, one has no ties with a given diagnostic. -/
theorem Apart.ties_eq_nil {ds es : List Diagnostic} (h : Apart ds es) (f : Diagnostic) :
    ties f ds = [] ∨ ties f es = [] := by
  by_contra hboth
  rw [not_or] at hboth
  obtain ⟨d, hd⟩ := List.exists_mem_of_ne_nil _ hboth.1
  obtain ⟨e, he⟩ := List.exists_mem_of_ne_nil _ hboth.2
  rw [mem_ties] at hd he
  exact h d hd.1 e he.1 (Std.TransCmp.eq_trans (Std.OrientedCmp.eq_symm hd.2) he.2)

theorem ties_append (d : Diagnostic) (ds es : List Diagnostic) :
    ties d (ds ++ es) = ties d ds ++ ties d es :=
  List.filter_append ..

theorem ties_flatten_perm {batches batches' : List (List Diagnostic)}
    (hperm : batches.Perm batches') (hapart : batches.Pairwise Apart) (d : Diagnostic) :
    ties d batches.flatten = ties d batches'.flatten := by
  induction hperm with
  | nil => rfl
  | cons ds _ ih =>
      rw [List.flatten_cons, List.flatten_cons, ties_append, ties_append,
        ih (List.pairwise_cons.1 hapart).2]
  | swap ds es batches =>
      have hne := ((List.pairwise_cons.1 hapart).1 ds List.mem_cons_self).ties_eq_nil d
      simp only [List.flatten_cons, ties_append]
      rcases hne with hnil | hnil <;> simp [hnil]
  | trans hperm _ ih ih' =>
      exact (ih hapart).trans (ih' (hperm.pairwise hapart Apart.symm))

/-- **Batches in any order.**  Batches that never tie are sorted into the same list,
in whichever order they come. -/
theorem sort_flatten_perm {batches batches' : List (List Diagnostic)}
    (hperm : batches.Perm batches') (hapart : batches.Pairwise Apart) :
    sort batches.flatten = sort batches'.flatten :=
  sort_congr (ties_flatten_perm hperm hapart)

theorem eq_of_order_eq {d e : Diagnostic} (h : order d e = .eq) :
    d.filename = e.filename ∧ d.code = e.code := by
  simp only [order, compareLex, compareOn, Ordering.then_eq_eq] at h
  exact ⟨compare_eq_iff_eq.1 h.1, compare_eq_iff_eq.1 h.2.2.2⟩

end Diagnostic

/-! ## Rules -/

theorem Rule.code_of_mem_check {r : Rule} {p : Program} {d : Diagnostic} (h : d ∈ r.check p) :
    d.code = r.code := by
  obtain ⟨f, -, rfl⟩ := List.mem_map.1 h
  rfl

namespace Linter

/-- What each rule reports and no directive silences. -/
def batches (l : Linter) (p : Program) : List (List Diagnostic) :=
  l.rules.map fun r => (Directives.ofProgram l.word p).filter (r.check p)

theorem lint_eq (l : Linter) (p : Program) : l.lint p = Diagnostic.sort (l.batches p).flatten := by
  rw [lint, reports, batches, Directives.filter]
  simp only [List.flatMap, List.filter_flatten, List.map_map, Directives.filter]
  rfl

theorem batches_apart {l : Linter} (hcodes : (l.rules.map Rule.code).Nodup) (p : Program) :
    (l.batches p).Pairwise Diagnostic.Apart := by
  refine List.pairwise_map.2 ((List.pairwise_map.1 hcodes).imp fun hne d hd e he htie => hne ?_)
  rw [← Rule.code_of_mem_check (List.mem_of_mem_filter hd),
    ← Rule.code_of_mem_check (List.mem_of_mem_filter he)]
  exact (Diagnostic.eq_of_order_eq htie).2

/-- **Rules in any order.**  A linter whose rules have different codes says the same, in
the same order, whatever the order of its rules is.  What a rule finds at a visit may depend
on all of the program, and so on the visits before it. -/
theorem lint_perm {rules rules' : List Rule} (hperm : rules.Perm rules')
    (hcodes : (rules.map Rule.code).Nodup) (word : String) (p : Program) :
    (Linter.mk rules word).lint p = (Linter.mk rules' word).lint p := by
  rw [lint_eq, lint_eq]
  exact Diagnostic.sort_flatten_perm (hperm.map _) (batches_apart hcodes p)

/-- A rule on statements, which start where accesses do. -/
def statements : Rule where
  name := "Statements"
  code := "no-statement"
  tags := []
  docs := ""
  onMember := fun _ _ _ => []
  onNode := fun p s =>
    if s.node.kind = "expression_statement" then
      [⟨p.source.rangeOf s.node, "A statement", none⟩]
    else []
  asksScopes := fun _ _ => false

/-- Two rules that report at the same places come to the same list, although they report in
different orders. -/
theorem lint_statements :
    ([statements, WindowAccess.rule].map Rule.code).Nodup ∧
      ((Linter.mk [statements, WindowAccess.rule] "").reports Program.threeWindows).map
          (fun d => (d.line, d.col, d.code)) =
        [(1, 0, "no-statement"), (2, 0, "no-statement"), (3, 0, "no-statement"),
          (1, 0, "no-window-prefix"), (3, 0, "no-window-prefix")] ∧
      (Linter.mk [statements, WindowAccess.rule] "").lint Program.threeWindows =
        (Linter.mk [WindowAccess.rule, statements] "").lint Program.threeWindows := by
  have hcodes : ([statements, WindowAccess.rule].map Rule.code).Nodup := by decide
  exact ⟨hcodes, by decide +kernel, lint_perm (.swap ..) hcodes "" Program.threeWindows⟩

end Linter

/-! ## Reports -/

namespace Report

theorem foldl_extend (batches : List (List Diagnostic)) (r : Report) :
    batches.foldl extend r = { r with diagnostics := r.diagnostics ++ batches.flatten } := by
  induction batches generalizing r with
  | nil => simp
  | cons ds batches ih =>
      rw [List.foldl_cons, ih]
      simp [extend]

/-- Reports on as many files, whose diagnostics are the same when they are sorted, read the
same. -/
theorem render_congr {r r' : Report} (hfiles : r.filesChecked = r'.filesChecked)
    (hsort : Diagnostic.sort r.diagnostics = Diagnostic.sort r'.diagnostics) :
    r.human = r'.human ∧ r.json = r'.json ∧ r.hasProblems = r'.hasProblems := by
  have hperm : r.diagnostics.Perm r'.diagnostics :=
    ((List.mergeSort_perm ..).symm.trans (.of_eq hsort)).trans (List.mergeSort_perm ..)
  have hcodes := hperm.map Diagnostic.code
  have hproblems : r.hasProblems = r'.hasProblems := by
    rw [hasProblems, hasProblems, hperm.isEmpty_eq]
  have hcounts : r.countLines = r'.countLines := by
    rw [countLines, countLines, Text.ordered_congr fun _ => hcodes.mem_iff]
    simp only [hcodes.count_eq]
  refine ⟨?_, ?_, hproblems⟩
  · rw [human, human, hproblems, hsort, hperm.length_eq, hfiles, hcounts]
  · rw [json, json, entries, entries, hsort]

/-- **Files in any order.**  A report that is given the diagnostics of different files, one
file after the other, reads the same whatever the order of the files is. -/
theorem render_perm {batches batches' : List (List Diagnostic)} (hperm : batches.Perm batches')
    (hfiles : batches.Pairwise fun ds es => ∀ d ∈ ds, ∀ e ∈ es, d.filename ≠ e.filename)
    (filesChecked : Int) :
    let r := batches.foldl extend ⟨filesChecked, []⟩
    let r' := batches'.foldl extend ⟨filesChecked, []⟩
    r.human = r'.human ∧ r.json = r'.json ∧ r.hasProblems = r'.hasProblems := by
  have hapart : batches.Pairwise Diagnostic.Apart :=
    hfiles.imp fun hne d hd e he htie => hne d hd e he (Diagnostic.eq_of_order_eq htie).1
  simp only [foldl_extend, List.nil_append]
  exact render_congr rfl (Diagnostic.sort_flatten_perm hperm hapart)

/-- Two diagnostics of one file that differ in their messages only. -/
def lateFile : List Diagnostic :=
  ["second", "first"].map fun message => ⟨"b.js", .atPoint 1 0, "x", message, none, ""⟩

/-- A diagnostic of another file, further down there. -/
def earlyFile : List Diagnostic :=
  [⟨"a.js", .atPoint 7 0, "x", "third", none, ""⟩]

/-- Two files that finish in one order or the other. -/
theorem render_twoFiles :
    let r := [lateFile, earlyFile].foldl extend ⟨2, []⟩
    let r' := [earlyFile, lateFile].foldl extend ⟨2, []⟩
    r.diagnostics ≠ r'.diagnostics ∧
      r.human = r'.human ∧ r.json = r'.json ∧ r.hasProblems = r'.hasProblems :=
  ⟨by decide, render_perm (.swap ..) (by decide) 2⟩

end Report

end ScriptLint
