import Mathlib.Data.String.Basic
import ScriptLint.Lint.Linter

/-!
# Sorting diagnostics of several files

Diagnostics are sorted by file first.  So sorting what several files have puts the
files in the order of their names, and within one file nothing moves that is in
order already (`sort_eq_flatMap`).  How the files were mixed before makes no
difference.

What a linter says of a program is about the file of the program and in order
(`Linter.lintStrictly_inOrder`).
-/

namespace ScriptLint

namespace Diagnostic

/-! ## The order -/

instance : Std.TransCmp order := by
  unfold order
  infer_instance

/-- Diagnostics come in the order of `Diagnostic.sort`. -/
def InOrder (ds : List Diagnostic) : Prop :=
  ds.Pairwise fun d e => (order d e).isLE = true

theorem order_trans (d e f : Diagnostic) (hde : (order d e).isLE = true)
    (hef : (order e f).isLE = true) : (order d f).isLE = true :=
  Std.TransCmp.isLE_trans hde hef

theorem order_total (d e : Diagnostic) : ((order d e).isLE || (order e d).isLE) = true := by
  rw [Bool.or_eq_true]
  cases h : (order d e).isLE with
  | true => exact .inl rfl
  | false =>
      have hgt : order d e = .gt := by
        cases ho : order d e <;> simp_all
      rw [Std.OrientedCmp.lt_of_gt hgt]
      exact .inr rfl

theorem sort_inOrder (ds : List Diagnostic) : InOrder (sort ds) :=
  List.pairwise_mergeSort order_trans order_total ds

theorem mem_sort {d : Diagnostic} {ds : List Diagnostic} : d ∈ sort ds ↔ d ∈ ds :=
  List.mem_mergeSort

theorem sort_eq_nil {ds : List Diagnostic} : sort ds = [] ↔ ds = [] := by
  rw [← List.length_eq_zero_iff, sort, List.length_mergeSort, List.length_eq_zero_iff]

theorem filename_le_of_isLE {d e : Diagnostic} (h : (order d e).isLE = true) :
    d.filename ≤ e.filename := by
  simp only [order, compareLex, compareOn] at h
  cases hc : compare d.filename e.filename with
  | lt => exact le_of_lt (compare_lt_iff_lt.1 hc)
  | eq => exact le_of_eq (compare_eq_iff_eq.1 hc)
  | gt => simp [hc] at h

/-- Sorting leaves the diagnostics that pass a test as they are, if they are in order. -/
theorem filter_sort {p : Diagnostic → Bool} {ds : List Diagnostic} (h : InOrder (ds.filter p)) :
    (sort ds).filter p = ds.filter p := by
  have hsub : (ds.filter p).Sublist (sort ds) :=
    List.sublist_mergeSort order_trans order_total h List.filter_sublist
  have hsub' : (ds.filter p).Sublist ((sort ds).filter p) := by
    simpa using hsub.filter p
  have hperm : ((sort ds).filter p).Perm (ds.filter p) := (List.mergeSort_perm ds _).filter p
  exact (hsub'.eq_of_length hperm.length_eq.symm).symm

/-! ## File by file -/

/-- The diagnostics for one file. -/
def ofFile (file : String) (ds : List Diagnostic) : List Diagnostic :=
  ds.filter fun d => d.filename == file

theorem ofFile_append (file : String) (ds es : List Diagnostic) :
    ofFile file (ds ++ es) = ofFile file ds ++ ofFile file es :=
  List.filter_append ..

/-- Sorting leaves the diagnostics for a file as they are, if they are in order. -/
theorem ofFile_sort {file : String} {ds : List Diagnostic} (h : InOrder (ofFile file ds)) :
    ofFile file (sort ds) = ofFile file ds :=
  filter_sort h

/-- The diagnostics for the first file come first. -/
theorem InOrder.eq_append {ds : List Diagnostic} (h : InOrder ds) {file : String}
    (hle : ∀ d ∈ ds, file ≤ d.filename) :
    ds = ofFile file ds ++ ds.filter fun d => d.filename != file := by
  induction ds with
  | nil => rfl
  | cons d ds ih =>
      obtain ⟨hd, hds⟩ := List.pairwise_cons.1 h
      by_cases hfile : d.filename = file
      · have hrest := ih hds fun e he => hle e (List.mem_cons_of_mem d he)
        simpa [ofFile, hfile] using hrest
      · have hlater : ∀ e ∈ d :: ds, e.filename ≠ file := by
          intro e he
          have hlt : file < d.filename := lt_of_le_of_ne (hle d List.mem_cons_self) (Ne.symm hfile)
          rcases List.mem_cons.1 he with rfl | he
          · exact hfile
          · exact ne_of_gt (lt_of_lt_of_le hlt (filename_le_of_isLE (hd e he)))
        have hnone : ofFile file (d :: ds) = [] := by
          simpa [ofFile] using hlater
        have hall : ((d :: ds).filter fun d => d.filename != file) = d :: ds := by
          simpa using hlater
        rw [hnone, hall, List.nil_append]

/-- Diagnostics in order are the diagnostics of their files one after another. -/
theorem InOrder.eq_flatMap {ds : List Diagnostic} (h : InOrder ds) {files : List String}
    (hfiles : files.Pairwise (· < ·)) (hmem : ∀ d ∈ ds, d.filename ∈ files) :
    ds = files.flatMap fun file => ofFile file ds := by
  induction files generalizing ds with
  | nil =>
      cases ds with
      | nil => rfl
      | cons d ds => cases hmem d List.mem_cons_self
  | cons file files ih =>
      obtain ⟨hfirst, hfiles⟩ := List.pairwise_cons.1 hfiles
      have hle : ∀ d ∈ ds, file ≤ d.filename := by
        intro d hd
        rcases List.mem_cons.1 (hmem d hd) with heq | hlater
        · exact le_of_eq heq.symm
        · exact le_of_lt (hfirst _ hlater)
      have hlater : ∀ d ∈ ds.filter fun d => d.filename != file, d.filename ∈ files := by
        simpa using fun d hd hne => (List.mem_cons.1 (hmem d hd)).resolve_left hne
      have hrest := ih (List.Pairwise.filter _ h) hfiles hlater
      have hsame : (files.flatMap fun g => ofFile g (ds.filter fun d => d.filename != file)) =
          files.flatMap fun g => ofFile g ds := by
        refine List.flatMap_congr ?_
        intro g hg
        have hne : g ≠ file := ne_of_gt (hfirst g hg)
        simp only [ofFile, List.filter_filter]
        refine List.filter_congr ?_
        intro d _
        by_cases hd : d.filename = g
        · simp [hd, hne]
        · simp [hd]
      rw [List.flatMap_cons, ← hsame, ← hrest]
      exact h.eq_append hle

/-- **Sorting by files.**  Where the diagnostics for each file are in order, sorting
lines up the files and changes nothing else. -/
theorem sort_eq_flatMap {ds : List Diagnostic} {files : List String}
    (hfiles : files.Pairwise (· < ·)) (hmem : ∀ d ∈ ds, d.filename ∈ files)
    (h : ∀ file ∈ files, InOrder (ofFile file ds)) :
    sort ds = files.flatMap fun file => ofFile file ds := by
  rw [(sort_inOrder ds).eq_flatMap hfiles fun d hd => hmem d (mem_sort.1 hd)]
  refine List.flatMap_congr ?_
  intro file hfile
  exact ofFile_sort (h file hfile)

end Diagnostic

/-! ## What a linter says of one program -/

theorem Rule.filename_of_mem_check {r : Rule} {p : Program} {d : Diagnostic} (h : d ∈ r.check p) :
    d.filename = p.filename := by
  obtain ⟨f, -, rfl⟩ := List.mem_map.1 h
  rfl

namespace Linter

variable (l : Linter) (p : Program)

/-- Each diagnostic is one of some rule. -/
theorem exists_of_mem_lint {d : Diagnostic} (h : d ∈ l.lint p) : ∃ r ∈ l.rules, d ∈ r.check p := by
  rw [lint, Diagnostic.mem_sort] at h
  have hreports : d ∈ l.reports p := List.mem_of_mem_filter h
  exact List.mem_flatMap.1 hreports

theorem filename_of_mem_lint {d : Diagnostic} (h : d ∈ l.lint p) : d.filename = p.filename := by
  obtain ⟨r, -, hd⟩ := l.exists_of_mem_lint p h
  exact Rule.filename_of_mem_check hd

theorem filename_of_mem_lintStrictly {d : Diagnostic} (h : d ∈ l.lintStrictly p) :
    d.filename = p.filename := by
  unfold lintStrictly at h
  split at h
  next e he =>
    obtain rfl := List.mem_singleton.1 h
    unfold Program.parseError? at he
    split at he
    · cases he
      rfl
    · cases he
  next => exact l.filename_of_mem_lint p h

theorem lintStrictly_inOrder : Diagnostic.InOrder (l.lintStrictly p) := by
  unfold lintStrictly
  split
  next => exact List.pairwise_singleton _ _
  next => exact Diagnostic.sort_inOrder _

end Linter

end ScriptLint
