import Mathlib.Data.List.Dedup
import ScriptLint.Proofs.CommandLine.Report

/-!
# The number of checked files

A report counts the files that the arguments stand for.  What is linted are the files
that these stand for in turn, so those without a dialect are counted and skipped.  A
file that comes up twice is counted twice.  `LintRequest.filesChecked_exact` tells when
the number is that of the files which are linted: exactly when no file comes up twice
and each has a dialect.  Otherwise it is too large.
-/

namespace ScriptLint

/-- Nothing is lost by leaving out and merging exactly if there was nothing to leave out
and nothing to merge. -/
theorem length_dedup_filter_eq_iff {α : Type} [DecidableEq α] {p : α → Bool} {l : List α} :
    (l.filter p).dedup.length = l.length ↔ l.Nodup ∧ ∀ a ∈ l, p a = true := by
  constructor
  · intro h
    have hall : (l.filter p).dedup = l :=
      ((List.dedup_sublist _).trans List.filter_sublist).eq_of_length h
    rw [← hall]
    refine ⟨List.nodup_dedup _, ?_⟩
    intro a ha
    exact (List.mem_filter.1 (List.mem_dedup.1 ha)).2
  · rintro ⟨hnodup, hall⟩
    rw [List.filter_eq_self.2 hall, hnodup.dedup]

theorem length_dedup_filter_le {α : Type} [DecidableEq α] (p : α → Bool) (l : List α) :
    (l.filter p).dedup.length ≤ l.length :=
  ((List.dedup_sublist _).trans List.filter_sublist).length_le

namespace CommandLine

variable {w : Workspace} {r : LintRequest} {c : Config} {paths files : List Path}

/-! ## Any extensions -/

/-- Whatever the extensions are, the second expansion leaves files that can be linted. -/
theorem exists_result_lintPaths (hw : w.files.WellFormed) (hnormal : ∀ p ∈ paths, p.Normal)
    (h : (w.expand c paths).result = .ok files) (linter : Linter) (jobs? : Option Int) :
    ∃ found : List (List Diagnostic),
      (Activity.each (w.lintFile linter)
        (files.filter fun file => (Dialect.ofPath? file).isSome)).result = .ok found ∧
      (w.lintPaths c linter files jobs?).result = .ok (Workspace.collect
        ((files.filter fun file => (Dialect.ofPath? file).isSome).zip found)) := by
  have hfiles := Workspace.normal_of_expand hw hnormal h
  have hlint (file : Path) (hfile : file ∈ files.filter fun file => (Dialect.ofPath? file).isSome) :
      (w.lintFile linter file).result = .ok (w.diagnosticsAt linter file.toString) :=
    Workspace.result_lintFile_of_isSome (hfiles file (List.mem_filter.1 hfile).1)
      (List.mem_filter.1 hfile).2
  have heach := Activity.result_each hlint
  refine ⟨_, heach, ?_⟩
  rw [Workspace.lintPaths, Activity.bind_result_of_ok (Workspace.result_expand_again hw h),
    Activity.bind_result_of_ok (Activity.result_debug _ _), Activity.bind_result_of_ok heach]
  rfl

/-- The files that a request counts and those that are linted for it. -/
structure LintRequest.Counts (r : LintRequest) (w : Workspace) (c : Config) (o : Outcome)
    (files linted : List Path) (report : Report) : Prop where
  /-- The files counted are those of the arguments. -/
  expanded : (w.expand (r.override c) (r.targets c)).result = .ok files
  checked : report.filesChecked = files.length
  shown : r.json = false → o.output = lines [report.human]
  /-- The files linted are those that remain when they are expanded once more. -/
  again : (w.expand (r.override c) files).result = .ok linted
  results : ∃ linter found, (r.override c).linter.result = .ok linter ∧
    (Activity.each (w.lintFile linter) linted).result = .ok found ∧
    (w.lintPaths (r.override c) linter files none).result =
      .ok (Workspace.collect (linted.zip found)) ∧
    report.diagnostics = (Workspace.collect (linted.zip found)).flatMap (·.2)
  /-- The number is at least that of the files linted, each of them taken once. -/
  least : (linted.dedup.length : Int) ≤ report.filesChecked
  exact : report.filesChecked = linted.dedup.length ↔
    files.Nodup ∧ ∀ file ∈ files, (Dialect.ofPath? file).isSome = true

theorem LintRequest.counts_outcomeOf (hw : w.files.WellFormed)
    (hc : (r.settings w).result = .ok c)
    (h : (w.expand (r.override c) (r.targets c)).result = .ok files) :
    ∃ report linted, (CommandLine.report w (r.override c) (r.targets c)).result = .ok report ∧
      r.Counts w c (r.outcomeOf report) files linted report := by
  have hlinter := Config.result_linter (r.override c)
  obtain ⟨found, heach, hlint⟩ := exists_result_lintPaths hw (targets_normal hw hc) h
    ⟨(r.override c).selection.rules, (r.override c).word⟩ none
  refine ⟨⟨files.length, (Workspace.collect ((files.filter fun file =>
    (Dialect.ofPath? file).isSome).zip found)).flatMap (·.2)⟩, _, ?_, h, rfl, ?_,
    Workspace.result_expand_again hw h, ⟨_, found, hlinter, heach, hlint, rfl⟩, ?_, ?_⟩
  · rw [CommandLine.report, Activity.bind_result_of_ok hlinter, Activity.bind_result_of_ok h,
      Activity.bind_result_of_ok hlint]
    simp [Activity.result_pure, foldl_extend]
  · intro hjson
    simp [outcomeOf, hjson]
  · exact Int.ofNat_le.2 (length_dedup_filter_le _ files)
  · rw [← length_dedup_filter_eq_iff (l := files)]
    exact Int.ofNat_inj.trans eq_comm

/-- With settings that load, an outcome shows a report. -/
theorem LintRequest.run_eq_ok (hc : (r.settings w).result = .ok c) {o : Outcome} :
    (r.run w).result = .ok o ↔
      ∃ report, (CommandLine.report w (r.override c) (r.targets c)).result = .ok report ∧
        r.outcomeOf report = o := by
  rw [result_run hc]
  cases (CommandLine.report w (r.override c) (r.targets c)).result with
  | error f => simp [Except.map]
  | ok report => simp [Except.map]

/-- **The number of checked files.**  Whatever the settings are, a request comes to an
outcome exactly when none of its paths is refused.  The number that it shows is that of
the distinct files which are linted exactly if no file comes up twice and each of them has
a dialect. -/
theorem LintRequest.filesChecked_exact (hw : w.files.WellFormed)
    (hc : (r.settings w).result = .ok c) :
    ((∃ o, (r.run w).result = .ok o) ↔ ∀ p ∈ r.targets c, ¬ w.Refuses p) ∧
      ∀ o, (r.run w).result = .ok o →
        ∃ files linted report, r.Counts w c o files linted report := by
  have hends : (∀ p ∈ r.targets c, ¬ w.Refuses p) → ∃ report,
      (CommandLine.report w (r.override c) (r.targets c)).result = .ok report ∧
        ∃ files linted, r.Counts w c (r.outcomeOf report) files linted report := by
    intro hrefuses
    obtain ⟨report, linted, hreport, hcounts⟩ :=
      counts_outcomeOf hw hc (Workspace.result_expand hrefuses)
    exact ⟨report, hreport, _, linted, hcounts⟩
  refine ⟨⟨?_, ?_⟩, ?_⟩
  · rintro ⟨o, ho⟩
    obtain ⟨report, hreport, -⟩ := (run_eq_ok hc).1 ho
    exact not_refuses_of_report hreport
  · intro hrefuses
    obtain ⟨report, hreport, -⟩ := hends hrefuses
    exact ⟨_, (run_eq_ok hc).2 ⟨report, hreport, rfl⟩⟩
  · intro o ho
    obtain ⟨report, hreport, rfl⟩ := (run_eq_ok hc).1 ho
    obtain ⟨report', hreport', files, linted, hcounts⟩ := hends (not_refuses_of_report hreport)
    obtain rfl : report = report' := Except.ok.inj (hreport.symm.trans hreport')
    exact ⟨files, linted, report, hcounts⟩

/-- A request that names a script. -/
def single : LintRequest where
  paths := ["b.js"]

/-- A script that is named once counts as one file. -/
theorem run_single : ∃ files linted report,
    single.Counts (.passing "b.js") { root := ⟨.root, []⟩ }
      ⟨0, "Checked 1 file(s): OK - no problems\n", ""⟩ files linted report ∧
    report.filesChecked = linted.dedup.length := by
  have hsettings : (single.settings (.passing "b.js")).result = .ok { root := ⟨.root, []⟩ } := by
    decide +kernel
  have hrun : (single.run (.passing "b.js")).result =
      .ok ⟨0, "Checked 1 file(s): OK - no problems\n", ""⟩ := by
    decide +kernel
  have hexpand : ((Workspace.passing "b.js").expand (single.override { root := ⟨.root, []⟩ })
      (single.targets { root := ⟨.root, []⟩ })).result = .ok [.ofString "b.js"] := by
    decide +kernel
  obtain ⟨-, hcounts⟩ := LintRequest.filesChecked_exact wellFormed_scripts hsettings
  obtain ⟨files, linted, report, h⟩ := hcounts _ hrun
  have hfiles : files = [.ofString "b.js"] := Except.ok.inj (h.expanded.symm.trans hexpand)
  refine ⟨files, linted, report, h, h.exact.2 ?_⟩
  rw [hfiles]
  decide +kernel

/-- A request that names a script twice. -/
def repeated : LintRequest where
  paths := ["b.js", "b.js"]

/-- A script that is named twice counts as two files, and only one file is linted. -/
theorem run_repeated :
    (repeated.run (.passing "b.js")).result =
      .ok ⟨0, "Checked 2 file(s): OK - no problems\n", ""⟩ ∧
    repeated.targets { root := ⟨.root, []⟩ } = [.ofString "b.js", .ofString "b.js"] ∧
    ((Workspace.passing "b.js").expand (repeated.override { root := ⟨.root, []⟩ })
      [.ofString "b.js", .ofString "b.js"]).result = .ok [.ofString "b.js", .ofString "b.js"] ∧
    [Path.ofString "b.js", .ofString "b.js"].dedup.length = 1 := by
  decide +kernel

end CommandLine

end ScriptLint
