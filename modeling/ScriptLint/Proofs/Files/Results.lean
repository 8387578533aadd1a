import Mathlib.Data.List.Zip
import ScriptLint.Proofs.Files.Expansion
import ScriptLint.Proofs.Lint.Sorting
import ScriptLint.Proofs.Syntax.FirstError

/-!
# What linting files gives

A file has diagnostics if its suffix has a dialect: the ones of its program, or the
one that tells why there is no program.  So linting a file fails only for its suffix
(`result_lintFile`), and neither a syntax error nor a file that cannot be read ends a
run.

The results are kept by the texts of the paths.  The files come from texts, so
different files have different texts, and nothing is overwritten by the results of
another file.  A run has results exactly when no path is refused and each file has a
dialect, and then the diagnostics of each file are there (`lintPaths_exact`).  Paths
that are files keep to the dialects.  A directory does not: it stands for files with
any of the configured extensions.
-/

namespace ScriptLint

/-! ## One file -/

theorem Linter.result_run (l : Linter) (p : Program) : (l.run p).result = .ok (l.lint p) := by
  rw [run]
  split
  · exact Activity.bind_result_of_ok rfl
  · rfl

/-- Linting a source does not fail: a syntax error is its diagnostic. -/
theorem Linter.result_runSource (l : Linter) (grammar : Grammar) (filename : String)
    (dialect : Dialect) (source : Source) :
    (l.runSource grammar filename dialect source).result =
      .ok (l.lintStrictly (.ofSource grammar filename dialect source)) := by
  rw [runSource, Activity.bind_result_of_ok (Activity.result_attempt _), result_parse, lintStrictly]
  cases (Program.ofSource grammar filename dialect source).parseError? with
  | none => exact l.result_run _
  | some e => exact Activity.bind_result_of_ok rfl

namespace Workspace

/-- The diagnostics of a file in a dialect. -/
def diagnosticsOf (w : Workspace) (l : Linter) (file : Path) (dialect : Dialect) :
    List Diagnostic :=
  match w.files.read file with
  | .ok source => l.lintStrictly (.ofSource w.grammar file.toString dialect source)
  | .error fault => [.ofFileFault file.toString fault]

variable {w : Workspace} {c : Config} {l : Linter} {file : Path}

/-- Linting a file that can be read is linting its source. -/
theorem lintFile_eq_runSource {dialect : Dialect} {source : Source}
    (hdialect : Dialect.ofPath? file = some dialect) (hread : w.files.read file = .ok source) :
    w.lintFile l file = l.runSource w.grammar file.toString dialect source := by
  have hparse := result_parse w.grammar file.toString dialect source
  rw [lintFile, parseFile, hdialect, hread, Linter.runSource]
  -- The two go different ways only for failures that the parser does not have.
  change Activity.andThen _ _ = Activity.andThen _ _
  simp only [Activity.andThen, Activity.attempt, hparse]
  cases (Program.ofSource w.grammar file.toString dialect source).parseError? <;> rfl

/-- Linting a file fails only for its suffix. -/
theorem result_lintFile : (w.lintFile l file).result =
    match Dialect.ofPath? file with
    | some dialect => .ok (w.diagnosticsOf l file dialect)
    | none => .error (.unsupported file.toString) := by
  cases hdialect : Dialect.ofPath? file with
  | none =>
      rw [lintFile, Activity.bind_result_of_ok (Activity.result_attempt _), parseFile, hdialect]
      rfl
  | some dialect =>
      unfold diagnosticsOf
      cases hread : w.files.read file with
      | error fault =>
          rw [lintFile, Activity.bind_result_of_ok (Activity.result_attempt _), parseFile, hdialect,
            hread]
          exact Activity.bind_result_of_ok rfl
      | ok source => rw [lintFile_eq_runSource hdialect hread, Linter.result_runSource]

theorem filename_of_mem_diagnosticsOf {dialect : Dialect} {d : Diagnostic}
    (h : d ∈ w.diagnosticsOf l file dialect) : d.filename = file.toString := by
  unfold diagnosticsOf at h
  split at h
  next source _ => exact l.filename_of_mem_lintStrictly _ h
  next fault _ =>
    obtain rfl := List.mem_singleton.1 h
    rfl

theorem diagnosticsOf_inOrder (dialect : Dialect) :
    Diagnostic.InOrder (w.diagnosticsOf l file dialect) := by
  unfold diagnosticsOf
  split
  next => exact l.lintStrictly_inOrder _
  next => exact List.pairwise_singleton _ _

/-! ## Results by name -/

/-- The diagnostics of the file that a text names, none if it has no dialect. -/
def diagnosticsAt (w : Workspace) (l : Linter) (name : String) : List Diagnostic :=
  ((Dialect.ofPath? (Path.ofString name)).map (w.diagnosticsOf l (Path.ofString name))).getD []

theorem result_lintFile_of_isSome (hfile : file.Normal) (h : (Dialect.ofPath? file).isSome) :
    (w.lintFile l file).result = .ok (w.diagnosticsAt l file.toString) := by
  obtain ⟨dialect, hdialect⟩ := Option.isSome_iff_exists.1 h
  rw [result_lintFile, diagnosticsAt, hfile.ofString_toString, hdialect]
  rfl

theorem filename_of_mem_diagnosticsAt {name : String} {d : Diagnostic}
    (h : d ∈ w.diagnosticsAt l name) : d.filename = (Path.ofString name).toString := by
  unfold diagnosticsAt at h
  cases hdialect : Dialect.ofPath? (Path.ofString name) with
  | none => simp [hdialect] at h
  | some dialect =>
      rw [hdialect] at h
      exact filename_of_mem_diagnosticsOf h

theorem diagnosticsAt_inOrder (name : String) : Diagnostic.InOrder (w.diagnosticsAt l name) := by
  unfold diagnosticsAt
  cases Dialect.ofPath? (Path.ofString name) with
  | none => exact List.Pairwise.nil
  | some dialect => exact diagnosticsOf_inOrder dialect

/-- One result more. -/
theorem lookup_collect_step (ds : String → List Diagnostic) (files : List Path)
    (found : List (String × List Diagnostic)) (name : String) :
    ((files.map fun file => (file, ds file.toString)).foldl (fun found (path, ds) =>
        if ds.isEmpty then found else Keyed.put path.toString ds found) found).lookup name =
      if name ∈ files.map Path.toString ∧ ds name ≠ [] then some (ds name)
      else found.lookup name := by
  induction files generalizing found with
  | nil => simp
  | cons file files ih =>
      rw [List.map_cons, List.foldl_cons, ih]
      by_cases hname : name = file.toString
      · by_cases hempty : ds file.toString = []
        · simp [hname, hempty]
        · simp [hname, hempty, Keyed.lookup_put]
      · by_cases hempty : ds file.toString = []
        · simp [hname, hempty]
        · simp [hname, hempty, Keyed.lookup_put]

/-- A file has its diagnostics under the text of its path, if it has any. -/
theorem lookup_collect (ds : String → List Diagnostic) (files : List Path) (name : String) :
    (collect (files.map fun file => (file, ds file.toString))).lookup name =
      if name ∈ files.map Path.toString ∧ ds name ≠ [] then some (ds name) else none :=
  lookup_collect_step ds files [] name

theorem nodup_collect (results : List (Path × List Diagnostic)) :
    ((collect results).map (·.1)).Nodup := by
  have hfold : ∀ found : List (String × List Diagnostic), (found.map (·.1)).Nodup →
      ((results.foldl (fun found (path, ds) =>
        if ds.isEmpty then found else Keyed.put path.toString ds found) found).map (·.1)).Nodup := by
    induction results with
    | nil => exact fun _ h => h
    | cons result results ih =>
        obtain ⟨path, ds⟩ := result
        intro found h
        rw [List.foldl_cons]
        refine ih _ ?_
        cases hempty : ds.isEmpty with
        | true => simpa [hempty] using h
        | false => simpa [hempty, Keyed.put] using Keyed.nodup_keys_update path.toString (fun _ => ds) h
  exact hfold [] List.nodup_nil

/-- In a table by files, a file is found by its diagnostics. -/
theorem ofFile_flatMap {found : List (String × List Diagnostic)} (hkeys : (found.map (·.1)).Nodup)
    (h : ∀ p ∈ found, ∀ d ∈ p.2, d.filename = p.1) (name : String) :
    Diagnostic.ofFile name (found.flatMap (·.2)) = (found.lookup name).getD [] := by
  induction found with
  | nil => rfl
  | cons p found ih =>
      obtain ⟨key, ds⟩ := p
      obtain ⟨hds, hfound⟩ := List.forall_mem_cons.1 h
      simp only [List.map_cons, List.nodup_cons] at hkeys
      have hrest := ih hkeys.2 hfound
      rw [List.flatMap_cons, Diagnostic.ofFile_append, hrest]
      by_cases hname : name = key
      · subst hname
        have hnone : found.lookup name = none := by
          rw [List.lookup_eq_none_iff]
          intro p hp
          simpa using fun he => hkeys.1 (List.mem_map.2 ⟨p, hp, he.symm⟩)
        have hall : Diagnostic.ofFile name ds = ds := by
          simpa [Diagnostic.ofFile] using hds
        simp [hall, hnone]
      · have hnone : Diagnostic.ofFile name ds = [] := by
          simp only [Diagnostic.ofFile, List.filter_eq_nil_iff]
          intro d hd
          simp [hds d hd, Ne.symm hname]
        have hne : (name == key) = false := by simpa using hname
        simp [hnone, List.lookup_cons, hne]

/-- All results together hold what each file has. -/
theorem ofFile_collect {ds : String → List Diagnostic} {files : List Path}
    (h : ∀ name ∈ files.map Path.toString, ∀ d ∈ ds name, d.filename = name) (name : String) :
    Diagnostic.ofFile name
        ((collect (files.map fun file => (file, ds file.toString))).flatMap (·.2)) =
      if name ∈ files.map Path.toString then ds name else [] := by
  have hkeys := nodup_collect (files.map fun file => (file, ds file.toString))
  rw [ofFile_flatMap hkeys, lookup_collect]
  · by_cases hname : name ∈ files.map Path.toString
    · by_cases hempty : ds name = [] <;> simp [hname, hempty]
    · simp [hname]
  · rintro ⟨key, found⟩ hp
    have hlookup := (Keyed.lookup_eq_some_iff hkeys).2 hp
    rw [lookup_collect] at hlookup
    split at hlookup
    next hentry =>
      cases hlookup
      exact h key hentry.1
    next => cases hlookup

/-! ## Runs -/

theorem result_lintPaths {paths : List Path} (hnormal : ∀ p ∈ paths, p.Normal)
    (hw : w.files.WellFormed) (hrefuses : ∀ p ∈ paths, ¬ w.Refuses p)
    (hdialects : ∀ file ∈ paths.flatMap (w.filesOf c), (Dialect.ofPath? file).isSome)
    (jobs? : Option Int) :
    (w.lintPaths c l paths jobs?).result =
      .ok (collect ((paths.flatMap (w.filesOf c)).map fun file =>
        (file, w.diagnosticsAt l file.toString))) := by
  have hfiles : ∀ file ∈ paths.flatMap (w.filesOf c),
      (w.lintFile l file).result = .ok (w.diagnosticsAt l file.toString) := by
    intro file hfile
    obtain ⟨p, hp, hmem⟩ := List.mem_flatMap.1 hfile
    exact result_lintFile_of_isSome (normal_of_mem_filesOf hw (hnormal p hp) hmem)
      (hdialects file hfile)
  rw [lintPaths, Activity.bind_result_of_ok (result_expand hrefuses),
    Activity.bind_result_of_ok (Activity.result_debug _ _),
    Activity.bind_result_of_ok (Activity.result_each hfiles), List.map_prod_left_eq_zip]
  rfl

/-- **What a run returns.**  For paths that came from texts, a run has results exactly
when no path is refused and each file that the paths stand for has a dialect.  Then no
diagnostics of a file are lost, whatever became of the other files. -/
theorem lintPaths_exact (hw : w.files.WellFormed) (c : Config) (l : Linter) {paths : List Path}
    (hnormal : ∀ p ∈ paths, p.Normal) (jobs? : Option Int) :
    ((∃ results, (w.lintPaths c l paths jobs?).result = .ok results) ↔
      (∀ p ∈ paths, ¬ w.Refuses p) ∧
        ∀ p ∈ paths, ∀ file ∈ w.filesOf c p, (Dialect.ofPath? file).isSome) ∧
    ∀ results, (w.lintPaths c l paths jobs?).result = .ok results →
      ∀ p ∈ paths, ∀ file ∈ w.filesOf c p, ∃ ds, (w.lintFile l file).result = .ok ds ∧
        results.lookup file.toString = if ds = [] then none else some ds := by
  have hneeds : ∀ results, (w.lintPaths c l paths jobs?).result = .ok results →
      (∀ p ∈ paths, ¬ w.Refuses p) ∧
        ∀ file ∈ paths.flatMap (w.filesOf c), (Dialect.ofPath? file).isSome := by
    intro results h
    obtain ⟨files, hexpand, h⟩ := Activity.exists_of_bind_result h
    rw [Activity.bind_result_of_ok (Activity.result_debug _ _)] at h
    obtain ⟨found, heach, -⟩ := Activity.exists_of_bind_result h
    have hrefuses := not_refuses_of_expand hexpand
    rw [result_expand hrefuses] at hexpand
    cases hexpand
    refine ⟨hrefuses, fun file hfile => ?_⟩
    obtain ⟨ds, hds⟩ := Activity.exists_of_result_each heach file hfile
    rw [result_lintFile] at hds
    cases hdialect : Dialect.ofPath? file with
    | none => simp [hdialect] at hds
    | some dialect => rfl
  refine ⟨⟨?_, ?_⟩, ?_⟩
  · rintro ⟨results, h⟩
    obtain ⟨hrefuses, hdialects⟩ := hneeds results h
    exact ⟨hrefuses, fun p hp file hfile => hdialects file (List.mem_flatMap.2 ⟨p, hp, hfile⟩)⟩
  · rintro ⟨hrefuses, hdialects⟩
    refine ⟨_, result_lintPaths hnormal hw hrefuses ?_ jobs?⟩
    intro file hfile
    obtain ⟨p, hp, hmem⟩ := List.mem_flatMap.1 hfile
    exact hdialects p hp file hmem
  · intro results h p hp file hfile
    obtain ⟨hrefuses, hdialects⟩ := hneeds results h
    have hmem : file ∈ paths.flatMap (w.filesOf c) := List.mem_flatMap.2 ⟨p, hp, hfile⟩
    rw [result_lintPaths hnormal hw hrefuses hdialects, Except.ok.injEq] at h
    subst h
    refine ⟨w.diagnosticsAt l file.toString, ?_, ?_⟩
    · exact result_lintFile_of_isSome (normal_of_mem_filesOf hw (hnormal p hp) hfile)
        (hdialects file hmem)
    · rw [lookup_collect]
      have htext : file.toString ∈ (paths.flatMap (w.filesOf c)).map Path.toString :=
        List.mem_map_of_mem hmem
      by_cases hempty : w.diagnosticsAt l file.toString = [] <;> simp [hempty, htext]

/-- A directory with a script that goes away before it is read, and another file. -/
def passing (other : String) : Workspace where
  files := ⟨.directory [("a.js", .file (.error .notFound)), (other, .file (.ok ⟨[]⟩))], []⟩
  grammar := ⟨fun _ source => .mk ⟨"program", true, false, false, 0, source.size, none⟩ []⟩
  settings := fun _ => .error (.malformed "")

/-- Settings that take templates for scripts. -/
def templateConfig : Config where
  root := .ofString "."
  extensions := [".js", ".vue"]

theorem wellFormed_passing {other : String} (hother : Entry.ValidName other) (hne : other ≠ "a.js") :
    (passing other).files.WellFormed := by
  have hscript : Entry.ValidName "a.js" :=
    ⟨⟨by decide, by decide, by decide⟩, by decide, by decide⟩
  refine ⟨.directory ?_ ?_ ?_, by simp [passing]⟩
  · simp [hne.symm]
  · simp [hscript, hother]
  · simp [Entry.WellFormed.file]

theorem find_passing (other : String) :
    (passing other).files.find (.ofString ".") = .ok (passing other).files.root := rfl

theorem not_refuses_passing {other : String}
    (hshort : overlong? (.ofString ".") (passing other).files.root = none) :
    ¬ (passing other).Refuses (.ofString ".") := by
  intro h
  cases h with
  | path hfind =>
      rw [find_passing] at hfind
      cases hfind
  | below hfind hbelow hlong =>
      rw [find_passing, Except.ok.injEq] at hfind
      rw [overlong?_eq_none.1 hshort _ _ (hfind ▸ hbelow)] at hlong
      cases hlong

/-- The two names are in order. -/
theorem filesOf_passing {other : String} (h : "a.js" ≤ other) (c : Config) :
    (passing other).filesOf c (.ofString ".") =
      ([["a.js"], [other]].filter fun names => c.hasExtension names && !c.excludes names).map
        (Path.ofString ".").descend := by
  have hsort : ([("a.js", [[]]), (other, [[]])] : List (String × List (List String))).mergeSort
      (fun a b => decide (a.1 ≤ b.1)) = [("a.js", [[]]), (other, [[]])] :=
    List.mergeSort_of_pairwise (by simpa using h)
  have hfiles : (passing other).files.root.files = [["a.js"], [other]] := by
    simp [passing, Entry.files, Entry.filesAmong, Entry.inOrder, hsort]
  rw [← hfiles, filesOf, find_passing]
  rfl

/-- A file that goes away does not end the run. -/
theorem lintPaths_passing :
    ∃ results, ((passing "b.js").lintPaths templateConfig ⟨[], ""⟩ [.ofString "."] none).result =
      .ok results ∧
      results.lookup (Path.ofString "a.js").toString = some [.ofFileFault "a.js" .notFound] := by
  have hwf : (passing "b.js").files.WellFormed :=
    wellFormed_passing ⟨⟨by decide, by decide, by decide⟩, by decide, by decide⟩ (by decide)
  have hrefuses : ∀ p ∈ [Path.ofString "."], ¬ (passing "b.js").Refuses p := by
    simpa using not_refuses_passing (by decide +kernel)
  have hfiles : (passing "b.js").filesOf templateConfig (.ofString ".") =
      [.ofString "a.js", .ofString "b.js"] := by
    rw [filesOf_passing (by decide +kernel)]
    decide +kernel
  have hnormal : ∀ p ∈ [Path.ofString "."], p.Normal := by
    simp [Path.ofString_normal]
  have hdialects : ∀ p ∈ [Path.ofString "."], ∀ file ∈ (passing "b.js").filesOf templateConfig p,
      (Dialect.ofPath? file).isSome := by
    simp only [List.mem_singleton, forall_eq, hfiles]
    decide +kernel
  obtain ⟨hreturns, hkeeps⟩ := lintPaths_exact hwf templateConfig ⟨[], ""⟩ hnormal none
  obtain ⟨results, hresults⟩ := hreturns.2 ⟨hrefuses, hdialects⟩
  obtain ⟨ds, hds, hlookup⟩ :=
    hkeeps results hresults (.ofString ".") (by simp) (.ofString "a.js") (by simp [hfiles])
  have hfault : ((passing "b.js").lintFile ⟨[], ""⟩ (.ofString "a.js")).result =
      .ok [.ofFileFault "a.js" .notFound] := by
    decide +kernel
  rw [hfault, Except.ok.injEq] at hds
  exact ⟨results, hresults, by rw [hlookup, ← hds]; rfl⟩

/-- A template ends the run, and takes the diagnostic of the script with it. -/
theorem lintPaths_template :
    ((passing "x.vue").lintPaths templateConfig ⟨[], ""⟩ [.ofString "."] none).result =
      .error (.unsupported "x.vue") := by
  have hfiles : (passing "x.vue").filesOf templateConfig (.ofString ".") =
      [.ofString "a.js", .ofString "x.vue"] := by
    rw [filesOf_passing (by decide +kernel)]
    decide +kernel
  have hexpand : ((passing "x.vue").expand templateConfig [.ofString "."]).result =
      .ok [.ofString "a.js", .ofString "x.vue"] :=
    expand_eq_ok.2 ⟨by simpa using not_refuses_passing (by decide +kernel), by simp [hfiles]⟩
  rw [lintPaths, Activity.bind_result_of_ok hexpand]
  decide +kernel

end Workspace

end ScriptLint
