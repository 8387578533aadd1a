import ScriptLint.CommandLine.Run
import ScriptLint.Proofs.Config
import ScriptLint.Proofs.Files.Results
import ScriptLint.Proofs.Lint.Batches

/-!
# What a request to lint prints

A request expands its paths, and then has the files linted as if they had been given
one by one.  With extensions that have a dialect, the second expansion changes
nothing.  The results come by file, the report puts them together and sorts them.
What is printed is what each file has, file by file in the order of their names
(`LintRequest.run_exact`).  Neither the order of the arguments nor their overlap
matters for that, nor how many files are linted at a time.

A request whose paths are refused ends without an outcome.
-/

namespace ScriptLint

/-! ## Files with a dialect -/

namespace Workspace

variable {w : Workspace} {c : Config}

/-- If the extensions have a dialect, all files have one. -/
theorem isSome_of_mem_filesOf (hext : ∀ e ∈ c.extensions, (Dialect.ofSuffix? e).isSome) {p file : Path}
    (hfile : file ∈ w.filesOf c p) : (Dialect.ofPath? file).isSome := by
  unfold filesOf at hfile
  split at hfile
  next =>
    split at hfile
    next h =>
      obtain rfl := List.mem_singleton.1 hfile
      exact h
    next => cases hfile
  next entries hfind =>
    obtain ⟨names, ⟨content, hbelow⟩, hextension, -, rfl⟩ := mem_takenBelow.1 hfile
    have hne : names ≠ [] := by
      rintro rfl
      cases Entry.below_nil.1 hbelow
    rw [Dialect.ofPath?, Path.suffix_descend p hne]
    exact hext _ (List.contains_iff_mem.1 hextension)
  next => cases hfile

theorem isSome_of_expand (hext : ∀ e ∈ c.extensions, (Dialect.ofSuffix? e).isSome)
    {paths files : List Path} (h : (w.expand c paths).result = .ok files) :
    ∀ file ∈ files, (Dialect.ofPath? file).isSome := by
  obtain ⟨-, rfl⟩ := expand_eq_ok.1 h
  intro file hfile
  obtain ⟨p, -, hmem⟩ := List.mem_flatMap.1 hfile
  exact isSome_of_mem_filesOf hext hmem

end Workspace

/-! ## The settings of a request -/

theorem Workspace.root_of_loadConfig {w : Workspace} {path? : Option Path} {root : Path} {c : Config}
    (h : (w.loadConfig path? root).result = .ok c) : c.root = root := by
  obtain ⟨chosen?, -, h⟩ := Activity.exists_of_bind_result h
  cases chosen? with
  | none =>
      rw [Activity.bind_result_of_ok (Activity.result_debug _ _)] at h
      cases h
      rfl
  | some path =>
      obtain ⟨settings, -, h⟩ := Activity.exists_of_bind_result h
      rw [Activity.bind_result_of_ok (Activity.result_debug _ _), Activity.result_ofExcept] at h
      cases happly : Config.apply { root := root } settings path with
      | error fault =>
          rw [happly] at h
          cases h
      | ok c' =>
          rw [happly] at h
          cases h
          exact (Config.apply_eq_ok.1 happly).root

theorem Config.result_linter (c : Config) :
    c.linter.result = .ok ⟨c.selection.rules, c.word⟩ :=
  rfl

namespace CommandLine

/-- The paths that a request is about: the given ones, or the directory of the
settings. -/
def LintRequest.targets (r : LintRequest) (c : Config) : List Path :=
  if r.paths.isEmpty then [c.root] else r.paths.map Path.ofString

variable {w : Workspace} {r : LintRequest} {c : Config}

theorem leadingDirectory?_eq_some {paths : List Path} {root : Path}
    (h : leadingDirectory? w paths = .ok (some root)) : root ∈ paths := by
  cases paths with
  | nil => cases h
  | cons path paths =>
      obtain ⟨e?, -, h⟩ := exists_of_bind_eq_ok h
      split at h
      next =>
        cases h
        exact List.mem_cons_self
      next => cases h

/-- The directory of the settings is one of the given paths or the current directory. -/
theorem LintRequest.root_normal (hw : w.files.WellFormed) (hc : (r.settings w).result = .ok c) :
    c.root.Normal := by
  obtain ⟨root?, hroot, hload⟩ := Activity.exists_of_bind_result hc
  rw [Workspace.root_of_loadConfig hload]
  cases root? with
  | none => exact FileSystem.currentDirectory_normal hw
  | some root =>
      obtain ⟨text, -, rfl⟩ := List.mem_map.1 (leadingDirectory?_eq_some hroot)
      exact Path.ofString_normal text

theorem LintRequest.targets_normal (hw : w.files.WellFormed) (hc : (r.settings w).result = .ok c) :
    ∀ p ∈ r.targets c, p.Normal := by
  intro p hp
  unfold targets at hp
  split at hp
  next =>
    obtain rfl := List.mem_singleton.1 hp
    exact root_normal hw hc
  next =>
    obtain ⟨text, -, rfl⟩ := List.mem_map.1 hp
    exact Path.ofString_normal text

/-! ## Reports -/

theorem foldl_extend (results : List (String × List Diagnostic)) (report : Report) :
    results.foldl (fun report (_, ds) => report.extend ds) report =
      { report with diagnostics := report.diagnostics ++ results.flatMap (·.2) } :=
  List.foldl_map.symm.trans (Report.foldl_extend (results.map (·.2)) report)

/-- The sorted diagnostics of a report that puts all results together. -/
theorem sort_flatMap_collect {ds : String → List Diagnostic} {files : List Path}
    (hname : ∀ name ∈ files.map Path.toString, ∀ d ∈ ds name, d.filename = name)
    (horder : ∀ name, Diagnostic.InOrder (ds name)) {order : List String}
    (hpairwise : order.Pairwise (· < ·)) (hmem : ∀ name, name ∈ order ↔ name ∈ files.map Path.toString) :
    Diagnostic.sort
        ((Workspace.collect (files.map fun file => (file, ds file.toString))).flatMap (·.2)) =
      order.flatMap ds := by
  have hofFile := Workspace.ofFile_collect hname
  have hsame : ∀ name ∈ order, Diagnostic.ofFile name
      ((Workspace.collect (files.map fun file => (file, ds file.toString))).flatMap (·.2)) =
        ds name := by
    intro name hn
    rw [hofFile, if_pos ((hmem name).1 hn)]
  rw [Diagnostic.sort_eq_flatMap hpairwise]
  · exact List.flatMap_congr hsame
  · intro d hd
    -- A diagnostic of no listed file would be one of its own file.
    by_contra hnot
    have hnone := hofFile d.filename
    rw [if_neg fun h => hnot ((hmem _).2 h)] at hnone
    have hself : d ∈ Diagnostic.ofFile d.filename
        ((Workspace.collect (files.map fun file => (file, ds file.toString))).flatMap (·.2)) :=
      List.mem_filter.2 ⟨hd, beq_self_eq_true _⟩
    rw [hnone] at hself
    cases hself
  · intro name hn
    rw [hsame name hn]
    exact horder name

variable {paths files : List Path}

/-- With extensions that have a dialect, the second expansion changes nothing. -/
theorem expand_expanded (hw : w.files.WellFormed)
    (hext : ∀ e ∈ c.extensions, (Dialect.ofSuffix? e).isSome)
    (h : (w.expand c paths).result = .ok files) : (w.expand c files).result = .ok files := by
  have hagain := Workspace.result_expand_again hw h
  rwa [List.filter_eq_self.2 (Workspace.isSome_of_expand hext h)] at hagain

theorem result_report {linter : Linter} (hlinter : c.linter.result = .ok linter)
    (hw : w.files.WellFormed) (hext : ∀ e ∈ c.extensions, (Dialect.ofSuffix? e).isSome)
    (hnormal : ∀ p ∈ paths, p.Normal) (h : (w.expand c paths).result = .ok files) :
    (report w c paths).result = .ok ⟨files.length,
      (Workspace.collect (files.map fun file =>
        (file, w.diagnosticsAt linter file.toString))).flatMap (·.2)⟩ := by
  obtain ⟨hrefuses, hsame⟩ := Workspace.expand_eq_ok.1 (expand_expanded hw hext h)
  have hdialects := Workspace.isSome_of_expand hext h
  rw [hsame] at hdialects
  have hresults := Workspace.result_lintPaths (l := linter)
    (Workspace.normal_of_expand hw hnormal h) hw hrefuses hdialects none
  rw [← hsame] at hresults
  rw [report, Activity.bind_result_of_ok hlinter, Activity.bind_result_of_ok h,
    Activity.bind_result_of_ok hresults]
  simp [Activity.result_pure, foldl_extend]

theorem not_refuses_of_report {paths : List Path} {rep : Report}
    (h : (report w c paths).result = .ok rep) : ∀ p ∈ paths, ¬ w.Refuses p := by
  obtain ⟨linter, -, h⟩ := Activity.exists_of_bind_result h
  obtain ⟨files, hexpand, -⟩ := Activity.exists_of_bind_result h
  exact Workspace.not_refuses_of_expand hexpand

/-- An outcome shows what some files have: `ds` by the text of the path, in the `order`
of these texts. -/
structure LintRequest.Shows (r : LintRequest) (w : Workspace) (c : Config) (o : Outcome)
    (files : List Path) (order : List String) (ds : String → List Diagnostic) : Prop where
  /-- The files are those of the arguments. -/
  expanded : (w.expand (r.override c) (r.targets c)).result = .ok files
  /-- The run expands them once more, to the same files. -/
  again : (w.expand (r.override c) files).result = .ok files
  /-- Each of them is linted by itself. -/
  linted : ∃ linter, (r.override c).linter.result = .ok linter ∧
    ∀ file ∈ files, (w.lintFile linter file).result = .ok (ds file.toString)
  /-- Their names are put in order, each of them once. -/
  increasing : order.Pairwise (· < ·)
  names : ∀ name, name ∈ order ↔ ∃ file ∈ files, file.toString = name
  /-- The entries are what the files have, name by name. -/
  printed : r.json = true →
    o.output = lines [(Json.array ((order.flatMap ds).map Report.entry)).write .indented]
  /-- The text for people is that of a report with the same diagnostics. -/
  shown : r.json = false → ∃ report : Report, report.filesChecked = files.length ∧
    Diagnostic.sort report.diagnostics = order.flatMap ds ∧ o.output = lines [report.human]
  /-- The status tells whether there is any. -/
  found : (∃ file ∈ files, ds file.toString ≠ []) → o.status = 1
  clean : (∀ file ∈ files, ds file.toString = []) → o.status = 0

/-- The outcome that shows a report. -/
def LintRequest.outcomeOf (r : LintRequest) (rep : Report) : Outcome :=
  ⟨if rep.hasProblems then 1 else 0, lines [if r.json then rep.json else rep.human], ""⟩

theorem LintRequest.result_run (hc : (r.settings w).result = .ok c) :
    (r.run w).result = (CommandLine.report w (r.override c) (r.targets c)).result.map r.outcomeOf := by
  rw [run, Activity.bind_result_of_ok (Activity.result_attempt _), hc]
  cases hrep : (CommandLine.report w (r.override c) (r.targets c)).result with
  | error f => exact Activity.bind_result_of_error (Activity.bind_result_of_error hrep)
  | ok rep =>
      have hreport : (r.report w c).result = .ok (rep, r.json) := Activity.bind_result_of_ok hrep
      exact Activity.bind_result_of_ok hreport

theorem LintRequest.shows_outcomeOf (hw : w.files.WellFormed)
    (hc : (r.settings w).result = .ok c)
    (hext : ∀ e ∈ c.extensions, (Dialect.ofSuffix? e).isSome)
    (h : (w.expand (r.override c) (r.targets c)).result = .ok files) :
    ∃ rep order ds, (CommandLine.report w (r.override c) (r.targets c)).result = .ok rep ∧
      r.Shows w c (r.outcomeOf rep) files order ds := by
  have hlinter := Config.result_linter (r.override c)
  have hnormal := Workspace.normal_of_expand hw (targets_normal hw hc) h
  have hdialects := Workspace.isSome_of_expand hext h
  have hreport := result_report hlinter hw hext (targets_normal hw hc) h
  generalize hl : Linter.mk (r.override c).selection.rules (r.override c).word = linter
    at hlinter hreport
  have hname : ∀ name ∈ files.map Path.toString, ∀ d ∈ w.diagnosticsAt linter name,
      d.filename = name := by
    intro name hn d hd
    obtain ⟨file, hfile, rfl⟩ := List.mem_map.1 hn
    rw [Workspace.filename_of_mem_diagnosticsAt hd, (hnormal file hfile).ofString_toString]
  have hsort := sort_flatMap_collect hname Workspace.diagnosticsAt_inOrder
    (Text.ordered_pairwise (files.map Path.toString)) fun _ => Text.mem_ordered
  generalize (Workspace.collect (files.map fun file =>
    (file, w.diagnosticsAt linter file.toString))).flatMap (·.2) = all at hreport hsort
  have hempty : all = [] ↔ ∀ file ∈ files, w.diagnosticsAt linter file.toString = [] := by
    rw [← Diagnostic.sort_eq_nil, hsort]
    simp
  refine ⟨_, Text.ordered (files.map Path.toString), w.diagnosticsAt linter, hreport, h,
    expand_expanded hw hext h, ⟨linter, hlinter, ?_⟩, Text.ordered_pairwise _, ?_, ?_, ?_, ?_, ?_⟩
  · intro file hfile
    exact Workspace.result_lintFile_of_isSome (hnormal file hfile) (hdialects file hfile)
  · intro name
    rw [Text.mem_ordered, List.mem_map]
  · intro hjson
    simp [outcomeOf, hjson, Report.json, Report.entries, hsort]
  · intro hjson
    exact ⟨⟨files.length, all⟩, rfl, hsort, by simp [outcomeOf, hjson]⟩
  · rintro ⟨file, hfile, hne⟩
    have hall : all ≠ [] := fun he => hne (hempty.1 he file hfile)
    simp [outcomeOf, Report.hasProblems, hall]
  · intro hclean
    simp [outcomeOf, Report.hasProblems, hempty.2 hclean]

/-- **What a request to lint prints.**  With extensions that have a dialect, a request
comes to an outcome exactly when none of its paths is refused.  The outcome then shows
what linting each of its files gives. -/
theorem LintRequest.run_exact (hw : w.files.WellFormed) (hc : (r.settings w).result = .ok c)
    (hext : ∀ e ∈ c.extensions, (Dialect.ofSuffix? e).isSome) :
    ((∃ o, (r.run w).result = .ok o) ↔ ∀ p ∈ r.targets c, ¬ w.Refuses p) ∧
      ∀ o, (r.run w).result = .ok o → ∃ files order ds, r.Shows w c o files order ds := by
  have hneeds : ∀ o, (r.run w).result = .ok o → ∀ p ∈ r.targets c, ¬ w.Refuses p := by
    intro o ho
    rw [result_run hc] at ho
    cases hrep : (CommandLine.report w (r.override c) (r.targets c)).result with
    | error f =>
        rw [hrep] at ho
        cases ho
    | ok rep => exact not_refuses_of_report hrep
  have hshows : (∀ p ∈ r.targets c, ¬ w.Refuses p) → ∃ o, (r.run w).result = .ok o ∧
      ∃ files order ds, r.Shows w c o files order ds := by
    intro hrefuses
    obtain ⟨rep, order, ds, hrep, hshows⟩ :=
      shows_outcomeOf hw hc hext (Workspace.result_expand hrefuses)
    exact ⟨r.outcomeOf rep, by rw [result_run hc, hrep]; rfl, _, order, ds, hshows⟩
  constructor
  · constructor
    · rintro ⟨o, ho⟩
      exact hneeds o ho
    · intro hrefuses
      obtain ⟨o, ho, -⟩ := hshows hrefuses
      exact ⟨o, ho⟩
  · intro o ho
    obtain ⟨o', ho', hshown⟩ := hshows (hneeds o ho)
    rw [ho, Except.ok.injEq] at ho'
    exact ho' ▸ hshown

/-! ## Two requests -/

/-- A request that names a file and the directory it is in. -/
def overlapping : LintRequest where
  paths := ["a.js", "."]
  json := true

/-- A name that no file can have. -/
def longName : String :=
  String.ofList (List.replicate 300 'a')

/-- A request that names a file, and another one that cannot be there. -/
def overlong : LintRequest where
  paths := ["a.js", longName]

theorem settings_overlapping :
    (overlapping.settings (.passing "b.js")).result = .ok { root := ⟨.root, []⟩ } := by
  decide +kernel

theorem settings_overlong :
    (overlong.settings (.passing "b.js")).result = .ok { root := ⟨.root, []⟩ } := by
  decide +kernel

theorem isSome_of_mem_defaults :
    ∀ e ∈ ({ root := ⟨.root, []⟩ } : Config).extensions, (Dialect.ofSuffix? e).isSome := by
  decide +kernel

theorem wellFormed_scripts : (Workspace.passing "b.js").files.WellFormed :=
  Workspace.wellFormed_passing ⟨⟨by decide, by decide, by decide⟩, by decide, by decide⟩ (by decide)

theorem not_refuses_overlapping : ∀ p ∈ overlapping.targets { root := ⟨.root, []⟩ },
    ¬ (Workspace.passing "b.js").Refuses p := by
  have htargets : overlapping.targets { root := ⟨.root, []⟩ } =
      [.ofString "a.js", .ofString "."] := by
    decide +kernel
  have hfile : (Workspace.passing "b.js").files.find (.ofString "a.js") =
      .ok (.file (.error .notFound)) := rfl
  rw [htargets, List.forall_mem_cons, List.forall_mem_singleton]
  exact ⟨Workspace.not_refuses_of_find hfile, Workspace.not_refuses_passing (by decide +kernel)⟩

/-- The file that is named twice, and goes away, is reported once. -/
theorem run_overlapping : ∃ o files order ds,
    (overlapping.run (.passing "b.js")).result = .ok o ∧
      overlapping.Shows (.passing "b.js") { root := ⟨.root, []⟩ } o files order ds := by
  obtain ⟨hruns, hshows⟩ :=
    LintRequest.run_exact wellFormed_scripts settings_overlapping isSome_of_mem_defaults
  obtain ⟨o, ho⟩ := hruns.2 not_refuses_overlapping
  obtain ⟨files, order, ds, h⟩ := hshows o ho
  exact ⟨o, files, order, ds, ho, h⟩

theorem ofString_longName : Path.ofString longName = ⟨.here, [longName]⟩ := by
  have hchars : longName.toList = List.replicate 300 'a' := String.toList_ofList
  have hslash : '/' ∉ longName.toList := by
    rw [hchars, List.mem_replicate]
    decide
  have hspellable : Path.Spellable longName := ⟨by decide +kernel, by decide +kernel, hslash⟩
  have htext : (Path.mk .here [longName]).toString = longName := by
    simp [Path.toString, Anchor.text]
  have hnormal : (Path.mk .here [longName]).Normal := by
    simpa [Path.Normal] using hspellable
  rw [← hnormal.ofString_toString, htext]

theorem find_longName :
    (Workspace.passing "b.js").files.find (.ofString longName) = .error .nameTooLong := by
  have hup : longName ≠ ".." := by decide +kernel
  have hlong : FileSystem.maxName < longName.utf8ByteSize := by decide +kernel
  rw [ofString_longName, FileSystem.find]
  split
  next => rfl
  next => simp [Workspace.passing, FileSystem.absoluteNames, FileSystem.follow.eq_def, hup, hlong]

/-- A name that is too long ends the run without an outcome, though the settings are
fine. -/
theorem run_overlong :
    (overlong.settings (.passing "b.js")).result = .ok { root := ⟨.root, []⟩ } ∧
      ∀ o, (overlong.run (.passing "b.js")).result ≠ .ok o := by
  refine ⟨settings_overlong, fun o ho => ?_⟩
  rw [LintRequest.result_run settings_overlong] at ho
  cases hrep : (CommandLine.report (.passing "b.js") (overlong.override { root := ⟨.root, []⟩ })
      (overlong.targets { root := ⟨.root, []⟩ })).result with
  | error f =>
      rw [hrep] at ho
      cases ho
  | ok rep =>
      exact not_refuses_of_report hrep (.ofString longName) (by simp [LintRequest.targets, overlong])
        (.path find_longName)

end CommandLine

end ScriptLint
