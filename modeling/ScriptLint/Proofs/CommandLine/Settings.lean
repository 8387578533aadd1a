import ScriptLint.CommandLine.Run
import ScriptLint.Proofs.Files.Settings

/-!
# What bad settings do to a request

A request to lint loads settings first.  If they are bad, it says which file is bad and
what is wrong there, and its status is 2.  That depends on failures that tell so.  The
others pass through the request and end it without an outcome
(`LintRequest.badSettings_exact`).
-/

namespace ScriptLint

theorem Workspace.Escapes.foreign {w : Workspace} {path? : Option Path} {root : Path} {f : Failure}
    (h : w.Escapes path? root f) : f.Foreign := by
  rintro e rfl
  cases h with
  | searching _ _ hstops => cases hstops
  | loading _ hunloadable => cases hunloadable

namespace CommandLine

variable {w : Workspace} {r : LintRequest} {f : Failure}

theorem LintRequest.result_settings {root? : Option Path}
    (hroot : leadingDirectory? w (r.paths.map Path.ofString) = .ok root?) :
    (r.settings w).result =
      (w.loadConfig r.configPath? (root?.getD w.files.currentDirectory)).result :=
  Activity.bind_result_of_ok hroot

theorem LintRequest.result_run_of_config {e : ConfigError}
    (h : (r.settings w).result = .error (.config e)) :
    (r.run w).result = .ok ⟨2, "", lines [s!"Config error: {e.message}"]⟩ := by
  rw [run, Activity.bind_result_of_ok (Activity.result_attempt _), h]
  rfl

theorem LintRequest.result_run_of_foreign (hf : f.Foreign) (h : (r.settings w).result = .error f) :
    (r.run w).result = .error f := by
  rw [run, Activity.bind_result_of_ok (Activity.result_attempt _), h]
  cases f with
  | config e => exact absurd rfl (hf e)
  | _ => rfl

/-- **What bad settings do.**  Loading gives settings, or tells which file is bad and what is
wrong there, exactly when no other failure escapes.  A request then has status 2 and says
what is wrong.  A failure that escapes ends it. -/
theorem LintRequest.badSettings_exact (w : Workspace) :
    (∀ path? root,
      ((∃ c, (w.loadConfig path? root).result = .ok c) ∨
          (∃ e, (w.loadConfig path? root).result = .error (.config e)) ↔
        ∀ f, ¬ w.Escapes path? root f) ∧
      ∀ f, w.Escapes path? root f → (w.loadConfig path? root).result = .error f) ∧
    ∀ (r : LintRequest) root?, leadingDirectory? w (r.paths.map Path.ofString) = .ok root? →
      let root := root?.getD w.files.currentDirectory
      (∀ e, (w.loadConfig r.configPath? root).result = .error (.config e) →
        (r.run w).result = .ok ⟨2, "", lines [s!"Config error: {e.message}"]⟩) ∧
      ∀ f, w.Escapes r.configPath? root f → (r.run w).result = .error f := by
  have hload : ∀ path? root f, w.Escapes path? root f →
      (w.loadConfig path? root).result = .error f :=
    fun path? root f hescapes => (Workspace.loadConfig_eq_error hescapes.foreign).2 hescapes
  refine ⟨fun path? root => ⟨⟨?_, ?_⟩, hload path? root⟩, ?_⟩
  · intro h f hescapes
    have herror := hload path? root f hescapes
    rcases h with ⟨c, hc⟩ | ⟨e, he⟩
    · rw [herror] at hc
      cases hc
    · rw [herror, Except.error.injEq] at he
      exact hescapes.foreign e he
  · intro hescapes
    cases hresult : (w.loadConfig path? root).result with
    | ok c => exact .inl ⟨c, rfl⟩
    | error f =>
        by_cases hf : f.Foreign
        · exact absurd ((Workspace.loadConfig_eq_error hf).1 hresult) (hescapes f)
        · obtain ⟨e, rfl⟩ := Failure.eq_config_of_not_foreign hf
          exact .inr ⟨e, rfl⟩
  · intro r root? hroot root
    refine ⟨fun e he => ?_, fun f hescapes => ?_⟩
    · exact result_run_of_config ((result_settings hroot).trans he)
    · have herror := hload r.configPath? root f hescapes
      exact result_run_of_foreign hescapes.foreign ((result_settings hroot).trans herror)

/-- A directory with one settings file, and what a reader makes of it. -/
def configured (name : String) (source : Source) (settings : Except SettingsFault Config.Settings) :
    Workspace where
  files := ⟨.directory [(name, .file (.ok source))], []⟩
  grammar := ⟨fun _ source => .mk ⟨"program", true, false, false, 0, source.size, none⟩ []⟩
  settings := fun _ => settings

/-- A settings file with a syntax error. -/
def malformed : Workspace :=
  configured "workerlint.toml" (.ofString "=")
    (.error (.malformed "Invalid statement (at line 1, column 1)"))

/-- A settings file that is not UTF-8. -/
def undecodable : Workspace :=
  configured "workerlint.toml" ⟨[0xFF]⟩ (.error .undecodable)

/-- A project file in which the settings of all tools are a number. -/
def toolNumber : Workspace :=
  configured "pyproject.toml" (.ofString "tool = 1") (.ok [("tool", .integer 1)])

/-- A syntax error is reported with status 2, and a number in place of the tools ends the
request. -/
theorem run_badSettings :
    (LintRequest.run {} malformed).result =
        .ok ⟨2, "", "Config error: /workerlint.toml: invalid TOML: " ++
          "Invalid statement (at line 1, column 1)\n"⟩ ∧
      (LintRequest.run {} toolNumber).result = .error .notSearchable := by
  have hmalformed : (malformed.loadConfig none ⟨.root, []⟩).result =
      .error (.config
        ⟨"/workerlint.toml", .malformed "Invalid statement (at line 1, column 1)"⟩) := by
    decide +kernel
  have hescapes : toolNumber.Escapes none ⟨.root, []⟩ .notSearchable := by
    have hreaches : toolNumber.Reaches ⟨.root, []⟩ ⟨.root, []⟩ := ⟨[], [], rfl, by simp⟩
    have hread : toolNumber.readSettings (Path.child ⟨.root, []⟩ Workspace.projectName) =
        .ok [("tool", .integer 1)] := rfl
    exact .searching rfl hreaches (.notSearchable (by decide +kernel) hread id)
  exact ⟨((LintRequest.badSettings_exact malformed).2 {} none rfl).1 _ hmalformed,
    ((LintRequest.badSettings_exact toolNumber).2 {} none rfl).2 _ hescapes⟩

/-- A file that is not UTF-8 ends the request without an outcome. -/
theorem run_undecodable :
    (undecodable.loadConfig none ⟨.root, []⟩).result = .error .undecodable ∧
      ∀ o, (LintRequest.run {} undecodable).result ≠ .ok o := by
  have hrun : (LintRequest.run {} undecodable).result = .error .undecodable := by
    decide +kernel
  refine ⟨by decide +kernel, fun o ho => ?_⟩
  rw [hrun] at ho
  cases ho

end CommandLine

end ScriptLint
