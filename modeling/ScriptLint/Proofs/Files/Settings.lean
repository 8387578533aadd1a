import ScriptLint.Proofs.Files.Lookup
import ScriptLint.Proofs.Log
import ScriptLint.Workspace

/-!
# Which settings are loaded

A search for settings goes upwards.  Each directory either is passed by, because no
settings are in it, or holds a settings file, or stops the search with a failure.  The
search comes to a directory if it passes by all directories below
(`Workspace.Reaches`), and its result is that of the first directory that is not passed by
(`Workspace.firstConfig?_eq`).

Most failures say which settings file is bad and what is wrong with it.  Some do not, and
`Workspace.loadConfig_eq_error` tells when they come up: a path in the search is too
long, a file is not UTF-8, or the settings of all tools have an unexpected shape.
-/

namespace ScriptLint

/-- A failure that does not tell about a settings file. -/
def Failure.Foreign (f : Failure) : Prop :=
  ∀ e, f ≠ .config e

theorem Failure.eq_config_of_not_foreign {f : Failure} (h : ¬ f.Foreign) : ∃ e, f = .config e := by
  simpa [Foreign] using h

namespace FileSystem

variable {fs : FileSystem} {p : Path}

theorem isFile_eq_error {fault : FileFault} : fs.isFile p = .error fault ↔
    fs.find p = .error .nameTooLong ∧ fault = .nameTooLong := by
  unfold isFile entry?
  cases fs.find p with
  | ok e => simp [Bind.bind, Except.bind, Pure.pure, Except.pure]
  | error found =>
      cases found <;> simp [Bind.bind, Except.bind, Pure.pure, Except.pure, eq_comm]

theorem isFile_eq_true :
    fs.isFile p = .ok true ↔ ∃ content, fs.find p = .ok (.file content) := by
  unfold isFile entry?
  cases fs.find p with
  | ok e => cases e <;> simp [Bind.bind, Except.bind, Pure.pure, Except.pure, Entry.isFile]
  | error fault => cases fault <;> simp [Bind.bind, Except.bind, Pure.pure, Except.pure]

/-- What can be read is a file. -/
theorem isFile_of_read {source : Source} (h : fs.read p = .ok source) : fs.isFile p = .ok true := by
  obtain ⟨e, hfind, hcontent⟩ := exists_of_bind_eq_ok h
  cases e with
  | file content => exact isFile_eq_true.2 ⟨content, hfind⟩
  | directory entries => cases hcontent

end FileSystem

namespace Workspace

variable {w : Workspace} {path p d root : Path} {path? : Option Path} {f : Failure}

/-! ## Reading a settings file -/

/-- There is a file that can be read but is not UTF-8. -/
def Undecodable (w : Workspace) (path : Path) : Prop :=
  ∃ source, w.files.read path = .ok source ∧ w.settings source = .error .undecodable

theorem isFile_of_undecodable (h : w.Undecodable path) : w.files.isFile path = .ok true := by
  obtain ⟨source, hread, -⟩ := h
  exact FileSystem.isFile_of_read hread

theorem readSettings_of_undecodable (h : w.Undecodable path) :
    w.readSettings path = .error .undecodable := by
  obtain ⟨source, hread, hsettings⟩ := h
  unfold readSettings
  rw [hread]
  simp only [hsettings]

theorem readSettings_eq_error (hf : f.Foreign) :
    w.readSettings path = .error f ↔ f = .undecodable ∧ w.Undecodable path := by
  constructor
  · intro h
    unfold readSettings at h
    split at h
    next =>
      cases h
      exact absurd rfl (hf _)
    next source hread =>
      split at h
      next => cases h
      next =>
        cases h
        exact absurd rfl (hf _)
      next hsettings =>
        cases h
        exact ⟨rfl, source, hread, hsettings⟩
  · rintro ⟨rfl, h⟩
    exact readSettings_of_undecodable h

/-- What settings are read from is a file. -/
theorem isFile_of_readSettings {settings : Config.Settings}
    (h : w.readSettings path = .ok settings) : w.files.isFile path = .ok true := by
  unfold readSettings at h
  split at h
  next => cases h
  next source hread => exact FileSystem.isFile_of_read hread

/-! ## One directory -/

/-- Values that something can be looked up in: tables, texts and lists. -/
def Searchable : Json → Prop
  | .object _ | .string _ | .array _ => True
  | _ => False

theorem mentionsTool_eq_error {tool : Json} :
    mentionsTool tool = .error f ↔ ¬ Searchable tool ∧ f = .notSearchable := by
  cases tool <;> simp [mentionsTool, Searchable, eq_comm]

/-- A directory without settings: nothing is in a file of their own, and the project file
does not mention them. -/
structure Passes (w : Workspace) (d : Path) : Prop where
  own : w.files.isFile (d.child configName) = .ok false
  project : w.files.isFile (d.child projectName) = .ok false ∨
    ∃ settings, w.readSettings (d.child projectName) = .ok settings ∧
      mentionsTool (tableAt settings "tool") = .ok false

/-- A directory holds a settings file. -/
inductive Holds (w : Workspace) (d : Path) : Path → Prop where
  | own : w.files.isFile (d.child configName) = .ok true → Holds w d (d.child configName)
  | project {settings : Config.Settings} : w.files.isFile (d.child configName) = .ok false →
      w.readSettings (d.child projectName) = .ok settings →
      mentionsTool (tableAt settings "tool") = .ok true → Holds w d (d.child projectName)

/-- A directory stops a search with a failure that does not tell about a settings file.

Here every directory may be searched, and these are all cases.  Where permissions count, a
directory that may not be searched stops a search, too. -/
inductive Stops (w : Workspace) (d : Path) : Failure → Prop where
  | own : w.files.find (d.child configName) = .error .nameTooLong →
      Stops w d (.file .nameTooLong (d.child configName).toString)
  | project : w.files.isFile (d.child configName) = .ok false →
      w.files.find (d.child projectName) = .error .nameTooLong →
      Stops w d (.file .nameTooLong (d.child projectName).toString)
  | undecodable : w.files.isFile (d.child configName) = .ok false →
      w.Undecodable (d.child projectName) → Stops w d .undecodable
  | notSearchable {settings : Config.Settings} :
      w.files.isFile (d.child configName) = .ok false →
      w.readSettings (d.child projectName) = .ok settings →
      ¬ Searchable (tableAt settings "tool") → Stops w d .notSearchable

/-- What comes of searching a directory, by what is there. -/
theorem configIn?_eq (w : Workspace) (d : Path) : w.configIn? d =
    match w.files.isFile (d.child configName) with
    | .error fault => .error (.file fault (d.child configName).toString)
    | .ok true => .ok (some (d.child configName))
    | .ok false =>
        match w.files.isFile (d.child projectName) with
        | .error fault => .error (.file fault (d.child projectName).toString)
        | .ok false => .ok none
        | .ok true =>
            match w.readSettings (d.child projectName) with
            | .error f => .error f
            | .ok settings =>
                match mentionsTool (tableAt settings "tool") with
                | .error f => .error f
                | .ok true => .ok (some (d.child projectName))
                | .ok false => .ok none := by
  simp only [configIn?, isFile, Bind.bind, Except.bind]
  cases w.files.isFile (d.child configName) with
  | error fault => rfl
  | ok own =>
      cases own with
      | true => rfl
      | false =>
          cases w.files.isFile (d.child projectName) with
          | error fault => rfl
          | ok project =>
              cases project with
              | false => rfl
              | true =>
                  simp only [Except.mapError]
                  cases w.readSettings (d.child projectName) with
                  | error f => rfl
                  | ok settings =>
                      simp only
                      cases mentionsTool (tableAt settings "tool") with
                      | error f => rfl
                      | ok mentions => cases mentions <;> rfl

theorem configIn?_of_passes (h : w.Passes d) : w.configIn? d = .ok none := by
  obtain ⟨hown, hproject | ⟨settings, hread, hmentions⟩⟩ := h
  · simp only [configIn?_eq, hown, hproject]
  · simp only [configIn?_eq, hown, isFile_of_readSettings hread, hread, hmentions]

theorem configIn?_of_holds (h : w.Holds d path) : w.configIn? d = .ok (some path) := by
  cases h with
  | own hown => simp only [configIn?_eq, hown]
  | project hown hread hmentions =>
      simp only [configIn?_eq, hown, isFile_of_readSettings hread, hread, hmentions]

theorem configIn?_of_stops (h : w.Stops d f) : w.configIn? d = .error f := by
  cases h with
  | own hfind => simp only [configIn?_eq, FileSystem.isFile_eq_error.2 ⟨hfind, rfl⟩]
  | project hown hfind => simp only [configIn?_eq, hown, FileSystem.isFile_eq_error.2 ⟨hfind, rfl⟩]
  | undecodable hown hundecodable =>
      simp only [configIn?_eq, hown, isFile_of_undecodable hundecodable,
        readSettings_of_undecodable hundecodable]
  | notSearchable hown hread hsearch =>
      simp only [configIn?_eq, hown, isFile_of_readSettings hread, hread,
        mentionsTool_eq_error.2 ⟨hsearch, rfl⟩]

/-- There is nothing else that a directory can do to a search. -/
theorem directory_cases (w : Workspace) (d : Path) :
    w.Passes d ∨ (∃ path, w.Holds d path) ∨ (∃ f, w.Stops d f) ∨
      ∃ e, w.configIn? d = .error (.config e) := by
  cases hown : w.files.isFile (d.child configName) with
  | error fault => exact .inr (.inr (.inl ⟨_, .own (FileSystem.isFile_eq_error.1 hown).1⟩))
  | ok own =>
      cases own with
      | true => exact .inr (.inl ⟨_, .own hown⟩)
      | false =>
          cases hproject : w.files.isFile (d.child projectName) with
          | error fault =>
              exact .inr (.inr (.inl ⟨_, .project hown (FileSystem.isFile_eq_error.1 hproject).1⟩))
          | ok project =>
              cases project with
              | false => exact .inl ⟨hown, .inl hproject⟩
              | true =>
                  cases hread : w.readSettings (d.child projectName) with
                  | error f =>
                      by_cases hf : f.Foreign
                      · obtain ⟨rfl, hundecodable⟩ := (readSettings_eq_error hf).1 hread
                        exact .inr (.inr (.inl ⟨_, .undecodable hown hundecodable⟩))
                      · obtain ⟨e, rfl⟩ := Failure.eq_config_of_not_foreign hf
                        have herror : w.configIn? d = .error (.config e) := by
                          simp only [configIn?_eq, hown, hproject, hread]
                        exact .inr (.inr (.inr ⟨e, herror⟩))
                  | ok settings =>
                      cases hmentions : mentionsTool (tableAt settings "tool") with
                      | error f =>
                          have hsearch := (mentionsTool_eq_error.1 hmentions).1
                          exact .inr (.inr (.inl ⟨_, .notSearchable hown hread hsearch⟩))
                      | ok mentions =>
                          cases mentions with
                          | true => exact .inr (.inl ⟨_, .project hown hread hmentions⟩)
                          | false => exact .inl ⟨hown, .inr ⟨settings, hread, hmentions⟩⟩

theorem configIn?_eq_none : w.configIn? d = .ok none ↔ w.Passes d := by
  refine ⟨fun h => ?_, configIn?_of_passes⟩
  rcases w.directory_cases d with hpasses | ⟨path, hholds⟩ | ⟨f, hstops⟩ | ⟨e, herror⟩
  · exact hpasses
  · simp [configIn?_of_holds hholds] at h
  · simp [configIn?_of_stops hstops] at h
  · simp [herror] at h

theorem configIn?_eq_some : w.configIn? d = .ok (some path) ↔ w.Holds d path := by
  refine ⟨fun h => ?_, configIn?_of_holds⟩
  rcases w.directory_cases d with hpasses | ⟨path', hholds⟩ | ⟨f, hstops⟩ | ⟨e, herror⟩
  · simp [configIn?_of_passes hpasses] at h
  · rw [configIn?_of_holds hholds, Except.ok.injEq, Option.some.injEq] at h
    exact h ▸ hholds
  · simp [configIn?_of_stops hstops] at h
  · simp [herror] at h

theorem configIn?_eq_error (hf : f.Foreign) : w.configIn? d = .error f ↔ w.Stops d f := by
  refine ⟨fun h => ?_, configIn?_of_stops⟩
  rcases w.directory_cases d with hpasses | ⟨path, hholds⟩ | ⟨f', hstops⟩ | ⟨e, herror⟩
  · simp [configIn?_of_passes hpasses] at h
  · simp [configIn?_of_holds hholds] at h
  · rw [configIn?_of_stops hstops, Except.error.injEq] at h
    exact h ▸ hstops
  · rw [herror, Except.error.injEq] at h
    exact absurd h.symm (hf e)

/-! ## The way up -/

theorem firstConfig?_of_passes (h : w.Passes d) (above : List Path) :
    w.firstConfig? (d :: above) = w.firstConfig? above := by
  rw [firstConfig?, configIn?_eq_none.2 h]
  rfl

theorem firstConfig?_of_not_passes (h : ¬ w.Passes d) (above : List Path) :
    w.firstConfig? (d :: above) = w.configIn? d := by
  rw [firstConfig?]
  cases hd : w.configIn? d with
  | error f => rfl
  | ok path? =>
      cases path? with
      | none => exact absurd (configIn?_eq_none.1 hd) h
      | some path => rfl

/-- A search ends at the first directory that it does not pass by. -/
theorem firstConfig?_eq {r : Except Failure (Option Path)} (hr : r ≠ .ok none)
    {directories : List Path} : w.firstConfig? directories = r ↔
      ∃ below d above, directories = below ++ d :: above ∧ (∀ b ∈ below, w.Passes b) ∧
        w.configIn? d = r := by
  induction directories with
  | nil => simpa [firstConfig?] using Ne.symm hr
  | cons first rest ih =>
      by_cases hfirst : w.Passes first
      · rw [firstConfig?_of_passes hfirst, ih]
        constructor
        · rintro ⟨below, d, above, rfl, hbelow, hd⟩
          exact ⟨first :: below, d, above, rfl, List.forall_mem_cons.2 ⟨hfirst, hbelow⟩, hd⟩
        · rintro ⟨below, d, above, hsplit, hbelow, hd⟩
          cases below with
          | nil =>
              cases hsplit
              exact absurd (hd.symm.trans (configIn?_eq_none.2 hfirst)) hr
          | cons b below =>
              cases hsplit
              exact ⟨below, d, above, rfl, (List.forall_mem_cons.1 hbelow).2, hd⟩
      · rw [firstConfig?_of_not_passes hfirst]
        constructor
        · intro h
          exact ⟨[], first, rest, rfl, by simp, h⟩
        · rintro ⟨below, d, above, hsplit, hbelow, hd⟩
          cases below with
          | nil =>
              cases hsplit
              exact hd
          | cons b below =>
              cases hsplit
              exact absurd (List.forall_mem_cons.1 hbelow).1 hfirst

/-- A search from one directory comes to another: it passes by all that are below. -/
def Reaches (w : Workspace) (root d : Path) : Prop :=
  ∃ below above, FileSystem.ancestry (w.files.resolve root) = below ++ d :: above ∧
    ∀ b ∈ below, w.Passes b

theorem findConfig?_eq {r : Except Failure (Option Path)} (hr : r ≠ .ok none) :
    w.findConfig? root = r ↔ ∃ d, w.Reaches root d ∧ w.configIn? d = r := by
  rw [findConfig?, firstConfig?_eq hr]
  constructor
  · rintro ⟨below, d, above, hsplit, hbelow, hd⟩
    exact ⟨d, ⟨below, above, hsplit, hbelow⟩, hd⟩
  · rintro ⟨d, ⟨below, above, hsplit, hbelow⟩, hd⟩
    exact ⟨below, d, above, hsplit, hbelow, hd⟩

/-! ## Loading -/

/-- The settings file to load: the one that is given, or else the nearest one. -/
inductive Loads (w : Workspace) (root : Path) : Option Path → Path → Prop where
  | given (path : Path) : Loads w root (some path) path
  | found {d path : Path} : w.Reaches root d → w.Holds d path → Loads w root none path

theorem chosenConfig?_eq_some :
    w.chosenConfig? path? root = .ok (some path) ↔ w.Loads root path? path := by
  cases path? with
  | some given =>
      constructor
      · intro h
        cases h
        exact .given path
      · rintro ⟨⟩
        rfl
  | none =>
      rw [chosenConfig?, findConfig?_eq (by simp)]
      simp only [configIn?_eq_some]
      constructor
      · rintro ⟨d, hreaches, hholds⟩
        exact .found hreaches hholds
      · rintro ⟨⟩
        next d hreaches hholds => exact ⟨d, hreaches, hholds⟩

theorem chosenConfig?_eq_error (hf : f.Foreign) : w.chosenConfig? path? root = .error f ↔
    path? = none ∧ ∃ d, w.Reaches root d ∧ w.Stops d f := by
  cases path? with
  | some given => simp [chosenConfig?]
  | none =>
      rw [chosenConfig?, findConfig?_eq (by simp)]
      simp only [configIn?_eq_error hf, true_and]

/-- The settings of all tools, in a file for many of them, are a table. -/
def ToolsTable (settings : Config.Settings) : Prop :=
  ∃ tools, tableAt settings "tool" = .object tools

/-- A file cannot be loaded, and the failure does not tell about it. -/
inductive Unloadable (w : Workspace) (path : Path) : Failure → Prop where
  | undecodable : w.Undecodable path → Unloadable w path .undecodable
  | notATable {settings : Config.Settings} : path.name = projectName →
      w.readSettings path = .ok settings → ¬ ToolsTable settings → Unloadable w path .notATable

theorem settingsAt_eq_error (hf : f.Foreign) :
    w.settingsAt path = .error f ↔ w.Unloadable path f := by
  rw [settingsAt, bind_eq_error_iff, readSettings_eq_error hf]
  constructor
  · rintro (⟨rfl, hundecodable⟩ | ⟨settings, hread, h⟩)
    · exact .undecodable hundecodable
    · split at h
      next hname =>
        split at h
        next =>
          split at h
          next => cases h
          next =>
            cases h
            exact absurd rfl (hf _)
        next hshape =>
          cases h
          exact .notATable hname hread fun ⟨tools, htools⟩ => hshape tools htools
      next => cases h
  · rintro (hundecodable | ⟨hname, hread, hshape⟩)
    · exact .inl ⟨rfl, hundecodable⟩
    · refine .inr ⟨_, hread, ?_⟩
      rw [if_pos hname]
      split
      next tools htools => exact absurd ⟨tools, htools⟩ hshape
      next => rfl

theorem result_loadConfig : (w.loadConfig path? root).result =
    w.chosenConfig? path? root >>= fun
      | none => .ok { root := root }
      | some path => w.settingsAt path >>= fun settings =>
          (Config.apply { root := root } settings path).mapError (configFailure path) := by
  rw [loadConfig, Activity.result_bind, Activity.result_ofExcept]
  refine congrArg _ (funext fun chosen? => ?_)
  cases chosen? with
  | none => rfl
  | some path =>
      rw [Activity.result_bind, Activity.result_ofExcept]
      rfl

/-- A failure that loading settings ends with, without telling which settings file is bad.
It comes from the search, if no file is given, or from the file to load.  As in `Stops`, these are
all cases where every directory may be searched. -/
inductive Escapes (w : Workspace) (path? : Option Path) (root : Path) : Failure → Prop where
  | searching {d : Path} {f : Failure} : path? = none → w.Reaches root d → w.Stops d f →
      Escapes w path? root f
  | loading {path : Path} {f : Failure} : w.Loads root path? path → w.Unloadable path f →
      Escapes w path? root f

/-- **Failures that escape.**  Loading settings ends with a failure that does not tell about
a settings file in these cases, and in no other. -/
theorem loadConfig_eq_error (hf : f.Foreign) :
    (w.loadConfig path? root).result = .error f ↔ w.Escapes path? root f := by
  rw [result_loadConfig, bind_eq_error_iff, chosenConfig?_eq_error hf]
  constructor
  · rintro (⟨hnone, d, hreaches, hstops⟩ | ⟨chosen?, hchosen, h⟩)
    · exact .searching hnone hreaches hstops
    · cases chosen? with
      | none => cases h
      | some path =>
          rcases bind_eq_error_iff.1 h with h | ⟨settings, -, h⟩
          · exact .loading (chosenConfig?_eq_some.1 hchosen) ((settingsAt_eq_error hf).1 h)
          · cases happly : Config.apply { root := root } settings path with
            | error fault =>
                rw [happly] at h
                cases h
                exact absurd rfl (hf _)
            | ok c =>
                rw [happly] at h
                cases h
  · rintro (⟨hnone, hreaches, hstops⟩ | ⟨hloads, hunloadable⟩)
    · exact .inl ⟨hnone, _, hreaches, hstops⟩
    · exact .inr ⟨_, chosenConfig?_eq_some.2 hloads,
        bind_eq_error_iff.2 (.inl ((settingsAt_eq_error hf).2 hunloadable))⟩

end Workspace

end ScriptLint
