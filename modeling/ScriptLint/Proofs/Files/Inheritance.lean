import ScriptLint.Proofs.Files.Settings
import ScriptLint.Proofs.Files.Trails

/-!
# Settings are inherited downwards

A directory without settings has those of the directory above it.  So if nothing between a
directory and another one further up holds settings, both load the same, apart from the root
that is noted in them (`Workspace.loadConfig_descend_exact`).  There is one limit: the search
starts by asking for a settings file in the directory itself, and it fails if the path of that
file is too long.

What is loaded depends on few files.  A search consults those of two names in the directories
that it comes to, and these are the directory and those above it, up to the first one that holds
settings.  Another workspace with the same directory and the same files there loads the same
(`Workspace.loadConfig_congr`).
-/

namespace ScriptLint

/-- The root that is noted in the settings has no part in what a settings file does to them. -/
theorem Config.apply_root (c : Config) (root : Path) (settings : Config.Settings) (path : Path) :
    ({ c with root := root } : Config).apply settings path =
      (c.apply settings path).map fun c => { c with root := root } := by
  have hmap : ∀ r : Except ConfigFault Config,
      (r.map fun c => { c with root := root }) = (fun c => { c with root := root }) <$> r :=
    fun _ => rfl
  simp only [hmap, apply, map_bind, map_pure]

namespace Workspace

open FileSystem

variable {w w' : Workspace} {d path start : Path} {name : String}
  {entries entries' : List (String × Entry)}

/-! ## Directories without settings -/

/-- A directory without settings: it has no file for them, and its project file, if it has one,
is read as a table in which the tools, if any, are a table without this one. -/
structure Quiet (w : Workspace) (entries : List (String × Entry)) : Prop where
  /-- There is no file of their own. -/
  own : ∀ content, entries.lookup configName ≠ some (.file content)
  /-- The project file is in order and does not mention them. -/
  project : ∀ content, entries.lookup projectName = some (.file content) →
    ∃ source settings tools, content = .ok source ∧ w.settings source = .ok settings ∧
      tableAt settings "tool" = .object tools ∧ tools.lookup toolKey = none

theorem quiet_of_lookup (hown : entries.lookup configName = none)
    (hproject : entries.lookup projectName = none) : w.Quiet entries := by
  constructor
  · intro content h
    rw [hown] at h
    cases h
  · intro content h
    rw [hproject] at h
    cases h

/-- What a settings file can be called. -/
theorem configName_valid : configName ≠ ".." ∧ configName.utf8ByteSize ≤ maxName := by decide

theorem projectName_valid : projectName ≠ ".." ∧ projectName.utf8ByteSize ≤ maxName := by decide

theorem any_isFile {found : Option Entry} :
    found.any Entry.isFile = true ↔ ∃ content, found = some (.file content) := by
  cases found with
  | none => simp
  | some e => cases e <;> simp [Entry.isFile]

/-- A search passes by such a directory, if it can ask for the file. -/
theorem Quiet.passes (h : w.Quiet entries) (hd : w.files.Lists d entries)
    (hlong : tooLong (d.child configName) = false) : w.Passes d := by
  have hproject : tooLong (d.child projectName) = false :=
    tooLong_child_of_prefix hd.1 (mem_ancestry.2 ⟨hd.1, List.prefix_rfl⟩) (by decide) hlong
  constructor
  · rw [hd.isFile_child configName_valid.1 configName_valid.2, hlong]
    refine congrArg Except.ok (Bool.eq_false_iff.2 fun hfile => ?_)
    obtain ⟨content, hcontent⟩ := any_isFile.1 hfile
    exact h.own content hcontent
  · rw [hd.isFile_child projectName_valid.1 projectName_valid.2, hproject]
    cases hfile : (entries.lookup projectName).any Entry.isFile with
    | false => exact .inl rfl
    | true =>
        obtain ⟨content, hcontent⟩ := any_isFile.1 hfile
        obtain ⟨source, settings, tools, rfl, hsettings, htools, hkey⟩ := h.project content hcontent
        have hfind := (hd.find_child_eq_file projectName_valid.1 projectName_valid.2 hproject).2
          hcontent
        refine .inr ⟨settings, ?_, ?_⟩
        · simp only [readSettings, FileSystem.read, hfind, Bind.bind, Except.bind, hsettings]
        · rw [htools, mentionsTool, hkey]
          rfl

/-! ## The way up from further down -/

theorem firstConfig?_append {between : List Path} (h : ∀ b ∈ between, w.Passes b)
    (above : List Path) : w.firstConfig? (between ++ above) = w.firstConfig? above := by
  induction between with
  | nil => rfl
  | cons b between ih =>
      obtain ⟨hb, hbetween⟩ := List.forall_mem_cons.1 h
      rw [List.cons_append, firstConfig?_of_passes hb, ih hbetween]

/-- What is found decides what is loaded. -/
theorem result_loadConfig_root {root root' : Path}
    (h : w.findConfig? root = w.findConfig? root') :
    (w.loadConfig none root).result =
      (w.loadConfig none root').result.map fun c => { c with root := root } := by
  rw [result_loadConfig, result_loadConfig, chosenConfig?, chosenConfig?, h]
  cases w.findConfig? root' with
  | error f => rfl
  | ok path? =>
      cases path? with
      | none => rfl
      | some path =>
          simp only [Bind.bind, Except.bind]
          cases w.settingsAt path with
          | error f => rfl
          | ok settings =>
              have hroot := Config.apply_root { root := root' } root settings path
              simp only [hroot]
              cases ({ root := root' } : Config).apply settings path <;> rfl

/-! ## What a search depends on -/

/-- A search from a directory asks for this path. -/
def Consults (w : Workspace) (start path : Path) : Prop :=
  ∃ d, w.Reaches start d ∧ (path = d.child configName ∨ path = d.child projectName)

/-- Two workspaces have the same file at a path, or both none. -/
def SameFile (w w' : Workspace) (path : Path) : Prop :=
  ∀ content, w'.files.find path = .ok (.file content) ↔ w.files.find path = .ok (.file content)

theorem isFile_congr (hd : w.files.Lists d entries) (hd' : w'.files.Lists d entries')
    (hname : name ≠ ".." ∧ name.utf8ByteSize ≤ maxName) (hsame : SameFile w w' (d.child name)) :
    w'.files.isFile (d.child name) = w.files.isFile (d.child name) := by
  rw [hd.isFile_child hname.1 hname.2, hd'.isFile_child hname.1 hname.2]
  cases hlong : tooLong (d.child name) with
  | true => rfl
  | false =>
      have hfile : ∀ content, entries'.lookup name = some (.file content) ↔
          entries.lookup name = some (.file content) := by
        intro content
        rw [← hd'.find_child_eq_file hname.1 hname.2 hlong, hsame content,
          hd.find_child_eq_file hname.1 hname.2 hlong]
      refine congrArg Except.ok (Bool.eq_iff_iff.2 ?_)
      rw [any_isFile, any_isFile]
      exact exists_congr hfile

theorem readSettings_congr (hsettings : w'.settings = w.settings) (hsame : SameFile w w' path)
    (hfile : w.files.isFile path = .ok true) : w'.readSettings path = w.readSettings path := by
  obtain ⟨content, hfind⟩ := isFile_eq_true.1 hfile
  have hfind' := (hsame content).2 hfind
  rw [readSettings, readSettings, FileSystem.read, FileSystem.read, hfind, hfind', hsettings]

theorem configIn?_congr (hsettings : w'.settings = w.settings) (hd : w.files.Lists d entries)
    (hd' : w'.files.Lists d entries') (hown : SameFile w w' (d.child configName))
    (hproject : SameFile w w' (d.child projectName)) : w'.configIn? d = w.configIn? d := by
  rw [configIn?_eq, configIn?_eq, isFile_congr hd hd' configName_valid hown,
    isFile_congr hd hd' projectName_valid hproject]
  cases w.files.isFile (d.child configName) with
  | error fault => rfl
  | ok own =>
      cases own with
      | true => rfl
      | false =>
          cases hfile : w.files.isFile (d.child projectName) with
          | error fault => rfl
          | ok project =>
              cases project with
              | false => rfl
              | true => rw [readSettings_congr hsettings hproject hfile]

theorem firstConfig?_congr {directories : List Path}
    (h : ∀ below d above, directories = below ++ d :: above → (∀ b ∈ below, w.Passes b) →
      w'.configIn? d = w.configIn? d) :
    w'.firstConfig? directories = w.firstConfig? directories := by
  induction directories with
  | nil => rfl
  | cons d above ih =>
      rw [firstConfig?, firstConfig?, h [] d above rfl (by simp)]
      cases hd : w.configIn? d with
      | error f => rfl
      | ok path? =>
          cases path? with
          | some path => rfl
          | none =>
              have hpasses := configIn?_eq_none.1 hd
              refine ih fun below d' above' hsplit hbelow => ?_
              exact h (d :: below) d' above' (by rw [hsplit]; rfl)
                (List.forall_mem_cons.2 ⟨hpasses, hbelow⟩)

theorem Holds.isFile (h : w.Holds d path) : w.files.isFile path = .ok true := by
  cases h with
  | own hown => exact hown
  | project _ hread _ => exact isFile_of_readSettings hread

theorem Holds.consulted (h : w.Holds d path) (hreaches : w.Reaches start d) :
    w.Consults start path := by
  cases h with
  | own _ => exact ⟨d, hreaches, .inl rfl⟩
  | project _ _ _ => exact ⟨d, hreaches, .inr rfl⟩

theorem Reaches.mem_ancestry (h : w.Reaches start d) : d ∈ ancestry (w.files.resolve start) := by
  obtain ⟨below, above, hway, -⟩ := h
  rw [hway]
  exact List.mem_append_right _ List.mem_cons_self

/-- A search comes to no directory above one that holds settings. -/
theorem Reaches.prefix_of_holds {b : Path} (h : w.Reaches start d)
    (hb : b ∈ ancestry (w.files.resolve start)) (hholds : w.Holds b path) :
    b.names <+: d.names := by
  obtain ⟨below, above, hway, hbelow⟩ := h
  have hordered := hway ▸ ancestry_pairwise (w.files.resolve start)
  rw [hway, List.mem_append, List.mem_cons] at hb
  rcases hb with hmem | rfl | hmem
  · have hpasses := configIn?_of_passes (hbelow b hmem)
    rw [configIn?_of_holds hholds] at hpasses
    cases hpasses
  · exact List.prefix_rfl
  · exact (List.pairwise_cons.1 (List.pairwise_append.1 hordered).2.1).1 b hmem

theorem findConfig?_congr (hsettings : w'.settings = w.settings)
    (hcurrent : w'.files.current = w.files.current)
    (hstart : w.files.find start = .ok (.directory entries))
    (hstart' : w'.files.find start = .ok (.directory entries'))
    (hsame : ∀ path, w.Consults start path → SameFile w w' path) :
    w'.findConfig? start = w.findConfig? start := by
  have hresolve : w'.files.resolve start = w.files.resolve start := by
    rw [resolve, resolve, absoluteNames, absoluteNames, hcurrent]
  have hlists := lists_resolve hstart
  have hlists' := hresolve ▸ lists_resolve hstart'
  rw [findConfig?, findConfig?, hresolve]
  refine firstConfig?_congr fun below d above hway hbelow => ?_
  have hreaches : w.Reaches start d := ⟨below, above, hway, hbelow⟩
  obtain ⟨found, hfound⟩ := hlists.exists_of_mem_ancestry hreaches.mem_ancestry
  obtain ⟨found', hfound'⟩ := hlists'.exists_of_mem_ancestry hreaches.mem_ancestry
  exact configIn?_congr hsettings hfound hfound' (hsame _ ⟨d, hreaches, .inl rfl⟩)
    (hsame _ ⟨d, hreaches, .inr rfl⟩)

/-- Loading settings depends on the files that the search asks for, and on no other ones. -/
theorem loadConfig_congr (hsettings : w'.settings = w.settings)
    (hcurrent : w'.files.current = w.files.current)
    (hstart : w.files.find start = .ok (.directory entries))
    (hstart' : w'.files.find start = .ok (.directory entries'))
    (hsame : ∀ path, w.Consults start path → SameFile w w' path) :
    w'.loadConfig none start = w.loadConfig none start := by
  have hfind := findConfig?_congr hsettings hcurrent hstart hstart' hsame
  rw [loadConfig, loadConfig, chosenConfig?, chosenConfig?, hfind]
  cases hchosen : w.findConfig? start with
  | error f => rfl
  | ok path? =>
      cases path? with
      | none => rfl
      | some path =>
          obtain ⟨d, hreaches, hd⟩ := (findConfig?_eq (by simp)).1 hchosen
          have hholds := configIn?_eq_some.1 hd
          have hread := readSettings_congr hsettings (hsame path (hholds.consulted hreaches))
            hholds.isFile
          have hat : w'.settingsAt path = w.settingsAt path := by
            rw [settingsAt, settingsAt, hread]
          show (Activity.ofExcept (w'.settingsAt path)).andThen _ = _
          rw [hat]
          rfl

/-! ## The whole -/

/-- A search starts in the directory itself. -/
theorem reaches_resolve (w : Workspace) (start : Path) :
    w.Reaches start (w.files.resolve start) := by
  obtain ⟨above, hway⟩ := exists_ancestry_eq_cons (rfl : (w.files.resolve start).anchor = .root)
  exact ⟨[], above, hway, by simp⟩

/-- Directories without settings make no difference to what is found further up. -/
theorem findConfig?_descend {A D : Path} {names : List String}
    (hD : w.files.find D = .ok (.directory entries))
    (hnames : w.files.resolve D = (w.files.resolve A).descend names)
    (hquiet : ∀ taken entries, taken ≠ [] → taken <+: names →
      w.files.Lists ((w.files.resolve A).descend taken) entries → w.Quiet entries)
    (hlong : tooLong ((w.files.resolve D).child configName) = false) :
    w.findConfig? D = w.findConfig? A := by
  have hlists := lists_resolve hD
  obtain ⟨between, hway, hbetween⟩ := exists_ancestry_eq (w.files.resolve A) names
  rw [← hnames] at hway
  rw [findConfig?, hway]
  refine firstConfig?_append (fun b hb => ?_) _
  have hmem : b ∈ ancestry (w.files.resolve D) := hway ▸ List.mem_append_left _ hb
  obtain ⟨entries', hb'⟩ := hlists.exists_of_mem_ancestry hmem
  obtain ⟨taken, hne, htaken, rfl⟩ := hbetween b hb
  have hshort := tooLong_child_of_prefix rfl hmem (Nat.le_refl _) hlong
  exact (hquiet taken entries' hne htaken hb').passes hb' hshort

theorem result_loadConfig_of_tooLong
    (hlong : tooLong ((w.files.resolve start).child configName) = true) :
    (w.loadConfig none start).result =
      .error (.file .nameTooLong ((w.files.resolve start).child configName).toString) := by
  have hfind : w.files.find ((w.files.resolve start).child configName) = .error .nameTooLong := by
    rw [find, hlong]
    rfl
  exact (loadConfig_eq_error fun e he => by cases he).2
    (.searching rfl (w.reaches_resolve start) (.own hfind))

/-- **Settings are inherited.**  Let a directory `D` be below another one, `A`, and let none of
the directories from `D` up to `A`, which is left out, hold settings.  Then loading settings for
`D` gives those for `A`, but for the root, or fails as for `A`.  If the path of a settings file
in `D` is too long, loading fails because of that.

For either directory, a search comes to none but the directory itself and those above it, and to
none above one that holds settings.  Where another workspace has the same files of the two names
there, it loads the same, whatever else is in it. -/
theorem loadConfig_descend_exact (w : Workspace) {A D : Path} {names : List String}
    {above below : List (String × Entry)} (hA : w.files.find A = .ok (.directory above))
    (hD : w.files.find D = .ok (.directory below))
    (hnames : w.files.resolve D = (w.files.resolve A).descend names)
    (hquiet : ∀ taken entries, taken ≠ [] → taken <+: names →
      w.files.Lists ((w.files.resolve A).descend taken) entries → w.Quiet entries) :
    ((w.loadConfig none D).result =
      if tooLong ((w.files.resolve D).child configName) then
        .error (.file .nameTooLong ((w.files.resolve D).child configName).toString)
      else (w.loadConfig none A).result.map fun c => { c with root := D }) ∧
    ∀ start ∈ [A, D],
      (∀ d, w.Reaches start d → d ∈ ancestry (w.files.resolve start) ∧
        ∀ b ∈ ancestry (w.files.resolve start), ∀ path, w.Holds b path → b.names <+: d.names) ∧
      ∀ w' : Workspace, w'.settings = w.settings → w'.files.current = w.files.current →
        (∃ entries, w'.files.find start = .ok (.directory entries)) →
        (∀ d, w.Reaches start d → ∀ path ∈ [d.child configName, d.child projectName], ∀ content,
          w'.files.find path = .ok (.file content) ↔ w.files.find path = .ok (.file content)) →
        w'.loadConfig none start = w.loadConfig none start := by
  constructor
  · cases hlong : tooLong ((w.files.resolve D).child configName) with
    | true => exact result_loadConfig_of_tooLong hlong
    | false => exact result_loadConfig_root (findConfig?_descend hD hnames hquiet hlong)
  · intro start hstart
    have hdirectory : ∃ entries, w.files.find start = .ok (.directory entries) := by
      rw [List.mem_pair] at hstart
      rcases hstart with rfl | rfl
      · exact ⟨above, hA⟩
      · exact ⟨below, hD⟩
    refine ⟨fun d hd => ⟨hd.mem_ancestry, fun b hb path => hd.prefix_of_holds hb⟩, ?_⟩
    rintro w' hsettings hcurrent ⟨entries', hstart'⟩ hsame
    obtain ⟨entries, hstart⟩ := hdirectory
    refine loadConfig_congr hsettings hcurrent hstart hstart' ?_
    rintro path ⟨d, hd, rfl | rfl⟩
    · exact hsame d hd _ List.mem_cons_self
    · exact hsame d hd _ (List.mem_cons_of_mem _ List.mem_cons_self)

/-- A package with settings in its project file, a directory in it with a project file that has
none, and one more directory below.  The files beside the package are `others`. -/
def layered (others : List (String × Entry)) : Workspace where
  files := ⟨.directory (("pkg", .directory [
    ("pyproject.toml", .file (.ok (.ofString "[tool.workerlint]\njobs = 3\n"))),
    ("src", .directory [
      ("pyproject.toml", .file (.ok (.ofString "[tool.other]\n"))),
      ("lib", .directory [])])]) :: others), []⟩
  grammar := ⟨fun _ source => .mk ⟨"program", true, false, false, 0, source.size, none⟩ []⟩
  settings := read
where
  /-- What the two project files say. -/
  read (source : Source) : Except SettingsFault Config.Settings :=
    if source = .ofString "[tool.workerlint]\njobs = 3\n" then
      .ok [("tool", .object [("workerlint", .object [("jobs", .integer 3)])])]
    else if source = .ofString "[tool.other]\n" then .ok [("tool", .object [("other", .object [])])]
    else .error (.malformed "Invalid statement (at line 1, column 1)")

/-- The directory furthest down. -/
def lib : Path := .ofString "pkg/src/../src/lib"

variable {others : List (String × Entry)}

theorem quiet_layered {taken : List String} (hne : taken ≠ []) (htaken : taken <+: ["src", "lib"])
    (h : (layered others).files.Lists ((Path.mk .root ["pkg"]).descend taken) entries) :
    (layered others).Quiet entries := by
  have hfollow := h.follow
  simp only [List.prefix_cons_iff, List.prefix_nil] at htaken
  rcases htaken with rfl | ⟨rest, rfl, rfl | ⟨rest, rfl, rfl⟩⟩
  · exact absurd rfl hne
  · cases hfollow
    constructor
    · rintro content ⟨⟩
    · rintro content ⟨⟩
      have hread : layered.read (.ofString "[tool.other]\n") =
          .ok [("tool", .object [("other", .object [])])] := by
        rw [layered.read, if_neg (by decide +kernel), if_pos rfl]
      exact ⟨_, _, _, rfl, hread, rfl, rfl⟩
  · cases hfollow
    exact quiet_of_lookup rfl rfl

/-- The directories from the one furthest down up to the package. -/
theorem names_mem_of_prefix {names : List String} (hpkg : ["pkg"] <+: names)
    (h : names <+: ["pkg", "src", "lib"]) :
    names ∈ [["pkg", "src", "lib"], ["pkg", "src"], ["pkg"]] := by
  simp only [List.prefix_cons_iff, List.prefix_nil] at h
  rcases h with rfl | ⟨_, rfl, rfl | ⟨_, rfl, rfl | ⟨_, rfl, rfl⟩⟩⟩
  · exact absurd hpkg (by decide)
  · decide
  · decide
  · decide

/-- What stands beside the package makes no difference to it. -/
theorem find_layered : ∀ d ∈ [["pkg", "src", "lib"], ["pkg", "src"], ["pkg"]],
    ∀ name ∈ [configName, projectName],
      (layered others).files.find (Path.child ⟨.root, d⟩ name) =
        (layered []).files.find (Path.child ⟨.root, d⟩ name) := by
  simp only [List.forall_mem_cons, List.not_mem_nil, false_imp_iff, implies_true, and_true]
  exact ⟨⟨rfl, rfl⟩, ⟨rfl, rfl⟩, ⟨rfl, rfl⟩⟩

/-- The directory furthest down has the settings of the package, whether or not there is a bad
settings file beside it. -/
theorem loadConfig_layered :
    let bad := layered [("workerlint.toml", .file (.ok (.ofString "=")))]
    (bad.loadConfig none lib).result =
        .ok { root := lib, jobs := 3, configPath? := some (.ofString "/pkg/pyproject.toml") } ∧
      (layered []).loadConfig none lib = bad.loadConfig none lib := by
  intro bad
  have hlib : ∀ others, (layered others).files.find lib = .ok (.directory []) := fun _ => rfl
  have hpackage : (bad.loadConfig none (.ofString "pkg")).result =
      .ok { root := .ofString "pkg", jobs := 3,
            configPath? := some (.ofString "/pkg/pyproject.toml") } := by
    decide +kernel
  have hholds : bad.Holds ⟨.root, ["pkg"]⟩ (.ofString "/pkg/pyproject.toml") :=
    configIn?_eq_some.1 (by decide +kernel)
  obtain ⟨hinherits, hshared⟩ := loadConfig_descend_exact bad
    (A := .ofString "pkg") rfl (hlib _) (by decide) fun _ _ => quiet_layered
  refine ⟨?_, ?_⟩
  · rw [hinherits, hpackage]
    decide +kernel
  · obtain ⟨hreached, hframe⟩ := hshared lib (by simp)
    refine hframe (layered []) rfl rfl ⟨_, hlib _⟩ fun d hd path hpath content => ?_
    -- The root, where the bad file is, is above the package and so out of reach.
    obtain ⟨hmem, hbelow⟩ := hreached d hd
    have hpkg := hbelow ⟨.root, ["pkg"]⟩ (mem_ancestry.2 (by decide)) _ hholds
    obtain ⟨hanchor, hprefix⟩ := mem_ancestry.1 hmem
    have hnames := names_mem_of_prefix hpkg hprefix
    obtain ⟨name, hname, rfl⟩ : ∃ name ∈ [configName, projectName], path = d.child name := by
      simpa using hpath
    obtain ⟨anchor, names⟩ := d
    obtain rfl : anchor = .root := hanchor
    have hfind : bad.files.find (Path.child ⟨.root, names⟩ name) =
        (layered []).files.find (Path.child ⟨.root, names⟩ name) :=
      find_layered names hnames name hname
    rw [hfind]

/-- Directories of one name inside one another. -/
def nested (name : String) : Nat → Entry
  | 0 => .directory []
  | n + 1 => .directory [(name, nested name n)]

/-- A name that is nearly as long as names can be. -/
def broadName : String :=
  String.ofList (List.replicate 254 'b')

/-- Nothing but directories of that name. -/
def buried : Workspace :=
  { layered [] with files := ⟨nested broadName 16, []⟩ }

/-- The directory furthest down. -/
def bottom : Path :=
  ⟨.here, List.replicate 16 broadName⟩

theorem follow_nested {name : String} (hup : name ≠ "..") (hshort : name.utf8ByteSize ≤ maxName)
    (n : Nat) {above : List Entry} :
    follow above (nested name n) (List.replicate n name) = .ok (.directory []) := by
  induction n generalizing above with
  | zero => rfl
  | succ n ih =>
      rw [List.replicate_succ, nested, follow.eq_def]
      simp only [if_neg hup, if_neg (Nat.not_lt.2 hshort), List.lookup_cons_self]
      exact ih

/-- What is in such a directory is one, too. -/
theorem exists_nested_of_trail {name : String} {n : Nat} {names : List String}
    {above : List Entry} {e : Entry} (h : Trail (nested name n) names above e) :
    ∃ m, e = nested name m := by
  induction h with
  | start => exact ⟨n, rfl⟩
  | step _ _ _ hlookup ih =>
      obtain ⟨m, hm⟩ := ih
      cases m with
      | zero =>
          cases hm
          cases hlookup
      | succ m =>
          cases hm
          rw [List.lookup_cons] at hlookup
          split at hlookup
          · exact ⟨m, (Option.some.inj hlookup).symm⟩
          · cases hlookup

theorem quiet_buried (h : buried.files.Lists d entries) : buried.Quiet entries := by
  obtain ⟨-, above, htrail⟩ := h
  obtain ⟨m, hm⟩ := exists_nested_of_trail htrail
  cases m with
  | zero =>
      cases hm
      exact quiet_of_lookup rfl rfl
  | succ m =>
      cases hm
      have hown : (configName == broadName) = false := by decide +kernel
      have hproject : (projectName == broadName) = false := by decide +kernel
      exact quiet_of_lookup (by rw [List.lookup_cons, hown]; rfl)
        (by rw [List.lookup_cons, hproject]; rfl)

/-- There is no file anywhere, and the defaults hold at the top.  The directory at the bottom is
found, but its settings are not, since the path of a file in it would be too long. -/
theorem loadConfig_buried :
    buried.files.find (.ofString ".") = .ok (nested broadName 16) ∧
      buried.files.find bottom = .ok (.directory []) ∧
      buried.files.resolve bottom = (buried.files.resolve (.ofString ".")).descend bottom.names ∧
      (∀ d entries, buried.files.Lists d entries → buried.Quiet entries) ∧
      (buried.loadConfig none (.ofString ".")).result = .ok { root := .ofString "." } ∧
      ∃ text, (buried.loadConfig none bottom).result = .error (.file .nameTooLong text) := by
  have hup : broadName ≠ ".." := by decide +kernel
  have hshort : broadName.utf8ByteSize ≤ maxName := by decide +kernel
  refine ⟨rfl, find_eq_ok.2 ⟨by decide +kernel, follow_nested hup hshort 16⟩, by decide +kernel,
    fun d entries h => quiet_buried h, by decide +kernel, _,
    result_loadConfig_of_tooLong (by decide +kernel)⟩

end Workspace

end ScriptLint
