import Mathlib.Data.List.Nodup
import Mathlib.Data.String.Basic
import ScriptLint.Proofs.Files.Results

/-!
# What a directory stands for

The files of a walk stand in the order of their paths, compared name by name
(`Entry.WellFormed.files_pairwise`).  So the files below one directory stand together,
and in the same order as in a walk of that directory alone (`Entry.exists_files_eq`).

Which files below a directory are left out depends on the names from that directory on.
So expanding a directory further down, with no name on the way that is left out, gives a
block of what expanding the whole gives (`Workspace.expand_directory_exact`).  Whether a
directory is refused depends on all that is below it.  A part can be expanded even where
the whole is refused.

A file below a directory is taken if its suffix is among the extensions as it stands.  A
file that is named itself is taken if its suffix has a dialect, in either letter case.
`Workspace.expand_file_exact` tells when the two ways agree.
-/

namespace ScriptLint

namespace Entry

/-! ## The order of a walk -/

theorem filesAmong_eq_map : ∀ entries : List (String × Entry),
    filesAmong entries = entries.map fun p => (p.1, p.2.files)
  | [] => rfl
  | (name, e) :: entries => by rw [filesAmong, filesAmong_eq_map entries, List.map_cons]

theorem map_fst_filesAmong (entries : List (String × Entry)) :
    (filesAmong entries).map (·.1) = entries.map (·.1) := by
  rw [filesAmong_eq_map, List.map_map]
  rfl

/-- Parts that are in order, under names that differ, are in order together. -/
theorem inOrder_pairwise {parts : List (String × List (List String))}
    (hnames : (parts.map (·.1)).Nodup) (hparts : ∀ part ∈ parts, part.2.Pairwise (· < ·)) :
    (inOrder parts).Pairwise (· < ·) := by
  have hperm := List.mergeSort_perm parts fun a b => decide (a.1 ≤ b.1)
  have hsorted : (parts.mergeSort fun a b => decide (a.1 ≤ b.1)).Pairwise (·.1 ≤ ·.1) := by
    have htrans (a b c : String × List (List String)) (hab : decide (a.1 ≤ b.1))
        (hbc : decide (b.1 ≤ c.1)) : decide (a.1 ≤ c.1) :=
      decide_eq_true (le_trans (of_decide_eq_true hab) (of_decide_eq_true hbc))
    have htotal (a b : String × List (List String)) :
        decide (a.1 ≤ b.1) || decide (b.1 ≤ a.1) := by
      simpa using le_total a.1 b.1
    exact (List.pairwise_mergeSort htrans htotal parts).imp of_decide_eq_true
  have hdiffer := List.pairwise_map.1 ((hperm.map (·.1)).nodup_iff.2 hnames)
  rw [inOrder, List.pairwise_flatMap]
  constructor
  · intro part hpart
    rw [List.pairwise_map]
    refine (hparts part (hperm.mem_iff.1 hpart)).imp ?_
    intro a b hab
    exact List.cons_lt_cons_iff.2 (.inr ⟨rfl, hab⟩)
  · refine (hsorted.and hdiffer).imp ?_
    intro part next h a ha b hb
    obtain ⟨a, -, rfl⟩ := List.mem_map.1 ha
    obtain ⟨b, -, rfl⟩ := List.mem_map.1 hb
    exact List.cons_lt_cons_iff.2 (.inl (lt_of_le_of_ne h.1 h.2))

/-- The files of a walk stand in the order of their paths, compared name by name. -/
theorem WellFormed.files_pairwise {e : Entry} (h : e.WellFormed) : e.files.Pairwise (· < ·) := by
  induction h with
  | file => exact List.pairwise_singleton _ _
  | @directory entries hnodup _ _ ih =>
      rw [files]
      refine inOrder_pairwise ?_ ?_
      · rwa [map_fst_filesAmong]
      · rw [filesAmong_eq_map]
        intro part hpart
        obtain ⟨entry, hentry, rfl⟩ := List.mem_map.1 hpart
        exact ih entry hentry

/-- The paths through one name stand together. -/
theorem exists_inOrder_eq {parts : List (String × List (List String))}
    (hnames : (parts.map (·.1)).Nodup) {part : String × List (List String)} (hmem : part ∈ parts) :
    ∃ before after, inOrder parts = before ++ part.2.map (part.1 :: ·) ++ after ∧
      ∀ path ∈ before ++ after, path.head? ≠ some part.1 := by
  have hperm := List.mergeSort_perm parts fun a b => decide (a.1 ≤ b.1)
  obtain ⟨left, right, hsplit⟩ := List.append_of_mem (hperm.mem_iff.2 hmem)
  have hdiffer := (hperm.map (·.1)).nodup_iff.2 hnames
  rw [hsplit, List.map_append, List.map_cons, List.nodup_middle, List.nodup_cons,
    ← List.map_append] at hdiffer
  refine ⟨left.flatMap fun p => p.2.map (p.1 :: ·), right.flatMap fun p => p.2.map (p.1 :: ·),
    ?_, ?_⟩
  · rw [inOrder, hsplit, List.flatMap_append, List.flatMap_cons, List.append_assoc]
  · intro path hpath hhead
    rw [← List.flatMap_append] at hpath
    obtain ⟨other, hother, hpath⟩ := List.mem_flatMap.1 hpath
    obtain ⟨rest, -, rfl⟩ := List.mem_map.1 hpath
    rw [List.head?_cons, Option.some.injEq] at hhead
    exact hdiffer.1 (List.mem_map.2 ⟨other, hother, hhead⟩)

/-- The files below one directory stand together, in the order of a walk of it. -/
theorem exists_files_eq {e d : Entry} {names : List String} (h : Below e names d)
    (hwf : e.WellFormed) : ∃ before after, e.files = before ++ d.files.map (names ++ ·) ++ after ∧
      ∀ path ∈ before ++ after, ¬ names <+: path := by
  induction h with
  | self e => exact ⟨[], [], by simp, by simp⟩
  | @step entries name e d names hmem _ ih =>
      cases hwf with
      | directory hnodup _ hentries =>
          obtain ⟨before, after, hfiles, hbeside⟩ := ih (hentries _ hmem)
          have hpart : (name, e.files) ∈ filesAmong entries := by
            rw [filesAmong_eq_map]
            exact List.mem_map.2 ⟨_, hmem, rfl⟩
          obtain ⟨left, right, horder, hother⟩ :=
            exists_inOrder_eq ((map_fst_filesAmong entries).symm ▸ hnodup) hpart
          refine ⟨left ++ before.map (name :: ·), after.map (name :: ·) ++ right, ?_, ?_⟩
          · rw [files, horder, hfiles]
            simp [List.append_assoc, Function.comp_def]
          · -- A path beside the block starts with another name, or goes another way after it.
            intro path hpath hprefix
            have hhead : path.head? = some name := by
              obtain ⟨rest, rfl⟩ := hprefix
              rfl
            have hunder : ∀ rest ∈ before ++ after, path ≠ name :: rest := by
              rintro rest hrest rfl
              exact hbeside rest hrest (List.cons_prefix_cons.1 hprefix).2
            rw [List.mem_append, List.mem_append, List.mem_append] at hpath
            rcases hpath with (hleft | hbefore) | (hafter | hright)
            · exact hother path (List.mem_append_left _ hleft) hhead
            · obtain ⟨rest, hrest, rfl⟩ := List.mem_map.1 hbefore
              exact hunder rest (List.mem_append_left _ hrest) rfl
            · obtain ⟨rest, hrest, rfl⟩ := List.mem_map.1 hafter
              exact hunder rest (List.mem_append_right _ hrest) rfl
            · exact hother path (List.mem_append_right _ hright) hhead

/-- What is below an entry that is below another one is below that. -/
theorem Below.append {e d f : Entry} {names more : List String} (h : Below e names d)
    (hmore : Below d more f) : Below e (names ++ more) f := by
  induction h with
  | self => exact hmore
  | step hmem _ ih => exact .step hmem (ih hmore)

end Entry

namespace FileSystem

open Entry

/-- Names without `..` lead to what is below. -/
theorem below_of_follow {above : List Entry} {e d : Entry} {names : List String}
    (h : follow above e names = .ok d) (hup : ".." ∉ names) (hwf : e.WellFormed) :
    e.Below names d := by
  -- The cases are those of `follow`, as in `follow_append`.
  fun_induction follow above e names with
  | case1 =>
      cases h
      exact .self _
  | case2 => cases h
  | case3 => simp at hup
  | case4 => simp at hup
  | case5 => cases h
  | case6 above name rest entries hne hshort next hlookup ih =>
      cases hwf with
      | directory hnodup _ hentries =>
          have hmem := (Keyed.lookup_eq_some_iff hnodup).1 hlookup
          have hrest : ".." ∉ rest := fun hrest => hup (List.mem_cons_of_mem _ hrest)
          exact .step hmem (ih h hrest (hentries _ hmem))
  | case7 => cases h

variable {fs : FileSystem} {p : Path} {e d : Entry} {names : List String}

theorem below_of_find (hfs : fs.WellFormed) (h : fs.find p = .ok e)
    (hd : fs.find (p.descend names) = .ok d) (hup : ".." ∉ names) : e.Below names d := by
  obtain ⟨above, hfollow⟩ := follow_append (find_eq_ok.1 h).2
  have hd := (find_eq_ok.1 hd).2
  rw [absoluteNames_descend, hfollow] at hd
  exact below_of_follow hd hup (hfs.of_find h)

end FileSystem

/-! ## Names that are left out -/

namespace Path

/-- A path leads on to another one. -/
def LeadsTo (p file : Path) : Prop :=
  ∃ names, file = p.descend names

theorem descend_append (p : Path) (names more : List String) :
    p.descend (names ++ more) = (p.descend names).descend more := by
  simp [descend]

theorem descend_inj {p : Path} {names more : List String} :
    p.descend names = p.descend more ↔ names = more := by
  simp [descend]

theorem leadsTo_descend {p : Path} {names path : List String} :
    (p.descend names).LeadsTo (p.descend path) ↔ names <+: path := by
  constructor
  · rintro ⟨more, h⟩
    rw [← descend_append, descend_inj] at h
    exact ⟨more, h.symm⟩
  · rintro ⟨more, rfl⟩
    exact ⟨more, descend_append p names more⟩

end Path

namespace Config

variable {c : Config} {p : Path} {names : List String}

theorem excludes_eq_false : c.excludes names = false ↔ ∀ name ∈ names, name ∉ c.excludedDirs := by
  simp only [excludes, List.any_eq_false, List.contains_iff_mem]
  exact ⟨fun h name hname hdir => h name hdir hname, fun h name hdir hname => h name hname hdir⟩

/-- A name is left out wherever it stands on the way. -/
theorem excludes_append (more : List String) :
    c.excludes (names ++ more) = (c.excludes names || c.excludes more) := by
  rw [Bool.eq_iff_iff]
  simp only [excludes, List.any_eq_true, List.contains_iff_mem, List.mem_append, Bool.or_eq_true]
  grind

theorem hasExtension_append {more : List String} (h : more ≠ []) :
    c.hasExtension (names ++ more) = c.hasExtension more := by
  have hsuffix := (Path.mk .here names).suffix_descend h
  rw [Path.descend] at hsuffix
  rw [hasExtension, hasExtension, hsuffix]

/-- What is taken below a directory further down is a block of what is taken below the
whole. -/
theorem exists_takenBelow_eq {e : Entry} {entries : List (String × Entry)} (hwf : e.WellFormed)
    (hbelow : e.Below names (.directory entries)) (hkept : c.excludes names = false) :
    ∃ before after, c.takenBelow p e =
        before ++ c.takenBelow (p.descend names) (.directory entries) ++ after ∧
      ∀ file ∈ before ++ after, ¬ (p.descend names).LeadsTo file := by
  obtain ⟨before, after, hfiles, hbeside⟩ := Entry.exists_files_eq hbelow hwf
  have hblock : (((Entry.directory entries).files.map (names ++ ·)).filter fun path =>
        c.hasExtension path && !c.excludes path).map p.descend =
      c.takenBelow (p.descend names) (.directory entries) := by
    have hdescend : p.descend ∘ (names ++ ·) = (p.descend names).descend :=
      funext (Path.descend_append p names)
    rw [takenBelow, List.filter_map, List.map_map, hdescend]
    refine congrArg (List.map _) (List.filter_congr fun path hpath => ?_)
    -- The names that lead to the directory add nothing: they hold no name that is left out,
    -- and the suffix is in the last name, which comes after them.
    have hne : path ≠ [] := by
      rintro rfl
      obtain ⟨content, hself⟩ := (Entry.mem_files _ _).1 hpath
      cases Entry.below_nil.1 hself
    simp [hasExtension_append hne, excludes_append, hkept]
  refine ⟨(before.filter fun path => c.hasExtension path && !c.excludes path).map p.descend,
    (after.filter fun path => c.hasExtension path && !c.excludes path).map p.descend, ?_, ?_⟩
  · rw [← hblock, takenBelow, hfiles, List.filter_append, List.filter_append, List.map_append,
      List.map_append]
  · intro file hfile
    rw [← List.map_append, ← List.filter_append] at hfile
    obtain ⟨path, hpath, rfl⟩ := List.mem_map.1 hfile
    rw [Path.leadsTo_descend]
    exact hbeside path (List.mem_filter.1 hpath).1

end Config

namespace Workspace

open FileSystem

variable {w : Workspace} {c : Config} {directory : Path} {entries : List (String × Entry)}
  {files : List Path}

/-! ## Directories inside one another -/

theorem not_refuses_iff (hdir : w.files.find directory = .ok (.directory entries)) :
    ¬ w.Refuses directory ↔ overlong? directory (.directory entries) = none := by
  rw [overlong?_eq_none]
  constructor
  · intro h names d hbelow
    by_contra hlong
    exact h (.below hdir hbelow (by simpa using hlong))
  · rintro hshort (hfind | ⟨hfind, hbelow, hlong⟩)
    · rw [hdir] at hfind
      cases hfind
    · rw [hdir] at hfind
      cases hfind
      rw [hshort _ _ hbelow] at hlong
      cases hlong

theorem expand_directory_eq_ok (hdir : w.files.find directory = .ok (.directory entries)) :
    (w.expand c [directory]).result = .ok files ↔
      ¬ w.Refuses directory ∧ files = c.takenBelow directory (.directory entries) := by
  rw [expand_eq_ok, List.forall_mem_singleton, List.flatMap_singleton, filesOf, hdir]

/-- Expanding a directory comes to an end exactly if it is not refused. -/
theorem exists_expand_directory (hdir : w.files.find directory = .ok (.directory entries)) :
    (∃ files, (w.expand c [directory]).result = .ok files) ↔ ¬ w.Refuses directory := by
  constructor
  · rintro ⟨files, h⟩
    exact ((expand_directory_eq_ok hdir).1 h).1
  · intro h
    exact ⟨_, (expand_directory_eq_ok hdir).2 ⟨h, rfl⟩⟩

/-- A directory further down is refused only if the whole is. -/
theorem not_refuses_descend {e d : Entry} {names : List String}
    (hdir : w.files.find directory = .ok e) (hsub : w.files.find (directory.descend names) = .ok d)
    (hbelow : e.Below names d) (h : ¬ w.Refuses directory) :
    ¬ w.Refuses (directory.descend names) := by
  rintro (hfind | ⟨hfind, hmore, hlong⟩)
  · rw [hsub] at hfind
    cases hfind
  · rw [hsub] at hfind
    cases hfind
    rw [← Path.descend_append] at hlong
    exact h (.below hdir (hbelow.append hmore) hlong)

theorem takenBelow_pairwise {e : Entry} (h : e.WellFormed) :
    (c.takenBelow directory e).Pairwise fun a b => a.names < b.names := by
  rw [Config.takenBelow, List.pairwise_map]
  refine (h.files_pairwise.filter _).imp ?_
  intro a b hab
  exact List.append_left_lt hab

/-- **A part of a directory.**  Expanding a directory comes to an end exactly if it is not
refused.  The files come in the order of their paths, name by name.  Where the directory
is makes no difference to which of them are left out.  The files below a directory further
down, with no name on the way that is left out, stand together, and they are what that
directory stands for, in the same order. -/
theorem expand_directory_exact (hw : w.files.WellFormed) (c : Config)
    (hdir : w.files.find directory = .ok (.directory entries)) :
    ((∃ files, (w.expand c [directory]).result = .ok files) ↔ ¬ w.Refuses directory) ∧
    ∀ files, (w.expand c [directory]).result = .ok files →
      (files.Pairwise fun a b => a.names < b.names) ∧
      (∃ kept : List (List String), files = kept.map directory.descend ∧
        ∀ (w' : Workspace) (other : Path), w'.files.find other = .ok (.directory entries) →
          ¬ w'.Refuses other → (w'.expand c [other]).result = .ok (kept.map other.descend)) ∧
      ∀ names sub, ".." ∉ names → w.files.find (directory.descend names) = .ok (.directory sub) →
        (∀ name ∈ names, name ∉ c.excludedDirs) →
        ∃ before block after, files = before ++ block ++ after ∧
          (w.expand c [directory.descend names]).result = .ok block ∧
          (∀ file ∈ block, (directory.descend names).LeadsTo file) ∧
          ∀ file ∈ before ++ after, ¬ (directory.descend names).LeadsTo file := by
  refine ⟨exists_expand_directory hdir, ?_⟩
  intro files h
  obtain ⟨hrefuses, rfl⟩ := (expand_directory_eq_ok hdir).1 h
  refine ⟨takenBelow_pairwise (hw.of_find hdir), ⟨_, rfl, ?_⟩, ?_⟩
  · intro w' other hother hfree
    exact (expand_directory_eq_ok hother).2 ⟨hfree, rfl⟩
  · intro names sub hup hsub hkept
    have hbelow := below_of_find hw hdir hsub hup
    have hfree := not_refuses_descend hdir hsub hbelow hrefuses
    obtain ⟨before, after, heq, hbeside⟩ := Config.exists_takenBelow_eq (p := directory)
      (hw.of_find hdir) hbelow (Config.excludes_eq_false.2 hkept)
    refine ⟨before, _, after, heq, (expand_directory_eq_ok hsub).2 ⟨hfree, rfl⟩, ?_, hbeside⟩
    intro file hfile
    obtain ⟨more, -, -, -, rfl⟩ := mem_takenBelow.1 hfile
    exact ⟨more, rfl⟩

/-- A directory whose name is left out by default, with a directory and a file in it. -/
def built : Workspace :=
  { passing "b.js" with
    files := ⟨.directory [("dist", .directory [("lib", .directory [("b.js", .file (.ok ⟨[]⟩))]),
      ("lib-a.js", .file (.ok ⟨[]⟩))])], []⟩ }

theorem wellFormed_built : built.files.WellFormed := by
  have hnames : ∀ name ∈ ["dist", "lib", "b.js", "lib-a.js"], Entry.ValidName name := by
    simp only [List.forall_mem_cons, List.not_mem_nil, false_imp_iff, implies_true, and_true]
    exact ⟨⟨⟨by decide, by decide, by decide⟩, by decide, by decide⟩,
      ⟨⟨by decide, by decide, by decide⟩, by decide, by decide⟩,
      ⟨⟨by decide, by decide, by decide⟩, by decide, by decide⟩,
      ⟨⟨by decide, by decide, by decide⟩, by decide, by decide⟩⟩
  have hlib : Entry.WellFormed (.directory [("b.js", .file (.ok ⟨[]⟩))]) :=
    .directory (by simp) (by simp [hnames]) (by simp [Entry.WellFormed.file])
  have hdist : Entry.WellFormed (.directory [("lib", .directory [("b.js", .file (.ok ⟨[]⟩))]),
      ("lib-a.js", .file (.ok ⟨[]⟩))]) :=
    .directory (by simp) (by simp [hnames]) (by simp [hlib, Entry.WellFormed.file])
  exact ⟨.directory (by simp) (by simp [hnames]) (by simp [hdist]), by simp [built]⟩

theorem find_built : built.files.find (.ofString "dist") =
    .ok (.directory [("lib", .directory [("b.js", .file (.ok ⟨[]⟩))]),
      ("lib-a.js", .file (.ok ⟨[]⟩))]) := rfl

theorem not_refuses_built : ¬ built.Refuses (.ofString "dist") :=
  (not_refuses_iff find_built).2 (by decide +kernel)

/-- What is below `lib` stands together, though `lib-a.js` starts with the same letters. -/
theorem expand_built : ∃ files before after,
    (built.expand { root := .ofString "." } [.ofString "dist"]).result = .ok files ∧
      files = before ++ [.ofString "dist/lib/b.js"] ++ after ∧
      ∀ file ∈ before ++ after, ¬ (Path.ofString "dist/lib").LeadsTo file := by
  obtain ⟨hends, hshows⟩ :=
    expand_directory_exact wellFormed_built { root := .ofString "." } find_built
  obtain ⟨files, hfiles⟩ := hends.2 not_refuses_built
  obtain ⟨-, -, hpart⟩ := hshows files hfiles
  obtain ⟨before, block, after, heq, hblock, -, hbeside⟩ :=
    hpart ["lib"] [("b.js", .file (.ok ⟨[]⟩))] (by decide) rfl (by decide)
  have hlib : (built.expand { root := .ofString "." } [.ofString "dist/lib"]).result =
      .ok [.ofString "dist/lib/b.js"] := by
    decide +kernel
  have hsame : block = [.ofString "dist/lib/b.js"] := Except.ok.inj (hblock.symm.trans hlib)
  exact ⟨files, before, after, hfiles, hsame ▸ heq, hbeside⟩

/-- A name that is long, but not too long. -/
def wideName : String :=
  String.ofList (List.replicate 250 'b')

/-- A path that leads into a directory and back, again and again. -/
def detour : Path :=
  ⟨.here, (List.replicate 16 [wideName, ".."]).flatten⟩

/-- An empty directory with a long name, and a directory with a script. -/
def roundabout : Workspace :=
  { passing "b.js" with
    files := ⟨.directory [(wideName, .directory []), ("s", .directory [
      ("x.js", .file (.ok ⟨[]⟩))])], []⟩ }

/-- Going into a directory and back leads nowhere else. -/
theorem follow_detour {entries inner : List (String × Entry)} {name : String} (hup : name ≠ "..")
    (hshort : name.utf8ByteSize ≤ maxName) (hlookup : entries.lookup name = some (.directory inner))
    (n : Nat) : follow [] (.directory entries) (List.replicate n [name, ".."]).flatten =
      .ok (.directory entries) := by
  induction n with
  | zero => rfl
  | succ n ih =>
      rw [List.replicate_succ, List.flatten_cons, List.cons_append, follow.eq_def]
      simp only [if_neg hup, if_neg (Nat.not_lt.2 hshort), hlookup]
      rw [List.cons_append, follow.eq_def]
      simpa using ih

/-- The empty directory is out of reach by such a path, and with it the script beside it,
which is in reach by itself. -/
theorem expand_detour :
    roundabout.files.find detour = .ok roundabout.files.root ∧
      (∀ files, (roundabout.expand { root := .ofString "." } [detour]).result ≠ .ok files) ∧
      (roundabout.expand { root := .ofString "." } [detour.descend ["s"]]).result =
        .ok [detour.descend ["s", "x.js"]] := by
  refine ⟨find_eq_ok.2 ⟨by decide +kernel, ?_⟩, ?_, by decide +kernel⟩
  · exact follow_detour (by decide +kernel) (by decide +kernel) List.lookup_cons_self 16
  · have hfails : (roundabout.expand { root := .ofString "." } [detour]).result =
        .error (fileFailure (detour.descend [wideName]) .nameTooLong) := by
      decide +kernel
    intro files h
    rw [hfails] at h
    cases h

/-! ## Files named in two ways -/

theorem descend_mem_takenBelow {e : Entry} {names : List String} {content : Except FileFault Source}
    (hbelow : e.Below names (.file content)) (hkept : c.excludes names = false) :
    directory.descend names ∈ c.takenBelow directory e ↔ c.hasExtension names = true := by
  rw [mem_takenBelow]
  constructor
  · rintro ⟨names', -, hextension, -, heq⟩
    rwa [Path.descend_inj.1 heq]
  · intro hextension
    exact ⟨names, ⟨content, hbelow⟩, hextension, hkept, rfl⟩

theorem result_expand_file {file : Path} {content : Except FileFault Source}
    (h : w.files.find file = .ok (.file content)) :
    (w.expand c [file]).result = .ok (if (Dialect.ofPath? file).isSome then [file] else []) := by
  rw [expand_eq_ok, List.forall_mem_singleton, List.flatMap_singleton, filesOf_of_find h]
  exact ⟨not_refuses_of_find h, rfl⟩

/-- **A file and its directory.**  A file that is named itself is taken if its suffix has a
dialect.  Below a directory, with no name on the way that is left out, it is taken if its
suffix is among the extensions as it stands.  So the two ways agree exactly if both tests
come out the same. -/
theorem expand_file_exact (hw : w.files.WellFormed) (c : Config)
    (hdir : w.files.find directory = .ok (.directory entries)) {names : List String}
    {content : Except FileFault Source}
    (hfile : w.files.find (directory.descend names) = .ok (.file content)) (hup : ".." ∉ names)
    (hkept : ∀ name ∈ names, name ∉ c.excludedDirs) :
    ∃ itself, (w.expand c [directory.descend names]).result = .ok itself ∧
      (directory.descend names ∈ itself ↔
        (Dialect.ofSuffix? (directory.descend names).suffix).isSome = true) ∧
      ((∃ files, (w.expand c [directory]).result = .ok files) ↔ ¬ w.Refuses directory) ∧
      ∀ files, (w.expand c [directory]).result = .ok files →
        (directory.descend names ∈ files ↔ (directory.descend names).suffix ∈ c.extensions) ∧
        ((directory.descend names ∈ files ↔ directory.descend names ∈ itself) ↔
          ((directory.descend names).suffix ∈ c.extensions ↔
            (Dialect.ofSuffix? (directory.descend names).suffix).isSome = true)) := by
  have hbelow := below_of_find hw hdir hfile hup
  have hne : names ≠ [] := by
    rintro rfl
    cases Entry.below_nil.1 hbelow
  have hsuffix : c.hasExtension names = true ↔ (directory.descend names).suffix ∈ c.extensions := by
    rw [directory.suffix_descend hne, Config.hasExtension, List.contains_iff_mem]
  have hitself : directory.descend names ∈
      (if (Dialect.ofPath? (directory.descend names)).isSome then [directory.descend names]
        else []) ↔ (Dialect.ofSuffix? (directory.descend names).suffix).isSome = true := by
    rw [Dialect.ofPath?]
    cases (Dialect.ofSuffix? (directory.descend names).suffix).isSome <;> simp
  refine ⟨_, result_expand_file hfile, hitself, exists_expand_directory hdir, ?_⟩
  intro files h
  obtain ⟨-, rfl⟩ := (expand_directory_eq_ok hdir).1 h
  have hmem : directory.descend names ∈ c.takenBelow directory (.directory entries) ↔
      c.hasExtension names = true :=
    descend_mem_takenBelow hbelow (Config.excludes_eq_false.2 hkept)
  rw [hitself, hmem, hsuffix]
  exact ⟨Iff.rfl, Iff.rfl⟩

/-- A script below the directory is taken either way. -/
theorem expand_builtFile : ∃ files itself,
    (built.expand { root := .ofString "." } [.ofString "dist"]).result = .ok files ∧
      (built.expand { root := .ofString "." } [.ofString "dist/lib/b.js"]).result = .ok itself ∧
      (Path.ofString "dist/lib/b.js" ∈ files ↔ Path.ofString "dist/lib/b.js" ∈ itself) := by
  have hfile : built.files.find ((Path.ofString "dist").descend ["lib", "b.js"]) =
      .ok (.file (.ok ⟨[]⟩)) := rfl
  obtain ⟨itself, hitself, -, hends, hshows⟩ := expand_file_exact wellFormed_built
    { root := .ofString "." } find_built hfile (by decide) (by decide)
  obtain ⟨files, hfiles⟩ := hends.2 not_refuses_built
  obtain ⟨-, hagree⟩ := hshows files hfiles
  exact ⟨files, itself, hfiles, hitself, hagree.2 (by decide +kernel)⟩

/-- A script whose suffix is in capital letters. -/
def capitals : Workspace :=
  { passing "b.js" with files := ⟨.directory [("A.JS", .file (.ok ⟨[]⟩))], []⟩ }

/-- The script is taken if it is named itself, and not below its directory, though its
suffix in small letters is among the extensions. -/
theorem expand_capitals :
    (Path.ofString "A.JS").suffix.toLower ∈ ({ root := .ofString "." } : Config).extensions ∧
      (capitals.expand { root := .ofString "." } [.ofString "."]).result = .ok [] ∧
      (capitals.expand { root := .ofString "." } [.ofString "A.JS"]).result =
        .ok [.ofString "A.JS"] := by
  decide +kernel

end Workspace

end ScriptLint
