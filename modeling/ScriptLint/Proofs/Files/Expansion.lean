import ScriptLint.Lint.Files
import ScriptLint.Proofs.Files.Lookup
import ScriptLint.Proofs.Log

/-!
# The files that paths stand for

The system does not even tell whether something is there if a path is too long.  A
path is refused if that happens to it, or to something below it.  Expanding paths
fails exactly when one of them is refused (`expand_eq_ok`), and otherwise each
path stands for the same files wherever it is in the list.

Found files are found again.  So expanding the files that some paths stand for gives
those of them whose suffix has a dialect (`result_expand_again`).  Nothing else
can be lost, for a path that was found is not refused.
-/

namespace ScriptLint

namespace Workspace

open FileSystem

/-- The system does not tell what is at a path, or at one that leads on from it.

Here every directory may be searched, and these are all cases.  Where permissions count, the
system does not tell either what is below a directory that may not be searched. -/
inductive Refuses (w : Workspace) (p : Path) : Prop where
  | path : w.files.find p = .error .nameTooLong → Refuses w p
  | below {e d : Entry} {names : List String} : w.files.find p = .ok e → e.Below names d →
      tooLong (p.descend names) = true → Refuses w p

/-- The files that a path stands for if it is not refused. -/
def filesOf (w : Workspace) (c : Config) (p : Path) : List Path :=
  match w.files.find p with
  | .ok (.file _) => if (Dialect.ofPath? p).isSome then [p] else []
  | .ok (.directory entries) => c.takenBelow p (.directory entries)
  | .error _ => []

variable {w : Workspace} {c : Config} {p : Path}

/-! ## One path -/

theorem descend_nil (p : Path) : p.descend [] = p := by
  simp [Path.descend]

theorem overlong?_eq_none {e : Entry} :
    overlong? p e = none ↔ ∀ names d, e.Below names d → tooLong (p.descend names) = false := by
  simp [overlong?, Entry.mem_places]

/-- What comes of expanding a path, by what is there. -/
theorem result_expandOne_eq : (w.expandOne c p).result =
    match w.files.find p with
    | .ok (.file _) => .ok (w.filesOf c p)
    | .ok (.directory entries) =>
        match overlong? p (.directory entries) with
        | some place => .error (fileFailure place .nameTooLong)
        | none => .ok (w.filesOf c p)
    | .error .nameTooLong => .error (fileFailure p .nameTooLong)
    | .error _ => .ok (w.filesOf c p) := by
  rw [expandOne, Activity.result_bind, Activity.result_ofExcept, entry?, FileSystem.entry?, filesOf]
  cases hfind : w.files.find p with
  | error fault => cases fault <;> rfl
  | ok e =>
      cases e with
      | file content =>
          simp only [Except.mapError]
          cases (Dialect.ofPath? p).isSome <;> rfl
      | directory entries =>
          simp only [Except.mapError]
          cases h : overlong? p (.directory entries) <;> simp [h, Bind.bind, Except.bind] <;> rfl

theorem result_expandOne (h : ¬ w.Refuses p) :
    (w.expandOne c p).result = .ok (w.filesOf c p) := by
  rw [result_expandOne_eq]
  cases hfind : w.files.find p with
  | error fault =>
      cases fault with
      | nameTooLong => exact absurd (.path hfind) h
      | _ => rfl
  | ok e =>
      cases e with
      | file content => rfl
      | directory entries =>
          have hshort : overlong? p (.directory entries) = none := by
            rw [overlong?_eq_none]
            intro names d hbelow
            by_contra hlong
            exact h (.below hfind hbelow (by simpa using hlong))
          simp only [hshort]

theorem fails_of_refuses (h : w.Refuses p) : ∃ f, (w.expandOne c p).result = .error f := by
  rw [result_expandOne_eq]
  cases h with
  | path hfind => exact ⟨_, by rw [hfind]⟩
  | @below e d names hfind hbelow hlong =>
      rw [hfind]
      cases e with
      | file content =>
          obtain ⟨rfl, -⟩ := Entry.below_file.1 hbelow
          rw [descend_nil, (find_eq_ok.1 hfind).1] at hlong
          cases hlong
      | directory entries =>
          cases hplace : overlong? p (.directory entries) with
          | some place => exact ⟨fileFailure place .nameTooLong, by simp only [hplace]⟩
          | none =>
              rw [overlong?_eq_none.1 hplace names d hbelow] at hlong
              cases hlong

/-! ## Lists of paths -/

theorem result_expand {paths : List Path} (h : ∀ p ∈ paths, ¬ w.Refuses p) :
    (w.expand c paths).result = .ok (paths.flatMap (w.filesOf c)) := by
  rw [expand, Activity.bind_result_of_ok (Activity.result_each fun p hp => result_expandOne (h p hp))]
  rfl

theorem not_refuses_of_expand {paths files : List Path} (h : (w.expand c paths).result = .ok files) :
    ∀ p ∈ paths, ¬ w.Refuses p := by
  intro p hp hrefuses
  obtain ⟨found, heach, -⟩ := Activity.exists_of_bind_result h
  obtain ⟨b, hb⟩ := Activity.exists_of_result_each heach p hp
  obtain ⟨f, hf⟩ := fails_of_refuses (c := c) hrefuses
  rw [hf] at hb
  cases hb

/-! ## Found files -/

theorem mem_takenBelow {e : Entry} {file : Path} : file ∈ c.takenBelow p e ↔
    ∃ names, (∃ content, e.Below names (.file content)) ∧ c.hasExtension names = true ∧
      c.excludes names = false ∧ file = p.descend names := by
  simp [Config.takenBelow, Entry.mem_files]
  grind

/-- What a path stands for are files that are there. -/
theorem find_of_mem_filesOf (hw : w.files.WellFormed) (h : ¬ w.Refuses p) {file : Path}
    (hfile : file ∈ w.filesOf c p) : ∃ content, w.files.find file = .ok (.file content) := by
  unfold filesOf at hfile
  split at hfile
  next content hfind =>
    split at hfile
    · obtain rfl := List.mem_singleton.1 hfile
      exact ⟨content, hfind⟩
    · cases hfile
  next entries hfind =>
    obtain ⟨names, ⟨content, hbelow⟩, -, -, rfl⟩ := mem_takenBelow.1 hfile
    refine ⟨content, find_descend hw hfind hbelow ?_⟩
    by_contra hlong
    exact h (.below hfind hbelow (by simpa using hlong))
  next => cases hfile

/-- A file that is there is not refused. -/
theorem not_refuses_of_find {content : Except FileFault Source}
    (h : w.files.find p = .ok (.file content)) : ¬ w.Refuses p := by
  rintro (hfind | ⟨hfind, hbelow, hlong⟩)
  · rw [h] at hfind
    cases hfind
  · rw [h] at hfind
    cases hfind
    obtain ⟨rfl, -⟩ := Entry.below_file.1 hbelow
    rw [descend_nil, (find_eq_ok.1 h).1] at hlong
    cases hlong

theorem filesOf_of_find {content : Except FileFault Source}
    (h : w.files.find p = .ok (.file content)) :
    w.filesOf c p = if (Dialect.ofPath? p).isSome then [p] else [] := by
  rw [filesOf, h]

theorem flatMap_filesOf {files : List Path}
    (h : ∀ file ∈ files, ∃ content, w.files.find file = .ok (.file content)) :
    files.flatMap (w.filesOf c) = files.filter fun file => (Dialect.ofPath? file).isSome := by
  induction files with
  | nil => rfl
  | cons file files ih =>
      obtain ⟨⟨content, hfind⟩, hfiles⟩ := List.forall_mem_cons.1 h
      rw [List.flatMap_cons, ih hfiles, filesOf_of_find hfind]
      cases hdialect : (Dialect.ofPath? file).isSome <;> simp [hdialect]

/-- The texts of paths that came from texts, and of the files they stand for, read
back as these paths. -/
theorem normal_of_mem_filesOf (hw : w.files.WellFormed) (hp : p.Normal) {file : Path}
    (hfile : file ∈ w.filesOf c p) : file.Normal := by
  unfold filesOf at hfile
  split at hfile
  next =>
    split at hfile
    · obtain rfl := List.mem_singleton.1 hfile
      exact hp
    · cases hfile
  next entries hfind =>
    obtain ⟨names, ⟨content, hbelow⟩, -, -, rfl⟩ := mem_takenBelow.1 hfile
    exact hp.descend fun name hname => (hbelow.validName (hw.of_find hfind) name hname).spellable
  next => cases hfile

/-- Expanding has each path stand for its files. -/
theorem expand_eq_ok {paths files : List Path} : (w.expand c paths).result = .ok files ↔
    (∀ p ∈ paths, ¬ w.Refuses p) ∧ files = paths.flatMap (w.filesOf c) := by
  constructor
  · intro h
    have hrefuses := not_refuses_of_expand h
    rw [result_expand hrefuses, Except.ok.injEq] at h
    exact ⟨hrefuses, h.symm⟩
  · rintro ⟨hrefuses, rfl⟩
    exact result_expand hrefuses

theorem normal_of_expand (hw : w.files.WellFormed) {paths files : List Path}
    (hnormal : ∀ p ∈ paths, p.Normal) (h : (w.expand c paths).result = .ok files) :
    ∀ file ∈ files, file.Normal := by
  obtain ⟨-, rfl⟩ := expand_eq_ok.1 h
  intro file hfile
  obtain ⟨p, hp, hmem⟩ := List.mem_flatMap.1 hfile
  exact normal_of_mem_filesOf hw (hnormal p hp) hmem

/-- **Expanding again.**  Of the files that some paths stand for, the second expansion
keeps those whose suffix has a dialect. -/
theorem result_expand_again (hw : w.files.WellFormed) {paths files : List Path}
    (h : (w.expand c paths).result = .ok files) :
    (w.expand c files).result = .ok (files.filter fun file => (Dialect.ofPath? file).isSome) := by
  obtain ⟨hrefuses, rfl⟩ := expand_eq_ok.1 h
  have hfound : ∀ file ∈ paths.flatMap (w.filesOf c), ∃ content,
      w.files.find file = .ok (.file content) := by
    intro file hfile
    obtain ⟨p, hp, hfile⟩ := List.mem_flatMap.1 hfile
    exact find_of_mem_filesOf hw (hrefuses p hp) hfile
  have hagain : ∀ file ∈ paths.flatMap (w.filesOf c), ¬ w.Refuses file := by
    intro file hfile
    obtain ⟨content, hfind⟩ := hfound file hfile
    exact not_refuses_of_find hfind
  rw [result_expand hagain, flatMap_filesOf hfound]

end Workspace

end ScriptLint
