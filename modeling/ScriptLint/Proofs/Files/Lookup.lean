import ScriptLint.FileSystem
import ScriptLint.Keyed
import ScriptLint.Proofs.Files.Spelling

/-!
# Finding what is below a directory

`Below e names d` says that the names lead from an entry down to another one.  The
files and the places that a walk lists are those (`mem_files`, `mem_places`).

In a well-formed file system the names in a directory differ, and none of them is
`..` or too long.  So following the names leads to the entry they were listed for
(`follow_of_below`), and what a walk lists below a directory is found at the path of
the directory with the names after it (`FileSystem.find_descend`).
-/

namespace ScriptLint

namespace Entry

/-! ## Below an entry -/

/-- The names lead from an entry to another one. -/
inductive Below : Entry → List String → Entry → Prop where
  | self (e : Entry) : Below e [] e
  | step {entries : List (String × Entry)} {name : String} {e d : Entry} {names : List String} :
      (name, e) ∈ entries → Below e names d → Below (.directory entries) (name :: names) d

theorem below_file {content : Except FileFault Source} {names : List String} {d : Entry} :
    Below (.file content) names d ↔ names = [] ∧ d = .file content := by
  constructor
  · rintro ⟨⟩
    exact ⟨rfl, rfl⟩
  · rintro ⟨rfl, rfl⟩
    exact .self _

theorem below_nil {e d : Entry} : Below e [] d ↔ d = e := by
  constructor
  · rintro ⟨⟩
    rfl
  · rintro rfl
    exact .self _

theorem below_cons {entries : List (String × Entry)} {name : String} {names : List String}
    {d : Entry} :
    Below (.directory entries) (name :: names) d ↔ ∃ e, (name, e) ∈ entries ∧ Below e names d := by
  constructor
  · rintro ⟨⟩
    next e hmem h => exact ⟨e, hmem, h⟩
  · rintro ⟨e, hmem, h⟩
    exact .step hmem h

theorem nil_notMem_inOrder (parts : List (String × List (List String))) : [] ∉ inOrder parts := by
  simp [inOrder]

theorem cons_mem_inOrder {parts : List (String × List (List String))} {name : String}
    {names : List String} :
    name :: names ∈ inOrder parts ↔ ∃ part ∈ parts, part.1 = name ∧ names ∈ part.2 := by
  rw [inOrder, List.mem_flatMap]
  refine exists_congr fun part => ?_
  rw [List.mem_mergeSort, List.mem_map]
  refine and_congr_right fun _ => ⟨?_, ?_⟩
  · rintro ⟨rest, hrest, h⟩
    rw [List.cons.injEq] at h
    exact ⟨h.1, h.2 ▸ hrest⟩
  · rintro ⟨rfl, hnames⟩
    exact ⟨names, hnames, rfl⟩

mutual

/-- A walk lists the files below an entry. -/
theorem mem_files : ∀ (e : Entry) (names : List String),
    names ∈ e.files ↔ ∃ content, Below e names (.file content)
  | .file content, names => by simp [files, below_file]
  | .directory entries, [] => by simp [files, nil_notMem_inOrder, below_nil]
  | .directory entries, name :: names => by
      rw [files, cons_mem_inOrder, mem_filesAmong entries name names]
      simp only [below_cons]
      grind

theorem mem_filesAmong : ∀ (entries : List (String × Entry)) (name : String) (names : List String),
    (∃ part ∈ filesAmong entries, part.1 = name ∧ names ∈ part.2) ↔
      ∃ e content, (name, e) ∈ entries ∧ Below e names (.file content)
  | [], _, _ => by simp [filesAmong]
  | (n, e) :: entries, name, names => by
      rw [filesAmong]
      constructor
      · rintro ⟨part, hpart, rfl, hnames⟩
        rcases List.mem_cons.1 hpart with rfl | hpart
        · obtain ⟨content, h⟩ := (mem_files e names).1 hnames
          exact ⟨e, content, List.mem_cons_self, h⟩
        · obtain ⟨d, content, hmem, h⟩ :=
            (mem_filesAmong entries part.1 names).1 ⟨part, hpart, rfl, hnames⟩
          exact ⟨d, content, List.mem_cons_of_mem _ hmem, h⟩
      · rintro ⟨d, content, hmem, h⟩
        rcases List.mem_cons.1 hmem with heq | hmem
        · cases heq
          exact ⟨_, List.mem_cons_self, rfl, (mem_files e names).2 ⟨content, h⟩⟩
        · obtain ⟨part, hpart, hname, hnames⟩ :=
            (mem_filesAmong entries name names).2 ⟨d, content, hmem, h⟩
          exact ⟨part, List.mem_cons_of_mem _ hpart, hname, hnames⟩

end

mutual

/-- A walk for places lists all that is below an entry. -/
theorem mem_places : ∀ (e : Entry) (names : List String),
    names ∈ e.places ↔ ∃ d, Below e names d
  | .file content, names => by simp [places, below_file]
  | .directory entries, [] => by simp [places, below_nil]
  | .directory entries, name :: names => by
      simp only [places, List.mem_cons, reduceCtorEq, false_or, below_cons,
        mem_placesAmong entries name names]
      grind

theorem mem_placesAmong : ∀ (entries : List (String × Entry)) (name : String) (names : List String),
    name :: names ∈ placesAmong entries ↔ ∃ e d, (name, e) ∈ entries ∧ Below e names d
  | [], _, _ => by simp [placesAmong]
  | (n, e) :: entries, name, names => by
      have hfirst := mem_places e names
      have hrest := mem_placesAmong entries name names
      simp only [placesAmong, List.mem_append, List.mem_map, List.mem_cons, hrest]
      grind

end

/-! ## Well-formed entries -/

/-- What an entry of a directory can be called. -/
structure ValidName (name : String) : Prop where
  spellable : Path.Spellable name
  ne_up : name ≠ ".."
  short : name.utf8ByteSize ≤ FileSystem.maxName

/-- In every directory the names are valid and differ. -/
inductive WellFormed : Entry → Prop where
  | file (content : Except FileFault Source) : WellFormed (.file content)
  | directory {entries : List (String × Entry)} :
      (entries.map (·.1)).Nodup → (∀ p ∈ entries, ValidName p.1) →
      (∀ p ∈ entries, WellFormed p.2) → WellFormed (.directory entries)

theorem WellFormed.of_lookup {entries : List (String × Entry)} (h : WellFormed (.directory entries))
    {name : String} {e : Entry} (he : entries.lookup name = some e) : WellFormed e := by
  cases h with
  | directory hnodup _ hentries => exact hentries _ ((Keyed.lookup_eq_some_iff hnodup).1 he)

theorem Below.validName {e d : Entry} {names : List String} (h : Below e names d)
    (hwf : WellFormed e) : ∀ name ∈ names, ValidName name := by
  induction h with
  | self => simp
  | step hmem _ ih =>
      cases hwf with
      | directory _ hnames hentries => simpa using ⟨hnames _ hmem, ih (hentries _ hmem)⟩

end Entry

/-! ## Following names -/

namespace FileSystem

open Entry

/-- The names below an entry lead there, whatever the way to the entry was. -/
theorem follow_of_below {e d : Entry} {names : List String} (h : Below e names d)
    (hwf : WellFormed e) (above : List Entry) : follow above e names = .ok d := by
  induction h generalizing above with
  | self => rw [follow.eq_def]
  | step hmem _ ih =>
      cases hwf with
      | directory hnodup hnames hentries =>
          have hname := hnames _ hmem
          rw [follow.eq_def]
          simp only [hname.ne_up, if_false, Nat.not_lt.2 hname.short,
            (Keyed.lookup_eq_some_iff hnodup).2 hmem, ih (hentries _ hmem)]

/-- Following more names starts where the first ones lead. -/
theorem follow_append {above : List Entry} {e d : Entry} {names : List String}
    (h : follow above e names = .ok d) :
    ∃ above', ∀ more, follow above e (names ++ more) = follow above' d more := by
  -- The cases are those of `follow`: the end, a file on the way, `..` at the root and
  -- below it, and a name that is too long, found, or missing.
  fun_induction follow above e names with
  | case1 above e =>
      cases h
      exact ⟨above, fun _ => rfl⟩
  | case2 => cases h
  | case3 rest entries ih =>
      obtain ⟨above', hmore⟩ := ih h
      refine ⟨above', fun more => ?_⟩
      rw [← hmore, List.cons_append, follow.eq_def]
      simp
  | case4 rest entries parent above ih =>
      obtain ⟨above', hmore⟩ := ih h
      refine ⟨above', fun more => ?_⟩
      rw [← hmore, List.cons_append, follow.eq_def]
      simp
  | case5 => cases h
  | case6 above name rest entries hup hshort next hlookup ih =>
      obtain ⟨above', hmore⟩ := ih h
      refine ⟨above', fun more => ?_⟩
      rw [← hmore, List.cons_append, follow.eq_def]
      simp [hup, hshort, hlookup]
  | case7 => cases h

/-- What names lead to is well-formed. -/
theorem wellFormed_of_follow {above : List Entry} {e d : Entry} {names : List String}
    (h : follow above e names = .ok d) (he : WellFormed e) (habove : ∀ a ∈ above, WellFormed a) :
    WellFormed d := by
  fun_induction follow above e names with
  | case1 =>
      cases h
      exact he
  | case2 => cases h
  | case3 rest entries ih => exact ih h he habove
  | case4 rest entries parent above ih =>
      obtain ⟨hparent, habove⟩ := List.forall_mem_cons.1 habove
      exact ih h hparent habove
  | case5 => cases h
  | case6 above name rest entries hup hshort next hlookup ih =>
      exact ih h (he.of_lookup hlookup) (List.forall_mem_cons.2 ⟨he, habove⟩)
  | case7 => cases h

/-! ## Finding paths -/

/-- A file system whose entries are well-formed, as the current directory is called. -/
structure WellFormed (fs : FileSystem) : Prop where
  root : fs.root.WellFormed
  current : ∀ name ∈ fs.current, ValidName name

theorem absoluteNames_descend (fs : FileSystem) (p : Path) (names : List String) :
    fs.absoluteNames (p.descend names) = fs.absoluteNames p ++ names := by
  unfold absoluteNames Path.descend
  split
  · rw [List.append_assoc]
  · rfl

variable {fs : FileSystem} {p : Path} {e d : Entry} {names : List String}

theorem find_eq_ok : fs.find p = .ok e ↔
    tooLong p = false ∧ follow [] fs.root (fs.absoluteNames p) = .ok e := by
  unfold find
  cases h : tooLong p <;> simp

theorem WellFormed.of_find (hfs : fs.WellFormed) (h : fs.find p = .ok e) : e.WellFormed :=
  wellFormed_of_follow (find_eq_ok.1 h).2 hfs.root (by simp)

/-- What is below an entry is found at the path with the names after it. -/
theorem find_descend (hfs : fs.WellFormed) (h : fs.find p = .ok e) (hbelow : Below e names d)
    (hlong : tooLong (p.descend names) = false) : fs.find (p.descend names) = .ok d := by
  obtain ⟨above, hfollow⟩ := follow_append (find_eq_ok.1 h).2
  rw [find_eq_ok, absoluteNames_descend, hfollow]
  exact ⟨hlong, follow_of_below hbelow (hfs.of_find h) above⟩

theorem currentDirectory_normal (hfs : fs.WellFormed) : fs.currentDirectory.Normal :=
  fun name hname => (hfs.current name hname).spellable

end FileSystem

end ScriptLint
