import Mathlib.Algebra.Order.Ring.Nat
import Mathlib.Data.List.Induction
import ScriptLint.Proofs.Files.Lookup

/-!
# The place of a directory

Without links every entry has one place, and the names that lead there from the root are a
`FileSystem.Trail`.  Following names that take a way back keeps to trails: `..` drops the last
name, as it does when a path is resolved.  So a path and its resolved path lead to one place
(`FileSystem.Trail.exists_normalize`), and all places on the way down are directories
(`FileSystem.Trail.exists_above`).

A resolved path can be too long to be found itself.  `FileSystem.Lists` says what is in the
directory there all the same, and `FileSystem.Lists.find_child` what comes of asking for a name in
it.
-/

namespace ScriptLint

namespace FileSystem

/-! ## Trails -/

/-- The names, the last one first, lead from the root down to an entry, through the directories
`above`, the nearest first. -/
inductive Trail (root : Entry) : List String → List Entry → Entry → Prop where
  | start : Trail root [] [] root
  | step {names : List String} {above : List Entry} {entries : List (String × Entry)}
      {name : String} {e : Entry} : Trail root names above (.directory entries) →
      name ≠ ".." → name.utf8ByteSize ≤ maxName → entries.lookup name = some e →
      Trail root (name :: names) (.directory entries :: above) e

variable {root e : Entry} {above : List Entry} {names : List String}

/-- Following the names of a trail is going along it. -/
theorem Trail.follow_append (h : Trail root names above e) (more : List String) :
    follow [] root (names.reverse ++ more) = follow above e more := by
  induction h generalizing more with
  | start => rfl
  | step _ hup hshort hlookup ih =>
      rw [List.reverse_cons, List.append_assoc, ih, List.singleton_append, follow.eq_def]
      simp only [if_neg hup, if_neg (Nat.not_lt.2 hshort), hlookup]

theorem Trail.follow (h : Trail root names above e) : follow [] root names.reverse = .ok e := by
  rw [← List.append_nil names.reverse, h.follow_append, FileSystem.follow.eq_def]

/-- All places on the way are directories. -/
theorem Trail.exists_above {more : List String} {entries : List (String × Entry)}
    (h : Trail root (more ++ names) above (.directory entries)) :
    ∃ above' entries', Trail root names above' (.directory entries') := by
  induction more generalizing above entries with
  | nil => exact ⟨above, entries, h⟩
  | cons name more ih =>
      rw [List.cons_append] at h
      cases h with
      | step h _ _ _ => exact ih h

/-- What names lead to from a trail is at the end of a trail, with the names put in the order
that `normalize` gives them. -/
theorem Trail.exists_normalize {d : Entry} {more : List String} (h : Trail root names above e)
    (hfollow : FileSystem.follow above e more = .ok d) :
    ∃ above', Trail root (normalize names more).reverse above' d := by
  -- The cases are those of `follow`, as in `follow_append`.
  fun_induction FileSystem.follow above e more generalizing names with
  | case1 above e =>
      cases hfollow
      rw [normalize, List.reverse_reverse]
      exact ⟨above, h⟩
  | case2 => cases hfollow
  | case3 rest entries ih =>
      cases h with
      | start => exact ih .start hfollow
  | case4 rest entries parent above ih =>
      cases h with
      | step hparent _ _ _ => exact ih hparent hfollow
  | case5 => cases hfollow
  | case6 above name rest entries hup hshort next hlookup ih =>
      rw [normalize, if_neg hup]
      exact ih (.step h hup (Nat.le_of_not_lt hshort) hlookup) hfollow
  | case7 => cases hfollow

/-! ## Directories at absolute paths -/

variable {fs : FileSystem} {p d : Path} {entries : List (String × Entry)} {name : String}

theorem mem_upwards {names : List String} :
    d ∈ upwards names ↔ d.anchor = .root ∧ d.names.reverse <:+ names := by
  have hpath : ∀ taken : List String,
      d = ⟨.root, taken.reverse⟩ ↔ d.anchor = .root ∧ d.names.reverse = taken := by
    intro taken
    obtain ⟨anchor, found⟩ := d
    rw [Path.mk.injEq, List.reverse_eq_iff]
  induction names with
  | nil => rw [upwards, List.mem_singleton, List.suffix_nil, ← hpath, List.reverse_nil]
  | cons last above ih =>
      rw [upwards, List.mem_cons, hpath, List.suffix_cons_iff, and_or_left]
      exact or_congr_right ih

/-- The directories above an absolute path are at the paths that it starts with. -/
theorem mem_ancestry : d ∈ ancestry p ↔ d.anchor = .root ∧ d.names <+: p.names := by
  rw [ancestry, mem_upwards, List.reverse_suffix]

/-- The way up comes to a directory before it comes to those above. -/
theorem ancestry_pairwise (p : Path) : (ancestry p).Pairwise fun a b => b.names <+: a.names := by
  rw [ancestry]
  induction p.names.reverse with
  | nil => exact List.pairwise_singleton _ _
  | cons last above ih =>
      rw [upwards, List.pairwise_cons]
      refine ⟨fun b hb => ?_, ih⟩
      have habove := (mem_upwards.1 hb).2.trans (List.suffix_cons last above)
      rw [← List.reverse_suffix, List.reverse_reverse]
      exact habove

/-- The way up starts at the directory itself. -/
theorem exists_ancestry_eq_cons (h : p.anchor = .root) : ∃ above, ancestry p = p :: above := by
  obtain ⟨anchor, names⟩ := p
  obtain rfl : anchor = .root := h
  rw [ancestry]
  cases hnames : names.reverse with
  | nil =>
      obtain rfl : names = [] := List.reverse_eq_nil_iff.1 hnames
      exact ⟨[], rfl⟩
  | cons last above =>
      rw [upwards, ← hnames, List.reverse_reverse]
      exact ⟨_, rfl⟩

/-- The way up from a path leads over the paths between to the way up from where it started. -/
theorem exists_ancestry_eq (p : Path) (names : List String) :
    ∃ between, ancestry (p.descend names) = between ++ ancestry p ∧
      ∀ b ∈ between, ∃ taken, taken ≠ [] ∧ taken <+: names ∧ b = ⟨.root, p.names ++ taken⟩ := by
  induction names using List.reverseRecOn with
  | nil => exact ⟨[], by simp [Path.descend], by simp⟩
  | append_singleton names last ih =>
      obtain ⟨between, hway, hbetween⟩ := ih
      have hup : ancestry (p.descend (names ++ [last])) =
          ⟨.root, p.names ++ (names ++ [last])⟩ :: ancestry (p.descend names) := by
        have hreverse : (p.descend (names ++ [last])).names.reverse =
            last :: (p.descend names).names.reverse := by simp [Path.descend]
        rw [ancestry, hreverse, upwards, ← hreverse, List.reverse_reverse]
        rfl
      refine ⟨⟨.root, p.names ++ (names ++ [last])⟩ :: between, by rw [hup, hway]; rfl, ?_⟩
      rw [List.forall_mem_cons]
      refine ⟨⟨_, by simp, List.prefix_rfl, rfl⟩, fun b hb => ?_⟩
      obtain ⟨taken, hne, htaken, heq⟩ := hbetween b hb
      exact ⟨taken, hne, htaken.trans (List.prefix_append ..), heq⟩

/-- At a path from the root there is a directory with these entries, whether or not the path is
too long to be found. -/
def Lists (fs : FileSystem) (d : Path) (entries : List (String × Entry)) : Prop :=
  d.anchor = .root ∧ ∃ above, Trail fs.root d.names.reverse above (.directory entries)

theorem Lists.follow (h : fs.Lists d entries) :
    follow [] fs.root d.names = .ok (.directory entries) := by
  obtain ⟨-, above, htrail⟩ := h
  rw [← htrail.follow, List.reverse_reverse]

/-- A directory is at its resolved path. -/
theorem lists_resolve (h : fs.find p = .ok (.directory entries)) :
    fs.Lists (fs.resolve p) entries :=
  ⟨rfl, Trail.exists_normalize .start (find_eq_ok.1 h).2⟩

/-- Above a directory there are directories. -/
theorem Lists.exists_of_mem_ancestry (h : fs.Lists p entries) (hd : d ∈ ancestry p) :
    ∃ entries', fs.Lists d entries' := by
  obtain ⟨hanchor, more, hmore⟩ := mem_ancestry.1 hd
  obtain ⟨-, above, htrail⟩ := h
  rw [← hmore, List.reverse_append] at htrail
  obtain ⟨above', entries', htrail'⟩ := htrail.exists_above
  exact ⟨entries', hanchor, above', htrail'⟩

/-- What is asked for in a directory is what stands under the name, unless the path is too
long. -/
theorem Lists.find_child (h : fs.Lists d entries) (hup : name ≠ "..")
    (hshort : name.utf8ByteSize ≤ maxName) :
    fs.find (d.child name) =
      if tooLong (d.child name) then .error .nameTooLong
      else match entries.lookup name with
        | some e => .ok e
        | none => .error .notFound := by
  obtain ⟨hanchor, above, htrail⟩ := h
  have hnames : fs.absoluteNames (d.child name) = d.names.reverse.reverse ++ [name] := by
    rw [absoluteNames, Path.child, hanchor, List.reverse_reverse]
    rfl
  rw [find, hnames, htrail.follow_append, FileSystem.follow.eq_def]
  simp only [if_neg hup, if_neg (Nat.not_lt.2 hshort)]
  cases entries.lookup name with
  | none => rfl
  | some e => simp [FileSystem.follow]

theorem Lists.isFile_child (h : fs.Lists d entries) (hup : name ≠ "..")
    (hshort : name.utf8ByteSize ≤ maxName) :
    fs.isFile (d.child name) =
      if tooLong (d.child name) then .error .nameTooLong
      else .ok ((entries.lookup name).any Entry.isFile) := by
  rw [isFile, entry?, h.find_child hup hshort]
  cases tooLong (d.child name) with
  | true => rfl
  | false => cases entries.lookup name <;> rfl

theorem Lists.find_child_eq_file (h : fs.Lists d entries) (hup : name ≠ "..")
    (hshort : name.utf8ByteSize ≤ maxName) (hlong : tooLong (d.child name) = false)
    {content : Except FileFault Source} :
    fs.find (d.child name) = .ok (.file content) ↔ entries.lookup name = some (.file content) := by
  rw [h.find_child hup hshort, hlong]
  cases entries.lookup name <;> simp

/-! ## Lengths of paths -/

theorem utf8ByteSize_intercalate (names : List String) (last : String) :
    ("/".intercalate (names ++ [last])).utf8ByteSize =
      (names.map fun name => name.utf8ByteSize + 1).sum + last.utf8ByteSize := by
  induction names with
  | nil => simp
  | cons name names ih =>
      rw [List.cons_append, String.intercalate_cons_of_ne_nil (by simp), String.utf8ByteSize_append,
        String.utf8ByteSize_append, ih, List.map_cons, List.sum_cons]
      have hslash : "/".utf8ByteSize = 1 := by decide
      omega

/-- A shorter name further up makes a shorter path. -/
theorem tooLong_child_of_prefix {name' : String} (hanchor : p.anchor = .root)
    (hd : d ∈ ancestry p) (hname : name.utf8ByteSize ≤ name'.utf8ByteSize)
    (hlong : tooLong (p.child name') = false) : tooLong (d.child name) = false := by
  obtain ⟨hroot, more, hmore⟩ := mem_ancestry.1 hd
  have hsize : ∀ (q : Path) (last : String), q.anchor = .root →
      (q.child last).toString.utf8ByteSize =
        1 + ((q.names.map fun name => name.utf8ByteSize + 1).sum + last.utf8ByteSize) := by
    intro q last hq
    rw [Path.toString, Path.child, hq, if_neg (by simp), String.utf8ByteSize_append,
      utf8ByteSize_intercalate]
    rfl
  rw [tooLong, decide_eq_false_iff_not, hsize p name' hanchor, ← hmore, List.map_append,
    List.sum_append] at hlong
  rw [tooLong, decide_eq_false_iff_not, hsize d name hroot]
  omega

end FileSystem

end ScriptLint
