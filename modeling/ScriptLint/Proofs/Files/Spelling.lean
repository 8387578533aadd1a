import Mathlib.Data.List.Basic
import Mathlib.Data.List.TakeWhile
import ScriptLint.Path
import ScriptLint.Proofs.Text.Cutting

/-!
# Paths and their texts

A path that was read from a text has names that a text can spell: they are not
empty, they are not `.`, and they hold no slash.  Such a path is `Normal`, and its
text reads back as the path (`Path.Normal.ofString_toString`).  So a table by the
texts of such paths is a table by paths.
-/

namespace ScriptLint

namespace Path

/-- A text can spell the name. -/
structure Spellable (name : String) : Prop where
  ne_empty : name ≠ ""
  ne_dot : name ≠ "."
  noSlash : '/' ∉ name.toList

/-- A text can spell the path. -/
def Normal (p : Path) : Prop :=
  ∀ name ∈ p.names, Spellable name

theorem ofString_normal (s : String) : (ofString s).Normal := by
  intro name hname
  obtain ⟨hpiece, hkept⟩ := List.mem_filter.1 hname
  obtain ⟨piece, hmem, rfl⟩ := List.mem_map.1 hpiece
  simp only [bne_iff_ne, ne_eq, Bool.and_eq_true] at hkept
  refine ⟨hkept.1, hkept.2, ?_⟩
  intro hslash
  rw [String.toList_ofList] at hslash
  have := Text.forall_mem_splitWhere (· == '/') s.toList piece hmem '/' hslash
  simp at this

theorem Normal.descend {p : Path} (h : p.Normal) {names : List String}
    (hnames : ∀ name ∈ names, Spellable name) : (p.descend names).Normal := by
  intro name hname
  rcases List.mem_append.1 hname with hname | hname
  · exact h name hname
  · exact hnames name hname

/-- The suffix is in the last name. -/
theorem suffix_descend (p : Path) {names : List String} (h : names ≠ []) :
    (p.descend names).suffix = (Path.mk .here names).suffix := by
  simp [suffix, name, descend, List.getLast?_append_of_ne_nil _ h]

/-! ## Reading back -/

theorem namesOf_cons_slash (s : List Char) : namesOf ('/' :: s) = namesOf s := by
  simp [namesOf, Text.splitOn, Text.splitWhere]

/-- The names of a path, put together, are read as these names. -/
theorem namesOf_intercalate {names : List String} (h : ∀ name ∈ names, Spellable name) :
    namesOf ("/".intercalate names).toList = names := by
  have htext : ("/".intercalate names).toList = ['/'].intercalate (names.map String.toList) :=
    String.toList_intercalate
  cases names with
  | nil => decide
  | cons name names =>
      have hsplit : Text.splitOn '/' (['/'].intercalate ((name :: names).map String.toList)) =
          (name :: names).map String.toList :=
        Text.splitOn_intercalate (by simp) (List.forall_mem_map.2 fun n hn => (h n hn).noSlash)
      rw [namesOf, htext, hsplit, List.map_map]
      have hid : (name :: names).map (String.ofList ∘ String.toList) = name :: names := by
        simp
      rw [hid, List.filter_eq_self]
      intro n hn
      simp [(h n hn).ne_empty, (h n hn).ne_dot]

/-- The text of names does not start with a slash. -/
theorem takeWhile_intercalate {names : List String} (h : ∀ name ∈ names, Spellable name) :
    ("/".intercalate names).toList.takeWhile (· == '/') = [] := by
  cases names with
  | nil => rfl
  | cons name names =>
      obtain ⟨hne, -, hslash⟩ := h name List.mem_cons_self
      obtain ⟨c, cs, hname⟩ := List.exists_cons_of_ne_nil (mt String.toList_eq_nil_iff.1 hne)
      rw [hname, List.mem_cons, not_or] at hslash
      have hc : (c == '/') = false := beq_eq_false_iff_ne.2 (Ne.symm hslash.1)
      cases names with
      | nil => simp [hname, hc]
      | cons next names => simp [String.toList_intercalate, hname, hc]

theorem ofString_text {anchor : Anchor} {names : List String} (h : ∀ name ∈ names, Spellable name) :
    ofString (anchor.text ++ "/".intercalate names) = ⟨anchor, names⟩ := by
  have hanchor := takeWhile_intercalate h
  have hnames := namesOf_intercalate h
  generalize "/".intercalate names = t at hanchor hnames ⊢
  cases anchor with
  | here => simp [ofString, Anchor.text, anchorOf, hanchor, hnames]
  | root => simp [ofString, Anchor.text, anchorOf, hanchor, hnames, namesOf_cons_slash]
  | doubleRoot => simp [ofString, Anchor.text, anchorOf, hanchor, hnames, namesOf_cons_slash]

theorem Normal.ofString_toString {p : Path} (h : p.Normal) : ofString p.toString = p := by
  obtain ⟨anchor, names⟩ := p
  unfold toString
  split
  next hempty =>
    obtain ⟨rfl, rfl⟩ := hempty
    decide
  next => exact ofString_text h

end Path

end ScriptLint
