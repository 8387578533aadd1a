import Mathlib.Data.List.TakeWhile
import ScriptLint.Text.Blank

/-!
# Cutting and trimming

A separator cuts a text in two, and each part is then cut on its own
(`splitWhere_append_cons`).  So pieces that are put together with separators come apart
again (`splitOn_intercalate`).  A place in a text is in the piece that has as many before it
as there are separators before the place (`getElem?_splitOn_count`).  The words of a text are
its longest runs without separators (`mem_words`).

Trimming the end of a text leaves alone what has something to keep after it
(`getElem?_dropTrailing`, `dropTrailing_append`).
-/

namespace ScriptLint.Text

/-! ## Cutting -/

section
variable {α : Type} {p : α → Bool}

/-- A text without the separator is its only piece. -/
theorem splitWhere_of_forall {as : List α} (h : ∀ a ∈ as, p a = false) :
    splitWhere p as = [as] := by
  induction as with
  | nil => rfl
  | cons a as ih =>
      rw [List.forall_mem_cons] at h
      simp [splitWhere, h.1, ih h.2]

/-- What comes before a separator and what comes after it are cut on their own. -/
theorem splitWhere_append_cons {sep : α} (hsep : p sep = true) (as bs : List α) :
    splitWhere p (as ++ sep :: bs) = splitWhere p as ++ splitWhere p bs := by
  induction as with
  | nil => simp [splitWhere, hsep]
  | cons a as ih =>
      cases h : p a with
      | true => simp [splitWhere, h, ih]
      | false =>
          obtain ⟨piece, pieces, hsplit⟩ := List.exists_cons_of_ne_nil (splitWhere_ne_nil p as)
          simp [splitWhere, h, ih, hsplit]

theorem splitOn_of_notMem [BEq α] [LawfulBEq α] {sep : α} {as : List α} (h : sep ∉ as) :
    splitOn sep as = [as] :=
  splitWhere_of_forall fun _ ha => beq_eq_false_iff_ne.2 fun he => h (he ▸ ha)

theorem splitOn_append_cons [BEq α] [LawfulBEq α] (sep : α) (as bs : List α) :
    splitOn sep (as ++ sep :: bs) = splitOn sep as ++ splitOn sep bs :=
  splitWhere_append_cons (p := (· == sep)) (beq_self_eq_true sep) as bs

/-- The first piece ends where the first separator stands. -/
theorem head?_splitWhere (as : List α) :
    (splitWhere p as).head? = some (as.takeWhile fun a => !p a) := by
  induction as with
  | nil => rfl
  | cons a as ih =>
      cases h : p a with
      | true => simp [splitWhere, h]
      | false =>
          obtain ⟨piece, pieces, hsplit⟩ := List.exists_cons_of_ne_nil (splitWhere_ne_nil p as)
          rw [hsplit, List.head?_cons, Option.some.injEq] at ih
          simp [splitWhere, h, hsplit, ih]

/-- No piece holds the separator. -/
theorem forall_mem_splitWhere (p : α → Bool) (as : List α) :
    ∀ piece ∈ splitWhere p as, ∀ a ∈ piece, p a = false := by
  induction as with
  | nil => simp [splitWhere]
  | cons a as ih =>
      cases h : p a with
      | true => simpa [splitWhere, h] using ih
      | false =>
          obtain ⟨piece, pieces, hsplit⟩ := List.exists_cons_of_ne_nil (splitWhere_ne_nil p as)
          rw [hsplit] at ih
          simpa [splitWhere, h, hsplit] using ih

/-- Pieces that are put together come apart again. -/
theorem splitOn_intercalate [BEq α] [LawfulBEq α] {sep : α} {pieces : List (List α)}
    (hne : pieces ≠ []) (h : ∀ piece ∈ pieces, sep ∉ piece) :
    splitOn sep ([sep].intercalate pieces) = pieces := by
  have hfree : ∀ piece ∈ pieces, ∀ a ∈ piece, (a == sep) = false := by
    intro piece hpiece a ha
    exact beq_eq_false_iff_ne.2 fun he => h piece hpiece (he ▸ ha)
  induction pieces with
  | nil => exact absurd rfl hne
  | cons piece pieces ih =>
      obtain ⟨hpiece, hpieces⟩ := List.forall_mem_cons.1 hfree
      cases pieces with
      | nil => simpa [splitOn, List.intercalate] using splitWhere_of_forall hpiece
      | cons next pieces =>
          have hrest := ih (by simp) (List.forall_mem_cons.1 h).2 hpieces
          have hfirst : splitOn sep piece = [piece] := splitWhere_of_forall hpiece
          rw [List.intercalate_cons_cons, List.append_assoc, List.singleton_append,
            splitOn_append_cons, hfirst, hrest, List.singleton_append]

end

/-! ## The last piece -/

section
variable {α : Type} [BEq α] [LawfulBEq α] {sep : α}

/-- What comes after the last separator. -/
def lastPiece (sep : α) (as : List α) : List α :=
  (as.reverse.takeWhile (· != sep)).reverse

theorem notMem_lastPiece (sep : α) (as : List α) : sep ∉ lastPiece sep as := by
  intro h
  have hne := List.mem_takeWhile_imp (List.mem_reverse.1 h)
  simp at hne

theorem lastPiece_append {s t : List α} (h : sep ∉ t) :
    lastPiece sep (s ++ t) = lastPiece sep s ++ t := by
  have hall : ∀ a ∈ t.reverse, (a != sep) = true := fun a ha =>
    bne_iff_ne.2 fun he => h (he ▸ List.mem_reverse.1 ha)
  rw [lastPiece, List.reverse_append, List.takeWhile_append_of_pos hall, List.reverse_append,
    List.reverse_reverse, ← lastPiece]

theorem lastPiece_append_cons {s t : List α} (h : sep ∉ t) :
    lastPiece sep (s ++ sep :: t) = t := by
  rw [List.append_cons, lastPiece_append h]
  simp [lastPiece]

theorem lastPiece_of_notMem {as : List α} (h : sep ∉ as) : lastPiece sep as = as :=
  lastPiece_append h (s := [])

/-- There is no separator, or there is a last one. -/
theorem eq_lastPiece_or (sep : α) (as : List α) :
    lastPiece sep as = as ∨ ∃ above, as = above ++ sep :: lastPiece sep as := by
  by_cases h : sep ∈ as
  · obtain ⟨below, above, hsplit, hbelow⟩ := List.eq_append_cons_of_mem (List.mem_reverse.2 h)
    have has : as = above.reverse ++ sep :: below.reverse := by
      simpa using congrArg List.reverse hsplit
    refine .inr ⟨above.reverse, ?_⟩
    rw [has, lastPiece_append_cons (by simpa using hbelow)]
  · exact .inl (lastPiece_of_notMem h)

/-- The piece that a place is in is the last one before it and what comes up to the next
separator. -/
theorem getElem?_splitOn_count (sep : α) (as bs : List α) :
    (splitOn sep (as ++ bs))[as.count sep]? =
      some (lastPiece sep as ++ bs.takeWhile (· != sep)) := by
  have hlast : ∀ a ∈ lastPiece sep as, (a != sep) = true := fun a ha =>
    bne_iff_ne.2 fun he => notMem_lastPiece sep as (he ▸ ha)
  have hfirst : (splitOn sep (lastPiece sep as ++ bs))[0]? =
      some (lastPiece sep as ++ bs.takeWhile (· != sep)) := by
    rw [← List.head?_eq_getElem?, splitOn, head?_splitWhere]
    exact congrArg some (List.takeWhile_append_of_pos hlast)
  rcases eq_lastPiece_or sep as with has | ⟨above, has⟩
  · have hcount : as.count sep = 0 := List.count_eq_zero.2 (has ▸ notMem_lastPiece sep as)
    rw [has] at hfirst
    rw [hcount, hfirst, has]
  · have hsplit : as ++ bs = above ++ sep :: (lastPiece sep as ++ bs) := by
      rw [← List.cons_append, ← List.append_assoc, ← has]
    have hcount : as.count sep = (splitOn sep above).length := by
      rw [splitOn, length_splitWhere, has, List.count_append, List.count_cons_self,
        List.count_eq_zero.2 (notMem_lastPiece sep as)]
      rfl
    have hcut : splitOn sep (as ++ bs) = splitOn sep above ++ splitOn sep (lastPiece sep as ++ bs) := by
      rw [hsplit, splitOn_append_cons]
    rw [hcut, hcount, List.getElem?_append_right (Nat.le_refl _), Nat.sub_self, hfirst]

end

/-! ## Words -/

section
variable {sep : Char → Bool}

/-- A run of a text without separators that cannot be made longer.  On both sides it meets a
separator or the end of the text. -/
structure IsRun (sep : Char → Bool) (s run : List Char) : Prop where
  /-- It is not empty. -/
  ne_nil : run ≠ []
  /-- It holds no separator. -/
  solid : ∀ c ∈ run, sep c = false
  /-- It stands in the text, and a separator or nothing is next to it. -/
  stands : ∃ before after, s = before ++ run ++ after ∧
    (∀ c ∈ before.getLast?, sep c = true) ∧ ∀ c ∈ after.head?, sep c = true

/-- A separator parts the words before it from those after it. -/
theorem words_append_cons {c : Char} (hc : sep c = true) (s t : List Char) :
    words sep (s ++ c :: t) = words sep s ++ words sep t := by
  rw [words, words, words, splitWhere_append_cons hc, List.filter_append]

theorem words_of_solid {run : List Char} (hne : run ≠ []) (h : ∀ c ∈ run, sep c = false) :
    words sep run = [run] := by
  rw [words, splitWhere_of_forall h]
  simp [hne]

/-- Separators in front of a text do not change its words. -/
theorem words_append_of_forall {gap : List Char} (hgap : ∀ c ∈ gap, sep c = true)
    (t : List Char) : words sep (gap ++ t) = words sep t := by
  induction gap with
  | nil => rfl
  | cons c gap ih =>
      rw [List.forall_mem_cons] at hgap
      exact (words_append_cons hgap.1 [] (gap ++ t)).trans (ih hgap.2)

/-- Nor do separators behind it. -/
theorem words_append_of_forall_right {gap : List Char} (hgap : ∀ c ∈ gap, sep c = true)
    (s : List Char) : words sep (s ++ gap) = words sep s := by
  cases gap with
  | nil => rw [List.append_nil]
  | cons c gap =>
      have hnone : words sep (gap ++ []) = [] :=
        words_append_of_forall (List.forall_mem_cons.1 hgap).2 []
      rw [List.append_nil] at hnone
      rw [words_append_cons (hgap c List.mem_cons_self), hnone, List.append_nil]

/-- A run and a separator behind it give a word of their own. -/
theorem words_run_append {run : List Char} (hne : run ≠ []) (h : ∀ c ∈ run, sep c = false)
    {t : List Char} (ht : ∀ c ∈ t.head?, sep c = true) :
    words sep (run ++ t) = run :: words sep t := by
  cases t with
  | nil =>
      rw [List.append_nil, words_of_solid hne h]
      rfl
  | cons c t =>
      have hc : sep c = true := ht c rfl
      have hbehind : words sep (c :: t) = words sep t := words_append_cons hc [] t
      rw [words_append_cons hc, words_of_solid hne h, hbehind]
      rfl

/-- A run is a word. -/
theorem IsRun.mem_words {s run : List Char} (h : IsRun sep s run) : run ∈ words sep s := by
  obtain ⟨before, after, rfl, hbefore, hafter⟩ := h.stands
  have hrun : run ∈ words sep (run ++ after) := by
    rw [words_run_append h.ne_nil h.solid hafter]
    exact List.mem_cons_self
  rw [List.append_assoc]
  cases hlast : before.getLast? with
  | none =>
      rw [List.getLast?_eq_none_iff.1 hlast]
      exact hrun
  | some c =>
      obtain ⟨front, rfl⟩ := List.getLast?_eq_some_iff.1 hlast
      rw [List.append_assoc, List.singleton_append, words_append_cons (hbefore c hlast)]
      exact List.mem_append_right _ hrun

/-- What is a run behind a separator is one of the whole text. -/
theorem IsRun.append_cons {s run : List Char} (h : IsRun sep s run) (front : List Char) {c : Char}
    (hc : sep c = true) : IsRun sep (front ++ c :: s) run := by
  obtain ⟨before, after, rfl, hbefore, hafter⟩ := h.stands
  refine ⟨h.ne_nil, h.solid, front ++ c :: before, after, by simp, fun d hd => ?_, hafter⟩
  cases hlast : before.getLast? with
  | none =>
      rw [List.getLast?_eq_none_iff.1 hlast, List.getLast?_concat] at hd
      cases hd
      exact hc
  | some e =>
      rw [List.getLast?_append, List.getLast?_cons, hlast] at hd
      cases hd
      exact hbefore e hlast

/-- The words of a text are its longest runs without separators. -/
theorem mem_words {s run : List Char} : run ∈ words sep s ↔ IsRun sep s run := by
  refine ⟨fun h => ?_, IsRun.mem_words⟩
  -- the first word ends where the first separator stands, and the others stand behind that
  induction hlength : s.length using Nat.strong_induction_on generalizing s with
  | _ n ih =>
  have hsplit := List.takeWhile_append_dropWhile (p := (!sep ·)) (l := s)
  have hfirst : ∀ c ∈ s.takeWhile (!sep ·), sep c = false := fun c hc => by
    simpa using List.mem_takeWhile_imp hc
  have hsolid : run ∈ words sep (s.takeWhile (!sep ·)) →
      run = s.takeWhile (!sep ·) ∧ run ≠ [] := by
    intro hrun
    rw [words, splitWhere_of_forall hfirst, List.mem_filter, List.mem_singleton] at hrun
    exact ⟨hrun.1, by simpa using hrun.2⟩
  cases hrest : s.dropWhile (!sep ·) with
  | nil =>
      rw [hrest, List.append_nil] at hsplit
      rw [hsplit] at hfirst hsolid
      obtain ⟨rfl, hne⟩ := hsolid h
      exact ⟨hne, hfirst, [], [], by simp, by simp, by simp⟩
  | cons c rest =>
      have hc : sep c = true := by
        simpa [hrest] using List.head_dropWhile_not (!sep ·) (l := s) (by simp [hrest])
      rw [hrest] at hsplit
      rw [← hsplit, words_append_cons hc, List.mem_append] at h
      rw [← hsplit]
      cases h with
      | inl hhere =>
          obtain ⟨rfl, hne⟩ := hsolid hhere
          exact ⟨hne, hfirst, [], c :: rest, by simp, by simp, by simpa using hc⟩
      | inr hbehind =>
          have hshorter : rest.length < n := by
            rw [← hlength, ← hsplit, List.length_append, List.length_cons]
            omega
          exact (ih rest.length hshorter hbehind rfl).append_cons _ hc

end

/-! ## Trimming -/

theorem dropTrailing_eq_nil {p : Char → Bool} {s : List Char} :
    dropTrailing p s = [] ↔ ∀ c ∈ s, p c = true := by
  simp [dropTrailing]

/-- Nothing is left of a text exactly if it is blank. -/
theorem strip_eq_nil {s : List Char} : strip s = [] ↔ ∀ c ∈ s, isBlank c = true := by
  rw [strip, dropTrailing_eq_nil]
  constructor
  · intro h c hc
    rw [← List.takeWhile_append_dropWhile (p := isBlank) (l := s), List.mem_append] at hc
    exact hc.elim List.mem_takeWhile_imp (h c)
  · exact fun h c hc => h c ((List.dropWhile_sublist _).subset hc)

theorem stripped_eq_empty {s : String} :
    stripped s = "" ↔ ∀ c ∈ s.toList, isBlank c = true := by
  rw [← strip_eq_nil, stripped, ← String.toList_inj, String.toList_ofList]
  rfl

theorem exists_dropTrailing (p : Char → Bool) (s : List Char) :
    ∃ trailing, (∀ c ∈ trailing, p c = true) ∧ s = dropTrailing p s ++ trailing := by
  refine ⟨(s.reverse.takeWhile p).reverse, fun c hc => ?_, ?_⟩
  · exact List.mem_takeWhile_imp (List.mem_reverse.1 hc)
  · rw [dropTrailing, ← List.reverse_append, List.takeWhile_append_dropWhile, List.reverse_reverse]

/-- A trimmed text does not start with a blank. -/
theorem isBlank_of_mem_head?_strip {s : List Char} : ∀ c ∈ (strip s).head?, isBlank c = false := by
  intro c hc
  obtain ⟨trailing, _, hsplit⟩ := exists_dropTrailing isBlank (s.dropWhile isBlank)
  have hhead : (s.dropWhile isBlank).head? = some c := by
    rw [hsplit, ← strip, List.head?_append, hc]
    rfl
  have hnot := List.head?_dropWhile_not isBlank s
  rwa [hhead] at hnot

/-- Nor does it end with one. -/
theorem isBlank_of_mem_getLast?_strip {s : List Char} :
    ∀ c ∈ (strip s).getLast?, isBlank c = false := by
  intro c hc
  rw [strip, dropTrailing, List.getLast?_reverse] at hc
  have hnot := List.head?_dropWhile_not isBlank (s.dropWhile isBlank).reverse
  rwa [hc] at hnot

/-- What is to be trimmed may as well be gone. -/
theorem dropTrailing_append_of_forall {p : Char → Bool} {trailing : List Char}
    (h : ∀ c ∈ trailing, p c = true) (s : List Char) :
    dropTrailing p (s ++ trailing) = dropTrailing p s := by
  rw [dropTrailing, dropTrailing, List.reverse_append, List.dropWhile_append_of_pos]
  intro c hc
  exact h c (List.mem_reverse.1 hc)

/-- A text with something to keep at its end stays as it is in front of another one. -/
theorem dropTrailing_append {p : Char → Bool} {s : List Char} (hne : s ≠ [])
    (h : ∀ c ∈ s.getLast?, p c = false) (t : List Char) :
    dropTrailing p (s ++ t) = s ++ dropTrailing p t := by
  have hkept : s.reverse.dropWhile p = s.reverse := by
    obtain ⟨front, c, rfl⟩ := List.eq_nil_or_concat s |>.resolve_left hne
    simpa using h c (by simp)
  rw [dropTrailing, dropTrailing, List.reverse_append, List.dropWhile_append, hkept]
  split
  · next hempty =>
      rw [List.isEmpty_iff.1 hempty, List.reverse_reverse, List.reverse_nil, List.append_nil]
  · rw [List.reverse_append, List.reverse_reverse]

/-- A character stays if something that is not trimmed comes after it, or it is such itself. -/
theorem getElem?_dropTrailing {p : Char → Bool} {s : List Char} {i : Nat}
    (h : ∃ c ∈ s.drop i, p c = false) : (dropTrailing p s)[i]? = s[i]? := by
  obtain ⟨trailing, hall, hsplit⟩ := exists_dropTrailing p s
  obtain ⟨c, hc, hp⟩ := h
  generalize dropTrailing p s = kept at hsplit
  subst hsplit
  rcases Nat.lt_or_ge i kept.length with hlt | hge
  · rw [List.getElem?_append_left hlt]
  · rw [List.drop_append, List.drop_eq_nil_of_le hge, List.nil_append] at hc
    rw [hall c (List.mem_of_mem_drop hc)] at hp
    cases hp

end ScriptLint.Text
