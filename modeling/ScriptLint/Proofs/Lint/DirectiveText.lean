import Mathlib.Data.Bool.AllAny
import Mathlib.Tactic.MkIffOfInductiveProp
import ScriptLint.Lint.Directive
import ScriptLint.Proofs.Text.Cutting

/-!
# The text of a directive

A directive that is written in a comment is read back as it was meant, whatever separates the
codes and whatever the explanation says.  And a comment that is read as a directive is written
like one (`Directive.parse_exact`).

The reading goes in three steps, and each has its own lemma: the delimiters and the blanks go
(`commentBody_lineComment`, `commentBody_blockComment`), then the word and the mark of the
whole file (`parse?_of_body`, `body_of_parse?`), then what comes after two dashes
(`beforeDashes_upToDashes`).  What is left is cut into words, which `Text.mem_words` describes.
-/

namespace ScriptLint

namespace Directive

/-! ## Two dashes -/

/-- What an explanation starts with. -/
def dashes : List Char := ['-', '-']

/-- A text up to the first two dashes in a row, or all of it if there are none. -/
structure UpToDashes (part s : List Char) : Prop where
  /-- The text starts with it, and then come two dashes or nothing. -/
  stops : ∃ tail, s = part ++ tail ∧ (tail = [] ∨ dashes <+: tail)
  /-- No two dashes stand before. -/
  first : ∀ i < part.length, ¬ dashes <+: s.drop i

theorem beforeDashes_upToDashes (s : List Char) : UpToDashes (beforeDashes s) s := by
  fun_induction beforeDashes s with
  | case1 => exact ⟨⟨[], rfl, .inl rfl⟩, by simp⟩
  | case2 t => exact ⟨⟨'-' :: '-' :: t, rfl, .inr ⟨t, rfl⟩⟩, by simp⟩
  | case3 c s hno ih =>
      obtain ⟨tail, hsplit, htail⟩ := ih.stops
      refine ⟨⟨tail, congrArg (c :: ·) hsplit, htail⟩, fun i hi hdashes => ?_⟩
      cases i with
      | zero =>
          obtain ⟨t, ht⟩ := hdashes
          exact hno t (List.cons.inj ht).1.symm (List.cons.inj ht).2.symm
      | succ i => exact ih.first i (Nat.lt_of_succ_lt_succ hi) hdashes

/-- A text without two dashes in a row is kept. -/
theorem beforeDashes_of_noDashes {s : List Char} (h : ¬ dashes <:+: s) : beforeDashes s = s := by
  obtain ⟨tail, hsplit, htail⟩ := (beforeDashes_upToDashes s).stops
  cases htail with
  | inl hnil => rw [hnil, List.append_nil] at hsplit; exact hsplit.symm
  | inr hdashes =>
      rw [hsplit] at h
      exact absurd (hdashes.isInfix.trans (List.suffix_append _ _).isInfix) h

theorem beforeDashes_cons {c : Char} {s : List Char} (h : c = '-' → s.head? ≠ some '-') :
    beforeDashes (c :: s) = c :: beforeDashes s :=
  beforeDashes.eq_3 c s fun _ hc hs => h hc (hs ▸ rfl)

/-- A text is kept in front of another one, if no two dashes are in it or meet where the other
one starts. -/
theorem beforeDashes_append {s t : List Char} (hs : ¬ dashes <:+: s)
    (hmeet : s.getLast? = some '-' → t.head? ≠ some '-') :
    beforeDashes (s ++ t) = s ++ beforeDashes t := by
  induction s with
  | nil => rfl
  | cons c s ih =>
      have hrest : ¬ dashes <:+: s := fun h => hs (h.trans (List.suffix_cons c s).isInfix)
      cases s with
      | nil => exact beforeDashes_cons fun hc => hmeet (hc ▸ rfl)
      | cons d s =>
          have hcons : beforeDashes (c :: (d :: s ++ t)) = c :: beforeDashes (d :: s ++ t) :=
            beforeDashes_cons fun hc hd =>
              hs ⟨[], s, by rw [hc, Option.some.inj hd]; rfl⟩
          rw [List.cons_append, hcons, ih hrest hmeet]
          rfl

/-- What comes after two dashes does not matter. -/
theorem beforeDashes_append_of_dashes {s : List Char} (hs : dashes <:+: s) (t : List Char) :
    beforeDashes (s ++ t) = beforeDashes s := by
  fun_induction beforeDashes s with
  | case1 => cases List.infix_nil.1 hs
  | case2 u => rfl
  | case3 c s hno ih =>
      cases List.infix_cons_iff.1 hs with
      | inl hhere =>
          obtain ⟨u, hu⟩ := hhere
          exact absurd (List.cons.inj hu).2.symm (hno u (List.cons.inj hu).1.symm)
      | inr hlater =>
          have hkeep : beforeDashes (c :: (s ++ t)) = c :: beforeDashes (s ++ t) :=
            beforeDashes_cons fun hc hd => by
              cases s with
              | nil => cases List.infix_nil.1 hlater
              | cons d s => exact hno s hc (congrArg (· :: s) (Option.some.inj hd))
          rw [List.cons_append, hkeep, ih hlater]

/-- No dash is a separator. -/
theorem ne_dash_of_isSeparator {c : Char} (hc : isSeparator c = true) : c ≠ '-' := by
  rintro rfl
  revert hc
  decide

theorem noDashes_of_isSeparator {s : List Char} (h : ∀ c ∈ s, isSeparator c = true) :
    ¬ dashes <:+: s := fun hdashes =>
  ne_dash_of_isSeparator (h '-' (hdashes.subset List.mem_cons_self)) rfl

/-! ## Codes and explanations -/

/-- What stands between codes: blanks and commas, at least one of them. -/
structure Gap where
  /-- The characters. -/
  chars : List Char
  /-- There are some. -/
  ne_nil : chars ≠ []
  /-- They are blanks and commas. -/
  separate : ∀ c ∈ chars, isSeparator c = true

/-- A code that can be listed. -/
structure Code where
  /-- The characters. -/
  chars : List Char
  /-- There are some. -/
  ne_nil : chars ≠ []
  /-- None is a blank or a comma. -/
  solid : ∀ c ∈ chars, isSeparator c = false
  /-- No two of them in a row are dashes. -/
  noDashes : ¬ dashes <:+: chars

/-- The text of codes, each with the gap in front of it. -/
def listing (codes : List (Gap × Code)) : List Char :=
  codes.flatMap fun (gap, code) => gap.chars ++ code.chars

/-- The text of an explanation with the gap in front of it. -/
def explaining : Option (Gap × List Char) → List Char
  | none => []
  | some (gap, words) => gap.chars ++ (dashes ++ words)

/-- What can be written after the word of a directive. -/
structure Wording where
  /-- Whether it speaks of the whole file. -/
  wholeFile : Bool
  /-- The codes, each with the gap in front of it. -/
  codes : List (Gap × Code)
  /-- What follows the two dashes of an explanation, with the gap in front of them. -/
  explanation? : Option (Gap × List Char)
  /-- The first gap starts with a blank. -/
  startsBlank : ∀ c ∈ (listing codes ++ explaining explanation?).head?, Text.isBlank c = true

/-- What comes right after the word. -/
def mark (wholeFile : Bool) : List Char :=
  if wholeFile then fileMark else []

namespace Wording

/-- The text after the word and the mark. -/
def text (w : Wording) : List Char :=
  listing w.codes ++ explaining w.explanation?

/-- What it says. -/
def meaning (w : Wording) : Directive :=
  ⟨w.wholeFile, w.codes.map fun (_, code) => String.ofList code.chars⟩

end Wording

theorem listing_cons_append (gap : Gap) (code : Code) (codes : List (Gap × Code))
    (s : List Char) :
    listing ((gap, code) :: codes) ++ s = gap.chars ++ (code.chars ++ (listing codes ++ s)) := by
  rw [listing, List.flatMap_cons, List.append_assoc, List.append_assoc]
  rfl

namespace Gap

theorem head_isSeparator (gap : Gap) (s : List Char) :
    ∀ c ∈ (gap.chars ++ s).head?, isSeparator c = true := by
  intro c hc
  rw [List.head?_append, List.head?_eq_some_head gap.ne_nil] at hc
  exact gap.separate c (Option.some.inj hc ▸ List.head_mem gap.ne_nil)

theorem beforeDashes_append (gap : Gap) (s : List Char) :
    beforeDashes (gap.chars ++ s) = gap.chars ++ beforeDashes s :=
  Directive.beforeDashes_append (noDashes_of_isSeparator gap.separate) fun hdash =>
    absurd rfl (ne_dash_of_isSeparator (gap.separate '-' (List.mem_of_getLast? hdash)))

end Gap

theorem head_explaining (explanation? : Option (Gap × List Char)) :
    ∀ c ∈ (explaining explanation?).head?, isSeparator c = true := by
  cases explanation? with
  | none => simp [explaining]
  | some explanation => exact explanation.1.head_isSeparator _

theorem head_listing_append (codes : List (Gap × Code)) {s : List Char}
    (hs : ∀ c ∈ s.head?, isSeparator c = true) :
    ∀ c ∈ (listing codes ++ s).head?, isSeparator c = true := by
  cases codes with
  | nil => exact hs
  | cons item codes =>
      rw [listing_cons_append]
      exact item.1.head_isSeparator _

/-- Codes stay when what comes after two dashes goes. -/
theorem beforeDashes_listing_append (codes : List (Gap × Code)) {s : List Char}
    (hs : ∀ c ∈ s.head?, isSeparator c = true) :
    beforeDashes (listing codes ++ s) = listing codes ++ beforeDashes s := by
  induction codes with
  | nil => rfl
  | cons item codes ih =>
      obtain ⟨gap, code⟩ := item
      have hcode : beforeDashes (code.chars ++ (listing codes ++ s)) =
          code.chars ++ beforeDashes (listing codes ++ s) :=
        beforeDashes_append code.noDashes fun _ hdash =>
          ne_dash_of_isSeparator (head_listing_append codes hs '-' hdash) rfl
      rw [listing_cons_append, gap.beforeDashes_append, hcode, ih, listing_cons_append]

/-- Of an explanation only the gap stays. -/
theorem beforeDashes_explaining (explanation? : Option (Gap × List Char)) :
    ∀ c ∈ beforeDashes (explaining explanation?), isSeparator c = true := by
  cases explanation? with
  | none => simp [explaining, beforeDashes]
  | some explanation =>
      obtain ⟨gap, words⟩ := explanation
      have hnone : beforeDashes (dashes ++ words) = [] := rfl
      rw [explaining, gap.beforeDashes_append, hnone, List.append_nil]
      exact gap.separate

/-- Codes are the words of their text. -/
theorem words_listing_append (codes : List (Gap × Code)) {s : List Char}
    (hs : ∀ c ∈ s, isSeparator c = true) :
    Text.words isSeparator (listing codes ++ s) = codes.map fun (_, code) => code.chars := by
  induction codes with
  | nil =>
      have hnone : Text.words isSeparator (s ++ []) = [] := Text.words_append_of_forall hs []
      rwa [List.append_nil] at hnone
  | cons item codes ih =>
      obtain ⟨gap, code⟩ := item
      have hhead : ∀ c ∈ (listing codes ++ s).head?, isSeparator c = true :=
        head_listing_append codes fun c hc => hs c (List.mem_of_mem_head? hc)
      rw [listing_cons_append, Text.words_append_of_forall gap.separate,
        Text.words_run_append code.ne_nil code.solid hhead, ih]
      rfl

theorem isSeparator_of_isBlank {c : Char} (hc : Text.isBlank c = true) : isSeparator c = true := by
  rw [isSeparator, hc, Bool.true_or]

/-- Separators at the end do not change the codes.  They go with what comes after two dashes, or
they stand behind the last word. -/
theorem codesIn_append_of_forall {gap : List Char} (hgap : ∀ c ∈ gap, isSeparator c = true)
    (s : List Char) : codesIn (s ++ gap) = codesIn s := by
  rw [codesIn, codesIn]
  by_cases hdashes : dashes <:+: s
  · rw [beforeDashes_append_of_dashes hdashes]
  · have hmeet : s.getLast? = some '-' → gap.head? ≠ some '-' := fun _ hdash =>
      ne_dash_of_isSeparator (hgap '-' (List.mem_of_mem_head? hdash)) rfl
    rw [beforeDashes_append hdashes hmeet, beforeDashes_of_noDashes hdashes,
      beforeDashes_of_noDashes (noDashes_of_isSeparator hgap),
      Text.words_append_of_forall_right hgap]

/-- The codes of a wording are read back. -/
theorem codesIn_text (w : Wording) :
    codesIn (Text.dropTrailing Text.isBlank w.text) = w.meaning.codes := by
  obtain ⟨blanks, hblanks, hsplit⟩ := Text.exists_dropTrailing Text.isBlank w.text
  have hcodes : codesIn w.text = w.meaning.codes := by
    rw [codesIn, Wording.text, beforeDashes_listing_append _ (head_explaining _),
      words_listing_append _ (beforeDashes_explaining _), List.map_map]
    rfl
  have hgap : ∀ c ∈ blanks, isSeparator c = true := fun c hc =>
    isSeparator_of_isBlank (hblanks c hc)
  rw [← codesIn_append_of_forall hgap, ← hsplit, hcodes]

/-! ## The word -/

/-- A text after a word is nothing or starts with a blank. -/
theorem endsWord_iff {s : List Char} :
    endsWord s = true ↔ ∀ c ∈ s.head?, Text.isBlank c = true := by
  cases s <;> simp [endsWord]

theorem after?_append (start s : List Char) : after? start (start ++ s) = some s := by
  have hstarts : start.isPrefixOf (start ++ s) = true :=
    List.isPrefixOf_iff_prefix.2 (List.prefix_append _ _)
  rw [after?, if_pos hstarts, List.drop_left]

theorem eq_append_of_after? {start s rest : List Char} (h : after? start s = some rest) :
    s = start ++ rest := by
  rw [after?] at h
  split at h
  · next hstarts =>
      obtain ⟨t, rfl⟩ := List.isPrefixOf_iff_prefix.1 hstarts
      rw [List.drop_left] at h
      rw [Option.some.inj h]
  · cases h

/-- A word and what can be written after it are read. -/
theorem parse?_of_body {word comment rest : List Char} {wholeFile : Bool}
    (hbody : commentBody comment = word ++ mark wholeFile ++ rest) (hrest : endsWord rest = true) :
    parse? word comment = some ⟨wholeFile, codesIn rest⟩ := by
  rw [parse?, hbody, List.append_assoc, after?_append, Option.bind_eq_bind, Option.bind_some]
  cases wholeFile with
  | true =>
      rw [mark, if_pos rfl, after?_append, Option.filter_some_pos hrest]
  | false =>
      have hnone : after? fileMark rest = none := by
        cases rest with
        | nil => rfl
        | cons c rest =>
            have hdash : '-' ≠ c := by
              rintro rfl
              cases hrest
            simp [after?, fileMark, hdash]
      simp only [mark, Bool.false_eq_true, if_false, List.nil_append, hnone, Option.filter_none]
      rw [if_pos hrest]

/-- A comment that is read as a directive has the word and something that can come after it. -/
theorem body_of_parse? {word comment : List Char} {d : Directive}
    (h : parse? word comment = some d) :
    ∃ rest, commentBody comment = word ++ mark d.wholeFile ++ rest ∧ endsWord rest = true ∧
      d.codes = codesIn rest := by
  rw [parse?, Option.bind_eq_bind, Option.bind_eq_some_iff] at h
  obtain ⟨after, hafter, hread⟩ := h
  rw [eq_append_of_after? hafter]
  split at hread
  · next rest hrest =>
      obtain ⟨hmark, hends⟩ := Option.filter_eq_some_iff.1 hrest
      cases hread
      exact ⟨rest, by rw [eq_append_of_after? hmark, List.append_assoc]; rfl, hends, rfl⟩
  · split at hread
    · next hends =>
        cases hread
        exact ⟨after, by rw [List.append_assoc]; rfl, hends, rfl⟩
    · cases hread

/-- A word that directives can start with: not empty, and without blanks at its two ends. -/
@[mk_iff]
structure IsWord (word : List Char) : Prop where
  /-- It is not empty. -/
  ne_nil : word ≠ []
  /-- It does not start with a blank. -/
  head : ∀ c ∈ word.head?, Text.isBlank c = false
  /-- It does not end with a blank. -/
  last : ∀ c ∈ word.getLast?, Text.isBlank c = false

instance (word : List Char) : Decidable (IsWord word) :=
  decidable_of_iff (word ≠ [] ∧ (word.head?.all fun c => !Text.isBlank c) = true ∧
      (word.getLast?.all fun c => !Text.isBlank c) = true) <| by
    simp only [Option.all_eq_true, Bool.not_eq_true', isWord_iff, Option.mem_def]

namespace IsWord

variable {word : List Char}

/-- With the mark behind it a word is still one. -/
theorem append_mark (h : IsWord word) (wholeFile : Bool) : IsWord (word ++ mark wholeFile) := by
  refine ⟨List.append_ne_nil_of_left_ne_nil h.ne_nil _, fun c hc => ?_, fun c hc => ?_⟩
  · rw [List.head?_append, List.head?_eq_some_head h.ne_nil] at hc
    exact h.head c (by rw [List.head?_eq_some_head h.ne_nil]; exact hc)
  · cases wholeFile with
    | false =>
        rw [mark, if_neg Bool.false_ne_true, List.append_nil] at hc
        exact h.last c hc
    | true =>
        rw [mark, if_pos rfl, List.getLast?_append] at hc
        cases hc
        rfl

/-- Trimmed, a word with text behind it and blanks around starts with the word. -/
theorem strip_append (h : IsWord word) {lead trail : List Char}
    (hlead : ∀ c ∈ lead, Text.isBlank c = true) (htrail : ∀ c ∈ trail, Text.isBlank c = true)
    (s : List Char) :
    Text.strip (lead ++ (word ++ s) ++ trail) = word ++ Text.dropTrailing Text.isBlank s := by
  have hstart : (lead ++ (word ++ s) ++ trail).dropWhile Text.isBlank = word ++ s ++ trail := by
    rw [List.append_assoc, List.dropWhile_append_of_pos hlead]
    cases word with
    | nil => exact absurd rfl h.ne_nil
    | cons c word =>
        have hc : Text.isBlank c = false := h.head c rfl
        simp [hc]
  rw [Text.strip, hstart, Text.dropTrailing_append_of_forall htrail,
    Text.dropTrailing_append h.ne_nil h.last]

/-- What is left of a text without the blanks at its ends is a word, if anything is left. -/
theorem of_strip {s : List Char} (h : Text.strip s ≠ []) : IsWord (Text.strip s) :=
  ⟨h, Text.isBlank_of_mem_head?_strip, Text.isBlank_of_mem_getLast?_strip⟩

end IsWord

/-! ## Comments -/

/-- A text in a comment that ends with its line. -/
def lineComment (s : List Char) : List Char := '/' :: '/' :: s

/-- A text in a comment between delimiters. -/
def blockComment (s : List Char) : List Char := '/' :: '*' :: (s ++ ['*', '/'])

theorem commentBody_lineComment (s : List Char) : commentBody (lineComment s) = Text.strip s :=
  rfl

theorem commentBody_blockComment (s : List Char) : commentBody (blockComment s) = Text.strip s := by
  have hends : ['*', '/'].isSuffixOf ('/' :: '*' :: (s ++ ['*', '/'])) = true :=
    List.isSuffixOf_iff_suffix.2 (List.suffix_append ('/' :: '*' :: s) _)
  have hinside : (s ++ ['*', '/']).dropLast.dropLast = s := by
    rw [List.append_cons, List.dropLast_concat, List.dropLast_concat]
  rw [blockComment, commentBody, if_pos hends, hinside]

/-- What is written between blanks is read. -/
theorem parse?_of_strip {word comment lead trail : List Char} (hword : IsWord word)
    (hlead : ∀ c ∈ lead, Text.isBlank c = true) (htrail : ∀ c ∈ trail, Text.isBlank c = true)
    (w : Wording) (hbody : commentBody comment =
      Text.strip (lead ++ (word ++ mark w.wholeFile ++ w.text) ++ trail)) :
    parse? word comment = some w.meaning := by
  have hends : endsWord (Text.dropTrailing Text.isBlank w.text) = true := by
    obtain ⟨blanks, _, hsplit⟩ := Text.exists_dropTrailing Text.isBlank w.text
    refine endsWord_iff.2 fun c hc => w.startsBlank c ?_
    rw [← Wording.text, hsplit, List.head?_append, hc]
    rfl
  rw [(hword.append_mark w.wholeFile).strip_append hlead htrail] at hbody
  rw [parse?_of_body hbody hends, codesIn_text]
  rfl

/-- **Directives are read as they are written.**  What is written after the word is read back,
in both kinds of comments and with any blanks around it: the mark of the whole file and the
codes, whatever is between them and whatever the explanation says.

And what is read is written.  The body of a comment that is read as a directive is the word,
the mark if it speaks of the whole file, and nothing or a text that starts with a blank.  The
codes are the runs without blanks and commas in the part of that text before the first two
dashes.  Any other comment is no directive. -/
theorem parse_exact {word : List Char} (hword : IsWord word) :
    (∀ (w : Wording) (lead trail : List Char),
      (∀ c ∈ lead, Text.isBlank c = true) → (∀ c ∈ trail, Text.isBlank c = true) →
      parse? word (lineComment (lead ++ (word ++ mark w.wholeFile ++ w.text) ++ trail)) =
        some w.meaning ∧
      parse? word (blockComment (lead ++ (word ++ mark w.wholeFile ++ w.text) ++ trail)) =
        some w.meaning) ∧
    ∀ comment,
      (∀ d, parse? word comment = some d →
        ∃ rest part, commentBody comment = word ++ mark d.wholeFile ++ rest ∧
          (∀ c ∈ rest.head?, Text.isBlank c = true) ∧ UpToDashes part rest ∧
          ∀ code, code ∈ d.codes ↔ Text.IsRun isSeparator part code.toList) ∧
      (parse? word comment = none ↔
        ¬ ∃ wholeFile rest, commentBody comment = word ++ mark wholeFile ++ rest ∧
          ∀ c ∈ rest.head?, Text.isBlank c = true) := by
  refine ⟨fun w lead trail hlead htrail => ⟨?_, ?_⟩, fun comment => ⟨fun d hd => ?_, ?_⟩⟩
  · exact parse?_of_strip hword hlead htrail w (commentBody_lineComment _)
  · exact parse?_of_strip hword hlead htrail w (commentBody_blockComment _)
  · obtain ⟨rest, hbody, hrest, hcodes⟩ := body_of_parse? hd
    refine ⟨rest, beforeDashes rest, hbody, endsWord_iff.1 hrest, beforeDashes_upToDashes rest, ?_⟩
    intro code
    rw [hcodes, codesIn, ← Text.mem_words, List.mem_map]
    constructor
    · rintro ⟨run, hrun, rfl⟩
      rwa [String.toList_ofList]
    · exact fun hrun => ⟨code.toList, hrun, String.ofList_toList⟩
  · constructor
    · rintro hnone ⟨wholeFile, rest, hbody, hrest⟩
      rw [parse?_of_body hbody (endsWord_iff.2 hrest)] at hnone
      cases hnone
    · intro hno
      cases hread : parse? word comment with
      | none => rfl
      | some d =>
          obtain ⟨rest, hbody, hrest, _⟩ := body_of_parse? hread
          exact absurd ⟨d.wholeFile, rest, hbody, endsWord_iff.1 hrest⟩ hno

/-- A directive for the whole file with an explanation. -/
def skipAll : Wording where
  wholeFile := true
  codes := [(⟨[' '], by decide, List.all_iff_forall_prop.1 (by decide)⟩,
      ⟨"a-".toList, by decide, List.all_iff_forall_prop.1 (by decide), by decide⟩),
    (⟨[',', '\n'], by decide, List.all_iff_forall_prop.1 (by decide)⟩,
      ⟨"-file".toList, by decide, List.all_iff_forall_prop.1 (by decide), by decide⟩)]
  explanation? := some (⟨[' '], by decide, List.all_iff_forall_prop.1 (by decide)⟩, " b, c".toList)
  startsBlank := by
    intro c hc
    cases hc
    decide

theorem parse_skipAll : IsWord "s.*p".toList ∧ (∀ c ∈ [' '], Text.isBlank c = true) ∧
    parse? "s.*p".toList "/* s.*p-file a-,\n-file -- b, c */".toList =
      some ⟨true, ["a-", "-file"]⟩ := by
  have hword : IsWord "s.*p".toList := by decide
  have hblank : ∀ c ∈ [' '], Text.isBlank c = true := List.all_iff_forall_prop.1 (by decide)
  exact ⟨hword, hblank, ((parse_exact hword).1 skipAll [' '] [' '] hblank hblank).2⟩

end Directive

end ScriptLint
