import ScriptLint.Lint.Directive
import ScriptLint.Proofs.Syntax.Walk

/-!
# What the directives of a program silence

Directives are merged one after another, and a list of codes that has become
empty stands for all codes.  What comes out silences exactly what one of the
directives silences (`Directives.suppresses_exact`).

A merge is a fold.  `Directives.Silences` is what a single comment does, and the
folds over comments silence what one of the comments in them does
(`fileCodes_any`, `lineCodes_any`).  The order of the comments is gone after that
step, so the merge gives the same in any order.  What remains is to say which
comments are gathered (`mem_leadingComments`, `mem_comments`).
-/

namespace ScriptLint

namespace Directive

/-- The directive lists the code, or it lists none and so means all. -/
def Silences (d : Directive) (code : String) : Prop :=
  d.codes = [] ∨ code ∈ d.codes

theorem covers_codes_iff {d : Directive} {code : String} :
    covers d.codes code = true ↔ d.Silences code := by
  simp [covers, Silences]

/-- A directive silences what it silences alone, and what was silenced before. -/
theorem covers_joined (codes : List String) (before? : Option (List String)) (code : String) :
    covers (joined codes before?) code = (before?.any (covers · code) || covers codes code) := by
  cases before? with
  | none => rfl
  | some before => exact covers_join before codes code

end Directive

namespace Directives

/-! ## Single comments -/

/-- The comment silences a code in the whole file. -/
def SilencesFile (source : Source) (word code : String) (comment : Node) : Prop :=
  ∃ d, directiveIn? source word comment = some d ∧ d.wholeFile = true ∧ d.Silences code

/-- The comment ends on the line before `line` and silences a code there. -/
def SilencesLine (source : Source) (word code : String) (line : Int) (comment : Node) : Prop :=
  ∃ d, directiveIn? source word comment = some d ∧ d.wholeFile = false ∧ d.Silences code ∧
    (source.rangeOf comment).stop.line + 1 = line

/-! ## Merges -/

variable (source : Source) (word : String)

/-- The codes that some comments silence in the whole file, merged in order. -/
def fileCodesIn (comments : List Node) : Option (List String) :=
  ((comments.filterMap (directiveIn? source word)).filter (·.wholeFile)).foldl
    (fun codes? d => some (Directive.joined d.codes codes?)) none

/-- One more comment merged into the codes by line. -/
def mergeLine (lines : List (Int × List String)) (comment : Node) : List (Int × List String) :=
  match directiveIn? source word comment with
  | some d =>
      if d.wholeFile then lines
      else Keyed.update (targetLine source comment) (Directive.joined d.codes) lines
  | none => lines

/-- What some leading comments and some comments silence, merged in order. -/
def merge (leading comments : List Node) : Directives :=
  ⟨fileCodesIn source word leading, comments.foldl (mergeLine source word) []⟩

theorem ofProgram_eq_merge (p : Program) :
    ofProgram word p = merge p.source word (leadingComments p.root) (comments p.root) :=
  rfl

variable {source word}

theorem foldl_joined_any (code : String) :
    ∀ (ds : List Directive) (codes? : Option (List String)),
      ((ds.foldl (fun codes? d => some (Directive.joined d.codes codes?)) codes?).any
        (Directive.covers · code) = true) ↔
      codes?.any (Directive.covers · code) = true ∨ ∃ d ∈ ds, d.Silences code
  | [], codes? => by simp
  | d :: ds, codes? => by
      rw [List.foldl_cons, foldl_joined_any code ds, Option.any_some, Directive.covers_joined,
        Bool.or_eq_true, Directive.covers_codes_iff, List.exists_mem_cons_iff, or_assoc]

/-- Leading comments together silence what one of them silences. -/
theorem fileCodes_any {code : String} {leading : List Node} :
    (fileCodesIn source word leading).any (Directive.covers · code) = true ↔
      ∃ c ∈ leading, SilencesFile source word code c := by
  rw [fileCodesIn, foldl_joined_any]
  simp only [Option.any_none, Bool.false_eq_true, false_or, List.mem_filter, List.mem_filterMap]
  constructor
  · rintro ⟨d, ⟨⟨c, hc, hd⟩, hfile⟩, hcode⟩
    exact ⟨c, hc, d, hd, hfile, hcode⟩
  · rintro ⟨c, hc, d, hd, hfile, hcode⟩
    exact ⟨d, ⟨⟨c, hc, hd⟩, hfile⟩, hcode⟩

/-- A comment adds what it silences, on its own line only. -/
theorem mergeLine_any {code : String} {line : Int} {lines : List (Int × List String)} {c : Node} :
    ((mergeLine source word lines c).lookup line).any (Directive.covers · code) = true ↔
      (lines.lookup line).any (Directive.covers · code) = true ∨
        SilencesLine source word code line c := by
  unfold mergeLine SilencesLine
  cases hd : directiveIn? source word c with
  | none => simp
  | some d =>
      cases hfile : d.wholeFile with
      | true => simp [hfile]
      | false =>
          have htarget : targetLine source c = (source.rangeOf c).stop.line + 1 := rfl
          simp only [Bool.false_eq_true, if_false, Option.some.injEq, exists_eq_left', hfile,
            true_and, Keyed.lookup_update]
          by_cases hline : line = targetLine source c
          · rw [if_pos (beq_iff_eq.2 hline), Option.any_some, Directive.covers_joined,
              Bool.or_eq_true, Directive.covers_codes_iff, hline]
            simp [htarget]
          · rw [if_neg (by simpa using hline)]
            have hne : ¬ (source.rangeOf c).stop.line + 1 = line := fun h => hline (h ▸ htarget)
            simp [hne]

/-- Comments together silence on a line what one of them silences there. -/
theorem lineCodes_any {code : String} {line : Int} :
    ∀ (comments : List Node) (lines : List (Int × List String)),
      ((comments.foldl (mergeLine source word) lines).lookup line).any
        (Directive.covers · code) = true ↔
      (lines.lookup line).any (Directive.covers · code) = true ∨
        ∃ c ∈ comments, SilencesLine source word code line c
  | [], lines => by simp
  | c :: comments, lines => by
      rw [List.foldl_cons, lineCodes_any comments, mergeLine_any, List.exists_mem_cons_iff,
        or_assoc]

/-- A merge silences what one of its comments silences. -/
theorem suppresses_merge {leading comments : List Node} {d : Diagnostic} :
    (merge source word leading comments).suppresses d = true ↔
      (∃ c ∈ leading, SilencesFile source word d.code c) ∨
        ∃ c ∈ comments, SilencesLine source word d.code d.line c := by
  rw [suppresses, Bool.or_eq_true, merge, fileCodes_any, lineCodes_any]
  simp

/-! ## Which comments are gathered -/

theorem not_hashbang_of_isComment {c : Node} (h : isComment c = true) :
    hashbangKinds.contains c.kind = false := by
  rw [isComment, beq_iff_eq] at h
  rw [h]
  decide

/-- The way to an element of a list starts at the head, or passes it. -/
theorem exists_split_cons {n c : Node} {l : List Node} {P : Prop} {Q : Node → Prop} :
    (∃ before after, n :: l = before ++ c :: after ∧ P ∧ ∀ b ∈ before, Q b) ↔
      (n = c ∧ P) ∨ Q n ∧ ∃ before after, l = before ++ c :: after ∧ P ∧ ∀ b ∈ before, Q b := by
  constructor
  · rintro ⟨before, after, hsplit, hc, hbefore⟩
    cases before with
    | nil =>
        rw [List.nil_append, List.cons.injEq] at hsplit
        exact Or.inl ⟨hsplit.1, hc⟩
    | cons b before =>
        rw [List.cons_append, List.cons.injEq] at hsplit
        rw [List.forall_mem_cons] at hbefore
        exact Or.inr ⟨hsplit.1 ▸ hbefore.1, before, after, hsplit.2, hc, hbefore.2⟩
  · rintro (⟨rfl, hc⟩ | ⟨hn, before, after, rfl, hc, hbefore⟩)
    · exact ⟨[], l, rfl, hc, fun b hb => nomatch hb⟩
    · exact ⟨n :: before, after, rfl, hc, List.forall_mem_cons.2 ⟨hn, hbefore⟩⟩

theorem mem_takeWhile_isComment {c : Node} :
    ∀ {l : List Node},
      c ∈ (l.filter fun n => !hashbangKinds.contains n.kind).takeWhile isComment ↔
        ∃ before after, l = before ++ c :: after ∧ isComment c = true ∧
          ∀ b ∈ before, isComment b = true ∨ b.kind ∈ hashbangKinds
  | [] => by simp
  | n :: l => by
      rw [exists_split_cons, ← mem_takeWhile_isComment]
      cases hhash : hashbangKinds.contains n.kind with
      | true =>
          have hno : n = c → ¬ isComment c = true := by
            rintro rfl hcomment
            rw [not_hashbang_of_isComment hcomment] at hhash
            cases hhash
          rw [List.filter_cons_of_neg (by simp [List.contains_iff_mem.1 hhash])]
          constructor
          · exact fun hc => Or.inr ⟨Or.inr (List.contains_iff_mem.1 hhash), hc⟩
          · rintro (⟨he, hcomment⟩ | ⟨-, hc⟩)
            · exact absurd hcomment (hno he)
            · exact hc
      | false =>
          have hmem : n.kind ∉ hashbangKinds := fun h => by
            rw [List.contains_iff_mem.2 h] at hhash
            cases hhash
          rw [List.filter_cons_of_pos (by simp [hmem]), List.takeWhile_cons]
          cases hn : isComment n with
          | true =>
              rw [if_pos rfl, List.mem_cons, or_iff_left hmem]
              constructor
              · rintro (rfl | hc)
                · exact Or.inl ⟨rfl, hn⟩
                · exact Or.inr ⟨rfl, hc⟩
              · rintro (⟨rfl, -⟩ | ⟨-, hc⟩)
                · exact Or.inl rfl
                · exact Or.inr hc
          | false =>
              have hno : n = c → ¬ isComment c = true := by
                rintro rfl
                simp [hn]
              simpa [hmem] using hno

/-- A leading comment is a child of the root that only comments and the
interpreter's line come before. -/
theorem mem_leadingComments {root c : Node} :
    c ∈ leadingComments root ↔
      ∃ before after, root.namedChildren = before ++ c :: after ∧ isComment c = true ∧
        ∀ b ∈ before, isComment b = true ∨ b.kind ∈ hashbangKinds :=
  mem_takeWhile_isComment

/-- The walk that does not enter comments goes wherever no comment is above. -/
theorem mem_walk_outside_comments {root : Node} {s : Site} :
    s ∈ root.walk (fun parent child => !isComment parent && child.named) ↔
      s ∈ root.reached ∧ ∀ a ∈ s.enclosing, isComment a.node = false := by
  constructor
  · intro hs
    have henter (parent child : Node) (he : (!isComment parent && child.named) = true) :
        child.named = true := (Bool.and_eq_true_iff.1 he).2
    refine ⟨(Node.walk_sublist henter root).subset hs, ?_⟩
    refine Node.walk_induction (P := fun s => ∀ a ∈ s.enclosing, isComment a.node = false)
      ?_ ?_ s hs
    · intro a ha
      cases ha
    · intro s c _ ih hc he
      rw [Site.enclosing_of_mem_children hc, List.forall_mem_cons]
      rw [Bool.and_eq_true, Bool.not_eq_true'] at he
      exact ⟨he.1, ih⟩
  · rintro ⟨hs, habove⟩
    refine Node.walk_induction (P := fun s => (∀ a ∈ s.enclosing, isComment a.node = false) →
      s ∈ root.walk _) (fun _ => Node.root_mem_walk root) ?_ s hs habove
    intro s c _ ih hc hnamed habove
    rw [Site.enclosing_of_mem_children hc, List.forall_mem_cons] at habove
    exact Node.mem_walk_of_child (ih habove.2) hc (by simp [habove.1, hnamed])

/-- The comments are those that are reached and not inside another one. -/
theorem mem_comments {root c : Node} :
    c ∈ comments root ↔
      ∃ s ∈ root.reached, s.node = c ∧ isComment c = true ∧
        ∀ a ∈ s.enclosing, isComment a.node = false := by
  simp only [comments, List.mem_filter, List.mem_map]
  constructor
  · rintro ⟨⟨s, hs, rfl⟩, hcomment⟩
    obtain ⟨hreached, habove⟩ := mem_walk_outside_comments.1 hs
    exact ⟨s, hreached, rfl, hcomment, habove⟩
  · rintro ⟨s, hs, rfl, hcomment, habove⟩
    exact ⟨⟨s, mem_walk_outside_comments.2 ⟨hs, habove⟩, rfl⟩, hcomment⟩

/-! ## All directives of a program -/

/-- **Suppression is exactly that some directive matches.**  A diagnostic is
silenced by a file directive among the leading comments, or by a directive for
its line in a comment anywhere.  The comments may be merged in any order. -/
theorem suppresses_exact (word : String) (p : Program) (d : Diagnostic) :
    ((ofProgram word p).suppresses d = true ↔
      (∃ before c after, p.root.namedChildren = before ++ c :: after ∧ isComment c = true ∧
        (∀ b ∈ before, isComment b = true ∨ b.kind ∈ hashbangKinds) ∧
        SilencesFile p.source word d.code c) ∨
      ∃ s ∈ p.root.reached, isComment s.node = true ∧
        (∀ a ∈ s.enclosing, isComment a.node = false) ∧
        SilencesLine p.source word d.code d.line s.node) ∧
    ∀ leading comments', leading.Perm (leadingComments p.root) →
      comments'.Perm (comments p.root) →
      (merge p.source word leading comments').suppresses d = (ofProgram word p).suppresses d := by
  constructor
  · rw [ofProgram_eq_merge, suppresses_merge]
    refine or_congr ?_ ?_
    · constructor
      · rintro ⟨c, hc, hsilences⟩
        obtain ⟨before, after, hsplit, hcomment, hbefore⟩ := mem_leadingComments.1 hc
        exact ⟨before, c, after, hsplit, hcomment, hbefore, hsilences⟩
      · rintro ⟨before, c, after, hsplit, hcomment, hbefore, hsilences⟩
        exact ⟨c, mem_leadingComments.2 ⟨before, after, hsplit, hcomment, hbefore⟩, hsilences⟩
    · constructor
      · rintro ⟨c, hc, hsilences⟩
        obtain ⟨s, hs, rfl, hcomment, habove⟩ := mem_comments.1 hc
        exact ⟨s, hs, hcomment, habove, hsilences⟩
      · rintro ⟨s, hs, hcomment, habove, hsilences⟩
        exact ⟨s.node, mem_comments.2 ⟨s, hs, rfl, hcomment, habove⟩, hsilences⟩
  · intro leading comments' hleading hcomments
    rw [Bool.eq_iff_iff, ofProgram_eq_merge, suppresses_merge, suppresses_merge]
    simp only [hleading.mem_iff, hcomments.mem_iff]

end Directives

end ScriptLint
