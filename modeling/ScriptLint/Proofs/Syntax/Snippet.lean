import ScriptLint.Proofs.Syntax.FirstError
import ScriptLint.Proofs.Text.LineBreaks

/-!
# The snippet of a syntax error

A strict parse that blames a node for what stands there quotes how its text starts.  The text can
be any characters, for it is read from any bytes.  If all of them are blank, the source ends too
early, and nothing is quoted.  If not, the trimmed text starts with a character that is no blank,
and so it ends no line.  This is why the first line is not empty, and the snippet that is taken
from it is not either (`isSnippet_snippetOf`).  No other piece that can be shown is longer
(`IsSnippet.begins_snippetOf`).

The reason is on one line in any case (`ParseFault.splitLines_message`), for it holds fixed words
and quoted text.
-/

namespace ScriptLint

/-! ## Snippets -/

/-- A piece of a text that can be shown for the text. -/
structure IsSnippet (snippet text : List Char) : Prop where
  /-- It is not empty. -/
  ne_nil : snippet ≠ []
  /-- It has at most twenty characters. -/
  short : snippet.length ≤ 20
  /-- The trimmed text starts with it. -/
  begins : snippet <+: Text.strip text
  /-- It does not start with a blank. -/
  solid : ∀ c ∈ snippet.head?, Text.isBlank c = false
  /-- No line ends in it. -/
  unbroken : Text.Unbroken snippet

/-- The first twenty characters of the first line of the trimmed text. -/
def snippetOf (text : List Char) : List Char :=
  ((Text.strip text).takeWhile (!Text.isLineBreak ·)).take 20

section
variable {text : List Char}

/-- What is left of a text that is not blank starts with a character that ends no line. -/
theorem exists_strip_eq_cons (h : ¬ ∀ c ∈ text, Text.isBlank c = true) :
    ∃ c rest, Text.strip text = c :: rest ∧ Text.isBlank c = false ∧ Text.isLineBreak c = false := by
  have hne : Text.strip text ≠ [] := fun hnil => h (Text.strip_eq_nil.1 hnil)
  obtain ⟨c, rest, hstrip⟩ := List.exists_cons_of_ne_nil hne
  have hblank : Text.isBlank c = false :=
    Text.isBlank_of_mem_head?_strip c (by rw [hstrip, List.head?_cons]; rfl)
  refine ⟨c, rest, hstrip, hblank, Bool.eq_false_iff.2 fun hbreak => ?_⟩
  rw [Text.isBlank_of_isLineBreak hbreak] at hblank
  cases hblank

/-- A text that is not blank has a snippet. -/
theorem isSnippet_snippetOf (h : ¬ ∀ c ∈ text, Text.isBlank c = true) :
    IsSnippet (snippetOf text) text := by
  obtain ⟨c, rest, hstrip, hblank, hbreak⟩ := exists_strip_eq_cons h
  have hstarts : snippetOf text = c :: (rest.takeWhile (!Text.isLineBreak ·)).take 19 := by
    rw [snippetOf, hstrip, List.takeWhile_cons_of_pos (by simp [hbreak]), List.take_succ_cons]
  refine ⟨?_, List.length_take_le .., ?_, ?_, ?_⟩
  · rw [hstarts]
    exact List.cons_ne_nil _ _
  · have hline : snippetOf text <+: _ := List.take_prefix 20 _
    exact hline.trans <| List.takeWhile_prefix _
  · rw [hstarts]
    exact fun d hd => Option.some.inj hd ▸ hblank
  · intro d hd
    simpa using List.mem_takeWhile_imp (List.mem_of_mem_take hd)

/-- Every other one is the start of it. -/
theorem IsSnippet.begins_snippetOf {s : List Char} (h : IsSnippet s text) :
    s <+: snippetOf text := by
  obtain ⟨rest, hrest⟩ := h.begins
  have hline : s <+: (Text.strip text).takeWhile (!Text.isLineBreak ·) := by
    rw [← hrest, List.takeWhile_append_of_pos fun c hc => by simp [h.unbroken c hc]]
    exact List.prefix_append ..
  exact List.prefix_take_iff.2 ⟨hline, h.short⟩

end

/-! ## Reasons -/

namespace ParseFault

variable {text : List Char}

theorem ofChars_of_blank (h : ∀ c ∈ text, Text.isBlank c = true) :
    ofChars text = .unexpectedEnd := by
  rw [ofChars, Text.strip_eq_nil.2 h]
  rfl

theorem ofChars_of_not_blank (h : ¬ ∀ c ∈ text, Text.isBlank c = true) :
    ofChars text = .unexpected (String.ofList (snippetOf text)) := by
  have hfirst := Text.headD_splitLines (Text.strip text)
  rw [ofChars, snippetOf, ← hfirst]
  split
  · next hnil => exact absurd (Text.strip_eq_nil.1 (Text.splitLines_eq_nil.1 hnil)) h
  · next hlines => rw [hlines, List.headD_cons]

theorem message_unexpected (snippet : String) :
    (unexpected snippet).message = "Unexpected token " ++ Text.quoted snippet :=
  rfl

/-- A quoted snippet is told from the end of the source by the words before it. -/
theorem message_unexpected_ne (snippet : String) :
    (unexpected snippet).message ≠ unexpectedEnd.message := by
  intro h
  have hword : ("Unexpected token ".toList ++ (Text.quoted snippet).toList).take 17 =
      unexpectedEnd.message.toList.take 17 := by
    rw [← String.toList_append, ← message_unexpected, h]
  rw [List.take_append_of_le_length (by decide)] at hword
  revert hword
  decide

theorem message_ofChars_eq_iff :
    (ofChars text).message = unexpectedEnd.message ↔ ∀ c ∈ text, Text.isBlank c = true := by
  refine ⟨fun h => ?_, fun h => by rw [ofChars_of_blank h]⟩
  by_contra hnot
  rw [ofChars_of_not_blank hnot] at h
  exact message_unexpected_ne _ h

/-- Fixed words and quoted text make one line. -/
theorem splitLines_append_quoted (words s : String) (hne : words.toList ≠ [])
    (hwords : Text.Unbroken words.toList) :
    Text.splitLines (words ++ Text.quoted s).toList = [(words ++ Text.quoted s).toList] := by
  rw [Text.splitLines_eq_singleton_iff, String.toList_append]
  exact ⟨List.append_ne_nil_of_left_ne_nil hne _,
    Text.unbroken_append.2 ⟨hwords, Text.unbroken_quoted s⟩⟩

/-- The wording of a fault is one line, whatever is wrong. -/
theorem splitLines_message (fault : ParseFault) :
    Text.splitLines fault.message.toList = [fault.message.toList] := by
  cases fault with
  | expected kind => exact splitLines_append_quoted "Expected " kind (by decide) (by decide)
  | unexpected snippet =>
      exact splitLines_append_quoted "Unexpected token " snippet (by decide) (by decide)
  | unexpectedEnd => decide

end ParseFault

/-! ## Strict parses -/

/-- The node that a strict reading blames, if it blames any. -/
def Program.blamed? (p : Program) : Option Node :=
  if p.root.faulty then some (p.root.firstError?.getD p.root) else none

/-- The syntax error is at the start of the blamed node, and tells what that one is blamed for. -/
theorem Program.parseError?_eq_map_blamed? (p : Program) :
    p.parseError? = p.blamed?.map fun n => ⟨p.filename, (p.source.position n.start).line,
      (p.source.position n.start).col, p.faultOf n⟩ := by
  rw [parseError?, blamed?]
  split
  · rfl
  · rfl

/-- **The snippet of a syntax error can be shown.**  Whatever the bytes are, a strict parse that
blames a node fails.  Let the node not be a missing one.  The reason is that the input has ended
exactly if the text of the node is blank.  If the text is not blank, the reason quotes a snippet:
it has a character and at most twenty, it starts the trimmed text, it does not start with a blank,
and no line ends in it.  No longer piece of the text is like this.  The reason is one line in any
case. -/
theorem parse_snippet_exact (grammar : Grammar) (filename : String) (dialect : Dialect)
    (source : Source) {n : Node}
    (hblamed : (Program.ofSource grammar filename dialect source).blamed? = some n)
    (hthere : n.missing = false) :
    let text := source.charsOf n
    ∃ e, (parse grammar true filename dialect source).result = .error (.syntaxError e) ∧
      (e.reason = "Unexpected end of input" ↔ ∀ c ∈ text, Text.isBlank c = true) ∧
      ((¬ ∀ c ∈ text, Text.isBlank c = true) →
        e.reason = "Unexpected token " ++ Text.quoted (String.ofList (snippetOf text)) ∧
          IsSnippet (snippetOf text) text ∧
          ∀ piece, IsSnippet piece text → piece <+: snippetOf text) ∧
      Text.splitLines e.reason.toList = [e.reason.toList] := by
  intro text
  have hresult := result_parse grammar filename dialect source
  rw [Program.parseError?_eq_map_blamed?, hblamed, Option.map_some] at hresult
  have hfault : (Program.ofSource grammar filename dialect source).faultOf n =
      ParseFault.ofChars text := if_neg (by simp [hthere])
  rw [hfault] at hresult
  refine ⟨_, hresult, ParseFault.message_ofChars_eq_iff, fun hnot => ⟨?_, ?_, ?_⟩,
    ParseFault.splitLines_message _⟩
  · rw [ParseError.reason, ParseFault.ofChars_of_not_blank hnot, ParseFault.message_unexpected]
  · exact isSnippet_snippetOf hnot
  · exact fun piece hpiece => hpiece.begins_snippetOf

/-- A program with one error that takes up all of it. -/
def strayReturn : Program where
  filename := "stray.js"
  dialect := .javascript
  source := ⟨[0x1C, 0xC2, 0x85, 0xFF, 0x27, 0x09, 0x61, 0x0D, 0x62]⟩
  root :=
    .mk ⟨"program", true, false, true, 0, 9, none⟩ [
      .mk ⟨"ERROR", true, false, true, 0, 9, none⟩ []]

/-- Two line breaks stand in front, then a byte that is no character, and a return that no line
feed follows ends the first line.  The tab in the snippet is written by its letter. -/
theorem parse_strayReturn :
    let p := strayReturn
    ∃ n e, p.blamed? = some n ∧ n.missing = false ∧
      (parse ⟨fun _ _ => p.root⟩ true p.filename p.dialect p.source).result =
        .error (.syntaxError e) ∧
      e.reason = "Unexpected token \"\uFFFD'\\ta\"" ∧
      IsSnippet ['\uFFFD', '\'', '\t', 'a'] (p.source.charsOf n) ∧
      Text.splitLines e.reason.toList = [e.reason.toList] := by
  intro p
  let n : Node := .mk ⟨"ERROR", true, false, true, 0, 9, none⟩ []
  have hblamed : p.blamed? = some n := by
    rw [Program.blamed?, Node.firstError?_eq_find? (by decide)]
    rfl
  obtain ⟨e, hresult, -, hquotes, hline⟩ :=
    parse_snippet_exact ⟨fun _ _ => p.root⟩ p.filename p.dialect p.source hblamed rfl
  have hsnippet : snippetOf (p.source.charsOf n) = ['\uFFFD', '\'', '\t', 'a'] := by decide
  have hsolid : ¬ ∀ c ∈ p.source.charsOf n, Text.isBlank c = true := fun h =>
    absurd (h 'a' (by decide)) (by decide)
  obtain ⟨hreason, hshown, -⟩ := hquotes hsolid
  rw [hsnippet] at hreason hshown
  have hquoted : Text.quoted (String.ofList ['\uFFFD', '\'', '\t', 'a']) = "\"\uFFFD'\\ta\"" := by
    decide +kernel
  rw [hquoted] at hreason
  exact ⟨n, e, hblamed, rfl, hresult, hreason, hshown, hline⟩

end ScriptLint
