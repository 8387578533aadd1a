import ScriptLint.Proofs.Lint.Sorting
import ScriptLint.Proofs.Text.Rows

/-!
# The line that a diagnostic shows

A diagnostic keeps the text of the line that it starts on.  The line is looked up by its
number, and what it shows is the row of bytes that the diagnostic starts on
(`Rule.context_diagnostic`).  This holds of bytes that are not UTF-8 too, for rows and lines
stay in step (`Program.lines_exact`).

A finding has to tell a position of its source for that, and not just any numbers.  A rule
that reports ranges of nodes does so (`Rule.Places`), and all rules of the library do.
-/

namespace ScriptLint

/-! ## Places of findings -/

/-- A finding starts at the position of a byte of the source. -/
def Finding.StartsIn (source : Source) (f : Finding) : Prop :=
  f.range.start = source.position f.range.start.byte

/-- A rule whose findings start at positions of the source. -/
def Rule.Places (r : Rule) : Prop :=
  ∀ p, ∀ f ∈ r.findings p, f.StartsIn p.source

namespace Rule

variable {r : Rule}

/-- What a rule finds at accesses and what it finds at nodes is all that it finds. -/
theorem places_of (hmember : ∀ p scopes a, ∀ f ∈ r.onMember p scopes a, f.StartsIn p.source)
    (hnode : ∀ p s, ∀ f ∈ r.onNode p s, f.StartsIn p.source) : r.Places := by
  intro p f hf
  obtain ⟨visit, -, hf⟩ := List.mem_flatMap.1 hf
  cases visit with
  | member site =>
      rw [findingsAt] at hf
      split at hf
      · exact hmember p _ _ f hf
      · cases hf
  | node site => exact hnode p site f hf

theorem places_windowAccess : WindowAccess.rule.Places := by
  refine places_of (fun p scopes a f hf => ?_) fun p s f hf => by cases hf
  simp only [WindowAccess.rule, List.mem_ite_nil_right, List.mem_singleton] at hf
  obtain ⟨-, rfl⟩ := hf
  rfl

theorem places_of_mem_all (h : r ∈ all) : r.Places := by
  obtain rfl := List.mem_singleton.1 h
  exact places_windowAccess

/-! ## Contexts -/

/-- A diagnostic shows the row that it starts on. -/
theorem context_diagnostic {p : Program} {f : Finding} (h : f.StartsIn p.source) :
    (r.diagnostic p f).context = Source.shown (p.source.rowAt f.range.start.byte) := by
  have hline : (r.diagnostic p f).context =
      p.source.lineText (p.source.position f.range.start.byte).line :=
    congrArg (fun place : Position => p.source.lineText place.line) h
  rw [hline, Source.lineText_position]

theorem context_of_mem_check (h : r.Places) {p : Program} {d : Diagnostic} (hd : d ∈ r.check p) :
    d.context = Source.shown (p.source.rowAt d.range.start.byte) := by
  obtain ⟨f, hf, rfl⟩ := List.mem_map.1 hd
  exact context_diagnostic (h p f hf)

end Rule

theorem Linter.context_of_mem_lint {l : Linter} (h : ∀ r ∈ l.rules, r.Places) {p : Program}
    {d : Diagnostic} (hd : d ∈ l.lint p) :
    d.context = Source.shown (p.source.rowAt d.range.start.byte) := by
  obtain ⟨r, hr, hd⟩ := l.exists_of_mem_lint p hd
  exact Rule.context_of_mem_check (h r hr) hd

/-- **Lines are rows.**  Whatever the bytes of a source are, the pieces of its text are what
is read of its rows, and its lines are the rows as they are shown.  There is one line more
than there are line feeds, and the line of each position is among them.  The number of that
line, from 0, is the number of the row that the byte is on, and a diagnostic that starts
there shows this row.  All diagnostics of a linter do so, if its rules report positions of
the source, as the rules of the library do. -/
theorem Program.lines_exact (p : Program) :
    let s := p.source
    Text.splitOn '\n' (Utf8.decode s.bytes) =
        (Text.splitOn Source.lineFeed s.bytes).map Utf8.decode ∧
      s.lines = (Text.splitOn Source.lineFeed s.bytes).map Source.shown ∧
      s.lines.length = s.bytes.count Source.lineFeed + 1 ∧
      (∀ byte, 1 ≤ (s.position byte).line ∧ (s.position byte).line ≤ s.lines.length) ∧
      (∀ byte, (Text.splitOn Source.lineFeed s.bytes)[s.row byte]? = some (s.rowAt byte)) ∧
      (∀ (r : Rule) (f : Finding) byte, f.range.start = s.position byte →
        (r.diagnostic p f).context = Source.shown (s.rowAt byte)) ∧
      (∀ l : Linter, (∀ r ∈ l.rules, r.Places) → ∀ d ∈ l.lint p,
        d.context = Source.shown (s.rowAt d.range.start.byte)) ∧
      ∀ r ∈ Rule.all, r.Places := by
  intro s
  refine ⟨Source.splitOn_decode s.bytes, s.lines_eq, s.length_lines, s.line_le_length_lines,
    s.getElem?_splitOn_row, fun r f byte hstart => ?_, fun l hl d hd => ?_, fun r hr => ?_⟩
  · have hbyte : f.range.start.byte = byte := congrArg Position.byte hstart
    rw [Rule.context_diagnostic (hstart.trans (by rw [hbyte])), hbyte]
  · exact Linter.context_of_mem_lint hl hd
  · exact Rule.places_of_mem_all hr

/-- An access between two rows that end with returns.  The first of them holds a byte that begins
a character and does not finish it, and the access is followed by a byte that fits nowhere. -/
def strayBytes : Program where
  filename := "a.js"
  dialect := .javascript
  source :=
    ⟨[0xC3, 0x0D, 0x0A] ++ (Source.ofString "window.fetch").bytes ++ [0xFF, 0x0D, 0x0D, 0x0A]⟩
  root := .mk ⟨"program", true, false, false, 3, 15, none⟩ [
    .mk ⟨"member_expression", true, false, false, 3, 15, none⟩ [
      .mk ⟨"identifier", true, false, false, 3, 9, some "object"⟩ [],
      .mk ⟨"property_identifier", true, false, false, 10, 15, some "property"⟩ []]]

/-- The access is shown with the sign for the stray byte, and without the returns. -/
theorem context_strayBytes :
    let l : Linter := ⟨Rule.all, "workerlint-ignore"⟩
    (∀ r ∈ l.rules, r.Places) ∧ strayBytes.source.lines.length = 3 ∧
      (l.lint strayBytes).map (·.context) = ["window.fetch\uFFFD"] := by
  intro l
  have hstarts : (l.lint strayBytes).map (·.range.start.byte) = [3] := by decide +kernel
  obtain ⟨-, -, hlength, -, -, -, hcontext, hplaces⟩ := strayBytes.lines_exact
  refine ⟨hplaces, hlength.trans (by decide +kernel), ?_⟩
  calc (l.lint strayBytes).map (·.context)
      = (l.lint strayBytes).map fun d =>
          Source.shown (strayBytes.source.rowAt d.range.start.byte) :=
        List.map_congr_left (hcontext l hplaces)
    _ = ((l.lint strayBytes).map (·.range.start.byte)).map fun byte =>
          Source.shown (strayBytes.source.rowAt byte) := by
        rw [List.map_map]
        rfl
    _ = ["window.fetch\uFFFD"] := by
        rw [hstarts]
        decide +kernel

end ScriptLint
