import ScriptLint.Proofs.Json.RoundTrip
import ScriptLint.Proofs.Lint.Batches

/-!
# What a report tells a program

A report for programs is the text of a list with an object for each diagnostic.  It keeps
of a diagnostic what `Report.Entry` holds, and leaves out the bytes and the line of source.

Nothing of that is lost in the text: a reader of JSON gets back the list of objects, and two
reports with one text have the same entries in the same order (`Report.json_exact`).  All
numbers of a report are integers, so this is `Json.read?_write` for one value.
-/

namespace ScriptLint

namespace Report

/-- What a report tells a program of a diagnostic. -/
structure Entry where
  /-- The code of the rule. -/
  code : String
  /-- What is wrong. -/
  message : String
  /-- What to do about it. -/
  hint? : Option String
  /-- The file. -/
  filename : String
  /-- The line that it starts on. -/
  line : Int
  /-- The column that it starts at. -/
  col : Int
  /-- The line that it ends on. -/
  endLine : Int
  /-- The column that it ends at. -/
  endCol : Int
deriving DecidableEq, Repr

namespace Entry

/-- What is told of a diagnostic. -/
def ofDiagnostic (d : Diagnostic) : Entry :=
  ⟨d.code, d.message, d.hint?, d.filename, d.line, d.col, d.range.stop.line, d.range.stop.col⟩

/-- An entry as an object. -/
def toJson (e : Entry) : Json :=
  .object [
    ("code", .string e.code),
    ("message", .string e.message),
    ("hint", .ofOption e.hint?),
    ("filename", .string e.filename),
    ("line", .integer e.line),
    ("col", .integer e.col),
    ("end_line", .integer e.endLine),
    ("end_col", .integer e.endCol)]

theorem ofOption_injective {hint? hint'? : Option String}
    (h : Json.ofOption hint? = Json.ofOption hint'?) : hint? = hint'? := by
  cases hint? with
  | none =>
      cases hint'? with
      | none => rfl
      | some hint' => cases h
  | some hint =>
      cases hint'? with
      | none => cases h
      | some hint' => exact congrArg some (Json.string.inj h)

/-- Different entries are different objects. -/
theorem toJson_injective : Function.Injective toJson := by
  intro e e' h
  simp only [toJson, Json.object.injEq, List.cons.injEq, Prod.mk.injEq, Json.string.injEq,
    Json.integer.injEq, true_and, and_true] at h
  obtain ⟨hcode, hmessage, hhint, hfilename, hline, hcol, hendLine, hendCol⟩ := h
  have hhint' := ofOption_injective hhint
  cases e
  cases e'
  simp_all

end Entry

/-- The entries of a report, in its order. -/
def shown (r : Report) : List Entry :=
  (Diagnostic.sort r.diagnostics).map Entry.ofDiagnostic

theorem entries_eq (r : Report) : r.entries = .array (r.shown.map Entry.toJson) := by
  rw [entries, shown, List.map_map]
  rfl

theorem integral_entry (d : Diagnostic) : Json.integral (entry d) = true := by
  simp only [entry, Json.integral, Json.integralFields, Bool.true_and, Bool.and_true]
  cases d.hint? <;> rfl

theorem integral_entries (r : Report) : Json.integral r.entries = true := by
  rw [entries, Json.integral]
  induction Diagnostic.sort r.diagnostics with
  | nil => rfl
  | cons d ds ih => rw [List.map_cons, Json.integralItems, integral_entry, ih, Bool.and_self]

/-- The text of a report is read back as its entries. -/
theorem read?_json (r : Report) : Json.read? r.json.toList = some r.entries :=
  Json.read?_write .indented r.integral_entries

theorem lt_of_mem_json (r : Report) {c : Char} (hc : c ∈ r.json.toList) : c.toNat < 0x80 := by
  rw [json, Json.write, String.toList_ofList] at hc
  have houtput := Json.isOutput_writeAt .indented r.entries 0 r.integral_entries c hc
  simp only [Json.isOutput, Bool.or_eq_true, Bool.and_eq_true, decide_eq_true_eq, beq_iff_eq]
    at houtput
  cases houtput with
  | inl hprintable => omega
  | inr hbreak =>
      rw [hbreak]
      decide

/-- **Reports for programs lose nothing.**  The text of a report is ASCII.  A reader gets back
one object for each diagnostic, in the order of file, line, column and code, in which those that
tie stay as they came.  So two reports have one text exactly when they have the same entries in
the same order. -/
theorem json_exact (r : Report) :
    (∀ c ∈ r.json.toList, c.toNat < 0x80) ∧
    Json.read? r.json.toList = some (.array ((Diagnostic.sort r.diagnostics).map fun d => .object [
      ("code", .string d.code),
      ("message", .string d.message),
      ("hint", match d.hint? with
        | some hint => .string hint
        | none => .null),
      ("filename", .string d.filename),
      ("line", .integer d.range.start.line),
      ("col", .integer d.range.start.col),
      ("end_line", .integer d.range.stop.line),
      ("end_col", .integer d.range.stop.col)])) ∧
    (Diagnostic.sort r.diagnostics).Perm r.diagnostics ∧
    Diagnostic.InOrder (Diagnostic.sort r.diagnostics) ∧
    (∀ d, Diagnostic.ties d (Diagnostic.sort r.diagnostics) = Diagnostic.ties d r.diagnostics) ∧
    ∀ r' : Report, r.json = r'.json ↔ r.shown = r'.shown := by
  refine ⟨fun c hc => r.lt_of_mem_json hc, ?_, List.mergeSort_perm .., Diagnostic.sort_inOrder _,
    fun d => Diagnostic.ties_sort d _, fun r' => ⟨fun h => ?_, fun h => ?_⟩⟩
  · rw [read?_json, entries]
    refine congrArg (fun items => some (Json.array items)) (List.map_congr_left fun d _ => ?_)
    rw [entry]
    cases d.hint? <;> rfl
  · have hread : some r.entries = some r'.entries := by
      rw [← r.read?_json, ← r'.read?_json, h]
    rw [entries_eq, entries_eq, Option.some.injEq, Json.array.injEq] at hread
    exact List.map_injective_iff.2 Entry.toJson_injective hread
  · rw [json, json, entries_eq, entries_eq, h]

end Report

end ScriptLint
