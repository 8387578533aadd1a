import ScriptLint.Proofs.Text.Position

/-!
# Rows of bytes and lines of text

A source is cut into rows at its line feeds, and its text is cut into lines.  Bytes that
are not UTF-8 may be read differently in a part of the source than in the whole, yet rows
and lines stay in step.  A line feed is ASCII, so it ends whatever is being read, and it is
read from no other bytes.  The pieces of the text are what is read of the rows, one by one
(`Source.splitOn_decode`), and the lines are these pieces without the returns at their ends
(`Source.lines_eq`).

The row that a byte is on has the number that the position of the byte tells
(`Source.getElem?_splitOn_row`).  So the line of a position always exists, and it shows that
row (`Source.lineText_position`).
-/

namespace ScriptLint.Source

/-! ## Pieces -/

/-- Bytes without line feeds are read as characters without line feeds. -/
theorem lineFeed_notMem_decode {bs : List UInt8} (h : lineFeed ∉ bs) : '\n' ∉ Utf8.decode bs := by
  intro hmem
  obtain ⟨b, hb, hnat⟩ := Utf8.exists_of_mem_decode hmem (by decide)
  have hfeed : b = lineFeed := UInt8.toNat_inj.1 hnat
  exact h (hfeed ▸ hb)

theorem decode_append_lineFeed (bs cs : List UInt8) :
    Utf8.decode (bs ++ lineFeed :: cs) = Utf8.decode bs ++ '\n' :: Utf8.decode cs :=
  Utf8.decode_append_cons (by decide) bs cs

/-- The pieces of what is read are what is read of the pieces. -/
theorem splitOn_decode (bs : List UInt8) :
    Text.splitOn '\n' (Utf8.decode bs) = (Text.splitOn lineFeed bs).map Utf8.decode := by
  have hfree {row : List UInt8} (hrow : lineFeed ∉ row) :
      Text.splitOn '\n' (Utf8.decode row) = (Text.splitOn lineFeed row).map Utf8.decode := by
    rw [Text.splitOn_of_notMem hrow, Text.splitOn_of_notMem (lineFeed_notMem_decode hrow)]
    rfl
  by_cases h : lineFeed ∈ bs
  · obtain ⟨row, rest, hsplit, hrow⟩ := List.eq_append_cons_of_mem h
    have hshorter : rest.length < bs.length := by
      rw [hsplit, List.length_append, List.length_cons]
      omega
    have ih := splitOn_decode rest
    rw [hsplit, decode_append_lineFeed, Text.splitOn_append_cons, Text.splitOn_append_cons, ih,
      hfree hrow, List.map_append]
  · exact hfree h
termination_by bs.length

variable (s : Source)

/-! ## Lines -/

/-- A row as it is shown: what is read of it, without the returns at its end. -/
def shown (row : List UInt8) : String :=
  String.ofList (Text.dropTrailing (· == '\r') (Utf8.decode row))

/-- The lines are the rows as they are shown. -/
theorem lines_eq : s.lines = (Text.splitOn lineFeed s.bytes).map shown := by
  rw [lines, splitOn_decode, List.map_map]
  rfl

/-- There is one line more than there are line feeds. -/
theorem length_lines : s.lines.length = s.bytes.count lineFeed + 1 := by
  rw [lines_eq, List.length_map, Text.splitOn, Text.length_splitWhere]
  rfl

/-! ## The row of a byte -/

/-- The row that a byte is on.  A line feed is on the row that it ends. -/
def rowAt (byte : Nat) : List UInt8 :=
  s.rowPrefix byte ++ (s.bytes.drop byte).takeWhile (· != lineFeed)

/-- The position of a byte tells the number of its row. -/
theorem getElem?_splitOn_row (byte : Nat) :
    (Text.splitOn lineFeed s.bytes)[s.row byte]? = some (s.rowAt byte) := by
  have hpiece := Text.getElem?_splitOn_count lineFeed (s.bytes.take byte) (s.bytes.drop byte)
  rwa [List.take_append_drop] at hpiece

/-- The line of a position is one of the lines. -/
theorem line_le_length_lines (byte : Nat) :
    1 ≤ (s.position byte).line ∧ (s.position byte).line ≤ s.lines.length := by
  have hrow : s.row byte ≤ s.bytes.count lineFeed := (List.take_sublist ..).count_le _
  have hline : (s.position byte).line = s.row byte + 1 := rfl
  rw [hline, length_lines]
  omega

/-- The line of a position shows the row that the byte is on. -/
theorem lineText_position (byte : Nat) :
    s.lineText (s.position byte).line = shown (s.rowAt byte) := by
  have hpos := (s.line_le_length_lines byte).1
  have hnumber : (s.position byte).line.toNat - 1 = s.row byte := by
    have hline : (s.position byte).line = s.row byte + 1 := rfl
    omega
  rw [lineText, if_neg (by omega), hnumber, lines_eq, List.getD_eq_getElem?_getD,
    List.getElem?_map, getElem?_splitOn_row]
  rfl

end ScriptLint.Source
