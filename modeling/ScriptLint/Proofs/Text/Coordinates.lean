import ScriptLint.Proofs.Text.Cutting
import ScriptLint.Proofs.Text.Encoding
import ScriptLint.Proofs.Text.Position

/-!
# Positions of characters

Positions are computed from bytes, and lines are cut out of the text.  The two agree.  A
character of a text stands on the line that its position names, in the column that its
position names, as far as the line is shown (`Source.position_exact`).

Both sides know the *row* so far, which is what comes after the last line feed.  On bytes
it is what is decoded for the column (`Source.rowPrefix_byteOf`).  On the text it begins
the piece that the lines are made of (`Text.getElem?_splitOn_count`).  A later character is
on a later line, or its row has grown.  So no two characters have the same position.
-/

namespace ScriptLint

namespace Text

/-! ## The row so far -/

/-- What comes after the last line feed of a text. -/
def lastRow (s : List Char) : List Char :=
  (s.reverse.takeWhile (· != '\n')).reverse

theorem notMem_lastRow (s : List Char) : '\n' ∉ lastRow s :=
  notMem_lastPiece '\n' s

theorem lastRow_append {s t : List Char} (h : '\n' ∉ t) : lastRow (s ++ t) = lastRow s ++ t :=
  lastPiece_append h

/-- A text is all one row, or there is a line feed, and a last one. -/
theorem eq_lastRow_or (s : List Char) :
    lastRow s = s ∨ ∃ above, s = above ++ '\n' :: lastRow s :=
  eq_lastPiece_or '\n' s

end Text

namespace Utf8

theorem bytesOf_lineFeed (s : List Char) : bytesOf ('\n' :: s) = Source.lineFeed :: bytesOf s :=
  rfl

theorem lineFeed_notMem_bytesOf {s : List Char} (h : '\n' ∉ s) :
    Source.lineFeed ∉ bytesOf s := by
  intro hmem
  obtain ⟨c, hc, hb⟩ := List.mem_flatMap.1 hmem
  rcases encodeChar_cases c with ⟨hlt, hbytes⟩ | ⟨-, hwide⟩
  · rw [hbytes, List.mem_singleton, ← UInt8.toNat_inj, toNat_byte (by omega)] at hb
    have hfeed : c = '\n' := Char.toNat_inj.1 hb.symm
    exact h (hfeed ▸ hc)
  · exact absurd (hwide _ hb) (by decide)

theorem count_bytesOf (s : List Char) : (bytesOf s).count Source.lineFeed = s.count '\n' := by
  induction s with
  | nil => rfl
  | cons c s ih =>
      by_cases hc : c = '\n'
      · rw [hc, bytesOf_lineFeed, List.count_cons_self, List.count_cons_self, ih]
      · have hfree := lineFeed_notMem_bytesOf (s := [c]) (by simpa using Ne.symm hc)
        have hnone : (bytesOf [c]).count Source.lineFeed = 0 := List.count_eq_zero.2 hfree
        rw [← List.singleton_append, bytesOf_append, List.count_append, hnone, ih,
          List.singleton_append, List.count_cons_of_ne hc, Nat.zero_add]

end Utf8

namespace Source

/-! ## Places of characters -/

/-- The byte that a character of a text starts at, given by its number. -/
def byteOf (t : String) (k : Nat) : Nat :=
  (Utf8.encode (.ofList (t.toList.take k))).length

variable (t : String) (k : Nat)

theorem take_byteOf : (ofString t).bytes.take (byteOf t k) = Utf8.bytesOf (t.toList.take k) := by
  have hbytes : (ofString t).bytes =
      Utf8.bytesOf (t.toList.take k) ++ Utf8.bytesOf (t.toList.drop k) := by
    rw [← Utf8.bytesOf_append, List.take_append_drop, ← Utf8.encode_ofList, String.ofList_toList]
    rfl
  rw [hbytes, byteOf, Utf8.encode_ofList, List.take_left']
  rfl

theorem row_byteOf : (ofString t).row (byteOf t k) = (t.toList.take k).count '\n' := by
  rw [row, take_byteOf, Utf8.count_bytesOf]

/-- The bytes before a character on its row are those of the row so far. -/
theorem rowPrefix_byteOf :
    (ofString t).rowPrefix (byteOf t k) = Utf8.bytesOf (Text.lastRow (t.toList.take k)) := by
  rw [rowPrefix_eq, take_byteOf]
  generalize t.toList.take k = s
  have hfree := Utf8.lineFeed_notMem_bytesOf (Text.notMem_lastRow s)
  rcases Text.eq_lastRow_or s with hs | ⟨above, hs⟩
  · rw [hs] at hfree ⊢
    exact Text.lastPiece_of_notMem hfree
  · have hbytes : Utf8.bytesOf s =
        Utf8.bytesOf above ++ lineFeed :: Utf8.bytesOf (Text.lastRow s) := by
      rw [← Utf8.bytesOf_lineFeed, ← Utf8.bytesOf_append, ← hs]
    rw [hbytes, Text.lastPiece_append_cons hfree]

theorem line_byteOf :
    ((ofString t).position (byteOf t k)).line = 1 + (t.toList.take k).count '\n' := by
  rw [← row_byteOf, Int.add_comm]
  rfl

theorem col_byteOf :
    ((ofString t).position (byteOf t k)).col = (Text.lastRow (t.toList.take k)).length := by
  rw [position, rowPrefix_byteOf, Utf8.decode_bytesOf]

/-- The line of a character goes from the start of its row up to the returns that end it. -/
theorem lineText_byteOf : (ofString t).lineText ((ofString t).position (byteOf t k)).line =
    .ofList (Text.dropTrailing (· == '\r')
      (Text.lastRow (t.toList.take k) ++ (t.toList.drop k).takeWhile (· != '\n'))) := by
  have hdecode : Utf8.decode (ofString t).bytes = t.toList := by
    rw [ofString, ← Utf8.decode_bytesOf t.toList, ← Utf8.encode_ofList, String.ofList_toList]
  have hpiece := Text.getElem?_splitOn_count '\n' (t.toList.take k) (t.toList.drop k)
  rw [List.take_append_drop] at hpiece
  have hline :
      ((ofString t).position (byteOf t k)).line.toNat - 1 = (t.toList.take k).count '\n' := by
    rw [line_byteOf]
    omega
  have hpos : ¬ ((ofString t).position (byteOf t k)).line ≤ 0 := by
    rw [line_byteOf]
    omega
  rw [lineText, if_neg hpos, hline, lines, hdecode, List.getD_eq_getElem?_getD, List.getElem?_map,
    hpiece]
  rfl

variable {j k : Nat}

/-- A later character is on a later line, or in a greater column. -/
theorem position_lt (hjk : j < k) (hk : k ≤ t.toList.length) :
    ((ofString t).position (byteOf t j)).line < ((ofString t).position (byteOf t k)).line ∨
      ((ofString t).position (byteOf t j)).col < ((ofString t).position (byteOf t k)).col := by
  obtain ⟨n, rfl⟩ := Nat.exists_eq_add_of_lt hjk
  have hsplit : t.toList.take (j + n + 1) =
      t.toList.take j ++ (t.toList.drop j).take (n + 1) := by
    rw [Nat.add_assoc, List.take_add]
  have hlength : ((t.toList.drop j).take (n + 1)).length = n + 1 := by
    rw [List.length_take, List.length_drop]
    omega
  by_cases hfeed : '\n' ∈ (t.toList.drop j).take (n + 1)
  · left
    have hcount := List.count_pos_iff.2 hfeed
    rw [line_byteOf, line_byteOf, hsplit, List.count_append]
    omega
  · right
    rw [col_byteOf, col_byteOf, hsplit, Text.lastRow_append hfeed, List.length_append, hlength]
    omega

/-- What a line shows of a row begins where the row so far ends. -/
theorem getElem?_shown {c : Char} (hc : t.toList[k]? = some c)
    (hshown : ∃ d ∈ (t.toList.drop k).takeWhile (· != '\n'), d ≠ '\r') :
    ((ofString t).lineText ((ofString t).position (byteOf t k)).line).toList[
      (Text.lastRow (t.toList.take k)).length]? = some c := by
  have hkept : ∃ d ∈ (Text.lastRow (t.toList.take k) ++
      (t.toList.drop k).takeWhile (· != '\n')).drop (Text.lastRow (t.toList.take k)).length,
        (d == '\r') = false := by
    simpa using hshown
  rw [lineText_byteOf, String.toList_ofList, Text.getElem?_dropTrailing hkept,
    List.getElem?_append_right (Nat.le_refl _), Nat.sub_self]
  obtain ⟨d, hd, -⟩ := hshown
  have hdrop : t.toList.drop k = c :: t.toList.drop (k + 1) := by
    obtain ⟨hlt, hget⟩ := List.getElem?_eq_some_iff.1 hc
    rw [List.drop_eq_getElem_cons hlt, hget]
  rw [hdrop] at hd ⊢
  by_cases hfeed : c = '\n'
  · simp [hfeed] at hd
  · simp [hfeed]

/-- **A position points at its character.**  The line of a character counts the line feeds
before it, and its column the characters since the last of them.  The line has the character
in that column, unless it is a line feed or one of the returns before one, or before the
end.  Different characters have different places. -/
theorem position_exact (t : String) :
    (∀ k c, t.toList[k]? = some c →
      let place := (ofString t).position (byteOf t k)
      place.line = 1 + (t.toList.take k).count '\n' ∧
        place.col = ((t.toList.take k).reverse.takeWhile (· != '\n')).length ∧
        ((∃ d ∈ (t.toList.drop k).takeWhile (· != '\n'), d ≠ '\r') →
          ((ofString t).lineText place.line).toList[place.col.toNat]? = some c)) ∧
      ∀ j k, j < t.toList.length → k < t.toList.length → j ≠ k →
        let place := (ofString t).position (byteOf t j)
        let place' := (ofString t).position (byteOf t k)
        (place.line, place.col) ≠ (place'.line, place'.col) := by
  constructor
  · intro k c hc
    refine ⟨line_byteOf t k, ?_, fun hshown => ?_⟩
    · rw [col_byteOf, Text.lastRow, List.length_reverse]
    · have hcol : ((ofString t).position (byteOf t k)).col.toNat =
          (Text.lastRow (t.toList.take k)).length := by
        rw [col_byteOf, Int.toNat_natCast]
      rw [hcol]
      exact getElem?_shown t hc hshown
  · intro j k hj hk hne place place' heq
    obtain ⟨hline, hcol⟩ := Prod.mk.inj heq
    simp only [place, place'] at hline hcol
    rcases Nat.lt_or_gt_of_ne hne with hlt | hlt
    · have := position_lt t hlt (Nat.le_of_lt hk)
      omega
    · have := position_lt t hlt (Nat.le_of_lt hj)
      omega

/-- A return in the middle of a line counts as a character, and the one that ends the line
is cut off. -/
theorem position_afterReturn :
    let t := "a\né\rb\r"
    let place := fun k => (ofString t).position (byteOf t k)
    ((place 4).line = 2 ∧ (place 4).col = 2 ∧
      ((ofString t).lineText 2).toList[2]? = some 'b') ∧
      ((place 0).line, (place 0).col) ≠ ((place 2).line, (place 2).col) := by
  obtain ⟨hpoints, hdiffer⟩ := position_exact "a\né\rb\r"
  obtain ⟨hline, hcol, hshown⟩ := hpoints 4 'b' (by decide)
  have hline := hline.trans (c := 2) rfl
  have hcol := hcol.trans (c := 2) rfl
  rw [hline, hcol] at hshown
  exact ⟨⟨hline, hcol, hshown ⟨'b', by decide, by decide⟩⟩,
    hdiffer 0 2 (by decide) (by decide) (by decide)⟩

end Source

end ScriptLint
