import Mathlib.Data.Int.Order.Basic
import Mathlib.Data.List.Infix
import Mathlib.Data.Prod.Lex
import ScriptLint.Proofs.Text.Cutting
import ScriptLint.Proofs.Text.Utf8
import ScriptLint.Source

/-!
# Later bytes have later positions

The byte offset of a position decides its line and column, its `Position.place`.  A
later byte is on a later line, or on the same line in no lesser column
(`Source.position_mono`).  On one row the bytes before the later byte are those before
the earlier one and the ones in between (`Source.exists_rowPrefix_eq_append`).  More
bytes are read as no fewer characters, which keeps the order of the columns, and as no
more characters than there are bytes, which keeps them close (`Source.col_le_add`).

A row starts in column 0, so a column is at most the number of bytes since then
(`Source.exists_startsRow`).  No range ends before it starts
(`Source.position_place_exact`).

Slices are ordered by inclusion of their extents (`Source.slice_infix`).
-/

namespace ScriptLint

/-- Line and column, compared by the line first. -/
def Position.place (p : Position) : Int ×ₗ Int :=
  toLex (p.line, p.col)

namespace Source

variable (s : Source)

theorem row_mono {m n : Nat} (h : m ≤ n) : s.row m ≤ s.row n :=
  (List.take_prefix_take_left h).sublist.count_le _

/-- The bytes before a byte on its row come after the last line feed. -/
theorem rowPrefix_eq (n : Nat) : s.rowPrefix n = Text.lastPiece lineFeed (s.bytes.take n) :=
  rfl

/-- On one row, what is before a byte begins what is before a later one. -/
theorem exists_rowPrefix_eq_append {m n : Nat} (h : m ≤ n) (hrow : s.row m = s.row n) :
    ∃ between : List UInt8,
      s.rowPrefix n = s.rowPrefix m ++ between ∧ between.length ≤ n - m := by
  obtain ⟨between, hsplit⟩ := List.take_prefix_take_left (l := s.bytes) h
  have hplain : lineFeed ∉ between := by
    rw [row, row, ← hsplit, List.count_append] at hrow
    have hcount : between.count lineFeed = 0 := by omega
    exact List.count_eq_zero.1 hcount
  refine ⟨between, ?_, ?_⟩
  · rw [rowPrefix_eq, rowPrefix_eq, ← hsplit, Text.lastPiece_append hplain]
  · have hlength := congrArg List.length hsplit
    simp only [List.length_append, List.length_take] at hlength
    omega

theorem line_eq_iff {m n : Nat} :
    (s.position m).line = (s.position n).line ↔ s.row m = s.row n := by
  have hm : (s.position m).line = s.row m + 1 := rfl
  have hn : (s.position n).line = s.row n + 1 := rfl
  omega

/-- A later byte is on a later line, or further on in the same line. -/
theorem position_mono {m n : Nat} (h : m ≤ n) :
    (s.position m).line < (s.position n).line ∨
      (s.position m).line = (s.position n).line ∧ (s.position m).col ≤ (s.position n).col := by
  rcases Nat.lt_or_eq_of_le (s.row_mono h) with hlt | heq
  · left
    show (s.row m + 1 : Int) < s.row n + 1
    omega
  · right
    refine ⟨s.line_eq_iff.2 heq, ?_⟩
    obtain ⟨between, hbetween, -⟩ := s.exists_rowPrefix_eq_append h heq
    have hlength := Utf8.length_decode_le_append (s.rowPrefix m) between
    rw [← hbetween] at hlength
    exact Int.ofNat_le.2 hlength

theorem place_mono {m n : Nat} (h : m ≤ n) : (s.position m).place ≤ (s.position n).place :=
  Prod.Lex.toLex_le_toLex.2 (s.position_mono h)

/-- On one line, a byte adds at most one column. -/
theorem col_le_add {m n : Nat} (h : m ≤ n)
    (hline : (s.position m).line = (s.position n).line) :
    (s.position n).col ≤ (s.position m).col + (n - m : Nat) := by
  obtain ⟨between, hbetween, hle⟩ :=
    s.exists_rowPrefix_eq_append h (s.line_eq_iff.1 hline)
  have hlength := Utf8.length_decode_append_le (s.rowPrefix m) between
  rw [← hbetween] at hlength
  show ((Utf8.decode (s.rowPrefix n)).length : Int) ≤
    (Utf8.decode (s.rowPrefix m)).length + (n - m : Nat)
  omega

/-! ## Where rows start -/

/-- A row starts at the first byte, and behind each line feed. -/
def StartsRow (k : Nat) : Prop :=
  k = 0 ∨ s.bytes[k - 1]? = some lineFeed

instance (k : Nat) : Decidable (s.StartsRow k) :=
  inferInstanceAs (Decidable (_ ∨ _))

variable {s}

theorem StartsRow.take_eq {k : Nat} (h : s.StartsRow k) :
    s.bytes.take k = [] ∨ ∃ above, s.bytes.take k = above ++ [lineFeed] := by
  cases k with
  | zero => exact .inl rfl
  | succ k =>
      obtain hzero | hfeed := h
      · cases hzero
      · refine .inr ⟨s.bytes.take k, ?_⟩
        rw [List.take_add_one, ← Nat.add_sub_cancel k 1, hfeed]
        rfl

theorem StartsRow.col_eq {k : Nat} (h : s.StartsRow k) : (s.position k).col = 0 := by
  have hempty : s.rowPrefix k = [] := by
    rw [rowPrefix_eq]
    rcases h.take_eq with htake | ⟨above, htake⟩
    · rw [htake]
      rfl
    · rw [htake, Text.lastPiece_append_cons List.not_mem_nil]
  rw [position, hempty]
  rfl

variable (s)

/-- Each byte is on a row that starts somewhere. -/
theorem exists_startsRow (n : Nat) :
    ∃ k ≤ n, s.StartsRow k ∧ (s.position k).line = (s.position n).line := by
  have hrest := List.count_eq_zero.2 (Text.notMem_lastPiece lineFeed (s.bytes.take n))
  rcases Text.eq_lastPiece_or lineFeed (s.bytes.take n) with hall | ⟨above, hsplit⟩
  · rw [hall] at hrest
    exact ⟨0, Nat.zero_le n, .inl rfl, s.line_eq_iff.2 hrest.symm⟩
  · generalize Text.lastPiece lineFeed (s.bytes.take n) = rest at hsplit hrest
    have hle : above.length + 1 ≤ n := by
      have hlength := congrArg List.length hsplit
      simp only [List.length_take, List.length_append, List.length_cons] at hlength
      omega
    have hget : (s.bytes.take n)[above.length]? = some lineFeed := by
      rw [hsplit, List.getElem?_append_right (Nat.le_refl _), Nat.sub_self]
      rfl
    rw [List.getElem?_take_of_lt hle] at hget
    refine ⟨above.length + 1, hle, .inr hget, s.line_eq_iff.2 ?_⟩
    have htake : s.bytes.take (above.length + 1) = above ++ [lineFeed] := by
      have htwice := congrArg (List.take (above.length + 1)) hsplit
      rw [List.take_take, Nat.min_eq_left hle] at htwice
      rw [htwice, List.append_cons, List.take_left' (by simp)]
    rw [row, row, htake, hsplit]
    simp [hrest]

/-- **Positions keep the order of the bytes**, whatever the bytes are.  A later byte has no
earlier place.  On one line the columns of two bytes are not further apart than the bytes
are, and a column is at most the number of bytes since the line started.  So no range ends
before it starts. -/
theorem position_place_exact {m n : Nat} (h : m ≤ n) :
    (s.position m).place ≤ (s.position n).place ∧
      ((s.position m).line = (s.position n).line →
        (s.position n).col ≤ (s.position m).col + (n - m : Nat)) ∧
      (∃ k ≤ n, s.StartsRow k ∧ (s.position k).line = (s.position n).line ∧
        (s.position n).col ≤ (n - k : Nat)) ∧
      (s.range m n).start.place ≤ (s.range m n).stop.place := by
  refine ⟨s.place_mono h, s.col_le_add h, ?_, s.place_mono h⟩
  obtain ⟨k, hk, hstarts, hline⟩ := s.exists_startsRow n
  have hcol := s.col_le_add hk hline
  rw [hstarts.col_eq, Int.zero_add] at hcol
  exact ⟨k, hk, hstarts, hline, hcol⟩

/-- A character that is cut in the middle counts from its first byte on, and each byte that
cannot go on with it counts once more. -/
theorem position_place_truncated :
    let s : Source := ⟨[0x61, 0x0A, 0xF0, 0x9F, 0x41, 0xC3, 0xED, 0xA0]⟩
    (s.position 3).place = toLex (2, 1) ∧ (s.position 7).place = toLex (2, 4) ∧ 3 ≤ 7 ∧
      (s.position 3).place ≤ (s.position 7).place ∧
      (s.position 7).col ≤ (s.position 3).col + 4 := by
  intro s
  have hexact := s.position_place_exact (m := 3) (n := 7) (by decide)
  exact ⟨by decide, by decide, by decide, hexact.1, hexact.2.1 (by decide)⟩

/-! ## Slices -/

theorem slice_infix {start stop m n : Nat} (hm : start ≤ m) (hn : n ≤ stop) :
    s.slice m n <:+: s.slice start stop := by
  have hdrop : (s.bytes.take n).drop m <:+ (s.bytes.take n).drop start := by
    rw [← Nat.add_sub_cancel' hm, ← List.drop_drop]
    exact List.drop_suffix ..
  exact hdrop.isInfix.trans ((List.take_prefix_take_left hn).drop start).isInfix

end Source

end ScriptLint
