import ScriptLint.Proofs.Text.Cutting
import ScriptLint.Text.Quoted

/-!
# Texts on one line

A text is *unbroken* if no character of it ends a line.  Such a text is its only line
(`splitLines_eq_singleton_iff`), and the first line of any text is the longest unbroken piece that
it starts with (`headD_splitLines`).

Quoted text is unbroken, whatever is quoted (`unbroken_quoted`).  Characters that end a line
are not printable, so they are written by letters or codes, and these hold no such character.
-/

namespace ScriptLint.Text

/-- No character of a text ends a line. -/
def Unbroken (s : List Char) : Prop :=
  ∀ c ∈ s, isLineBreak c = false

instance (s : List Char) : Decidable (Unbroken s) :=
  List.decidableBAll (isLineBreak · = false) s

section
variable {c : Char} {s t : List Char}

theorem unbroken_cons : Unbroken (c :: s) ↔ isLineBreak c = false ∧ Unbroken s :=
  List.forall_mem_cons

theorem unbroken_append : Unbroken (s ++ t) ↔ Unbroken s ∧ Unbroken t :=
  List.forall_mem_append

/-! ## Lines -/

/-- A character that ends no line is on the first one. -/
theorem splitLines_cons (hc : isLineBreak c = false) (s : List Char) :
    splitLines (c :: s) = (c :: (splitLines s).headD []) :: (splitLines s).tail := by
  have hreturn : ∀ t, c = '\r' → s = '\n' :: t → False := by
    rintro t rfl
    cases hc
  rw [splitLines.eq_3 c s hreturn, if_neg (by simp [hc])]
  cases splitLines s with
  | nil => rfl
  | cons line lines => rfl

/-- One that ends a line leaves the first line empty. -/
theorem splitLines_cons_of_isLineBreak (hc : isLineBreak c = true) (s : List Char) :
    ∃ lines, splitLines (c :: s) = [] :: lines := by
  rw [splitLines.eq_def]
  split
  · contradiction
  · exact ⟨_, rfl⟩
  · next hcons =>
      rw [(List.cons.inj hcons).1] at hc
      exact ⟨_, if_pos hc⟩

theorem splitLines_eq_nil : splitLines s = [] ↔ s = [] := by
  refine ⟨fun h => ?_, fun h => h ▸ rfl⟩
  cases s with
  | nil => rfl
  | cons c s =>
      cases hc : isLineBreak c with
      | true =>
          obtain ⟨lines, hlines⟩ := splitLines_cons_of_isLineBreak hc s
          rw [hlines] at h
          cases h
      | false =>
          rw [splitLines_cons hc] at h
          cases h

/-- The first line ends where the first line break stands. -/
theorem headD_splitLines (s : List Char) :
    (splitLines s).headD [] = s.takeWhile (!isLineBreak ·) := by
  induction s with
  | nil => rfl
  | cons c s ih =>
      cases hc : isLineBreak c with
      | true =>
          obtain ⟨lines, hlines⟩ := splitLines_cons_of_isLineBreak hc s
          rw [hlines, List.takeWhile_cons_of_neg (by simp [hc]), List.headD_cons]
      | false =>
          rw [splitLines_cons hc, List.headD_cons, ih, List.takeWhile_cons_of_pos (by simp [hc])]

/-- A text is its only line exactly if it is not empty and no line ends in it. -/
theorem splitLines_eq_singleton_iff : splitLines s = [s] ↔ s ≠ [] ∧ Unbroken s := by
  constructor
  · intro h
    have hfirst := headD_splitLines s
    rw [h, List.headD_cons, eq_comm, List.takeWhile_eq_self_iff] at hfirst
    refine ⟨fun hnil => ?_, fun c hc => by simpa using hfirst c hc⟩
    subst hnil
    cases h
  · rintro ⟨hne, h⟩
    induction s with
    | nil => exact absurd rfl hne
    | cons c s ih =>
        obtain ⟨hc, hs⟩ := unbroken_cons.1 h
        rw [splitLines_cons hc]
        cases s with
        | nil => rfl
        | cons d s =>
            rw [ih (List.cons_ne_nil d s) hs]
            rfl

/-! ## Quoted text -/

/-- What ends a line is not printable. -/
theorem isPrintable_of_isLineBreak (h : isLineBreak c = true) : isPrintable c = false := by
  have hranges : ∃ r ∈ [(0x0, 0x1F), (0x7F, 0xA0), (0x2028, 0x202F)],
      r.1 ≤ c.toNat ∧ c.toNat ≤ r.2 := by
    simp only [isLineBreak, Bool.or_eq_true, Bool.and_eq_true, decide_eq_true_eq, beq_iff_eq] at h
    simp only [List.mem_cons, List.not_mem_nil, or_false, exists_eq_or_imp, exists_eq_left]
    omega
  obtain ⟨r, hr, hle⟩ := hranges
  have hlisted : ∀ r ∈ [(0x0, 0x1F), (0x7F, 0xA0), (0x2028, 0x202F)], r ∈ unprintable := by
    decide +kernel
  rw [isPrintable, Bool.not_eq_false', List.any_eq_true]
  exact ⟨r, hlisted r hr, by simpa using hle⟩

theorem unbroken_hex (width n : Nat) : Unbroken (hex width n) := by
  intro c hc
  obtain ⟨v, hv, rfl⟩ := exists_hexDigit_of_mem_hex hc
  have hall : ∀ v < 16, isLineBreak (hexDigit v) = false := by decide
  exact hall v hv

/-- The codes of characters hold no line break. -/
theorem unbroken_code {letter : Char} (hletter : isLineBreak letter = false) (width n : Nat) :
    Unbroken ('\\' :: letter :: hex width n) :=
  unbroken_cons.2 ⟨by decide, unbroken_cons.2 ⟨hletter, unbroken_hex width n⟩⟩

/-- However a character is written, no line ends in it. -/
theorem unbroken_quotedChar {quote : Char} (hquote : isLineBreak quote = false) (c : Char) :
    Unbroken (quotedChar quote c) := by
  fun_cases quotedChar quote c with
  | case1 hescaped =>
      rcases hescaped with rfl | rfl
      · exact unbroken_cons.2 ⟨by decide, List.forall_mem_singleton.2 hquote⟩
      · decide
  | case2 => decide
  | case3 => decide
  | case4 => decide
  | case5 _ _ _ _ hprintable =>
      refine List.forall_mem_singleton.2 (Bool.eq_false_iff.2 fun hc => ?_)
      rw [isPrintable_of_isLineBreak hc] at hprintable
      cases hprintable
  | case6 => exact unbroken_code (by decide) 2 c.toNat
  | case7 => exact unbroken_code (by decide) 4 c.toNat
  | case8 => exact unbroken_code (by decide) 8 c.toNat

theorem isLineBreak_quoteFor (s : List Char) : isLineBreak (quoteFor s) = false := by
  rw [quoteFor]
  split
  · decide
  · decide

/-- **Quoted text is on one line**, whatever it says. -/
theorem unbroken_quotedChars (s : List Char) : Unbroken (quotedChars s) := by
  have hquote := isLineBreak_quoteFor s
  have hinside : Unbroken (s.flatMap (quotedChar (quoteFor s))) := by
    intro c hc
    obtain ⟨d, -, hd⟩ := List.mem_flatMap.1 hc
    exact unbroken_quotedChar hquote d c hd
  exact unbroken_cons.2 ⟨hquote, unbroken_append.2 ⟨hinside, List.forall_mem_singleton.2 hquote⟩⟩

theorem unbroken_quoted (s : String) : Unbroken (quoted s).toList := by
  rw [quoted, String.toList_ofList]
  exact unbroken_quotedChars s.toList

end

end ScriptLint.Text
