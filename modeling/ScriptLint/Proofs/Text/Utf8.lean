import Mathlib.Algebra.Group.Nat.Defs
import Mathlib.Tactic.SplitIfs
import ScriptLint.Text.Utf8

/-!
# Reading more bytes, and reading fewer

More bytes are never read as fewer characters (`length_decode_le_append`), for a
character that was begun counts already.  And a byte adds at most one character
(`length_decode_append_le`).

Nothing like this holds of a part of the bytes, which can start in the middle of
a character.  It does if everything is read as ASCII: then the bytes are ASCII
(`lt_of_decode_ascii`), and a part of them is read as a part of the characters
(`decode_infix`).  It also does of what an ASCII byte cuts off, whatever the other
bytes are (`decode_append_cons`).  The reason is that no byte above ASCII is ever read
as an ASCII character (`exists_of_mem_decode`).  `Wide` is the invariant of the reader
behind that.  The character that is being read has a code point of its own, at least
128, whatever bytes follow.
-/

namespace ScriptLint.Utf8

theorem decodeFrom_cons (st : State) (b : UInt8) (bs : List UInt8) :
    decodeFrom st (b :: bs) = (step st b).2 ++ decodeFrom (step st b).1 bs := by
  cases st <;> rfl

/-! ## More bytes -/

/-- A character that was begun counts. -/
theorem length_decodeFrom_inside_pos :
    ∀ (bs : List UInt8) (missing : Nat) (low high : UInt8) (value : Nat),
      1 ≤ (decodeFrom (.inside missing low high value) bs).length
  | [], _, _, _, _ => Nat.le_refl 1
  | b :: bs, missing, low, high, value => by
      rw [decodeFrom_cons, List.length_append, step]
      split
      · cases missing with
        | zero => exact Nat.le_add_right 1 _
        | succ missing =>
            have ih := length_decodeFrom_inside_pos bs missing 0x80 0xBF
              (value * 64 + (b.toNat - 0x80))
            exact Nat.le_trans ih (Nat.le_add_left _ _)
      · exact Nat.le_trans (Nat.le_add_left 1 _) (Nat.le_add_right _ _)

theorem length_decodeFrom_le_append (cs : List UInt8) :
    ∀ (st : State) (bs : List UInt8),
      (decodeFrom st bs).length ≤ (decodeFrom st (bs ++ cs)).length
  | .ready, [] => Nat.zero_le _
  | .inside missing low high value, [] => length_decodeFrom_inside_pos cs missing low high value
  | st, b :: bs => by
      have ih := length_decodeFrom_le_append cs (step st b).1 bs
      rw [List.cons_append, decodeFrom_cons, decodeFrom_cons, List.length_append,
        List.length_append]
      omega

/-- More bytes are read as no fewer characters. -/
theorem length_decode_le_append (bs cs : List UInt8) :
    (decode bs).length ≤ (decode (bs ++ cs)).length :=
  length_decodeFrom_le_append cs .ready bs

theorem length_first (b : UInt8) :
    (first b).2.length + (decodeFrom (first b).1 []).length = 1 := by
  unfold first
  split_ifs <;> rfl

/-- A byte adds at most one character to those that were read or begun. -/
theorem length_step_le (st : State) (b : UInt8) :
    (step st b).2.length + (decodeFrom (step st b).1 []).length ≤
      (decodeFrom st []).length + 1 := by
  have hfirst := length_first b
  cases st with
  | ready => exact Nat.le_of_eq hfirst
  | inside missing low high value =>
      rw [step]
      split
      · cases missing <;> simp [decodeFrom]
      · simp only [List.length_cons, decodeFrom, List.length_nil]
        omega

theorem length_decodeFrom_le :
    ∀ (bs : List UInt8) (st : State),
      (decodeFrom st bs).length ≤ (decodeFrom st []).length + bs.length
  | [], _ => Nat.le_refl _
  | b :: bs, st => by
      have hstep := length_step_le st b
      have ih := length_decodeFrom_le bs (step st b).1
      rw [decodeFrom_cons, List.length_append, List.length_cons]
      omega

theorem length_decodeFrom_append_le (cs : List UInt8) :
    ∀ (bs : List UInt8) (st : State),
      (decodeFrom st (bs ++ cs)).length ≤ (decodeFrom st bs).length + cs.length
  | [], st => length_decodeFrom_le cs st
  | b :: bs, st => by
      have ih := length_decodeFrom_append_le cs bs (step st b).1
      rw [List.cons_append, decodeFrom_cons, decodeFrom_cons, List.length_append,
        List.length_append]
      omega

/-- More bytes are read as at most that many characters more. -/
theorem length_decode_append_le (bs cs : List UInt8) :
    (decode (bs ++ cs)).length ≤ (decode bs).length + cs.length :=
  length_decodeFrom_append_le cs bs .ready

/-! ## Bytes above ASCII -/

/-- What is being read will have a code point of at least 128. -/
def Wide : State → Prop
  | .ready => True
  | .inside missing low high value =>
      0x80 ≤ low.toNat ∧
      (128 ≤ (value * 64 + (low.toNat - 0x80)) * 64 ^ missing ∧
          (value * 64 + (high.toNat - 0x80) + 1) * 64 ^ missing ≤ 0xD800 ∨
        0xE000 ≤ (value * 64 + (low.toNat - 0x80)) * 64 ^ missing ∧
          (value * 64 + (high.toNat - 0x80) + 1) * 64 ^ missing ≤ 0x110000)

theorem wide_first (b : UInt8) : Wide (first b).1 := by
  have hb := b.toNat_lt
  unfold first
  split_ifs with h₁ h₂ h₃ h₄ h₅ h₆ h₇ h₈ h₉ <;>
    simp_all [Wide, UInt8.lt_iff_toNat_lt, ← UInt8.toNat_inj] <;> omega

/-- A byte that is ASCII is a character by itself, and any other is none that is. -/
theorem first_of_lt {b : UInt8} (h : b < 0x80) : first b = (.ready, [Char.ofNat b.toNat]) :=
  if_pos h

theorem first_of_not_lt {b : UInt8} (h : ¬ b < 0x80) :
    first b = (.ready, [replacement]) ∨
      ∃ missing low high value, first b = (.inside missing low high value, []) := by
  unfold first
  rw [if_neg h]
  split_ifs <;> simp

theorem toNat_ofNat {n : Nat} (h : n < 0xD800 ∨ 0xE000 ≤ n ∧ n < 0x110000) :
    (Char.ofNat n).toNat = n := by
  have hvalid : n.isValidChar := by
    unfold Nat.isValidChar
    omega
  rw [Char.ofNat, dif_pos hvalid]
  rfl

/-- One more byte inside a character completes a wide character, leaves one to be
read, or breaks it off. -/
theorem step_inside {missing : Nat} {low high : UInt8} {value : Nat} (b : UInt8)
    (h : Wide (.inside missing low high value)) :
    (∃ c, step (.inside missing low high value) b = (.ready, [c]) ∧ 128 ≤ c.toNat) ∨
      (∃ missing' low' high' value',
        step (.inside missing low high value) b = (.inside missing' low' high' value', []) ∧
          Wide (.inside missing' low' high' value')) ∨
      step (.inside missing low high value) b = ((first b).1, replacement :: (first b).2) := by
  obtain ⟨hlow, hvalue⟩ := h
  rw [step]
  by_cases hb : low ≤ b ∧ b ≤ high
  · rw [if_pos hb]
    have hb₁ : low.toNat ≤ b.toNat := UInt8.le_iff_toNat_le.1 hb.1
    have hb₂ : b.toNat ≤ high.toNat := UInt8.le_iff_toNat_le.1 hb.2
    cases missing with
    | zero =>
        simp only [Nat.pow_zero, Nat.mul_one] at hvalue
        refine Or.inl ⟨_, rfl, ?_⟩
        rw [toNat_ofNat (by omega)]
        omega
    | succ missing =>
        refine Or.inr (Or.inl ⟨_, _, _, _, rfl, Nat.le_refl _, ?_⟩)
        have hleast : (value * 64 + (low.toNat - 0x80)) * 64 ^ (missing + 1) ≤
            (value * 64 + (b.toNat - 0x80)) * 64 * 64 ^ missing := by
          rw [Nat.pow_succ', ← Nat.mul_assoc]
          exact Nat.mul_le_mul_right _ (by omega)
        have hgreatest : ((value * 64 + (b.toNat - 0x80)) * 64 + 63 + 1) * 64 ^ missing ≤
            (value * 64 + (high.toNat - 0x80) + 1) * 64 ^ (missing + 1) := by
          rw [Nat.pow_succ', ← Nat.mul_assoc]
          exact Nat.mul_le_mul_right _ (by omega)
        simp only [UInt8.reduceToNat, Nat.reduceSub, Nat.add_zero]
        exact hvalue.imp
          (fun h => ⟨Nat.le_trans h.1 hleast, Nat.le_trans hgreatest h.2⟩)
          fun h => ⟨Nat.le_trans h.1 hleast, Nat.le_trans hgreatest h.2⟩
  · rw [if_neg hb]
    exact Or.inr (Or.inr rfl)

theorem wide_step {st : State} (h : Wide st) (b : UInt8) : Wide (step st b).1 := by
  cases st with
  | ready => exact wide_first b
  | inside missing low high value =>
      rcases step_inside b h with ⟨c, hstep, -⟩ | ⟨_, _, _, _, hstep, hwide⟩ | hstep
      · rw [hstep]
        trivial
      · rw [hstep]
        exact hwide
      · rw [hstep]
        exact wide_first b

/-- Inside a character, what comes first is not ASCII. -/
theorem decodeFrom_inside :
    ∀ (bs : List UInt8) {missing : Nat} {low high : UInt8} {value : Nat},
      Wide (.inside missing low high value) →
      ∃ c ∈ decodeFrom (.inside missing low high value) bs, 128 ≤ c.toNat
  | [], _, _, _, _, _ => ⟨replacement, List.mem_singleton.2 rfl, by decide⟩
  | b :: bs, _, _, _, _, h => by
      rw [decodeFrom_cons]
      rcases step_inside b h with ⟨c, hstep, hc⟩ | ⟨_, _, _, _, hstep, hwide⟩ | hstep
      · rw [hstep]
        exact ⟨c, List.mem_cons_self .., hc⟩
      · rw [hstep]
        exact decodeFrom_inside bs hwide
      · rw [hstep]
        exact ⟨replacement, List.mem_cons_self .., by decide⟩

/-! ## Cuts at ASCII bytes -/

theorem toNat_eq_of_mem_first {b : UInt8} {c : Char} (hc : c ∈ (first b).2) (h : c.toNat < 128) :
    b.toNat = c.toNat := by
  by_cases hb : b < 0x80
  · have hlt : b.toNat < 128 := UInt8.lt_iff_toNat_lt.1 hb
    rw [first_of_lt hb, List.mem_singleton] at hc
    rw [hc, toNat_ofNat (by omega)]
  · rcases first_of_not_lt hb with hfirst | ⟨_, _, _, _, hfirst⟩
    · rw [hfirst, List.mem_singleton] at hc
      rw [hc] at h
      exact absurd h (by decide)
    · rw [hfirst] at hc
      cases hc

/-- An ASCII character that a byte completes is that byte. -/
theorem toNat_eq_of_mem_step {st : State} (hst : Wide st) {b : UInt8} {c : Char}
    (hc : c ∈ (step st b).2) (h : c.toNat < 128) : b.toNat = c.toNat := by
  cases st with
  | ready => exact toNat_eq_of_mem_first hc h
  | inside missing low high value =>
      rcases step_inside b hst with ⟨d, hstep, hd⟩ | ⟨_, _, _, _, hstep, -⟩ | hstep
      · rw [hstep, List.mem_singleton] at hc
        rw [hc] at h
        exact absurd h (Nat.not_lt.2 hd)
      · rw [hstep] at hc
        cases hc
      · rw [hstep, List.mem_cons] at hc
        rcases hc with rfl | hc
        · exact absurd h (by decide)
        · exact toNat_eq_of_mem_first hc h

theorem exists_of_mem_decodeFrom {c : Char} (h : c.toNat < 128) :
    ∀ (bs : List UInt8) {st : State}, Wide st → c ∈ decodeFrom st bs →
      ∃ b ∈ bs, b.toNat = c.toNat
  | [], st, _, hc => by
      cases st with
      | ready => cases hc
      | inside missing low high value =>
          rw [List.mem_singleton.1 hc] at h
          exact absurd h (by decide)
  | b :: bs, st, hst, hc => by
      rw [decodeFrom_cons, List.mem_append] at hc
      cases hc with
      | inl hc => exact ⟨b, List.mem_cons_self, toNat_eq_of_mem_step hst hc h⟩
      | inr hc =>
          obtain ⟨b', hb', hnat⟩ := exists_of_mem_decodeFrom h bs (wide_step hst b) hc
          exact ⟨b', List.mem_cons_of_mem _ hb', hnat⟩

/-- An ASCII character that is read is one of the bytes. -/
theorem exists_of_mem_decode {bs : List UInt8} {c : Char} (hc : c ∈ decode bs)
    (h : c.toNat < 128) : ∃ b ∈ bs, b.toNat = c.toNat :=
  exists_of_mem_decodeFrom h bs (show Wide .ready from trivial) hc

/-- An ASCII byte ends what is being read, and what comes behind it is read on its own. -/
theorem decodeFrom_append_cons {b : UInt8} (hb : b < 0x80) (cs : List UInt8) :
    ∀ (bs : List UInt8) {st : State}, Wide st →
      decodeFrom st (bs ++ b :: cs) = decodeFrom st bs ++ Char.ofNat b.toNat :: decode cs
  | [], .ready, _ => by
      rw [List.nil_append, decodeFrom_cons, step, first_of_lt hb]
      rfl
  | [], .inside missing low high value, h => by
      have hlow : ¬ (low ≤ b ∧ b ≤ high) := by
        rintro ⟨hle, -⟩
        have hlt := UInt8.lt_iff_toNat_lt.1 hb
        have hge := Nat.le_trans h.1 (UInt8.le_iff_toNat_le.1 hle)
        exact absurd hge (Nat.not_le.2 hlt)
      rw [List.nil_append, decodeFrom_cons, step, if_neg hlow, first_of_lt hb]
      rfl
  | b' :: bs, st, h => by
      have ih := decodeFrom_append_cons hb cs bs (wide_step h b')
      rw [List.cons_append, decodeFrom_cons, ih, decodeFrom_cons, List.append_assoc]

/-- **Cuts at ASCII bytes.**  What comes before an ASCII byte and what comes behind it are
read on their own, be they well formed or not. -/
theorem decode_append_cons {b : UInt8} (hb : b < 0x80) (bs cs : List UInt8) :
    decode (bs ++ b :: cs) = decode bs ++ Char.ofNat b.toNat :: decode cs :=
  decodeFrom_append_cons hb cs bs trivial

/-! ## ASCII -/

/-- What is read as ASCII is ASCII. -/
theorem lt_of_decode_ascii :
    ∀ {bs : List UInt8}, (∀ c ∈ decode bs, c.toNat < 128) → ∀ b ∈ bs, b < 0x80
  | [], _, b, hb => nomatch hb
  | first' :: bs, h, b, hb => by
      rw [decode, decodeFrom_cons, step] at h
      by_cases hlt : first' < 0x80
      · rw [first_of_lt hlt] at h
        cases List.mem_cons.1 hb with
        | inl he => exact he ▸ hlt
        | inr hb =>
            have htail : ∀ c ∈ decode bs, c.toNat < 128 := fun c hc =>
              h c (List.mem_cons_of_mem _ hc)
            exact lt_of_decode_ascii htail b hb
      · have hwide := wide_first first'
        rcases first_of_not_lt hlt with hfirst | ⟨_, _, _, _, hfirst⟩
        · rw [hfirst] at h
          exact absurd (h replacement (List.mem_cons_self ..)) (by decide)
        · rw [hfirst] at h hwide
          obtain ⟨c, hc, hle⟩ := decodeFrom_inside bs hwide
          exact absurd (h c hc) (Nat.not_lt.2 hle)

theorem decode_of_lt :
    ∀ {bs : List UInt8}, (∀ b ∈ bs, b < 0x80) → decode bs = bs.map fun b => Char.ofNat b.toNat
  | [], _ => rfl
  | b :: bs, h => by
      rw [List.forall_mem_cons] at h
      have ih := decode_of_lt h.2
      rw [decode, decodeFrom_cons, step, first_of_lt h.1, List.map_cons, ← ih]
      rfl

/-- A part of bytes that are read as ASCII is read as a part of the characters. -/
theorem decode_infix {part bs : List UInt8} (h : ∀ c ∈ decode bs, c.toNat < 128)
    (hpart : part <:+: bs) : decode part <:+: decode bs := by
  have hall := lt_of_decode_ascii h
  rw [decode_of_lt hall, decode_of_lt fun b hb => hall b (hpart.subset hb)]
  exact hpart.map _

end ScriptLint.Utf8
