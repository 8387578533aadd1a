import Mathlib.Data.Bool.AllAny
import Mathlib.Data.List.TakeWhile
import ScriptLint.Json.Reader
import ScriptLint.Json.Writer

/-!
# What is written as JSON is read back

`Json.read?` gives back every value that `Json.write` has written, in either layout
(`read?_write`).  Numbers that are no integers are left out, for their spelling is kept as
it came and need not be that of a number.

Each part of the text is read up to what follows it, so each lemma speaks of a text with a
rest behind it.

* A character is read as its UTF-16 units, whichever of its spellings the writer chose, and
  the units of a text join to its characters.
* An integer ends where a sign follows that no number has (`Ends`).  The writer puts nothing
  else after a value.
* Lists and objects are read item by item.  The reader goes down one level for an item and
  one for each item after it, and both shorten the text that is left.  So twice the length
  is bound enough.

The text itself is printable ASCII, line feeds aside (`isOutput_writeAt`).
-/

namespace ScriptLint.Json

/-! ## Texts -/

theorem hexValue?_hexDigit {n : Nat} (h : n < 16) :
    Text.hexValue? (Text.hexDigit n) = some n := by
  have hall : ∀ n < 16, Text.hexValue? (Text.hexDigit n) = some n := by decide
  exact hall n h

variable {us : List Nat} {s rest tail : List Char}

/-- The escape of a unit is read as the unit. -/
theorem readUnits_unitEscape {unit : Nat} (hunit : unit < 0x10000)
    (h : readUnits rest = some (us, tail)) :
    readUnits (unitEscape unit ++ rest) = some (unit :: us, tail) := by
  have hmod (n : Nat) : Text.hexValue? (Text.hexDigit (n % 16)) = some (n % 16) :=
    hexValue?_hexDigit (Nat.mod_lt _ (by decide))
  have hdigits : Literal.fixed? Text.hexValue? 16 4 (Text.hex 4 unit) = some unit := by
    simp [Literal.fixed?, Text.hex, hmod, Text.ofDigits]
    omega
  simp only [Text.hex, List.nil_append, List.cons_append] at hdigits
  simp only [unitEscape, Text.hex, List.nil_append, List.cons_append, readUnits]
  rw [hdigits, h]
  rfl

theorem readUnits_unitEscapes {l : List Nat} (hl : ∀ unit ∈ l, unit < 0x10000)
    (h : readUnits rest = some (us, tail)) :
    readUnits (l.flatMap unitEscape ++ rest) = some (l ++ us, tail) := by
  induction l with
  | nil => exact h
  | cons unit l ih =>
      rw [List.forall_mem_cons] at hl
      rw [List.flatMap_cons, List.append_assoc]
      exact readUnits_unitEscape hl.1 (ih hl.2)

/-- A short escape is read as what its letter means. -/
theorem readUnits_letter {c : Char} {unit : Nat} (hc : letter? c = some unit)
    (h : readUnits rest = some (us, tail)) :
    readUnits ('\\' :: c :: rest) = some (unit :: us, tail) := by
  have hu : c ≠ 'u' := by
    rintro rfl
    cases hc
  rw [readUnits, hc, h]
  · rfl
  · exact fun _ _ _ _ _ he _ => hu he

/-- Another character above the controls is read as itself. -/
theorem readUnits_plain {c : Char} (hquote : c ≠ '"') (hslash : c ≠ '\\') (hc : 0x20 ≤ c.toNat)
    (h : readUnits rest = some (us, tail)) :
    readUnits (c :: rest) = some (c.toNat :: us, tail) := by
  rw [readUnits, if_neg (Nat.not_lt.2 hc), h]
  · rfl
  · exact hquote
  · exact fun _ _ _ _ _ he _ => hslash he
  · exact fun _ _ he _ => hslash he

theorem toNat_lt (c : Char) : c.toNat < 0x110000 := by
  have h := c.valid
  simp only [UInt32.isValidChar, Nat.isValidChar] at h
  simp only [Char.toNat]
  omega

theorem units_lt (c : Char) : ∀ unit ∈ units c, unit < 0x10000 := by
  have hc := toNat_lt c
  unfold units
  split
  · simpa
  · simp
    omega

theorem units_of_lt {c : Char} (h : c.toNat < 0x10000) : units c = [c.toNat] := if_pos h

/-- A character is written with a letter that means it, as itself, or by its units. -/
theorem escapeChar_cases (c : Char) :
    (∃ d, escapeChar c = ['\\', d] ∧ letter? d = some c.toNat) ∨
    (escapeChar c = [c] ∧ c ≠ '"' ∧ c ≠ '\\' ∧ 0x20 ≤ c.toNat ∧ c.toNat < 0x7F) ∨
    escapeChar c = (units c).flatMap unitEscape := by
  unfold escapeChar
  split
  · next he => exact Or.inl ⟨_, rfl, by rw [he]; rfl⟩
  split
  · next he => exact Or.inl ⟨_, rfl, by rw [he]; rfl⟩
  split
  · next he => exact Or.inl ⟨_, rfl, by rw [he]; rfl⟩
  split
  · next he => exact Or.inl ⟨_, rfl, by rw [he]; rfl⟩
  split
  · next he => exact Or.inl ⟨_, rfl, by rw [he]; rfl⟩
  split
  · next he => exact Or.inl ⟨_, rfl, by rw [he]; rfl⟩
  split
  · next he => exact Or.inl ⟨_, rfl, by rw [he]; rfl⟩
  split
  · next hquote hslash _ _ _ _ _ hc => exact Or.inr (Or.inl ⟨rfl, hquote, hslash, hc⟩)
  · exact Or.inr (Or.inr rfl)

/-- The letters of short escapes are printable, and what they mean takes one unit. -/
theorem of_letter?_eq_some {d : Char} {unit : Nat} (h : letter? d = some unit) :
    unit < 0x10000 ∧ 0x20 ≤ d.toNat ∧ d.toNat < 0x7F := by
  unfold letter? at h
  split at h <;> cases h
  all_goals decide

/-- A character inside a text is read as its units. -/
theorem readUnits_escapeChar (c : Char) (h : readUnits rest = some (us, tail)) :
    readUnits (escapeChar c ++ rest) = some (units c ++ us, tail) := by
  rcases escapeChar_cases c with ⟨d, hc, hletter⟩ | ⟨hc, hquote, hslash, hlow, hhigh⟩ | hc
  · rw [hc, units_of_lt (of_letter?_eq_some hletter).1]
    exact readUnits_letter hletter h
  · rw [hc, units_of_lt (by omega)]
    exact readUnits_plain hquote hslash hlow h
  · rw [hc]
    exact readUnits_unitEscapes (units_lt c) h

/-- No character is half of a surrogate pair. -/
theorem isHigh_toNat (c : Char) : isHigh c.toNat = false ∧ isLow c.toNat = false := by
  have h := c.valid
  simp only [UInt32.isValidChar, Nat.isValidChar] at h
  simp only [isHigh, isLow, Char.toNat, Bool.and_eq_false_iff, decide_eq_false_iff_not]
  omega

/-- The units of a character are joined to it. -/
theorem joinUnits_units (c : Char) (h : joinUnits us = some s) :
    joinUnits (units c ++ us) = some (c :: s) := by
  have hc := isHigh_toNat c
  unfold units
  split
  · cases us with
    | nil =>
        cases h
        simp [joinUnits, hc]
    | cons unit us => simp [joinUnits, hc, h]
  · next hbig =>
      have hlt := toNat_lt c
      have hhigh : isHigh (0xD800 + (c.toNat - 0x10000) / 0x400) = true := by
        simp [isHigh]
        omega
      have hlow : isLow (0xDC00 + (c.toNat - 0x10000) % 0x400) = true := by
        simp [isLow]
        omega
      have hsum : 0x10000 + (0xD800 + (c.toNat - 0x10000) / 0x400 - 0xD800) * 0x400 +
          (0xDC00 + (c.toNat - 0x10000) % 0x400 - 0xDC00) = c.toNat := by
        omega
      simp only [List.cons_append, List.nil_append, joinUnits, hhigh, hlow, Bool.and_self, if_true,
        hsum, h, Option.map_some, Char.ofNat_toNat]

theorem readUnits_flatMap (s rest : List Char) :
    readUnits (s.flatMap escapeChar ++ '"' :: rest) = some (s.flatMap units, rest) := by
  induction s with
  | nil => rfl
  | cons c s ih =>
      rw [List.flatMap_cons, List.flatMap_cons, List.append_assoc]
      exact readUnits_escapeChar c ih

theorem joinUnits_flatMap (s : List Char) : joinUnits (s.flatMap units) = some s := by
  induction s with
  | nil => rfl
  | cons c s ih =>
      rw [List.flatMap_cons]
      exact joinUnits_units c ih

/-- A text is read as it was written. -/
theorem readString_writeString (value : String) (rest : List Char) :
    ∃ s, writeString value ++ rest = '"' :: s ∧ readString s = some (value, rest) := by
  refine ⟨value.toList.flatMap escapeChar ++ '"' :: rest, by simp [writeString], ?_⟩
  rw [readString, readUnits_flatMap, Option.bind_eq_bind, Option.bind_some]
  simp [joinUnits_flatMap]

/-! ## Numbers -/

/-- What follows a value in a text: nothing, or a sign that ends it. -/
def Ends (rest : List Char) : Prop :=
  ∀ c ∈ rest.head?, c ∈ [',', ']', '}', '\n']

theorem ends_nil : Ends [] := by
  intro c hc
  cases hc

theorem ends_cons {c : Char} (h : c ∈ [',', ']', '}', '\n']) (rest : List Char) :
    Ends (c :: rest) := by
  intro d hd
  cases hd
  exact h

theorem isDigit_of_mem_toDigits {n : Nat} {c : Char} (h : c ∈ Nat.toDigits 10 n) :
    isDigit c = true := by
  have hc := Nat.isDigit_of_mem_toDigits (by decide) (by decide) h
  simpa [isDigit, Char.isDigit, Char.le_def, UInt32.le_iff_toNat_le] using hc

/-- A number starts with a digit. -/
theorem exists_toDigits_eq_cons (n : Nat) :
    ∃ c s, Nat.toDigits 10 n = c :: s ∧ isDigit c = true := by
  obtain ⟨c, s, hs⟩ := List.exists_cons_of_ne_nil (Nat.toDigits_ne_nil (n := n) (b := 10))
  exact ⟨c, s, hs, isDigit_of_mem_toDigits (hs ▸ List.mem_cons_self ..)⟩

/-- A number is written without zeros before other digits. -/
theorem head?_toDigits_ne {n : Nat} (h : 0 < n) : (Nat.toDigits 10 n).head? ≠ some '0' := by
  induction n using Nat.strongRecOn with
  | ind n ih =>
      by_cases hlt : n < 10
      · rw [Nat.toDigits_of_lt_base hlt]
        simp
        omega
      · have hle : 10 ≤ n := Nat.le_of_not_lt hlt
        rw [Nat.toDigits_of_base_le (by decide) hle, List.head?_append,
          List.head?_eq_some_head Nat.toDigits_ne_nil, Option.some_or, ← List.head?_eq_some_head]
        exact ih (n / 10) (by omega) (by omega)

theorem not_leadingZero (n : Nat) :
    ¬ ((Nat.toDigits 10 n).head? = some '0' ∧ 2 ≤ (Nat.toDigits 10 n).length) := by
  rintro ⟨hhead, hlength⟩
  cases Nat.eq_zero_or_pos n with
  | inl hzero =>
      rw [hzero, Nat.toDigits_zero] at hlength
      simp at hlength
  | inr hpos => exact head?_toDigits_ne hpos hhead

theorem ofDigits_toDigits (n : Nat) :
    Text.ofDigits 10 ((Nat.toDigits 10 n).map fun c => c.toNat - '0'.toNat) = n := by
  rw [Text.ofDigits, List.foldl_map]
  simp only [Nat.mul_comm _ 10]
  exact Nat.ofDigitChars_ten_toDigits

/-- Digits are read up to what ends the value. -/
theorem digits?_toDigits (n : Nat) (hrest : Ends rest) :
    digits? (Nat.toDigits 10 n ++ rest) = some (Nat.toDigits 10 n, rest) := by
  have hall : ∀ c ∈ Nat.toDigits 10 n, isDigit c = true := fun c hc => isDigit_of_mem_toDigits hc
  have hnone : rest.takeWhile isDigit = [] ∧ rest.dropWhile isDigit = rest := by
    cases rest with
    | nil => exact ⟨rfl, rfl⟩
    | cons c rest =>
        have hc : isDigit c = false := by
          have hends : ∀ c ∈ [',', ']', '}', '\n'], isDigit c = false :=
            List.all_iff_forall_prop.1 (by decide)
          exact hends c (hrest c rfl)
        simp [hc]
  have htake : (Nat.toDigits 10 n ++ rest).takeWhile isDigit = Nat.toDigits 10 n := by
    rw [List.takeWhile_append_of_pos hall, hnone.1, List.append_nil]
  have hdrop : (Nat.toDigits 10 n ++ rest).dropWhile isDigit = rest := by
    rw [List.dropWhile_append_of_pos hall, hnone.2]
  unfold digits?
  rw [htake, hdrop]
  split
  · next hnil => exact absurd hnil Nat.toDigits_ne_nil
  · rfl

theorem fraction?_of_ends (hrest : Ends rest) : fraction? rest = some ([], rest) := by
  unfold fraction?
  split
  · next s => exact absurd (hrest '.' rfl) (by decide)
  · rfl

theorem exponent?_of_ends (hrest : Ends rest) : exponent? rest = some ([], rest) := by
  unfold exponent?
  split
  · next e s =>
      have hends : ∀ c ∈ [',', ']', '}', '\n'], ¬ (c = 'e' ∨ c = 'E') :=
        List.all_iff_forall_prop.1 (by decide)
      rw [if_neg (hends e (hrest e rfl))]
  · rfl

theorem readMagnitude_toDigits (negative : Bool) (n : Nat) (hrest : Ends rest) :
    readMagnitude negative (Nat.toDigits 10 n ++ rest) =
      some (.integer (if negative then -(n : Int) else n), rest) := by
  unfold readMagnitude
  rw [digits?_toDigits n hrest]
  simp only [Option.bind_eq_bind, Option.bind_some, if_neg (not_leadingZero n)]
  rw [fraction?_of_ends hrest, Option.bind_some]
  simp only [exponent?_of_ends hrest, Option.bind_some, ofDigits_toDigits]
  rfl

theorem toList_toString_ofNat (n : Nat) : (toString (n : Int)).toList = Nat.toDigits 10 n := by
  rw [Int.toString_eq_repr, Int.repr_eq_if, if_pos (Int.natCast_nonneg n), Int.toNat_natCast,
    Nat.toList_repr]

theorem toList_toString_negSucc (n : Nat) :
    (toString (Int.negSucc n)).toList = '-' :: Nat.toDigits 10 (n + 1) := by
  have hneg : ¬ 0 ≤ Int.negSucc n := Int.not_le.2 (Int.negSucc_lt_zero n)
  rw [Int.toString_eq_repr, Int.repr_eq_if, if_neg hneg, Int.neg_negSucc, String.toList_append,
    ← Nat.toList_repr]
  rfl

/-- An integer is read as it was written. -/
theorem readNumber_toString (value : Int) (hrest : Ends rest) :
    readNumber ((toString value).toList ++ rest) = some (.integer value, rest) := by
  cases value with
  | ofNat n =>
      obtain ⟨c, s, hs, hc⟩ := exists_toDigits_eq_cons n
      have hsign : ∀ t, c :: s ++ rest ≠ '-' :: t := fun t he => by
        rw [(List.cons.inj he).1] at hc
        cases hc
      rw [Int.ofNat_eq_natCast, toList_toString_ofNat, hs, readNumber.eq_2 _ hsign, ← hs]
      exact readMagnitude_toDigits false n hrest
  | negSucc n =>
      rw [toList_toString_negSucc, List.cons_append, readNumber]
      exact readMagnitude_toDigits true (n + 1) hrest

/-! ## Values -/

mutual

/-- Whether all numbers in a value are integers. -/
def integral : Json → Bool
  | .decimal _ => false
  | .array items => integralItems items
  | .object fields => integralFields fields
  | _ => true

/-- Whether all numbers in the items of a list are integers. -/
def integralItems : List Json → Bool
  | [] => true
  | item :: items => integral item && integralItems items

/-- Whether all numbers in the fields of an object are integers. -/
def integralFields : List (String × Json) → Bool
  | [] => true
  | (_, value) :: fields => integral value && integralFields fields

end

variable (layout : Layout)

/-- What stands before an item are line breaks and blanks. -/
theorem mem_break {depth : Nat} {c : Char} (hc : c ∈ layout.break depth) : c ∈ ['\n', ' '] := by
  unfold Layout.break at hc
  split at hc
  · rw [List.mem_cons, List.mem_replicate] at hc
    cases hc with
    | inl hc => exact hc ▸ List.mem_cons_self ..
    | inr hc => exact hc.2 ▸ List.mem_cons_of_mem _ (List.mem_singleton_self _)
  · cases hc

/-- What stands before an item is skipped. -/
theorem skip_break (depth : Nat) (s : List Char) : skip (layout.break depth ++ s) = skip s := by
  have hgaps : ∀ c ∈ ['\n', ' '], isGap c = true := List.all_iff_forall_prop.1 (by decide)
  exact List.dropWhile_append_of_pos fun c hc => hgaps c (mem_break layout hc)

theorem skip_of_not_gap {c : Char} (hc : isGap c = false) (s : List Char) :
    skip (c :: s) = c :: s := by
  simp [skip, hc]

theorem ends_break {c : Char} (hc : c ∈ [',', ']', '}', '\n']) (depth : Nat) (s : List Char) :
    Ends (layout.break depth ++ c :: s) := by
  unfold Layout.break
  split
  · exact ends_cons (by decide) _
  · exact ends_cons hc _

/-- What a number starts with. -/
def StartsNumber (c : Char) : Prop :=
  c = '-' ∨ isDigit c = true

instance (c : Char) : Decidable (StartsNumber c) :=
  inferInstanceAs (Decidable (_ ∨ _))

theorem exists_toString_eq_cons (value : Int) :
    ∃ c s, (toString value).toList = c :: s ∧ StartsNumber c := by
  cases value with
  | ofNat n =>
      obtain ⟨c, s, hs, hc⟩ := exists_toDigits_eq_cons n
      exact ⟨c, s, (toList_toString_ofNat n).trans hs, Or.inr hc⟩
  | negSucc n => exact ⟨'-', _, toList_toString_negSucc n, Or.inl rfl⟩

theorem StartsNumber.ne {c d : Char} (hc : StartsNumber c) (hd : ¬ StartsNumber d) : c ≠ d :=
  fun he => hd (he ▸ hc)

/-- A value starts with a sign that is no blank and no bracket that closes. -/
theorem exists_writeAt_eq_cons (depth : Nat) {j : Json} (hj : integral j = true) :
    ∃ c s, writeAt layout depth j = c :: s ∧ isGap c = false ∧ c ≠ ']' := by
  cases j with
  | null => exact ⟨'n', _, rfl, by decide⟩
  | bool value => cases value <;> exact ⟨_, _, rfl, by decide⟩
  | integer value =>
      obtain ⟨c, s, hs, hc⟩ := exists_toString_eq_cons value
      refine ⟨c, s, hs, ?_, hc.ne (by decide)⟩
      have hnot : ∀ d ∈ [' ', '\t', '\n', '\r'], ¬ StartsNumber d :=
        List.all_iff_forall_prop.1 (by decide)
      have hgaps : ∀ d ∈ [' ', '\t', '\n', '\r'], c ≠ d := fun d hd => hc.ne (hnot d hd)
      simpa [isGap, and_assoc] using hgaps
  | decimal spelling => cases hj
  | string value => exact ⟨'"', _, rfl, by decide⟩
  | array items => cases items <;> exact ⟨'[', _, rfl, by decide⟩
  | object fields => cases fields <;> exact ⟨'{', _, rfl, by decide⟩

variable {layout}

/-- A value is read from where it starts. -/
theorem skip_writeAt {depth : Nat} {j : Json} (hj : integral j = true) (rest : List Char) :
    skip (writeAt layout depth j ++ rest) = writeAt layout depth j ++ rest := by
  obtain ⟨c, t, ht, hgap, -⟩ := exists_writeAt_eq_cons layout depth hj
  rw [ht, List.cons_append, skip_of_not_gap hgap]

theorem skip_space_writeAt {depth : Nat} {j : Json} (hj : integral j = true) (rest : List Char) :
    skip (' ' :: (writeAt layout depth j ++ rest)) = writeAt layout depth j ++ rest :=
  skip_writeAt hj rest

theorem skip_writeString (name : String) (rest : List Char) :
    skip (writeString name ++ rest) = writeString name ++ rest := by
  rw [writeString, List.cons_append, List.cons_append, skip_of_not_gap (by decide)]

theorem readValue_of_quote {bound : Nat} {s t rest : List Char} {value : String}
    (hs : skip s = '"' :: t) (h : readString t = some (value, rest)) :
    readValue (bound + 1) s = some (.string value, rest) := by
  rw [readValue, hs]
  simp only [h, Option.map_some]

theorem readValue_of_bracket {bound : Nat} {s t t' rest : List Char} {items : List Json}
    (hs : skip s = '[' :: t) (ht : skip t = t') (hclosed : ∀ u, t' ≠ ']' :: u)
    (h : readItems bound t' = some (items, rest)) :
    readValue (bound + 1) s = some (.array items, rest) := by
  rw [readValue, hs]
  simp only [ht]
  rw [h]
  rfl

theorem readValue_of_brace {bound : Nat} {s t t' rest : List Char}
    {fields : List (String × Json)} (hs : skip s = '{' :: t) (ht : skip t = t')
    (hclosed : ∀ u, t' ≠ '}' :: u) (h : readFields bound t' = some (fields, rest)) :
    readValue (bound + 1) s = some (.object fields, rest) := by
  rw [readValue, hs]
  simp only [ht]
  rw [h]
  rfl

theorem readValue_of_number {bound : Nat} {s t : List Char} {c : Char} (hs : skip s = c :: t)
    (hc : StartsNumber c) : readValue (bound + 1) s = readNumber (c :: t) := by
  have hne {d : Char} (hd : ¬ StartsNumber d) : c ≠ d := hc.ne hd
  rw [readValue, hs]
  split
  · next he => exact absurd (List.cons.inj he).1 (hne (by decide))
  · next he => exact absurd (List.cons.inj he).1 (hne (by decide))
  · next he => exact absurd (List.cons.inj he).1 (hne (by decide))
  · next he => exact absurd (List.cons.inj he).1 (hne (by decide))
  · next he => exact absurd (List.cons.inj he).1 (hne (by decide))
  · next he => exact absurd (List.cons.inj he).1 (hne (by decide))
  · rfl

theorem readName_writeString {s rest : List Char} {name : String}
    (hs : skip s = writeString name ++ ':' :: rest) : readName s = some (name, rest) := by
  obtain ⟨t, ht, hread⟩ := readString_writeString name (':' :: rest)
  rw [readName, hs, ht]
  simp [hread, skip, isGap]

mutual

theorem readValue_writeAt : ∀ (j : Json) {depth bound : Nat} {s rest : List Char},
    integral j = true → Ends rest → skip s = writeAt layout depth j ++ rest →
      2 * (writeAt layout depth j).length ≤ bound → readValue bound s = some (j, rest)
  | j, depth, 0, s, rest, hj, _, _, hbound => by
      obtain ⟨c, t, ht, -, -⟩ := exists_writeAt_eq_cons layout depth hj
      rw [ht, List.length_cons] at hbound
      omega
  | .null, depth, bound + 1, s, rest, _, _, hs, _ => by
      rw [readValue, hs]
      rfl
  | .bool true, depth, bound + 1, s, rest, _, _, hs, _ => by
      rw [readValue, hs]
      rfl
  | .bool false, depth, bound + 1, s, rest, _, _, hs, _ => by
      rw [readValue, hs]
      rfl
  | .integer value, depth, bound + 1, s, rest, _, hrest, hs, _ => by
      obtain ⟨c, t, ht, hc⟩ := exists_toString_eq_cons value
      have hread := readNumber_toString value hrest
      rw [writeAt, ht, List.cons_append] at hs
      rw [ht, List.cons_append] at hread
      rw [readValue_of_number hs hc, hread]
  | .string value, depth, bound + 1, s, rest, _, _, hs, _ => by
      obtain ⟨t, ht, hread⟩ := readString_writeString value rest
      rw [writeAt, ht] at hs
      exact readValue_of_quote hs hread
  | .array [], depth, bound + 1, s, rest, _, _, hs, _ => by
      rw [readValue, hs]
      rfl
  | .array (item :: items), depth, bound + 1, s, rest, hj, _, hs, hbound => by
      rw [integral, integralItems, Bool.and_eq_true] at hj
      obtain ⟨c, t, ht, -, hc⟩ := exists_writeAt_eq_cons layout (depth + 1) hj.1
      simp only [writeAt, List.cons_append, List.append_assoc, List.nil_append] at hs
      simp only [writeAt, List.length_append, List.length_cons] at hbound
      refine readValue_of_bracket hs ((skip_break ..).trans (skip_writeAt hj.1 _)) ?_ ?_
      · rw [ht]
        exact fun t' he => hc (List.cons.inj he).1
      · exact readItems_writeItems item items hj.1 hj.2 (skip_writeAt hj.1 _) (by omega)
  | .object [], depth, bound + 1, s, rest, _, _, hs, _ => by
      rw [readValue, hs]
      rfl
  | .object ((name, value) :: fields), depth, bound + 1, s, rest, hj, _, hs, hbound => by
      rw [integral, integralFields, Bool.and_eq_true] at hj
      simp only [writeAt, List.cons_append, List.append_assoc, List.nil_append] at hs
      simp only [writeAt, List.length_append, List.length_cons] at hbound
      refine readValue_of_brace hs ((skip_break ..).trans (skip_writeString name _)) ?_ ?_
      · intro u he
        cases (List.cons.inj he).1
      · exact readFields_writeFields name value fields hj.1 hj.2 (skip_writeString name _)
          (by omega)
termination_by j => sizeOf j

theorem readItems_writeItems : ∀ (item : Json) (items : List Json) {depth outer bound : Nat}
    {s rest : List Char}, integral item = true → integralItems items = true →
      skip s = writeAt layout depth item ++
        (writeItems layout depth items ++ (layout.break outer ++ ']' :: rest)) →
      2 * ((writeAt layout depth item).length + (writeItems layout depth items).length) < bound →
      readItems bound s = some (item :: items, rest)
  | item, items, depth, outer, 0, s, rest, _, _, _, hbound => by omega
  | item, [], depth, outer, bound + 1, s, rest, hitem, _, hs, hbound => by
      have hend : Ends (layout.break outer ++ ']' :: rest) := ends_break layout (by decide) outer rest
      rw [writeItems, List.nil_append] at hs
      rw [readItems, readValue_writeAt item hitem hend hs (by omega)]
      simp [skip_break, skip_of_not_gap (c := ']') (by decide)]
  | item, item' :: items, depth, outer, bound + 1, s, rest, hitem, hitems, hs, hbound => by
      rw [integralItems, Bool.and_eq_true] at hitems
      simp only [writeItems, List.cons_append, List.append_assoc] at hs
      simp only [writeItems, List.length_append, List.length_cons] at hbound
      have hnext := (skip_break layout depth (writeAt layout depth item' ++
        (writeItems layout depth items ++ (layout.break outer ++ ']' :: rest)))).trans
          (skip_writeAt hitems.1 _)
      have hbelow : 2 * ((writeAt layout depth item').length +
          (writeItems layout depth items).length) < bound := by
        omega
      have ih := readItems_writeItems item' items hitems.1 hitems.2 hnext hbelow
      rw [readItems, readValue_writeAt item hitem (ends_cons (by decide) _) hs (by omega)]
      simp [skip_of_not_gap (c := ',') (by decide), ih]
termination_by item items => sizeOf item + sizeOf items

theorem readFields_writeFields : ∀ (name : String) (value : Json) (fields : List (String × Json))
    {depth outer bound : Nat} {s rest : List Char}, integral value = true →
      integralFields fields = true →
      skip s = writeString name ++ ':' :: ' ' :: (writeAt layout depth value ++
        (writeFields layout depth fields ++ (layout.break outer ++ '}' :: rest))) →
      2 * ((writeAt layout depth value).length + (writeFields layout depth fields).length)
        < bound →
      readFields bound s = some ((name, value) :: fields, rest)
  | name, value, fields, depth, outer, 0, s, rest, _, _, _, hbound => by omega
  | name, value, [], depth, outer, bound + 1, s, rest, hvalue, _, hs, hbound => by
      have hend : Ends (layout.break outer ++ '}' :: rest) := ends_break layout (by decide) outer rest
      rw [writeFields, List.nil_append] at hs
      rw [readFields, readName_writeString hs]
      simp only [Option.bind_eq_bind, Option.bind_some]
      rw [readValue_writeAt value hvalue hend (skip_space_writeAt hvalue _) (by omega)]
      simp [skip_break, skip_of_not_gap (c := '}') (by decide)]
  | name, value, (name', value') :: fields, depth, outer, bound + 1, s, rest, hvalue, hfields, hs,
      hbound => by
      rw [integralFields, Bool.and_eq_true] at hfields
      simp only [writeFields, List.cons_append, List.append_assoc, List.nil_append] at hs
      simp only [writeFields, List.length_append, List.length_cons] at hbound
      have hnext := (skip_break layout depth (writeString name' ++ ':' :: ' ' ::
        (writeAt layout depth value' ++ (writeFields layout depth fields ++
          (layout.break outer ++ '}' :: rest))))).trans (skip_writeString name' _)
      have hbelow : 2 * ((writeAt layout depth value').length +
          (writeFields layout depth fields).length) < bound := by
        omega
      have ih := readFields_writeFields name' value' fields hfields.1 hfields.2 hnext hbelow
      rw [readFields, readName_writeString hs]
      simp only [Option.bind_eq_bind, Option.bind_some]
      rw [readValue_writeAt value hvalue (ends_cons (by decide) _) (skip_space_writeAt hvalue _)
        (by omega)]
      simp [skip_of_not_gap (c := ',') (by decide), ih]
termination_by _ value fields => sizeOf value + sizeOf fields

end

/-- A value is read as it was written, if all numbers in it are integers. -/
theorem read?_write (layout : Layout) {j : Json} (hj : integral j = true) :
    read? (j.write layout).toList = some j := by
  have hskip : skip (writeAt layout 0 j) = writeAt layout 0 j ++ [] := by
    simpa using skip_writeAt hj []
  rw [write, String.toList_ofList, read?, readValue_writeAt j hj ends_nil hskip (by omega)]
  rfl

/-! ## Characters -/

/-- The characters that values are written with: printable ASCII, and line feeds for the
layout. -/
def isOutput (c : Char) : Bool :=
  (0x20 ≤ c.toNat && c.toNat < 0x7F) || c == '\n'

theorem isOutput_escapeChar (c : Char) : ∀ d ∈ escapeChar c, isOutput d = true := by
  rcases escapeChar_cases c with ⟨d, hc, hletter⟩ | ⟨hc, -, -, hprintable⟩ | hc
  · obtain ⟨-, hprintable⟩ := of_letter?_eq_some hletter
    simp [hc, isOutput, hprintable]
  · simp [hc, isOutput, hprintable]
  · intro d hd
    rw [hc] at hd
    obtain ⟨unit, -, hd⟩ := List.mem_flatMap.1 hd
    rw [unitEscape, List.mem_cons, List.mem_cons] at hd
    rcases hd with rfl | rfl | hd
    · decide
    · decide
    · obtain ⟨v, hv, rfl⟩ := Text.exists_hexDigit_of_mem_hex hd
      have hall : ∀ v < 16, isOutput (Text.hexDigit v) = true := by decide
      exact hall v hv

theorem isOutput_writeString (s : String) : ∀ c ∈ writeString s, isOutput c = true := by
  intro c hc
  simp only [writeString, List.cons_append, List.mem_cons, List.mem_append, List.mem_flatMap,
    List.not_mem_nil, or_false] at hc
  rcases hc with rfl | ⟨d, -, hc⟩ | rfl
  · decide
  · exact isOutput_escapeChar d c hc
  · decide

theorem isOutput_of_isDigit {c : Char} (h : isDigit c = true) : isOutput c = true := by
  simp only [isDigit, isOutput, Bool.and_eq_true, decide_eq_true_eq, Char.le_def,
    UInt32.le_iff_toNat_le, Bool.or_eq_true] at h ⊢
  have h1 : 48 ≤ c.toNat := h.1
  have h2 : c.toNat ≤ 57 := h.2
  omega

theorem isOutput_toString (value : Int) : ∀ c ∈ (toString value).toList, isOutput c = true := by
  cases value with
  | ofNat n =>
      intro c hc
      rw [Int.ofNat_eq_natCast, toList_toString_ofNat] at hc
      exact isOutput_of_isDigit (isDigit_of_mem_toDigits hc)
  | negSucc n =>
      rw [toList_toString_negSucc, List.forall_mem_cons]
      exact ⟨by decide, fun c hc => isOutput_of_isDigit (isDigit_of_mem_toDigits hc)⟩

theorem isOutput_break (layout : Layout) (depth : Nat) :
    ∀ c ∈ layout.break depth, isOutput c = true := by
  have hall : ∀ c ∈ ['\n', ' '], isOutput c = true := List.all_iff_forall_prop.1 (by decide)
  exact fun c hc => hall c (mem_break layout hc)

mutual

theorem isOutput_writeAt (layout : Layout) : ∀ (j : Json) (depth : Nat), integral j = true →
    ∀ c ∈ writeAt layout depth j, isOutput c = true
  | .null, _, _ => by
      rw [writeAt]
      exact List.all_iff_forall_prop.1 (by decide)
  | .bool true, _, _ => by
      rw [writeAt]
      exact List.all_iff_forall_prop.1 (by decide)
  | .bool false, _, _ => by
      rw [writeAt]
      exact List.all_iff_forall_prop.1 (by decide)
  | .integer value, _, _ => isOutput_toString value
  | .string value, _, _ => isOutput_writeString value
  | .array [], _, _ => by
      rw [writeAt]
      exact List.all_iff_forall_prop.1 (by decide)
  | .array (item :: items), depth, hj => by
      rw [integral, integralItems, Bool.and_eq_true] at hj
      simp only [writeAt, List.cons_append, List.forall_mem_cons, List.forall_mem_append]
      exact ⟨by decide, ⟨⟨⟨isOutput_break layout _, isOutput_writeAt layout item _ hj.1⟩,
        isOutput_writeItems layout items _ hj.2⟩, isOutput_break layout _⟩,
        by decide, List.forall_mem_nil _⟩
  | .object [], _, _ => by
      rw [writeAt]
      exact List.all_iff_forall_prop.1 (by decide)
  | .object ((name, value) :: fields), depth, hj => by
      rw [integral, integralFields, Bool.and_eq_true] at hj
      simp only [writeAt, List.cons_append, List.forall_mem_cons, List.forall_mem_append]
      exact ⟨by decide, ⟨⟨⟨⟨⟨isOutput_break layout _, isOutput_writeString name⟩,
        by decide, by decide, List.forall_mem_nil _⟩,
        isOutput_writeAt layout value _ hj.1⟩, isOutput_writeFields layout fields _ hj.2⟩,
        isOutput_break layout _⟩, by decide, List.forall_mem_nil _⟩

theorem isOutput_writeItems (layout : Layout) : ∀ (items : List Json) (depth : Nat),
    integralItems items = true → ∀ c ∈ writeItems layout depth items, isOutput c = true
  | [], _, _ => by
      intro c hc
      cases hc
  | item :: items, depth, hitems => by
      rw [integralItems, Bool.and_eq_true] at hitems
      simp only [writeItems, List.cons_append, List.forall_mem_cons, List.forall_mem_append]
      exact ⟨by decide, ⟨isOutput_break layout _, isOutput_writeAt layout item _ hitems.1⟩,
        isOutput_writeItems layout items _ hitems.2⟩

theorem isOutput_writeFields (layout : Layout) : ∀ (fields : List (String × Json)) (depth : Nat),
    integralFields fields = true → ∀ c ∈ writeFields layout depth fields, isOutput c = true
  | [], _, _ => by
      intro c hc
      cases hc
  | (name, value) :: fields, depth, hfields => by
      rw [integralFields, Bool.and_eq_true] at hfields
      simp only [writeFields, List.cons_append, List.forall_mem_cons, List.forall_mem_append]
      exact ⟨by decide, ⟨⟨⟨isOutput_break layout _, isOutput_writeString name⟩,
        by decide, by decide, List.forall_mem_nil _⟩,
        isOutput_writeAt layout value _ hfields.1⟩, isOutput_writeFields layout fields _ hfields.2⟩

end

end ScriptLint.Json
