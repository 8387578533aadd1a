import Mathlib.Data.Bool.AllAny
import Mathlib.Data.List.TakeWhile
import ScriptLint.Literal

/-!
# What a string literal spells by the standard

The grammar of string literals, as the standard of the language has it for
scripts that are not strict, is written down here production by production.
`EscapeSequence` has one constructor for each kind of escape, with the lookahead
that the standard asks for, and `Spells` gives the body of a literal its value, a
sequence of UTF-16 code units.

`Literal.cook` reads the same escapes with the same widths, except for one kind.
After a digit from `4` to `7` the standard takes at most one more octal digit,
for an octal escape names nothing above U+00FF.  The reader takes two more.
`highOctals` counts the places where this makes a difference, and
`length_eq` says that each of them costs the reader one code unit.  So the
reader gives a body its value exactly when there is no such place
(`units_cook_eq_iff`).

A backslash takes the next character with it, whatever the escape.  That is why
counting needs no grammar.
-/

namespace ScriptLint.Literal

/-! ## Digits and code units -/

/-- The UTF-16 code units of a code point. -/
def utf16 (point : Nat) : List Nat :=
  if point < 0x10000 then [point]
  else [0xD800 + (point - 0x10000) / 0x400, 0xDC00 + (point - 0x10000) % 0x400]

/-- The character is the octal digit with a value. -/
def OctalDigit (c : Char) (value : Nat) : Prop :=
  (c, value) ∈ "01234567".toList.zipIdx

/-- The character is a hexadecimal digit with a value, in either letter case. -/
def HexDigit (c : Char) (value : Nat) : Prop :=
  (c, value) ∈ "0123456789abcdef".toList.zipIdx ++ "0123456789ABCDEF".toList.zipIdx

instance (c : Char) (value : Nat) : Decidable (OctalDigit c value) :=
  inferInstanceAs (Decidable (_ ∈ _))

instance (c : Char) (value : Nat) : Decidable (HexDigit c value) :=
  inferInstanceAs (Decidable (_ ∈ _))

/-- Hexadecimal digits, at least one, and the number that they spell. -/
inductive HexDigits : List Char → Nat → Prop where
  /-- One digit. -/
  | one {c : Char} {v : Nat} : HexDigit c v → HexDigits [c] v
  /-- A further digit at the end. -/
  | more {s : List Char} {c : Char} {u v : Nat} :
      HexDigits s u → HexDigit c v → HexDigits (s ++ [c]) (16 * u + v)

/-! ## The grammar -/

/-- The letters and signs with a meaning of their own after a backslash, each
with the code unit that it means. -/
def singleEscapes : List (Char × Nat) :=
  [('\'', 0x27), ('"', 0x22), ('\\', 0x5C), ('b', 8), ('f', 0xC), ('n', 0xA), ('r', 0xD),
    ('t', 9), ('v', 0xB)]

/-- What an escape that stands for its character must not start with. -/
def notThemselves : List Char :=
  singleEscapes.map (·.1) ++ "0123456789xu\n\r\u2028\u2029".toList

/-- The characters `s` after a backslash are an escape sequence or a line
continuation, followed by `rest`, and spell some code units. -/
inductive EscapeSequence (rest : List Char) : List Char → List Nat → Prop where
  /-- A letter or sign with a meaning of its own. -/
  | single {c : Char} {unit : Nat} :
      (c, unit) ∈ singleEscapes → EscapeSequence rest [c] [unit]
  /-- A character that stands for itself. -/
  | itself {c : Char} : c ∉ notThemselves → EscapeSequence rest [c] (utf16 c.toNat)
  /-- The null character, if no decimal digit follows. -/
  | null : (∀ d ∈ rest.head?, d ∉ "0123456789".toList) → EscapeSequence rest ['0'] [0]
  /-- The null character before a digit that is not octal. -/
  | legacyNull : (∃ d ∈ rest.head?, d ∈ "89".toList) → EscapeSequence rest ['0'] [0]
  /-- One octal digit that is not zero. -/
  | octal {a : Char} {u : Nat} :
      OctalDigit a u → u ≠ 0 → (∀ d ∈ rest.head?, ∀ x, ¬ OctalDigit d x) →
      EscapeSequence rest [a] [u]
  /-- Two octal digits, the first of them at most three. -/
  | lowOctals {a b : Char} {u v : Nat} :
      OctalDigit a u → u ≤ 3 → OctalDigit b v → (∀ d ∈ rest.head?, ∀ x, ¬ OctalDigit d x) →
      EscapeSequence rest [a, b] [8 * u + v]
  /-- Two octal digits, the first of them at least four.  Another one may follow. -/
  | highOctals {a b : Char} {u v : Nat} :
      OctalDigit a u → 4 ≤ u → OctalDigit b v → EscapeSequence rest [a, b] [8 * u + v]
  /-- Three octal digits, the first of them at most three. -/
  | threeOctals {a b c : Char} {u v w : Nat} :
      OctalDigit a u → u ≤ 3 → OctalDigit b v → OctalDigit c w →
      EscapeSequence rest [a, b, c] [64 * u + 8 * v + w]
  /-- A decimal digit that is not octal stands for itself. -/
  | decimal {c : Char} : c ∈ "89".toList → EscapeSequence rest [c] [c.toNat]
  /-- Two hexadecimal digits. -/
  | hex {a b : Char} {u v : Nat} :
      HexDigit a u → HexDigit b v → EscapeSequence rest ['x', a, b] [16 * u + v]
  /-- Four hexadecimal digits. -/
  | unicode {a b c d : Char} {u v w x : Nat} :
      HexDigit a u → HexDigit b v → HexDigit c w → HexDigit d x →
      EscapeSequence rest ['u', a, b, c, d] [0x1000 * u + 0x100 * v + 0x10 * w + x]
  /-- A code point in braces. -/
  | codePoint {s : List Char} {point : Nat} :
      HexDigits s point → point ≤ 0x10FFFF →
      EscapeSequence rest ('u' :: '{' :: (s ++ ['}'])) (utf16 point)
  /-- A line terminator sequence spells nothing. -/
  | continuation {s : List Char} :
      s ∈ [['\n'], ['\u2028'], ['\u2029'], ['\r', '\n']] → EscapeSequence rest s []
  /-- So does a carriage return without a line feed. -/
  | carriageReturn : (∀ d ∈ rest.head?, d ≠ '\n') → EscapeSequence rest ['\r'] []

/-- The body of a string literal in some quotes has a sequence of code units as its
value. -/
inductive Spells (quote : Char) : List Char → List Nat → Prop where
  /-- Nothing. -/
  | nil : Spells quote [] []
  /-- A character other than the quote, the backslash, and the two line breaks
  that end a line of script text inside a literal. -/
  | plain {c : Char} {s : List Char} {units : List Nat} :
      c ≠ quote → c ≠ '\\' → c ≠ '\n' → c ≠ '\r' → Spells quote s units →
      Spells quote (c :: s) (utf16 c.toNat ++ units)
  /-- An escape. -/
  | escape {s rest : List Char} {units more : List Nat} :
      EscapeSequence rest s units → Spells quote rest more →
      Spells quote ('\\' :: (s ++ rest)) (units ++ more)

/-- Whether three octal digits come first, the first of them at least four. -/
def startsHighOctal (s : List Char) : Bool :=
  match s with
  | a :: b :: c :: _ =>
      "4567".toList.contains a && "01234567".toList.contains b && "01234567".toList.contains c
  | _ => false

/-- How many escapes start with three octal digits, the first of them at least
four. -/
def highOctals : List Char → Nat
  | [] => 0
  | ['\\'] => 0
  | '\\' :: a :: s => (if startsHighOctal (a :: s) then 1 else 0) + highOctals s
  | _ :: s => highOctals s

/-! ## Digits are read as they are meant -/

theorem octalValue?_eq_some_iff {c : Char} {value : Nat} :
    Text.octalValue? c = some value ↔ OctalDigit c value := by
  constructor
  · intro h
    unfold Text.octalValue? at h
    split at h
    · next hc =>
      cases h
      have hlow : 48 ≤ c.toNat := hc.1
      have hhigh : c.toNat ≤ 55 := hc.2
      have hcases : c.toNat = '0'.toNat ∨ c.toNat = '1'.toNat ∨ c.toNat = '2'.toNat ∨
          c.toNat = '3'.toNat ∨ c.toNat = '4'.toNat ∨ c.toNat = '5'.toNat ∨
          c.toNat = '6'.toNat ∨ c.toNat = '7'.toNat := by
        simp only [Char.reduceToNat]
        omega
      simp only [Char.toNat_inj] at hcases
      rcases hcases with h | h | h | h | h | h | h | h <;> (subst h; decide)
    · cases h
  · have hall : ∀ cv ∈ "01234567".toList.zipIdx, Text.octalValue? cv.1 = some cv.2 := by decide
    exact fun h => hall _ h

theorem HexDigit.hexValue? {c : Char} {value : Nat} (h : HexDigit c value) :
    Text.hexValue? c = some value := by
  have hall : ∀ cv ∈ "0123456789abcdef".toList.zipIdx ++ "0123456789ABCDEF".toList.zipIdx,
      Text.hexValue? cv.1 = some cv.2 := by decide
  exact hall _ h

/-- A character that is no octal digit is not read as one. -/
theorem octalValue?_eq_none {c : Char} (h : ∀ value, ¬ OctalDigit c value) :
    Text.octalValue? c = none :=
  Option.eq_none_iff_forall_ne_some.2 fun value hvalue => h value (octalValue?_eq_some_iff.1 hvalue)

theorem OctalDigit.mem {c : Char} {value : Nat} (h : OctalDigit c value) :
    c ∈ "01234567".toList :=
  (List.mem_zipIdx' h).2 ▸ List.getElem_mem _

theorem OctalDigit.lt {c : Char} {value : Nat} (h : OctalDigit c value) : value < 8 :=
  (List.mem_zipIdx' h).1

theorem HexDigit.lt {c : Char} {value : Nat} (h : HexDigit c value) : value < 16 := by
  cases List.mem_append.1 h with
  | inl h => exact (List.mem_zipIdx' h).1
  | inr h => exact (List.mem_zipIdx' h).1

theorem HexDigit.mem {c : Char} {value : Nat} (h : HexDigit c value) :
    c ∈ "0123456789abcdefABCDEF".toList := by
  have hall : ∀ cv ∈ "0123456789abcdef".toList.zipIdx ++ "0123456789ABCDEF".toList.zipIdx,
      cv.1 ∈ "0123456789abcdefABCDEF".toList := by decide
  exact hall _ h

/-- Hexadecimal digits are read as the number that they spell. -/
theorem HexDigits.read {s : List Char} {n : Nat} (h : HexDigits s n) :
    s ≠ [] ∧ (∀ c ∈ s, ∃ value, HexDigit c value) ∧
      Text.ofDigits 16 (s.filterMap Text.hexValue?) = n := by
  induction h with
  | one hc =>
      refine ⟨by simp, by simpa using ⟨_, hc⟩, ?_⟩
      simp [hc.hexValue?, Text.ofDigits]
  | @more s c u v _ hc ih =>
      obtain ⟨-, hall, hvalue⟩ := ih
      refine ⟨by simp, fun d hd => ?_, ?_⟩
      · rw [List.mem_append, List.mem_singleton] at hd
        cases hd with
        | inl hd => exact hall d hd
        | inr hd => exact ⟨v, hd ▸ hc⟩
      · have hlast : [c].filterMap Text.hexValue? = [v] := by simp [hc.hexValue?]
        rw [List.filterMap_append, hlast, Text.ofDigits, List.foldl_append, ← Text.ofDigits, hvalue,
          List.foldl_cons, List.foldl_nil, Nat.mul_comm]

/-! ## Escapes are read with their widths -/

theorem escape?_of_numeral? {s : List Char} {width value : Nat}
    (h : numeral? s = some ⟨width, value⟩) (hle : value ≤ 0x10FFFF) :
    escape? s = some ⟨width, [value]⟩ := by
  simp only [escape?, h, if_pos hle]

/-- What starts with neither `u` nor `x` can only be an octal numeral. -/
theorem numeral?_eq_octal? {c : Char} (hu : c ≠ 'u') (hx : c ≠ 'x') (s : List Char) :
    numeral? (c :: s) = octal? (c :: s) := by
  rw [numeral?]
  · exact fun s' h => hu (List.cons.inj h).1
  · exact fun s' h => hx (List.cons.inj h).1

/-- The octal digits of an escape end where no further one follows. -/
def NoOctalDigit (t : List Char) : Prop :=
  ∀ d ∈ t.head?, ∀ value, ¬ OctalDigit d value

theorem takeWhile_take_eq_nil {t : List Char} (h : NoOctalDigit t) (n : Nat) :
    (t.take n).takeWhile (fun c => (Text.octalValue? c).isSome) = [] := by
  cases t with
  | nil => rw [List.take_nil, List.takeWhile_nil]
  | cons d t =>
      cases n with
      | zero => rfl
      | succ n =>
          rw [List.take_succ_cons, List.takeWhile_cons_of_neg]
          rw [octalValue?_eq_none (h d rfl)]
          decide

/-- Octal digits are read as far as the third. -/
theorem escape?_of_octals {c : Char} {s t : List Char} {l : List Nat} {point : Nat}
    (htake : ((c :: s ++ t).take 3).takeWhile (fun c => (Text.octalValue? c).isSome) = c :: s)
    (hvalues : (c :: s).filterMap Text.octalValue? = l)
    (hpoint : Text.ofDigits 8 l = point) (hle : point ≤ 0x10FFFF) :
    escape? (c :: s ++ t) = some ⟨(c :: s).length, [point]⟩ := by
  have hc : (Text.octalValue? c).isSome = true := by
    have hmem : c ∈ ((c :: s ++ t).take 3).takeWhile fun c => (Text.octalValue? c).isSome := by
      rw [htake]
      exact List.mem_cons_self ..
    exact List.mem_takeWhile_imp (p := fun c => (Text.octalValue? c).isSome) hmem
  have hu : c ≠ 'u' := by
    rintro rfl
    cases hc
  have hx : c ≠ 'x' := by
    rintro rfl
    cases hc
  refine escape?_of_numeral? ?_ hle
  rw [List.cons_append, numeral?_eq_octal? hu hx, ← List.cons_append, octal?, htake]
  simp only [hvalues, hpoint]

variable {a b c : Char} {u v w : Nat} {t : List Char}

theorem escape?_of_octal (ha : OctalDigit a u) (ht : NoOctalDigit t) :
    escape? ([a] ++ t) = some ⟨1, [u]⟩ := by
  have ha' := octalValue?_eq_some_iff.2 ha
  have hlt := ha.lt
  refine escape?_of_octals (l := [u]) ?_ ?_ ?_ (by omega)
  · simp [ha', takeWhile_take_eq_nil ht]
  · simp [ha']
  · simp [Text.ofDigits]

theorem escape?_of_twoOctals (ha : OctalDigit a u) (hb : OctalDigit b v) (ht : NoOctalDigit t) :
    escape? ([a, b] ++ t) = some ⟨2, [8 * u + v]⟩ := by
  have ha' := octalValue?_eq_some_iff.2 ha
  have hb' := octalValue?_eq_some_iff.2 hb
  have hlt := ha.lt
  have hlt' := hb.lt
  refine escape?_of_octals (l := [u, v]) ?_ ?_ ?_ (by omega)
  · simp [ha', hb', takeWhile_take_eq_nil ht]
  · simp [ha', hb']
  · simp [Text.ofDigits, Nat.mul_comm]

theorem escape?_of_threeOctals (ha : OctalDigit a u) (hb : OctalDigit b v) (hc : OctalDigit c w)
    (t : List Char) : escape? ([a, b, c] ++ t) = some ⟨3, [64 * u + 8 * v + w]⟩ := by
  have ha' := octalValue?_eq_some_iff.2 ha
  have hb' := octalValue?_eq_some_iff.2 hb
  have hc' := octalValue?_eq_some_iff.2 hc
  have hlt := ha.lt
  have hlt' := hb.lt
  have hlt'' := hc.lt
  refine escape?_of_octals (l := [u, v, w]) ?_ ?_ ?_ (by omega)
  · simp [ha', hb', hc']
  · simp [ha', hb', hc']
  · simp [Text.ofDigits]
    omega

/-- The characters that start a numeral or a line continuation. -/
def starters : List Char :=
  "01234567xu\n\r\u2028\u2029".toList

/-- A character that starts neither a numeral nor a line continuation is read
alone. -/
theorem escape?_of_notMem_starters {c : Char} (h : c ∉ starters) (t : List Char) :
    escape? (c :: t) = some ⟨1, [(letter? c).getD c.toNat]⟩ := by
  have hne : ∀ d ∈ starters, c ≠ d := fun d hd he => h (he ▸ hd)
  have hdigits : ∀ d ∈ "01234567".toList, d ∈ starters :=
    List.all_iff_forall_prop.1 (by decide)
  have hoctal : Text.octalValue? c = none :=
    octalValue?_eq_none fun value hc => h (hdigits c hc.mem)
  have hnumeral : numeral? (c :: t) = none := by
    rw [numeral?_eq_octal? (hne _ (by decide)) (hne _ (by decide)), octal?, List.take_succ_cons,
      List.takeWhile_cons_of_neg (by simp [hoctal])]
  have hcontinuation : continuation? (c :: t) = none := by
    unfold continuation?
    split
    · next he => exact absurd (List.cons.inj he).1 (hne _ (by decide))
    · next he => exact absurd (List.cons.inj he).1 (hne _ (by decide))
    · next he => exact absurd (List.cons.inj he).1 (hne _ (by decide))
    · next he => exact absurd (List.cons.inj he).1 (hne _ (by decide))
    · next he => exact absurd (List.cons.inj he).1 (hne _ (by decide))
    · rfl
  simp only [escape?, hnumeral, hcontinuation]

theorem letter?_eq_none {c : Char} (h : c ∉ singleEscapes.map (·.1)) : letter? c = none := by
  have hne : ∀ d ∈ singleEscapes.map (·.1), c ≠ d := fun d hd he => h (he ▸ hd)
  unfold letter?
  split
  · exact absurd rfl (hne _ (by decide))
  · exact absurd rfl (hne _ (by decide))
  · exact absurd rfl (hne _ (by decide))
  · exact absurd rfl (hne _ (by decide))
  · exact absurd rfl (hne _ (by decide))
  · exact absurd rfl (hne _ (by decide))
  · rfl

/-- Hexadecimal digits in braces are read to the closing brace. -/
theorem escape?_of_codePoint {s : List Char} {point : Nat} (hs : HexDigits s point)
    (hle : point ≤ 0x10FFFF) (t : List Char) :
    escape? ('u' :: '{' :: (s ++ ['}']) ++ t) =
      some ⟨('u' :: '{' :: (s ++ ['}'])).length, [point]⟩ := by
  obtain ⟨hne, hall, hpoint⟩ := hs.read
  obtain ⟨c, s, rfl⟩ := List.exists_cons_of_ne_nil hne
  have htake : ((c :: s) ++ ('}' :: t)).takeWhile (fun c => (Text.hexValue? c).isSome) = c :: s := by
    rw [List.takeWhile_append_of_pos, List.takeWhile_cons_of_neg (by decide), List.append_nil]
    intro d hd
    obtain ⟨value, hvalue⟩ := hall d hd
    rw [hvalue.hexValue?]
    rfl
  refine escape?_of_numeral? ?_ hle
  have hbraced : braced? ('{' :: ((c :: s) ++ ('}' :: t))) = some ⟨(c :: s).length + 3, point⟩ := by
    rw [braced?]
    simp only [htake, List.drop_left, hpoint]
  have hlength : ('u' :: '{' :: (c :: s ++ ['}'])).length = (c :: s).length + 3 := by simp
  rw [hlength]
  simp only [List.cons_append, List.append_assoc, List.nil_append] at hbraced ⊢
  rw [numeral?, hbraced]

theorem numeral?_hex (ha : HexDigit a u) (hb : HexDigit b v) (t : List Char) :
    numeral? (['x', a, b] ++ t) = some ⟨3, 16 * u + v⟩ := by
  simp [numeral?, fixed?, ha.hexValue?, hb.hexValue?, Text.ofDigits, Nat.mul_comm]

theorem numeral?_unicode {d : Char} {x : Nat} (ha : HexDigit a u) (hb : HexDigit b v)
    (hc : HexDigit c w) (hd : HexDigit d x) (t : List Char) :
    numeral? (['u', a, b, c, d] ++ t) =
      some ⟨5, 0x1000 * u + 0x100 * v + 0x10 * w + x⟩ := by
  have hopen : a ≠ '{' := by
    rintro rfl
    exact absurd ha.mem (by decide)
  simp [numeral?, braced?, hopen, fixed?, ha.hexValue?, hb.hexValue?, hc.hexValue?, hd.hexValue?,
    Text.ofDigits]
  omega

theorem noOctalDigit_of_noDigit (h : ∀ d ∈ t.head?, d ∉ "0123456789".toList) : NoOctalDigit t := by
  intro d hd x hx
  have hsub : ∀ d ∈ "01234567".toList, d ∈ "0123456789".toList :=
    List.all_iff_forall_prop.1 (by decide)
  exact h d hd (hsub d hx.mem)

theorem notMem_octals_of_mem {d : Char} (h : d ∈ "89".toList) : d ∉ "01234567".toList := by
  have hall : ∀ d ∈ "89".toList, d ∉ "01234567".toList :=
    List.all_iff_forall_prop.1 (by decide)
  exact hall d h

theorem noOctalDigit_of_decimal (h : ∃ d ∈ t.head?, d ∈ "89".toList) : NoOctalDigit t := by
  obtain ⟨d, hd, hmem⟩ := h
  intro e he x hx
  rw [Option.mem_unique he hd] at hx
  exact notMem_octals_of_mem hmem hx.mem

/-- Where no three octal digits come first, the first of them at least four, none
follows two that do. -/
theorem noOctalDigit_of_startsHighOctal (ha : OctalDigit a u) (hge : 4 ≤ u) (hb : OctalDigit b v)
    (h : startsHighOctal ([a, b] ++ t) = false) : NoOctalDigit t := by
  intro d hd x hx
  have hhigh : ∀ cv ∈ "01234567".toList.zipIdx, 4 ≤ cv.2 → cv.1 ∈ "4567".toList := by decide
  obtain ⟨t, rfl⟩ : ∃ t', t = d :: t' := List.head?_eq_some_iff.1 hd
  have htrue : startsHighOctal ([a, b] ++ d :: t) = true := by
    simp only [startsHighOctal, List.cons_append, List.nil_append, Bool.and_eq_true,
      List.contains_iff_mem]
    exact ⟨⟨hhigh _ ha hge, hb.mem⟩, hx.mem⟩
  rw [h] at htrue
  cases htrue

/-- An escape is read with its width and its value, unless the standard ends it
after two octal digits and the reader goes on to a third. -/
theorem EscapeSequence.escape?_append {rest s : List Char} {units : List Nat}
    (h : EscapeSequence rest s units) (hlow : startsHighOctal (s ++ rest) = false) :
    ∃ points, escape? (s ++ rest) = some ⟨s.length, points⟩ ∧ points.flatMap utf16 = units := by
  have hone {point : Nat} (hpoint : point < 0x10000) : [point].flatMap utf16 = [point] := by
    simp [utf16, hpoint]
  cases h with
  | @single c unit hc =>
      have hall : ∀ cu ∈ singleEscapes, cu.1 ∉ starters ∧
          (letter? cu.1).getD cu.1.toNat = cu.2 ∧ cu.2 < 0x10000 := by decide
      obtain ⟨hnot, hunit, hlt⟩ := hall _ hc
      refine ⟨_, escape?_of_notMem_starters hnot rest, ?_⟩
      rw [hunit, hone hlt]
  | @itself c hc =>
      have hstarters : ∀ d ∈ starters, d ∈ notThemselves :=
        List.all_iff_forall_prop.1 (by decide)
      have hletter : letter? c = none := letter?_eq_none fun hmem => hc (List.mem_append_left _ hmem)
      refine ⟨_, escape?_of_notMem_starters (fun hmem => hc (hstarters c hmem)) rest, ?_⟩
      rw [hletter, Option.getD_none, List.flatMap_singleton]
  | null hrest => exact ⟨[0], escape?_of_octal (by decide) (noOctalDigit_of_noDigit hrest), rfl⟩
  | legacyNull hrest =>
      exact ⟨[0], escape?_of_octal (by decide) (noOctalDigit_of_decimal hrest), rfl⟩
  | @octal a u ha hne hrest =>
      have hlt := ha.lt
      exact ⟨[u], escape?_of_octal ha hrest, hone (by omega)⟩
  | @lowOctals a b u v ha hle hb hrest =>
      have hlt := hb.lt
      exact ⟨_, escape?_of_twoOctals ha hb hrest, hone (by omega)⟩
  | @highOctals a b u v ha hge hb =>
      have hlt := ha.lt
      have hlt' := hb.lt
      exact ⟨_, escape?_of_twoOctals ha hb (noOctalDigit_of_startsHighOctal ha hge hb hlow),
        hone (by omega)⟩
  | @threeOctals a b c u v w ha hle hb hc =>
      have hlt := hb.lt
      have hlt' := hc.lt
      exact ⟨_, escape?_of_threeOctals ha hb hc rest, hone (by omega)⟩
  | @decimal c hc =>
      have hall : ∀ c ∈ "89".toList, c ∉ starters ∧
          (letter? c).getD c.toNat = c.toNat ∧ c.toNat < 0x10000 :=
        List.all_iff_forall_prop.1 (by decide)
      obtain ⟨hnot, hunit, hlt⟩ := hall _ hc
      refine ⟨_, escape?_of_notMem_starters hnot rest, ?_⟩
      rw [hunit, hone hlt]
  | @hex a b u v ha hb =>
      have hlt := ha.lt
      have hlt' := hb.lt
      exact ⟨_, escape?_of_numeral? (numeral?_hex ha hb rest) (by omega), hone (by omega)⟩
  | @unicode a b c d u v w x ha hb hc hd =>
      have hu := ha.lt
      have hv := hb.lt
      have hw := hc.lt
      have hx := hd.lt
      have hnumeral := numeral?_unicode ha hb hc hd rest
      exact ⟨_, escape?_of_numeral? hnumeral (by omega), hone (by omega)⟩
  | @codePoint s point hs hle =>
      exact ⟨_, escape?_of_codePoint hs hle rest, List.flatMap_singleton ..⟩
  | @continuation s hs =>
      simp only [List.mem_cons, List.not_mem_nil, or_false] at hs
      rcases hs with rfl | rfl | rfl | rfl <;> exact ⟨[], rfl, rfl⟩
  | carriageReturn hrest =>
      refine ⟨[], ?_, rfl⟩
      cases rest with
      | nil => rfl
      | cons d rest =>
          have hd : d ≠ '\n' := hrest d rfl
          have hdigit : Text.octalValue? '\r' = none := by decide
          simp [escape?, numeral?, octal?, continuation?, hdigit, hd]

/-! ## Bodies are read escape by escape -/

theorem cookAfter_eq_cook_drop (k : Nat) (s : List Char) : cookAfter k s = cook (s.drop k) := by
  induction k generalizing s with
  | zero => rfl
  | succ k ih =>
      cases s with
      | nil => rfl
      | cons c s => rw [cookAfter, ih, List.drop_succ_cons]

theorem cook_cons_of_ne {c : Char} (h : c ≠ '\\') (s : List Char) :
    cook (c :: s) = c.toNat :: cook s := by
  rw [cook, cookAfter, if_neg h, ← cook]

theorem cook_of_escape? {s : List Char} {width : Nat} {points : List Nat}
    (h : escape? s = some ⟨width, points⟩) :
    cook ('\\' :: s) = points ++ cook (s.drop width) := by
  rw [cook, cookAfter, if_pos rfl, h]
  exact congrArg (points ++ ·) (cookAfter_eq_cook_drop width s)

theorem highOctals_cons_of_ne {c : Char} (h : c ≠ '\\') (s : List Char) :
    highOctals (c :: s) = highOctals s := by
  rw [highOctals]
  · exact fun he => absurd he h
  · exact fun a s he => absurd he h

theorem highOctals_append {s : List Char} (h : '\\' ∉ s) (t : List Char) :
    highOctals (s ++ t) = highOctals t := by
  induction s with
  | nil => rfl
  | cons c s ih =>
      rw [List.mem_cons, not_or] at h
      rw [List.cons_append, highOctals_cons_of_ne (Ne.symm h.1), ih h.2]

/-- Only the first character of an escape can be a backslash. -/
theorem EscapeSequence.exists_cons {rest s : List Char} {units : List Nat}
    (h : EscapeSequence rest s units) : ∃ c s', s = c :: s' ∧ '\\' ∉ s' := by
  have hoctal {d : Char} {x : Nat} (hd : OctalDigit d x) : '\\' ≠ d := by
    rintro rfl
    exact absurd hd.mem (by decide)
  have hhex {d : Char} {x : Nat} (hd : HexDigit d x) : '\\' ≠ d := by
    rintro rfl
    exact absurd hd.mem (by decide)
  cases h with
  | single _ => exact ⟨_, _, rfl, List.not_mem_nil⟩
  | itself _ => exact ⟨_, _, rfl, List.not_mem_nil⟩
  | null _ => exact ⟨_, _, rfl, List.not_mem_nil⟩
  | legacyNull _ => exact ⟨_, _, rfl, List.not_mem_nil⟩
  | octal _ _ _ => exact ⟨_, _, rfl, List.not_mem_nil⟩
  | lowOctals _ _ hb _ => exact ⟨_, _, rfl, by simp [hoctal hb]⟩
  | highOctals _ _ hb => exact ⟨_, _, rfl, by simp [hoctal hb]⟩
  | threeOctals _ _ hb hc => exact ⟨_, _, rfl, by simp [hoctal hb, hoctal hc]⟩
  | decimal _ => exact ⟨_, _, rfl, List.not_mem_nil⟩
  | hex ha hb => exact ⟨_, _, rfl, by simp [hhex ha, hhex hb]⟩
  | unicode ha hb hc hd => exact ⟨_, _, rfl, by simp [hhex ha, hhex hb, hhex hc, hhex hd]⟩
  | @codePoint digits _ hs _ =>
      have hdigits : '\\' ∉ digits := fun hmem =>
        let ⟨_, hvalue⟩ := hs.read.2.1 _ hmem
        hhex hvalue rfl
      exact ⟨_, _, rfl, by simp [hdigits]⟩
  | continuation hs =>
      simp only [List.mem_cons, List.not_mem_nil, or_false] at hs
      rcases hs with rfl | rfl | rfl | rfl <;> exact ⟨_, _, rfl, by decide⟩
  | carriageReturn _ => exact ⟨_, _, rfl, List.not_mem_nil⟩

/-- An escape counts by what comes first after its backslash. -/
theorem EscapeSequence.highOctals_append {rest s : List Char} {units : List Nat}
    (h : EscapeSequence rest s units) :
    Literal.highOctals ('\\' :: (s ++ rest)) =
      (if startsHighOctal (s ++ rest) then 1 else 0) + Literal.highOctals rest := by
  obtain ⟨c, s', rfl, hs'⟩ := h.exists_cons
  rw [List.cons_append, Literal.highOctals, Literal.highOctals_append hs']

theorem exists_of_startsHighOctal {s : List Char} (h : startsHighOctal s = true) :
    ∃ a b c t u v w, s = a :: b :: c :: t ∧ OctalDigit a u ∧ 4 ≤ u ∧ OctalDigit b v ∧
      OctalDigit c w := by
  have hhigh : ∀ c ∈ "4567".toList, ∃ x ∈ List.range 8, OctalDigit c x ∧ 4 ≤ x :=
    List.all_iff_forall_prop.1 (by decide)
  have hdigit : ∀ c ∈ "01234567".toList, ∃ x ∈ List.range 8, OctalDigit c x :=
    List.all_iff_forall_prop.1 (by decide)
  unfold startsHighOctal at h
  split at h
  · next a b c t =>
      simp only [Bool.and_eq_true, List.contains_iff_mem] at h
      obtain ⟨⟨ha, hb⟩, hc⟩ := h
      obtain ⟨u, -, hu, hge⟩ := hhigh a ha
      obtain ⟨v, -, hv⟩ := hdigit b hb
      obtain ⟨w, -, hw⟩ := hdigit c hc
      exact ⟨a, b, c, t, u, v, w, rfl, hu, hge, hv, hw⟩
  · cases h

/-- Before three octal digits, the first of them at least four, the standard's escape
is the first two. -/
theorem EscapeSequence.of_startsHighOctal {rest s : List Char} {units : List Nat}
    (h : EscapeSequence rest s units) (hhigh : startsHighOctal (s ++ rest) = true) :
    ∃ a b c t u v w, s = [a, b] ∧ rest = c :: t ∧ OctalDigit a u ∧ OctalDigit b v ∧
      OctalDigit c w ∧ units = [8 * u + v] := by
  obtain ⟨a, b, c, t, u, v, w, hs, ha, hge, hb, hc⟩ := exists_of_startsHighOctal hhigh
  -- The first character tells the production: it is a digit that is not small.
  have hfirst : ∀ d ∈ (s ++ rest).head?, d = a := fun d hd => by
    rw [hs] at hd
    exact (Option.some.inj hd).symm
  have hsmall {d : Char} {x : Nat} (hd : OctalDigit d x) (hle : x ≤ 3) : d ≠ a := by
    rintro rfl
    have := Option.some.inj
      ((octalValue?_eq_some_iff.2 hd).symm.trans (octalValue?_eq_some_iff.2 ha))
    omega
  have hother {d : Char} (hd : d ∉ "01234567".toList) : d ≠ a := by
    rintro rfl
    exact hd ha.mem
  cases h with
  | single hmem =>
      have hall : ∀ cu ∈ singleEscapes, cu.1 ∉ "01234567".toList := by decide
      exact absurd (hfirst _ rfl) (hother (hall _ hmem))
  | itself hmem =>
      have hall : ∀ d ∈ "01234567".toList, d ∈ notThemselves :=
        List.all_iff_forall_prop.1 (by decide)
      exact absurd (hfirst _ rfl) (hother fun hd => hmem (hall _ hd))
  | null _ => exact absurd (hfirst _ rfl) (hsmall (x := 0) (by decide) (by decide))
  | legacyNull _ => exact absurd (hfirst _ rfl) (hsmall (x := 0) (by decide) (by decide))
  | octal _ _ hrest =>
      have hnext : rest = b :: c :: t := (List.cons.inj hs).2
      exact absurd hb (hrest b (by rw [hnext]; rfl) v)
  | lowOctals ha' hle _ _ => exact absurd (hfirst _ rfl) (hsmall ha' hle)
  | @highOctals a' b' u' v' ha' _ hb' =>
      have hnext : rest = c :: t := (List.cons.inj (List.cons.inj hs).2).2
      exact ⟨a', b', c, t, u', v', w, rfl, hnext, ha', hb', hc, rfl⟩
  | threeOctals ha' hle _ _ => exact absurd (hfirst _ rfl) (hsmall ha' hle)
  | decimal hmem => exact absurd (hfirst _ rfl) (hother (notMem_octals_of_mem hmem))
  | hex _ _ => exact absurd (hfirst _ rfl) (hother (by decide))
  | unicode _ _ _ _ => exact absurd (hfirst _ rfl) (hother (by decide))
  | codePoint _ _ => exact absurd (hfirst _ rfl) (hother (by decide))
  | continuation hmem =>
      simp only [List.mem_cons, List.not_mem_nil, or_false] at hmem
      rcases hmem with rfl | rfl | rfl | rfl <;>
        exact absurd (hfirst _ rfl) (hother (by decide))
  | carriageReturn _ => exact absurd (hfirst _ rfl) (hother (by decide))

/-! ## Values -/

variable {quote : Char} {body : List Char} {units : List Nat}

/-- Each place where the reader takes one digit too many costs one code unit. -/
theorem Spells.length_eq (h : Spells quote body units) :
    units.length = ((cook body).flatMap utf16).length + highOctals body := by
  induction h with
  | nil => rfl
  | plain _ hc _ _ _ ih =>
      rw [cook_cons_of_ne hc, highOctals_cons_of_ne hc, List.flatMap_cons, List.length_append,
        List.length_append, ih, Nat.add_assoc]
  | @escape s rest units more hs _ ih =>
      rw [hs.highOctals_append, List.length_append, ih]
      cases hhigh : startsHighOctal (s ++ rest) with
      | false =>
          obtain ⟨points, hescape, rfl⟩ := hs.escape?_append hhigh
          rw [cook_of_escape? hescape, List.drop_left, List.flatMap_append, List.length_append,
            if_neg Bool.false_ne_true]
          omega
      | true =>
          obtain ⟨a, b, c, t, u, v, w, rfl, rfl, ha, hb, hc, rfl⟩ := hs.of_startsHighOctal hhigh
          have hne : c ≠ '\\' := by
            rintro rfl
            exact absurd hc.mem (by decide)
          have hunit : (utf16 c.toNat).length = 1 := by
            have hall : ∀ d ∈ "01234567".toList, (utf16 d.toNat).length = 1 :=
              List.all_iff_forall_prop.1 (by decide)
            exact hall c hc.mem
          have hunit' : (utf16 (64 * u + 8 * v + w)).length = 1 := by
            have hu := ha.lt
            have hv := hb.lt
            have hw := hc.lt
            rw [utf16, if_pos (by omega), List.length_singleton]
          have hread : cook ('\\' :: ([a, b] ++ c :: t)) = [64 * u + 8 * v + w] ++ cook t :=
            cook_of_escape? (escape?_of_threeOctals ha hb hc t)
          rw [hread, cook_cons_of_ne hne, List.flatMap_append, List.flatMap_cons,
            List.flatMap_singleton, List.length_append, List.length_append, hunit, hunit',
            if_pos rfl, List.length_singleton]
          omega

theorem Spells.units_cook_of_highOctals (h : Spells quote body units) (hlow : highOctals body = 0) :
    (cook body).flatMap utf16 = units := by
  induction h with
  | nil => rfl
  | plain _ hc _ _ _ ih =>
      rw [highOctals_cons_of_ne hc] at hlow
      rw [cook_cons_of_ne hc, List.flatMap_cons, ih hlow]
  | @escape s rest units more hs _ ih =>
      rw [hs.highOctals_append, Nat.add_eq_zero_iff] at hlow
      cases hhigh : startsHighOctal (s ++ rest) with
      | false =>
          obtain ⟨points, hescape, rfl⟩ := hs.escape?_append hhigh
          rw [cook_of_escape? hescape, List.drop_left, List.flatMap_append, ih hlow.2]
      | true =>
          rw [hhigh] at hlow
          cases hlow.1

/-- The reader gives a body the value that the standard gives it exactly when no escape
of it starts with three octal digits, the first of them at least four. -/
theorem units_cook_eq_iff (h : Spells quote body units) :
    (cook body).flatMap utf16 = units ↔ highOctals body = 0 := by
  constructor
  · intro heq
    have hlength := h.length_eq
    rw [heq] at hlength
    omega
  · exact h.units_cook_of_highOctals

theorem units_cook_mixed_escapes :
    Spells '"' "\\x41\\u{1F600}\\408\\\n".toList [0x41, 0xD83D, 0xDE00, 0x20, 0x38] ∧
      (cook "\\x41\\u{1F600}\\408\\\n".toList).flatMap utf16 =
        [0x41, 0xD83D, 0xDE00, 0x20, 0x38] := by
  have hpoint : HexDigits "1F600".toList 0x1F600 := by
    have h1 : HexDigits ['1'] 1 := .one (by decide)
    have h2 : HexDigits "1F".toList 0x1F := h1.more (v := 15) (by decide)
    have h3 : HexDigits "1F6".toList 0x1F6 := h2.more (v := 6) (by decide)
    have h4 : HexDigits "1F60".toList 0x1F60 := h3.more (v := 0) (by decide)
    exact h4.more (v := 0) (by decide)
  have hbreak : Spells '"' "\\\n".toList [] := .escape (.continuation (s := ['\n']) (by decide)) .nil
  have hlast : Spells '"' "8\\\n".toList [0x38] :=
    .plain (by decide) (by decide) (by decide) (by decide) hbreak
  have hoctal : Spells '"' "\\408\\\n".toList [0x20, 0x38] :=
    .escape (.highOctals (u := 4) (v := 0) (by decide) (by decide) (by decide)) hlast
  have hbraces : Spells '"' "\\u{1F600}\\408\\\n".toList [0xD83D, 0xDE00, 0x20, 0x38] :=
    .escape (.codePoint hpoint (by decide)) hoctal
  have h : Spells '"' "\\x41\\u{1F600}\\408\\\n".toList [0x41, 0xD83D, 0xDE00, 0x20, 0x38] :=
    .escape (.hex (u := 4) (v := 1) (by decide) (by decide)) hbraces
  exact ⟨h, (units_cook_eq_iff h).2 (by decide)⟩

/-- In the literal `"\400"` the standard has a space and a zero, and the reader one
character. -/
theorem units_cook_high_octals :
    Spells '"' "\\400".toList [0x20, 0x30] ∧
      (cook "\\400".toList).flatMap utf16 ≠ [0x20, 0x30] := by
  have hlast : Spells '"' ['0'] [0x30] :=
    .plain (by decide) (by decide) (by decide) (by decide) .nil
  refine ⟨.escape (.highOctals (u := 4) (v := 0) (by decide) (by decide) (by decide)) hlast, ?_⟩
  decide

end ScriptLint.Literal
