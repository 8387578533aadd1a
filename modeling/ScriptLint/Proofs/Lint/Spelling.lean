import ScriptLint.Lint.WindowAccess
import ScriptLint.Proofs.Syntax.Access
import ScriptLint.Proofs.Syntax.StringLiteral

/-!
# Spellings of a string

A string can be written in a literal in many ways: `Deno` is also `\x44eno` and `\u{0044}en\157`.
`Literal.Spelling` says how each code point can be written, and that line breaks after
backslashes can stand anywhere between.  Here a string is a sequence of code points, so half of
a surrogate pair can be written too.

Every spelling of a string is read as that string (`Literal.Spelling.cook_eq`).  The reader goes
from left to right and cannot know where the writer meant an escape to end.  So an escape must be
read with its own width whatever follows it (`Literal.PointEscape.escape?_append`).  That is why
octal escapes have all three digits here, and why a carriage return after a backslash must not
be followed by a line feed.

No denied name can be hidden in this way (`WindowAccess.symbol_of_spelling`).
-/

namespace ScriptLint

namespace Literal

/-! ## Spellings -/

/-- The letters with a meaning of their own after a backslash, each with the code point that it
means. -/
def letters : List (Char × Nat) :=
  [('n', 0xA), ('t', 9), ('r', 0xD), ('b', 8), ('f', 0xC), ('v', 0xB)]

/-- The characters after a backslash name a code point. -/
inductive PointEscape : List Char → Nat → Prop where
  /-- Two hexadecimal digits. -/
  | hex {a b : Char} {u v : Nat} :
      HexDigit a u → HexDigit b v → PointEscape ['x', a, b] (16 * u + v)
  /-- Four hexadecimal digits. -/
  | unicode {a b c d : Char} {u v w x : Nat} :
      HexDigit a u → HexDigit b v → HexDigit c w → HexDigit d x →
      PointEscape ['u', a, b, c, d] (0x1000 * u + 0x100 * v + 0x10 * w + x)
  /-- Hexadecimal digits in braces.  The first ones may be zeros. -/
  | braces {s : List Char} {point : Nat} :
      HexDigits s point → point ≤ 0x10FFFF → PointEscape ('u' :: '{' :: (s ++ ['}'])) point
  /-- Three octal digits, the first of them at most three. -/
  | octals {a b c : Char} {u v w : Nat} :
      OctalDigit a u → u ≤ 3 → OctalDigit b v → OctalDigit c w →
      PointEscape [a, b, c] (64 * u + 8 * v + w)
  /-- A letter with a meaning of its own. -/
  | letter {c : Char} {point : Nat} : (c, point) ∈ letters → PointEscape [c] point
  /-- A character that starts no other escape. -/
  | itself {c : Char} : c ∉ starters → c ∉ letters.map (·.1) → PointEscape [c] c.toNat

/-- The characters spell a string. -/
inductive Spelling : List Char → List Nat → Prop where
  /-- Nothing. -/
  | nil : Spelling [] []
  /-- A character other than a backslash. -/
  | plain {c : Char} {rest : List Char} {points : List Nat} :
      c ≠ '\\' → Spelling rest points → Spelling (c :: rest) (c.toNat :: points)
  /-- An escape. -/
  | escape {s rest : List Char} {point : Nat} {points : List Nat} :
      PointEscape s point → Spelling rest points → Spelling ('\\' :: (s ++ rest)) (point :: points)
  /-- A line break after a backslash adds nothing. -/
  | continuation {s rest : List Char} {points : List Nat} :
      s ∈ [['\n'], ['\u2028'], ['\u2029'], ['\r', '\n']] → Spelling rest points →
      Spelling ('\\' :: (s ++ rest)) points
  /-- Nor does a carriage return without a line feed. -/
  | carriageReturn {rest : List Char} {points : List Nat} :
      rest.head? ≠ some '\n' → Spelling rest points → Spelling ('\\' :: '\r' :: rest) points

/-- Zeros in front do not change a number. -/
theorem HexDigits.cons_zero {s : List Char} {n : Nat} (h : HexDigits s n) :
    HexDigits ('0' :: s) n := by
  induction h with
  | one hc => simpa using (HexDigits.one (c := '0') (v := 0) (by decide)).more hc
  | more _ hc ih => exact ih.more hc

/-! ## Spellings are read -/

/-- An escape for a code point is read with its width, whatever follows. -/
theorem PointEscape.escape?_append {s : List Char} {point : Nat} (h : PointEscape s point)
    (rest : List Char) : escape? (s ++ rest) = some ⟨s.length, [point]⟩ := by
  cases h with
  | hex ha hb =>
      have hu := ha.lt
      have hv := hb.lt
      exact escape?_of_numeral? (numeral?_hex ha hb rest) (by omega)
  | unicode ha hb hc hd =>
      have hu := ha.lt
      have hv := hb.lt
      have hw := hc.lt
      have hx := hd.lt
      exact escape?_of_numeral? (numeral?_unicode ha hb hc hd rest) (by omega)
  | braces hs hle => exact escape?_of_codePoint hs hle rest
  | octals ha _ hb hc => exact escape?_of_threeOctals ha hb hc rest
  | @letter c _ hc =>
      have hall : ∀ cp ∈ letters, cp.1 ∉ starters ∧ (letter? cp.1).getD cp.1.toNat = cp.2 := by
        decide
      obtain ⟨hnot, hpoint⟩ := hall _ hc
      have hread := escape?_of_notMem_starters hnot rest
      rwa [hpoint] at hread
  | @itself c hc hletters =>
      have hletter : (letter? c).getD c.toNat = c.toNat := by
        by_cases hsingle : c ∈ singleEscapes.map (·.1)
        · -- what is left of these are the quotes and the backslash
          have hall : ∀ d ∈ singleEscapes.map (·.1), d ∉ letters.map (·.1) →
              (letter? d).getD d.toNat = d.toNat := List.all_iff_forall_prop.1 (by decide)
          exact hall c hsingle hletters
        · rw [letter?_eq_none hsingle, Option.getD_none]
      have hread := escape?_of_notMem_starters hc rest
      rwa [hletter] at hread

theorem escape?_of_carriageReturn {rest : List Char} (h : rest.head? ≠ some '\n') :
    escape? ('\r' :: rest) = some ⟨1, []⟩ := by
  have hdigit : Text.octalValue? '\r' = none := by decide
  cases rest with
  | nil => rfl
  | cons c rest =>
      have hc : c ≠ '\n' := fun hc => h (congrArg some hc)
      simp [escape?, numeral?, octal?, continuation?, hdigit, hc]

/-- Every spelling of a string is read as that string. -/
theorem Spelling.cook_eq {body : List Char} {points : List Nat} (h : Spelling body points) :
    cook body = points := by
  induction h with
  | nil => rfl
  | plain hc _ ih => rw [cook_cons_of_ne hc, ih]
  | @escape s rest point points hs _ ih =>
      rw [cook_of_escape? (hs.escape?_append rest), List.drop_left, ih]
      rfl
  | @continuation s rest points hs _ ih =>
      have hread : escape? (s ++ rest) = some ⟨s.length, []⟩ := by
        simp only [List.mem_cons, List.not_mem_nil, or_false] at hs
        rcases hs with rfl | rfl | rfl | rfl <;> rfl
      rw [cook_of_escape? hread, List.drop_left, ih]
      rfl
  | carriageReturn hrest _ ih =>
      rw [cook_of_escape? (escape?_of_carriageReturn hrest)]
      exact ih

end Literal

namespace WindowAccess

/-- **No spelling hides a denied name.**  Every spelling of a string is read as that string.  So
an access whose key is a string that spells a denied name has that name, and it is known to be
denied. -/
theorem symbol_of_spelling :
    (∀ body points, Literal.Spelling body points → Literal.cook body = points) ∧
    ∀ name ∈ deniedNames, ∀ body, Literal.Spelling body (codePoints name) →
      ∀ (source : Source) (s : Site) (a : Access) (index : Node) (quote : Char),
        Access.ofSite? source s = some a → s.node.kind = "subscript_expression" →
        s.node.child? "index" = some index → index.kind = "string" →
        source.charsOf index = quote :: (body ++ [quote]) →
        a.symbol? source = some (codePoints name) ∧ (a.symbol? source).any isDeniedSymbol = true := by
  refine ⟨fun body points h => h.cook_eq, ?_⟩
  intro name hname body hbody source s a index quote ha hkind hindex hstring hchars
  have hvalue : source.stringValue index = codePoints name := by
    rw [Source.stringValue, hchars, Literal.body, List.tail_cons, List.dropLast_concat,
      hbody.cook_eq]
  have hsymbol : a.symbol? source = some (codePoints name) :=
    (Access.symbol?_eq_some_iff ha).2 (.string hkind hindex hstring hvalue)
  refine ⟨hsymbol, ?_⟩
  rw [hsymbol, Option.any_some, isDeniedSymbol, List.any_eq_true]
  exact ⟨name, hname, beq_self_eq_true _⟩

/-- The source `window["\x44e\u{006E}\157"]`. -/
def hiddenSource : Source :=
  .ofString "window[\"\\x44e\\u\x7b006E\x7d\\157\"]"

/-- The access in it. -/
def hiddenAccess : Site :=
  ⟨.mk ⟨"subscript_expression", true, false, false, 0, 27, none⟩ [
    .mk ⟨"identifier", true, false, false, 0, 6, some "object"⟩ [],
    .mk ⟨"string", true, false, false, 7, 26, some "index"⟩ []], []⟩

theorem symbol_hiddenAccess :
    Literal.Spelling "\\x44e\\u\x7b006E\x7d\\157".toList (codePoints "Deno") ∧
      ∃ a, Access.ofSite? hiddenSource hiddenAccess = some a ∧
        a.symbol? hiddenSource = some (codePoints "Deno") ∧
        (a.symbol? hiddenSource).any isDeniedSymbol = true := by
  have hpoint : Literal.HexDigits "006E".toList 0x6E :=
    ((Literal.HexDigits.one (c := '6') (v := 6) (by decide)).more (c := 'E') (v := 14)
      (by decide)).cons_zero.cons_zero
  have hlast : Literal.Spelling "\\157".toList [0x6F] :=
    .escape (s := "157".toList) (.octals (u := 1) (v := 5) (w := 7) (by decide) (by decide)
      (by decide) (by decide)) .nil
  have hbraces : Literal.Spelling "\\u\x7b006E\x7d\\157".toList [0x6E, 0x6F] :=
    .escape (.braces hpoint (by decide)) hlast
  have hbody : Literal.Spelling "\\x44e\\u\x7b006E\x7d\\157".toList (codePoints "Deno") :=
    .escape (s := "x44".toList) (.hex (u := 4) (v := 4) (by decide) (by decide))
      (.plain (c := 'e') (by decide) hbraces)
  have hsome : (Access.ofSite? hiddenSource hiddenAccess).isSome = true := rfl
  obtain ⟨a, ha⟩ := Option.isSome_iff_exists.1 hsome
  exact ⟨hbody, a, ha, symbol_of_spelling.2 "Deno" (by decide) _ hbody hiddenSource hiddenAccess a _
    '"' ha rfl rfl rfl (by decide +kernel)⟩

end WindowAccess

end ScriptLint
