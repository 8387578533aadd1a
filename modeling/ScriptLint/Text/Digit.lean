import ScriptLint.Text.Blank

/-!
# Decimal and hexadecimal digits

Decimal digits exist in many scripts, each script having ten of them in a row,
so a table of the zeros is a table of them all.  `integer?` reads an integer as
a person writes it on a command line: blanks around it, a sign, and single
underscores between digits of any script.

Hexadecimal and octal digits are ASCII only.  `hex` writes them in lower case.
-/

namespace ScriptLint.Text

/-! ## Decimal digits -/

/-- The digits zero of all scripts, as of Unicode 14. -/
def zeros : List Nat :=
  [
    0x30, 0x660, 0x6F0, 0x7C0, 0x966, 0x9E6, 0xA66, 0xAE6, 0xB66,
    0xBE6, 0xC66, 0xCE6, 0xD66, 0xDE6, 0xE50, 0xED0, 0xF20, 0x1040,
    0x1090, 0x17E0, 0x1810, 0x1946, 0x19D0, 0x1A80, 0x1A90, 0x1B50, 0x1BB0,
    0x1C40, 0x1C50, 0xA620, 0xA8D0, 0xA900, 0xA9D0, 0xA9F0, 0xAA50, 0xABF0,
    0xFF10, 0x104A0, 0x10D30, 0x11066, 0x110F0, 0x11136, 0x111D0, 0x112F0, 0x11450,
    0x114D0, 0x11650, 0x116C0, 0x11730, 0x118E0, 0x11950, 0x11C50, 0x11D50, 0x11DA0,
    0x16A60, 0x16AC0, 0x16B50, 0x1D7CE, 0x1D7D8, 0x1D7E2, 0x1D7EC, 0x1D7F6, 0x1E140,
    0x1E2F0, 0x1E950, 0x1FBF0
  ]

/-- The value of a decimal digit of any script. -/
def decimalValue? (c : Char) : Option Nat :=
  (zeros.find? fun z => z ≤ c.toNat && c.toNat < z + 10).map (c.toNat - ·)

/-! ## Integers as a person writes them -/

/-- Blanks around a number.  The four separators from U+001C do not count. -/
def isPadding (c : Char) : Bool :=
  isBlank c && !(0x1C ≤ c.toNat && c.toNat ≤ 0x1F)

/-- The number that digit values spell in a base, the leading one first. -/
def ofDigits (base : Nat) (values : List Nat) : Nat :=
  values.foldl (fun n v => n * base + v) 0

/-- A natural number: digits with single underscores between them, at most
4300 digits. -/
def natural? (s : List Char) : Option Nat := do
  let groups := splitOn '_' s
  if groups.any (·.isEmpty) then none
  let values ← groups.flatten.mapM decimalValue?
  if values.length ≤ 4300 then some (ofDigits 10 values) else none

/-- An integer with an optional sign and blanks around it. -/
def integer? (s : List Char) : Option Int :=
  match dropTrailing isPadding (s.dropWhile isPadding) with
  | '-' :: digits => (natural? digits).map fun n => -(n : Int)
  | '+' :: digits => (natural? digits).map Int.ofNat
  | digits => (natural? digits).map Int.ofNat

/-! ## Hexadecimal and octal digits -/

/-- The value of a hexadecimal digit. -/
def hexValue? (c : Char) : Option Nat :=
  if '0' ≤ c ∧ c ≤ '9' then some (c.toNat - '0'.toNat)
  else if 'a' ≤ c ∧ c ≤ 'f' then some (c.toNat - 'a'.toNat + 10)
  else if 'A' ≤ c ∧ c ≤ 'F' then some (c.toNat - 'A'.toNat + 10)
  else none

/-- The value of an octal digit. -/
def octalValue? (c : Char) : Option Nat :=
  if '0' ≤ c ∧ c ≤ '7' then some (c.toNat - '0'.toNat) else none

/-- The hexadecimal digit of a value below sixteen. -/
def hexDigit (n : Nat) : Char :=
  if n < 10 then Char.ofNat ('0'.toNat + n) else Char.ofNat ('a'.toNat + (n - 10))

/-- The last `width` hexadecimal digits of a number. -/
def hex : Nat → Nat → List Char
  | 0, _ => []
  | width + 1, n => hex width (n / 16) ++ [hexDigit (n % 16)]

theorem exists_hexDigit_of_mem_hex {c : Char} {width n : Nat} (h : c ∈ hex width n) :
    ∃ v < 16, c = hexDigit v := by
  induction width generalizing n with
  | zero => cases h
  | succ width ih =>
      rcases List.mem_append.1 h with h | h
      · exact ih h
      · exact ⟨n % 16, Nat.mod_lt _ (by decide), List.mem_singleton.1 h⟩

/-! ## Tests -/

example : integer? " -1_0 ".toList = some (-10) := by decide
example : integer? "1__0".toList = none := by decide
example : integer? ['٣', '0'] = some 30 := by decide
example : hex 4 0xE9 = "00e9".toList := by decide

end ScriptLint.Text
