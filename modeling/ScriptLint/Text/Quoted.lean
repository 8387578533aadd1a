import ScriptLint.Text.Digit
import ScriptLint.Text.Printable

/-!
# Quoted text

Messages show names and snippets of source in quotes.  `quoted` writes a text
so that it stays on one line: the apostrophe is the quotation mark, or the
double quote when the text holds apostrophes and no double quotes.  The mark
and the backslash are escaped with a backslash, tab, line feed and carriage
return have their letters, and every other character that is not printable is
written by its code in the shortest of three forms.
-/

namespace ScriptLint.Text

/-- The quotation mark for a text. -/
def quoteFor (s : List Char) : Char :=
  if '\'' ∈ s ∧ '"' ∉ s then '"' else '\''

/-- A character inside the quotation marks `quote`. -/
def quotedChar (quote c : Char) : List Char :=
  if c = quote ∨ c = '\\' then ['\\', c]
  else if c = '\t' then ['\\', 't']
  else if c = '\n' then ['\\', 'n']
  else if c = '\r' then ['\\', 'r']
  else if isPrintable c then [c]
  else if c.toNat < 0x100 then '\\' :: 'x' :: hex 2 c.toNat
  else if c.toNat < 0x10000 then '\\' :: 'u' :: hex 4 c.toNat
  else '\\' :: 'U' :: hex 8 c.toNat

/-- A text in quotation marks. -/
def quotedChars (s : List Char) : List Char :=
  let quote := quoteFor s
  quote :: s.flatMap (quotedChar quote) ++ [quote]

/-- A string in quotation marks. -/
def quoted (s : String) : String :=
  String.ofList (quotedChars s.toList)

/-! ## Tests -/

example : quotedChars ['a', '\'', '\n'] = ['"', 'a', '\'', '\\', 'n', '"'] := by decide +kernel
example : quotedChars ['\'', '"'] = ['\'', '\\', '\'', '"', '\''] := by decide +kernel
example : quotedChars ['é', '\u200B']
    = ['\'', 'é', '\\', 'u', '2', '0', '0', 'b', '\''] := by decide +kernel

end ScriptLint.Text
