/-!
# Lossy UTF-8

`decode` reads bytes as UTF-8 and never fails.  Each maximal part of the bytes
that begins a character but does not finish it, and each byte that cannot begin
one, becomes the replacement character U+FFFD.

The reader is a machine with one byte of lookahead in its state.  It is either
between characters or inside one, and inside one it knows how many bytes are
still missing and in which interval the next of them must lie.  The intervals
are narrow right after the first byte, which is what shuts out overlong forms,
surrogates and values above U+10FFFF.  A byte outside the interval ends the
character with a replacement and is then read again as a first byte.

So every byte adds at most one character to what has been read, counting an
unfinished character as one.
-/

namespace ScriptLint.Utf8

/-- What stands for bytes that are not UTF-8. -/
def replacement : Char := '\uFFFD'

/-- Where the reader stands. -/
inductive State where
  /-- Between two characters. -/
  | ready
  /-- Inside a character: `missing + 1` bytes are to come, the next of them
  between `low` and `high`, and `value` holds the bits read so far. -/
  | inside (missing : Nat) (low high : UInt8) (value : Nat)
deriving DecidableEq, Repr

/-- The reader after the first byte of a character, with the character if that
one byte is all of it. -/
def first (b : UInt8) : State × List Char :=
  if b < 0x80 then (.ready, [Char.ofNat b.toNat])
  else if b < 0xC2 then (.ready, [replacement])
  else if b < 0xE0 then (.inside 0 0x80 0xBF (b.toNat - 0xC0), [])
  else if b = 0xE0 then (.inside 1 0xA0 0xBF 0, [])
  else if b = 0xED then (.inside 1 0x80 0x9F (b.toNat - 0xE0), [])
  else if b < 0xF0 then (.inside 1 0x80 0xBF (b.toNat - 0xE0), [])
  else if b = 0xF0 then (.inside 2 0x90 0xBF 0, [])
  else if b < 0xF4 then (.inside 2 0x80 0xBF (b.toNat - 0xF0), [])
  else if b = 0xF4 then (.inside 2 0x80 0x8F (b.toNat - 0xF0), [])
  else (.ready, [replacement])

/-- One byte: the new state and the characters it completes. -/
def step : State → UInt8 → State × List Char
  | .ready, b => first b
  | .inside missing low high value, b =>
      if low ≤ b ∧ b ≤ high then
        let value := value * 64 + (b.toNat - 0x80)
        match missing with
        | 0 => (.ready, [Char.ofNat value])
        | missing + 1 => (.inside missing 0x80 0xBF value, [])
      else
        let (state, chars) := first b
        (state, replacement :: chars)

/-- What is read from a state on.  An unfinished character at the end is
replaced. -/
def decodeFrom : State → List UInt8 → List Char
  | .ready, [] => []
  | .inside .., [] => [replacement]
  | state, b :: bs =>
      let (state, chars) := step state b
      chars ++ decodeFrom state bs

/-- The characters that the bytes stand for. -/
def decode (bytes : List UInt8) : List Char :=
  decodeFrom .ready bytes

/-- The bytes of a text. -/
def encode (s : String) : List UInt8 :=
  s.toUTF8.toList

/-! ## Tests -/

example : decode [0x61, 0xC3, 0xA9, 0xE2, 0x82, 0xAC] = ['a', 'é', '€'] := by decide
example : decode [0xE2, 0x82, 0x61] = [replacement, 'a'] := by decide
example : decode [0xC0, 0x80, 0xED, 0xA0] = List.replicate 4 replacement := by decide
example : decode [0xF0, 0x9F, 0x98, 0x80, 0xF0, 0x9F] = ['😀', replacement] := by decide

end ScriptLint.Utf8
