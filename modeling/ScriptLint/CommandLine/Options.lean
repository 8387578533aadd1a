import ScriptLint.Text.Digit

/-!
# Options on a command line

A command line is a list of words.  Some are options, some are values of
options, and the rest are operands.  `Usage.read` tells them apart.

An option is named by two dashes and a word, or by one dash and a letter.  The
word may be cut short as long as it fits one option only.  A value can be
joined to it with an equals sign, or directly to a letter, and letters without
values can share a dash.  Two dashes alone say that all further words are
operands.  A single dash, a negative number, and an unknown option with a space
in it are no options either.

All words are sorted out before any is acted on, so a word that fits several
options is wrong wherever it stands.  Then the words are read from left to
right.  An option takes no value, the next word, or all the words up to the next
option.  Operands are taken at the first place where some stand: a usage allows
none, one or many of them there, or a command that takes the rest of the line.
Operands that stand elsewhere are wrong, but reading goes on behind them.
-/

namespace ScriptLint.CommandLine

/-! ## What is allowed -/

/-- The values of an option. -/
inductive Arity where
  /-- None. -/
  | none
  /-- The next word. -/
  | one
  /-- All words up to the next option. -/
  | many
deriving DecidableEq, Repr

/-- An option. -/
structure Flag (ι : Type) where
  /-- What it stands for. -/
  id : ι
  /-- Its names, dashes included. -/
  names : List String
  /-- The values that it takes. -/
  arity : Arity

/-- The operands of a command line. -/
inductive Operands where
  /-- None. -/
  | none
  /-- Exactly one. -/
  | one
  /-- Any number. -/
  | many
  /-- A command and all words after it, or nothing. -/
  | command
deriving DecidableEq, Repr

/-- What a command line may hold. -/
structure Usage (ι : Type) where
  /-- The options. -/
  flags : List (Flag ι)
  /-- The operands. -/
  operands : Operands

/-! ## Sorting out the words -/

/-- A value that is joined to an option. -/
structure Joined where
  /-- Whether there is an equals sign in between. -/
  equals : Bool
  /-- The value. -/
  value : List Char
deriving DecidableEq, Repr

/-- What a word is. -/
inductive Word (ι : Type) where
  /-- A value or an operand. -/
  | plain (text : String)
  /-- The two dashes that end the options. -/
  | ender
  /-- An option, by one of its names. -/
  | flag (flag : Flag ι) (name : List Char) (joined? : Option Joined)
  /-- An option that is not allowed. -/
  | unknown

namespace Usage

/-- The options by their names. -/
def named {ι : Type} (u : Usage ι) : List (List Char × Flag ι) :=
  u.flags.flatMap fun f => f.names.map fun name => (name.toList, f)

/-- The option with a name. -/
def flag? {ι : Type} (u : Usage ι) (name : List Char) : Option (Flag ι) :=
  u.named.lookup name

/-- Whether all of a text, a final line feed aside, is a negative number. -/
def isNegative (s : List Char) : Bool :=
  let isDigit (c : Char) := (Text.decimalValue? c).isSome
  let trimmed := if s.getLast? = some '\n' then s.dropLast else s
  [s, trimmed].any fun
    | '-' :: number =>
        match number.dropWhile isDigit with
        | [] => !number.isEmpty
        | '.' :: decimals => !decimals.isEmpty && decimals.all isDigit
        | _ => false
    | _ => false

/-- The options that an incomplete name can mean, with the value joined to it. -/
def candidates {ι : Type} (u : Usage ι) (s : List Char) : List (Word ι) :=
  if ['-', '-'].isPrefixOf s then
    let start := s.takeWhile (· != '=')
    let joined? := match s.dropWhile (· != '=') with
      | _ :: value => some ⟨true, value⟩
      | [] => none
    (u.named.filter fun (name, _) => start.isPrefixOf name).map fun (name, f) =>
      .flag f name joined?
  else
    (u.named.filter fun (name, _) => name == s.take 2).map fun (name, f) =>
      .flag f name (some ⟨false, s.drop 2⟩)

/-- What a word is, unless it fits several options. -/
def word? {ι : Type} (u : Usage ι) (text : String) : Option (Word ι) :=
  let s := text.toList
  if s.head? ≠ some '-' then some (.plain text)
  else match u.flag? s with
    | some f => some (.flag f s none)
    | none =>
        if s.length = 1 then some (.plain text)
        else
          let name := s.takeWhile (· != '=')
          match u.flag? name, s.dropWhile (· != '=') with
          | some f, _ :: value => some (.flag f name (some ⟨true, value⟩))
          | _, _ =>
              match u.candidates s with
              | [word] => some word
              | _ :: _ :: _ => none
              | [] => if isNegative s || s.contains ' ' then some (.plain text) else some .unknown

/-- What the words of a command line are, unless one fits several options. -/
def sortOut {ι : Type} (u : Usage ι) : List String → Option (List (Word ι))
  | [] => some []
  | text :: rest =>
      if text = "--" then some (.ender :: rest.map .plain)
      else do
        let word ← u.word? text
        let words ← u.sortOut rest
        some (word :: words)

end Usage

/-! ## Reading the words -/

/-- Something that a command line says. -/
inductive Event (ι : Type) where
  /-- An option with its values. -/
  | flag (id : ι) (values : List String)
  /-- The operands. -/
  | operands (values : List String)
  /-- A command with the words after it. -/
  | command (name : String) (rest : List String)
deriving Repr

/-- What a command line says, in order, and whether there is something wrong
with it after all that. -/
structure Reading (ι : Type) where
  /-- What it says. -/
  events : List (Event ι)
  /-- Whether it is wrong. -/
  misuse : Bool
deriving Repr

namespace Reading

/-- Nothing but an error. -/
def wrong {ι : Type} : Reading ι := ⟨[], true⟩

/-- Events and then a reading. -/
def after {ι : Type} (events : List (Event ι)) (r : Reading ι) : Reading ι :=
  ⟨events ++ r.events, r.misuse⟩

/-- A reading that is wrong whatever comes. -/
def spoil {ι : Type} (spoiled : Bool) (r : Reading ι) : Reading ι :=
  ⟨r.events, r.misuse || spoiled⟩

end Reading

/-- The text of a word that can be a value. -/
def Word.value? {ι : Type} : Word ι → Option String
  | .plain text => some text
  | _ => none

/-- The text of a word that can be an operand or end the options. -/
def Word.operand? {ι : Type} : Word ι → Option String
  | .plain text => some text
  | .ender => some "--"
  | _ => none

/-- What the letters of one word say. -/
structure Letters (ι : Type) where
  /-- The options with their joined values. -/
  events : List (Event ι)
  /-- The last option, if it takes its values from the words that follow. -/
  last? : Option (Flag ι)
  /-- Whether a letter is not allowed. -/
  misuse : Bool

namespace Usage

/-- What an option with a joined value says.  A letter without values makes the
joined text more letters.  Nothing if the value cannot be joined. -/
def letters {ι : Type} (u : Usage ι) (f : Flag ι) (long equals : Bool) :
    List Char → Option (Letters ι)
  | [] => if f.arity = .none then none else some ⟨[.flag f.id [""]], none, false⟩
  | c :: rest =>
      if f.arity ≠ .none then some ⟨[.flag f.id [String.ofList (c :: rest)]], none, false⟩
      else if long || equals || c = '-' then none
      else
        let more (l : Letters ι) : Letters ι := { l with events := .flag f.id [] :: l.events }
        match u.flag? ['-', c], rest with
        | none, _ => some ⟨[.flag f.id []], none, true⟩
        | some g, [] => some ⟨[.flag f.id []], some g, false⟩
        | some g, '=' :: value => (u.letters g false true value).map more
        | some g, d :: rest => (u.letters g false false (d :: rest)).map more

/-- What the first option in a word says, with the option that takes its values
from the words that follow. -/
def flagWord {ι : Type} (u : Usage ι) (f : Flag ι) (name : List Char) :
    Option Joined → Option (Letters ι)
  | none => some ⟨[], some f, false⟩
  | some joined => u.letters f (['-', '-'].isPrefixOf name) joined.equals joined.value

/-- The number of words that an option takes from those that follow, if they
are enough. -/
def valueCount? {ι : Type} (f : Flag ι) (words : List (Word ι)) : Option Nat :=
  let available := words.takeWhile fun w => w.value?.isSome
  match f.arity with
  | .none => some 0
  | .one => if available.isEmpty then none else some 1
  | .many => some available.length

/-- The operands that a usage takes from a run of them, with what is left. -/
def takeOperands {ι : Type} (operands : Operands) (run : List String) :
    Option (Event ι × List String) :=
  match operands, run with
  | .many, run => some (.operands (run.erase "--"), [])
  | .one, "--" :: text :: rest => some (.operands [text], rest)
  | .one, text :: "--" :: rest => some (.operands [text], rest)
  | .one, text :: rest => if text = "--" then none else some (.operands [text], rest)
  | _, _ => none

/-- The text of any word as it was written, given the words as they were
written. -/
def textsFrom {ι : Type} (texts : List String) (words : List (Word ι)) : List String :=
  texts.drop (texts.length - words.length)

/-- The reading of words from left to right.  `free` says whether operands are
still to be taken, and `texts` are all the words as they were written.  The
bound is a number of words. -/
def readWords {ι : Type} (u : Usage ι) (texts : List String) :
    Nat → Bool → List (Word ι) → Reading ι
  | 0, _, _ => .wrong
  | _ + 1, free, [] =>
      match u.operands with
      | .many => if free then ⟨[.operands []], false⟩ else ⟨[], false⟩
      | .one => ⟨[], free⟩
      | .none | .command => ⟨[], false⟩
  | bound + 1, free, .unknown :: rest => .spoil true (readWords u texts bound free rest)
  | bound + 1, free, .flag f name joined? :: rest =>
      match u.flagWord f name joined? with
      | none => .wrong
      | some letters =>
          match letters.last? with
          | none =>
              .after letters.events (.spoil letters.misuse (readWords u texts bound free rest))
          | some last =>
              match valueCount? last rest with
              | none => .wrong
              | some count =>
                  let values := (rest.take count).filterMap Word.value?
                  .after (letters.events ++ [.flag last.id values])
                    (readWords u texts bound free (rest.drop count))
  | bound + 1, free, word :: rest =>
      if free && u.operands = .command then
        match textsFrom texts (word :: rest) with
        | "--" :: _ => .wrong
        | name :: rest => ⟨[.command name rest], false⟩
        | [] => .wrong
      else
        let run := ((word :: rest).takeWhile fun w => w.operand?.isSome).filterMap Word.operand?
        let others := (word :: rest).drop run.length
        match if free then takeOperands u.operands run else none with
        | some (event, left) =>
            .after [event] (.spoil (!left.isEmpty) (readWords u texts bound false others))
        | none => .spoil true (readWords u texts bound free others)

/-- What a command line says. -/
def read {ι : Type} (u : Usage ι) (texts : List String) : Reading ι :=
  match u.sortOut texts with
  | none => .wrong
  | some words => u.readWords texts (words.length + 1) true words

end Usage

end ScriptLint.CommandLine
