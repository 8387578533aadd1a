import ScriptLint.Json.Basic
import ScriptLint.Lint.Rule
import ScriptLint.Literal
import ScriptLint.Workspace

/-!
# Snapshots

A snapshot is a workspace written down as JSON.  It lists files and directories,
and for each file what a parser made of it, since parsers are not part of the
library.

* A source is a text under `text`, or bytes in hexadecimal under `hex`.
* A tree is a list of rows in preorder under `tree`.  A row holds the number of
  the parent's row, the kind, three flags added together, the first byte, the
  byte after the last, and the field if there is one.  The flags are 1 for
  named, 2 for missing and 4 for faulty.
* The table of a settings file stands under `ok` in `toml`, and `bad` says why
  there is none.
* A rule is a list of a code, the kind of the nodes that it reports, its message,
  and a hint or nothing.

The grammar of a snapshot gives each listed source its tree, and any other one a
program without statements.  Its reader of settings does the same with tables,
and refuses what is not listed.
-/

namespace ScriptLint

/-- A rule that reports every node of a kind. -/
def Rule.everyNode (code kind message : String) (hint? : Option String) : Rule where
  name := "Rule"
  code := code
  tags := []
  docs := ""
  onMember := fun _ _ _ => []
  onNode := fun p s =>
    if s.node.kind = kind then [⟨p.source.rangeOf s.node, message, hint?⟩] else []
  asksScopes := fun _ _ => false

namespace Snapshot

/-! ## Sources and trees -/

/-- Bytes in hexadecimal. -/
def hexBytes? : List Char → Option (List UInt8)
  | [] => some []
  | high :: low :: rest => do
      let high ← Text.hexValue? high
      let low ← Text.hexValue? low
      return UInt8.ofNat (high * 16 + low) :: (← hexBytes? rest)
  | [_] => none

/-- The source that an object holds. -/
def source? (j : Json) : Option Source :=
  match (j.field? "text").bind Json.string? with
  | some text => some (.ofString text)
  | none => do
      let hex ← (j.field? "hex").bind Json.string?
      return ⟨← hexBytes? hex.toList⟩

/-- The row of a tree that a list holds. -/
def row? (j : Json) : Option Node.Row := do
  match ← j.items? with
  | parent :: kind :: flags :: start :: stop :: more =>
      let flags ← flags.natural?
      return {
        parent? := parent.natural?
        label :=
          { kind := ← kind.string?
            named := flags % 2 == 1
            missing := flags / 2 % 2 == 1
            faulty := flags / 4 % 2 == 1
            start := ← start.natural?
            stop := ← stop.natural?
            field? := more.head?.bind Json.string? } }
  | _ => none

/-- The tree that a list of rows holds. -/
def tree? (j : Json) : Option Node := do
  Node.ofRows? (← (← j.items?).mapM row?)

/-- A program without statements. -/
def emptyTree (source : Source) : Node :=
  .mk ⟨"program", true, false, false, 0, source.size, none⟩ []

/-! ## Files -/

/-- A file and what was made of it. -/
structure FileRecord where
  /-- Where it is. -/
  path : Path
  /-- Its bytes. -/
  source : Source
  /-- Its tree, if it is a script. -/
  tree? : Option Node
  /-- Its table, if it is a settings file. -/
  settings? : Option (Except SettingsFault Config.Settings)

/-- The fault of bytes that are not in the format.  A snapshot does not hold the words of the
reader that found it. -/
def unreadable : SettingsFault := .malformed ""

/-- The table of a settings file, or why there is none. -/
def settings? (j : Json) : Option (Except SettingsFault Config.Settings) :=
  match j.field? "ok" with
  | some (.object fields) => some (.ok fields)
  | _ =>
      match (j.field? "bad").bind Json.string? with
      | some "syntax" => some (.error unreadable)
      | some "utf-8" => some (.error .undecodable)
      | _ => none

/-- The file that an object holds. -/
def file? (j : Json) : Option FileRecord := do
  return {
    path := .ofString (← (j.field? "path").bind Json.string?)
    source := ← source? j
    tree? := (j.field? "tree").bind tree?
    settings? := (j.field? "toml").bind settings? }

/-! ## Workspaces -/

/-- The names that lead from the root to a path below a directory. -/
def place (current : List String) (path : Path) : List String :=
  FileSystem.normalize [] (current ++ path.names)

/-- The file system that holds some files and directories. -/
def fileSystem (current : List String) (files : List FileRecord) (directories : List Path) :
    FileSystem :=
  let root := Entry.insert (.directory []) current (.directory [])
  let root := directories.foldl (fun root path =>
    Entry.insert (.directory []) (place current path) root) root
  let root := files.foldl (fun root file =>
    Entry.insert (.file (.ok file.source)) (place current file.path) root) root
  ⟨root, current⟩

/-- The grammar that knows the trees of some files. -/
def grammar (files : List FileRecord) : Grammar where
  parse dialect source :=
    match files.find? fun file => Dialect.ofPath? file.path == some dialect &&
        file.source == source && file.tree?.isSome with
    | some file => file.tree?.getD (emptyTree source)
    | none => emptyTree source

/-- The reader that knows the tables of some files. -/
def settingsReader (files : List FileRecord) (source : Source) :
    Except SettingsFault Config.Settings :=
  match files.find? fun file => file.source == source && file.settings?.isSome with
  | some file => file.settings?.getD (.error unreadable)
  | none => .error unreadable

/-- The workspace that an object holds, with its files and directories below
the current directory. -/
def workspace? (current : List String) (j : Json) : Option Workspace := do
  let files ← ((← j.field? "files").items?).bind (·.mapM file?)
  let directories := ((j.field? "dirs").bind Json.strings?).getD []
  return {
    files := fileSystem current files (directories.map Path.ofString)
    grammar := grammar files
    settings := settingsReader files }

/-! ## Rules -/

/-- The rule that a list holds. -/
def rule? (j : Json) : Option Rule := do
  match ← j.items? with
  | [.string code, .string kind, .string message, hint] =>
      return .everyNode code kind message hint.string?
  | _ => none

end Snapshot

end ScriptLint
