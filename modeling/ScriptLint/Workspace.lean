import ScriptLint.Config
import ScriptLint.FileSystem

/-!
# Workspaces and their settings files

A workspace is a file system with what it takes to read the files in it: a
grammar for scripts, and a reader for settings files.

`Workspace.findConfig?` looks for a settings file in a directory and in those
above it.  A `workerlint.toml` is one.  A `pyproject.toml` is one if its tool
settings mention the program, which for a table means that they have the key,
for a text that it occurs, and for a list that it is an item.  Tool settings of
another shape cannot be searched.

`Workspace.loadConfig` takes the file it is told, or else the nearest one.  All
of a settings file holds settings, except in `pyproject.toml`, where they are a
table among those of other tools.  Without a file the defaults hold.
-/

namespace ScriptLint

/-- Why bytes are no settings. -/
inductive SettingsFault where
  /-- They are not in the format, and the reader says why. -/
  | malformed (text : String)
  /-- They are not UTF-8. -/
  | undecodable
deriving DecidableEq, Repr

/-- The files of a project, and what reads scripts and settings. -/
structure Workspace where
  /-- The files. -/
  files : FileSystem
  /-- What parses scripts. -/
  grammar : Grammar
  /-- What reads the table in a settings file. -/
  settings : Source → Except SettingsFault Config.Settings

namespace Workspace

/-! ## Reading a settings file -/

/-- The name of a settings file. -/
def configName : String := "workerlint.toml"

/-- The name of a file that holds settings for many tools. -/
def projectName : String := "pyproject.toml"

/-- The key of the settings among those of other tools. -/
def toolKey : String := "workerlint"

/-- The failure for a fault of a settings file. -/
def configFailure (path : Path) (fault : ConfigFault) : Failure :=
  .config ⟨path.toString, fault⟩

/-- The table in the settings file at a path. -/
def readSettings (w : Workspace) (path : Path) : Except Failure Config.Settings :=
  match w.files.read path with
  | .error fault => .error (configFailure path (.unreadable fault))
  | .ok source =>
      match w.settings source with
      | .ok settings => .ok settings
      | .error (.malformed text) => .error (configFailure path (.malformed text))
      | .error .undecodable => .error .undecodable

/-- The value of a key, the empty table if there is none. -/
def tableAt (settings : Config.Settings) (key : String) : Json :=
  (settings.lookup key).getD (.object [])

/-! ## Finding a settings file -/

/-- Whether a file is at a path. -/
def isFile (w : Workspace) (path : Path) : Except Failure Bool :=
  (w.files.isFile path).mapError fun fault => .file fault path.toString

/-- Whether the tool settings mention the program. -/
def mentionsTool : Json → Except Failure Bool
  | .object fields => .ok (fields.lookup toolKey).isSome
  | .string value => .ok (Text.occursIn toolKey.toList value.toList)
  | .array items => .ok (items.any fun item => item.string? == some toolKey)
  | _ => .error .notSearchable

/-- The settings file in a directory. -/
def configIn? (w : Workspace) (directory : Path) : Except Failure (Option Path) := do
  let own := directory.child configName
  if ← w.isFile own then return some own
  let project := directory.child projectName
  if ← w.isFile project then
    if ← mentionsTool (tableAt (← w.readSettings project) "tool") then return some project
  return none

/-- The first settings file in some directories. -/
def firstConfig? (w : Workspace) : List Path → Except Failure (Option Path)
  | [] => .ok none
  | directory :: rest => do
      match ← w.configIn? directory with
      | some path => return some path
      | none => w.firstConfig? rest

/-- The nearest settings file in a directory or above it. -/
def findConfig? (w : Workspace) (start : Path) : Except Failure (Option Path) :=
  w.firstConfig? (FileSystem.ancestry (w.files.resolve start))

/-! ## Loading settings -/

/-- The settings in the file at a path. -/
def settingsAt (w : Workspace) (path : Path) : Except Failure Config.Settings := do
  let settings ← w.readSettings path
  if path.name = projectName then
    match tableAt settings "tool" with
    | .object tools =>
        match tableAt tools toolKey with
        | .object own => return own
        | _ => throw (configFailure path .notATable)
    | _ => throw .notATable
  else return settings

/-- The path of the settings file to load: the one given, or else the nearest
one. -/
def chosenConfig? (w : Workspace) (path? : Option Path) (root : Path) :
    Except Failure (Option Path) :=
  match path? with
  | some path => .ok (some path)
  | none => w.findConfig? root

/-- Load the settings for a directory, from the given file or else from the
nearest one. -/
def loadConfig (w : Workspace) (path? : Option Path) (root : Path) : Activity Config := do
  let config : Config := { root := root }
  match ← Activity.ofExcept (w.chosenConfig? path? root) with
  | none =>
      Activity.debug .settings s!"No config file found above {root.toString}, using defaults"
      return config
  | some path =>
      let settings ← Activity.ofExcept (w.settingsAt path)
      Activity.debug .settings s!"Loading config from {path.toString}"
      Activity.ofExcept ((config.apply settings path).mapError (configFailure path))

end Workspace

end ScriptLint
