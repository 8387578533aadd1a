import ScriptLint.Failure
import ScriptLint.Keyed
import ScriptLint.Path
import ScriptLint.Source

/-!
# File systems

A file system is a tree of directories and files, together with the directory
that relative paths start from.  There are no links, so every entry has one
place, and `..` leads back to where the way came from.  There are no permissions
either, so every directory may be searched.  Reading a file that is there can
still fail, as it does when the file goes away meanwhile.

* `FileSystem.find` follows a path name by name, as the system does.  On the way
  every entry must be a directory, even before `..`.
* `Entry.files` lists the files below an entry.  The entries of a directory are
  visited in the order of their names, so the list is in the order of paths
  compared name by name, and the files below one directory stand together.
* `Entry.places` lists everything there is below an entry.
* `FileSystem.resolve` makes a path absolute and takes `..` out of it by the
  names alone.
-/

namespace ScriptLint

/-! ## Entries -/

/-- What stands under a name. -/
inductive Entry where
  /-- A file with its bytes, or with the fault that reading it meets. -/
  | file (content : Except FileFault Source)
  /-- A directory with the names in it. -/
  | directory (entries : List (String × Entry))
deriving Inhabited

namespace Entry

/-- Whether an entry is a file. -/
def isFile : Entry → Bool
  | .file _ => true
  | .directory _ => false

/-- Parts with names, in the order of the names, each part with the name in
front. -/
def inOrder (parts : List (String × List (List String))) : List (List String) :=
  (parts.mergeSort fun a b => decide (a.1 ≤ b.1)).flatMap fun (name, paths) =>
    paths.map (name :: ·)

mutual

/-- The files at and below an entry, as the names that lead to them. -/
def files : Entry → List (List String)
  | .file _ => [[]]
  | .directory entries => inOrder (filesAmong entries)

/-- The files at and below each of some entries. -/
def filesAmong : List (String × Entry) → List (String × List (List String))
  | [] => []
  | (name, entry) :: rest => (name, entry.files) :: filesAmong rest

end

mutual

/-- All that is at and below an entry, as the names that lead there. -/
def places : Entry → List (List String)
  | .file _ => [[]]
  | .directory entries => [] :: placesAmong entries

/-- All that is at and below each of some entries. -/
def placesAmong : List (String × Entry) → List (List String)
  | [] => []
  | (name, entry) :: rest => entry.places.map (name :: ·) ++ placesAmong rest

end

/-- The entry with a further one at the end of some names.  Directories on the
way are made.  A directory that is there already stays. -/
def insert (new : Entry) : List String → Entry → Entry
  | [], old =>
      match new, old with
      | .directory [], .directory entries => .directory entries
      | new, _ => new
  | name :: rest, old =>
      let entries := match old with
        | .directory entries => entries
        | .file _ => []
      let entry := insert new rest ((entries.lookup name).getD (.directory []))
      .directory (Keyed.put name entry entries)

end Entry

/-! ## File systems -/

/-- A tree of entries and the current directory in it. -/
structure FileSystem where
  /-- The entry at the root. -/
  root : Entry
  /-- The names that lead from the root to the current directory. -/
  current : List String
deriving Inhabited

namespace FileSystem

/-- Names longer than this many bytes do not exist. -/
def maxName : Nat := 255

/-- Paths longer than this many bytes lead nowhere. -/
def maxPath : Nat := 4095

/-- Follow names from an entry.  `above` are the directories on the way to it,
the nearest first. -/
def follow (above : List Entry) (entry : Entry) : List String → Except FileFault Entry
  | [] => .ok entry
  | name :: rest =>
      match entry with
      | .file _ => .error .notADirectory
      | .directory entries =>
          if name = ".." then
            match above with
            | [] => follow [] entry rest
            | parent :: above => follow above parent rest
          else if maxName < name.utf8ByteSize then .error .nameTooLong
          else match entries.lookup name with
            | some next => follow (entry :: above) next rest
            | none => .error .notFound

/-- The names that lead from the root to a path. -/
def absoluteNames (fs : FileSystem) (p : Path) : List String :=
  if p.anchor = .here then fs.current ++ p.names else p.names

/-- Whether a path is too long. -/
def tooLong (p : Path) : Bool :=
  decide (maxPath < p.toString.utf8ByteSize)

/-- The entry at a path. -/
def find (fs : FileSystem) (p : Path) : Except FileFault Entry :=
  if tooLong p then .error .nameTooLong
  else follow [] fs.root (fs.absoluteNames p)

/-- The bytes of the file at a path. -/
def read (fs : FileSystem) (p : Path) : Except FileFault Source := do
  match ← fs.find p with
  | .file content => content
  | .directory _ => .error .isADirectory

/-- The entry at a path, or nothing if none is there.  Names that are too long
are still a fault. -/
def entry? (fs : FileSystem) (p : Path) : Except FileFault (Option Entry) :=
  match fs.find p with
  | .ok entry => .ok (some entry)
  | .error .nameTooLong => .error .nameTooLong
  | .error _ => .ok none

/-- Whether a file is at a path. -/
def isFile (fs : FileSystem) (p : Path) : Except FileFault Bool := do
  return (← fs.entry? p).any Entry.isFile

/-! ## Absolute paths -/

/-- Names without `..`, each of them taking back the name before it.  `above`
are the names so far, the last one first. -/
def normalize (above : List String) : List String → List String
  | [] => above.reverse
  | name :: rest => normalize (if name = ".." then above.tail else name :: above) rest

/-- The absolute path of a path, without `..`. -/
def resolve (fs : FileSystem) (p : Path) : Path :=
  ⟨.root, normalize [] (fs.absoluteNames p)⟩

/-- The current directory. -/
def currentDirectory (fs : FileSystem) : Path :=
  ⟨.root, fs.current⟩

/-- The directories from some names upwards to the root, given the names in
reverse. -/
def upwards : List String → List Path
  | [] => [⟨.root, []⟩]
  | last :: above => ⟨.root, (last :: above).reverse⟩ :: upwards above

/-- The directories from an absolute path upwards. -/
def ancestry (p : Path) : List Path :=
  upwards p.names.reverse

end FileSystem

end ScriptLint
