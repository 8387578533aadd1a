import ScriptLint.Text.Quoted

/-!
# What can go wrong

Every way in which an activity can fail is a constructor here, and each has its
wording in one place.

* A file can be out of reach (`FileFault`).
* A program can hold a syntax error (`ParseError`).  The reason names the token
  that is missing, quotes what stands where nothing fits, or says that the
  source ends too early.
* A file can have a suffix without a dialect.
* A settings file can be unreadable or hold bad values (`ConfigError`).  Some
  shapes of a settings file are not looked at closely enough to be reported in
  this way, and end the activity instead.
-/

namespace ScriptLint

/-! ## Files -/

/-- Why a file cannot be read.  Faults for want of permission are left out. -/
inductive FileFault where
  /-- There is no file of that name. -/
  | notFound
  /-- A name on the way belongs to a file. -/
  | notADirectory
  /-- It is a directory. -/
  | isADirectory
  /-- A name on the way, or the whole path, is too long. -/
  | nameTooLong
deriving DecidableEq, Repr

namespace FileFault

/-- The system's number for a fault. -/
def number : FileFault → Nat
  | .notFound => 2
  | .notADirectory => 20
  | .isADirectory => 21
  | .nameTooLong => 36

/-- The system's words for a fault. -/
def words : FileFault → String
  | .notFound => "No such file or directory"
  | .notADirectory => "Not a directory"
  | .isADirectory => "Is a directory"
  | .nameTooLong => "File name too long"

/-- Number, words and path of a fault. -/
def message (fault : FileFault) (path : String) : String :=
  s!"[Errno {fault.number}] {fault.words}: {Text.quoted path}"

end FileFault

/-! ## Programs -/

/-- Why a program cannot be parsed. -/
inductive ParseFault where
  /-- A token of this kind is missing. -/
  | expected (kind : String)
  /-- Something stands where nothing fits, and starts like this. -/
  | unexpected (snippet : String)
  /-- Nothing but blanks stands where something should. -/
  | unexpectedEnd
deriving DecidableEq, Repr

/-- The wording of a parse fault. -/
def ParseFault.message : ParseFault → String
  | .expected kind => s!"Expected {Text.quoted kind}"
  | .unexpected snippet => s!"Unexpected token {Text.quoted snippet}"
  | .unexpectedEnd => "Unexpected end of input"

/-- The first syntax error of a program. -/
structure ParseError where
  /-- The file of the program. -/
  filename : String
  /-- The line of the error. -/
  line : Int
  /-- The column of the error. -/
  col : Int
  /-- What is wrong there. -/
  fault : ParseFault
deriving DecidableEq, Repr

namespace ParseError

/-- What is wrong, in words. -/
def reason (e : ParseError) : String := e.fault.message

/-- Place and reason. -/
def message (e : ParseError) : String :=
  s!"{e.filename}:{e.line}:{e.col}: {e.reason}"

end ParseError

/-! ## Settings -/

/-- What is wrong with a settings file. -/
inductive ConfigFault where
  /-- It cannot be read. -/
  | unreadable (fault : FileFault)
  /-- It is not in the format of settings files, for which the reader gives its own words. -/
  | malformed (text : String)
  /-- The settings are not a table. -/
  | notATable
  /-- The value of a key is not a list of strings. -/
  | notStrings (key : String)
  /-- The ignore directive is not a string or is blank. -/
  | badDirective
  /-- The number of jobs is not a positive integer. -/
  | badJobs
  /-- The rule settings are not a table. -/
  | badRules
deriving DecidableEq, Repr

/-- A fault and the settings file that has it. -/
structure ConfigError where
  /-- The path of the settings file. -/
  path : String
  /-- What is wrong with it. -/
  fault : ConfigFault
deriving DecidableEq, Repr

namespace ConfigError

/-- What is wrong, in words. -/
def reason (e : ConfigError) : String :=
  match e.fault with
  | .unreadable fault => s!"cannot read: {fault.message e.path}"
  | .malformed text => s!"invalid TOML: {text}"
  | .notATable => "workerlint configuration must be a table"
  | .notStrings key => s!"'{key}' must be a list of strings"
  | .badDirective => "'ignore-directive' must be a non-empty string"
  | .badJobs => "'jobs' must be a positive integer"
  | .badRules => "'rules' must be a table"

/-- Path and reason. -/
def message (e : ConfigError) : String :=
  s!"{e.path}: {e.reason}"

end ConfigError

/-! ## All failures -/

/-- Why an activity ended without a result. -/
inductive Failure where
  /-- A file has a suffix without a dialect. -/
  | unsupported (path : String)
  /-- A program holds a syntax error. -/
  | syntaxError (error : ParseError)
  /-- A settings file is bad. -/
  | config (error : ConfigError)
  /-- A file is out of reach. -/
  | file (fault : FileFault) (path : String)
  /-- A settings file is not UTF-8. -/
  | undecodable
  /-- The tool settings hold nothing to search in. -/
  | notSearchable
  /-- The tool settings can be searched but are no table. -/
  | notATable
deriving DecidableEq, Repr

/-- The wording of a failure, where there is one. -/
def Failure.message : Failure → String
  | .unsupported path => s!"Unsupported file type: {path}"
  | .syntaxError error => error.message
  | .config error => error.message
  | .file fault path => fault.message path
  | .undecodable => "settings are not UTF-8"
  | .notSearchable => "tool settings cannot be searched"
  | .notATable => "tool settings are not a table"

end ScriptLint
