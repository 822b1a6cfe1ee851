import FileSearch.FileSystem.Errno
import FileSearch.Query.Compile
import FileSearch.Text.Quoted

/-!
The faults that end a search, and what is said of each. Some are reported to the user by the command
line, the others are left to its caller.
-/

namespace FileSearch

inductive Fault where
  /-- the file system refused a request for the path -/
  | system (reason : Errno) (path : Text)
  /-- the path holds a NUL, so that no request can be made for it -/
  | nulInPath
  /-- nobody reads the output any more -/
  | brokenPipe
  /-- the expression does not compile -/
  | expression (reason : CompileError)
  /-- the glob pattern is malformed -/
  | pattern (pattern : Text)
  /-- a line of an ignore file cannot be a pattern -/
  | ignoreLine (line : Text)
  /-- a class in an ignore file has a range whose ends are the wrong way round -/
  | ignoreRange
  /-- bytes are no text, or a text has no bytes -/
  | unicode
  /-- an age is not a number -/
  | noAge
  deriving DecidableEq, Repr

namespace Fault

/-- An ignore file is not UTF-8. -/
@[match_pattern] abbrev undecodable : Fault := unicode

/-- A path or a line has a character for which there are no bytes. -/
@[match_pattern] abbrev unencodable : Fault := unicode

/-- The wording; empty for the two faults whose wording is not fixed. -/
def message : Fault → Text
  | system reason path =>
    "[Errno ".toList ++ decimal reason.number ++ "] ".toList ++ reason.wording ++ ": ".toList ++
      quoted path
  | nulInPath => "embedded null byte".toList
  | brokenPipe => "[Errno 32] Broken pipe".toList
  | expression reason => reason.message
  | pattern p => "syntax error in pattern: ".toList ++ p
  | ignoreLine line => "Invalid git pattern: ".toList ++ quoted line
  | ignoreRange => []
  | unicode => []
  | noAge => "cannot convert float NaN to integer".toList

/-- Whether the fault lies in the user's expression or in the system, and so is reported to the
user. -/
def isReported : Fault → Bool
  | system _ _ | brokenPipe | expression _ | pattern _ => true
  | nulInPath | ignoreLine _ | ignoreRange | unicode | noAge => false

end Fault

end FileSearch
