import FileSearch.FileSystem.Requests
import FileSearch.Search.Find
import FileSearch.Text.Encoding

/-!
The ignore file of a root and the filter that is made of it. What the lines of the file mean is up to
a compiler. A root without an ignore file has no filter.
-/

namespace FileSearch

namespace IgnoreFile

/-- The name of the ignore file in a root. -/
def fileName : Text := ".gitignore".toList

/-- Compiles the bytes of an ignore file. -/
def ofBytes (compiler : IgnoreCompiler) (bytes : List UInt8) : Except Fault (Text → Bool) :=
  match decodeUtf8 bytes with
  | none => .error .undecodable
  | some text => compiler (textLines text)

/-- The test of paths for a root; there is none if the root has no ignore file or is no directory. -/
def ofRoot? (compiler : IgnoreCompiler) (files : FileSystem) (cwd : Location) (root : Text) :
    Except Fault (Option (Text → Bool)) :=
  match files.read cwd (joinPath root fileName) >>= ofBytes compiler with
  | .error (.system .noEntry _) | .error (.system .notDirectory _) => .ok none
  | .error f => .error f
  | .ok ignores => .ok (some ignores)

/-- The filter that leaves out what the ignore file of a root ignores. -/
def source (compiler : IgnoreCompiler) (cwd : Location) : FilterSource := fun files root => do
  let ignores? ← ofRoot? compiler files cwd root
  return ignores?.map fun ignores =>
    { origin := joinPath root fileName
      excludes := fun rel isDir => .ok (ignores (if isDir then rel ++ ['/'] else rel)) }

end IgnoreFile

/-- The filter that leaves out what the rules in the ignore file of a root ignore. -/
def IgnoreRules.source (cwd : Location) : FilterSource :=
  IgnoreFile.source IgnoreRules.compile cwd

end FileSearch
