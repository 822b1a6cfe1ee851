import FileSearch.FileSystem.Change
import FileSearch.Numeral
import FileSearch.Search.World

/-!
A listing describes a tree of directories in lines of fields between tabs. The first field tells
what a line is about: `f`, `d`, `l` or `p` for a file, a directory, a link or anything else, with
the seconds of its last modification, its size or target, and its path, or `now` with the seconds
of the present.
-/

namespace FileSearch

structure Listing where
  now : Nat := 0
  changes : List Change := []

namespace Listing

def number (t : Text) : Nat := (readNumeral t).toOption.getD 0

def body? (letter detail : Text) : Option Body :=
  match letter with
  | ['f'] => some (.file { zeros := number detail })
  | ['d'] => some .directory
  | ['l'] => some (.symlink detail)
  | ['p'] => some .special
  | _ => none

/-- Adds what a line says; a line of another form says nothing. -/
def addLine (l : Listing) (line : Text) : Listing :=
  match splitWhere (· == '\t') line with
  | [letter, seconds, detail, path] =>
    match body? letter detail with
    | some body => { l with changes := l.changes ++ [.add path ⟨body, ⟨number seconds, 0⟩⟩] }
    | none => l
  | [_, seconds] => { l with now := number seconds }
  | _ => l

def ofText (t : Text) : Listing := (splitWhere (· == '\n') t).foldl addLine {}

/-- The file system that the listing describes. -/
def files (l : Listing) : FileSystem :=
  ChangeSite.applyAll ⟨[], ⟨l.now, 0⟩, none⟩ (FileSystem.empty ⟨l.now, 0⟩) l.changes

/-- The circumstances of a search of the listing. -/
def setting (l : Listing) : Setting := { cwd := [], now := Float.ofNat l.now, stamp := ⟨l.now, 0⟩ }

end Listing

end FileSearch
