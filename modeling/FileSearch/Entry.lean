import FileSearch.Query.Basic

/-!
The entries of a search: the path an entry is reached by, the path it is shown by, its base name and
its kind. All are texts built from the root as it was given.
-/

namespace FileSearch

structure Entry where
  path : Text
  display : Text
  name : Text
  /-- absent for what is neither a regular file nor a directory nor a link -/
  kind : Option Kind
  deriving DecidableEq, Repr

def Entry.isDirectory (e : Entry) : Bool := e.kind = some .directory

/-- Appends a segment to a path; a slash is added unless the path ends in one. -/
def joinPath (path name : Text) : Text :=
  if path.isEmpty || endsWith path '/' then path ++ name else path ++ '/' :: name

/-- The shown path of what lies at a path relative to the root; the root is shown as it was given.
-/
def displayPath (root rel : Text) : Text :=
  if rel.isEmpty then root
  else if endsWith root '/' then root ++ rel
  else root ++ '/' :: rel

/-- The last segment of a path without regard to slashes at its end; all of a path of slashes. -/
def baseName (path : Text) : Text :=
  match (segments (dropTrailing (· == '/') path)).getLast? with
  | some (c :: r) => c :: r
  | _ => path

/-- The entry of a root. -/
def Entry.root (path : Text) (kind : Option Kind) : Entry := ⟨path, path, baseName path, kind⟩

/-- The kind that a file mode tells: the bits above the permissions are a number of their own. -/
def Kind.ofMode? (mode : Nat) : Option Kind :=
  match mode / 4096 % 16 with
  | 10 => some .symlink
  | 4 => some .directory
  | 8 => some .regular
  | _ => none

end FileSearch
