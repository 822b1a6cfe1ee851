import FileSearch.Search.Delete
import FileSearch.Search.Walk

/-!
A search: each root in turn is walked, and then what matched is deleted if the query says so, before
the next root is looked at. The answer is the number of entries that matched. The paths of the roots
are taken to have bytes; the command line tells what comes of one that has none.
-/

namespace FileSearch

/-- A filter and the path of the file it was read from. -/
structure RootFilter where
  origin : Text
  excludes : EntryFilter

/-- Makes the filter of a root from the file system, if there is one for it. -/
abbrev FilterSource := FileSystem → Text → Except Fault (Option RootFilter)

/-- The filter of a root; that it was read is logged. -/
def filterFor (source : Option FilterSource) (root : Text) : Search (Option EntryFilter) := do
  let w ← get
  let filter ← Search.ofExcept <|
    match source with
    | none => .ok none
    | some make => make w.files root
  match filter with
  | none => return none
  | some filter =>
    Search.record (.loaded filter.origin)
    return some filter.excludes

/-- Searches one root. -/
def findRoot (s : Setting) (q : Query) (source : Option FilterSource) (root : Text) :
    Search Nat := do
  let filter ← filterFor source root
  let found ← walk ⟨s, q, filter, root⟩
  if q.delete then deleteFound s (found.map Entry.path) else pure ()
  return found.length

/-- Searches the roots one after the other. -/
def find (s : Setting) (q : Query) (source : Option FilterSource) : List Text → Search Nat
  | [] => pure 0
  | root :: roots => do
    let here ← findRoot s q source root
    let there ← find s q source roots
    return here + there

end FileSearch
