import FileSearch.FileSystem.Requests
import FileSearch.Search.World

/-!
Deleting the entries that a walk found. They are deleted from the last discovered to the first, so
that what stands in a directory goes before the directory. What leads to a directory and is no
link itself is removed as a directory, which has to be empty; anything else is removed as a file.
The first refusal ends the deletion, and what is gone by then stays gone.
-/

namespace FileSearch

namespace Delete

/-- Removes what a path names. -/
def removeNode (s : Setting) (files : FileSystem) (path : Text) : Except Fault FileSystem :=
  if files.leadsToDirectory s.cwd path && !files.isLink s.cwd path then
    files.removeDirectory s.cwd s.stamp path
  else files.removeFile s.cwd s.stamp path

def removePath (s : Setting) (path : Text) : Search Unit := do
  Search.record (.deleting path)
  let w ← get
  let files ← Search.ofExcept (removeNode s w.files path)
  set { w with files }

/-- Removes what the paths name, one after the other. -/
def removePaths (s : Setting) : List Text → Search Unit
  | [] => pure ()
  | path :: paths => do
    removePath s path
    removePaths s paths

end Delete

/-- Deletes what was found, the last discovered first. -/
def deleteFound (s : Setting) (paths : List Text) : Search Unit :=
  Delete.removePaths s paths.reverse

end FileSearch
