import FileSearch.FileSystem.Lookup

/-!
What a program can ask of a file system by path: the status of a node, the list of a directory,
the bytes of a file, and the removal of a file or of an empty directory. A refused request names
the path as it was given.
-/

namespace FileSearch.FileSystem

/-- The node a path names, a link at its end not followed. -/
def status (fs : FileSystem) (cwd : Location) (path : Text) : Except Fault Node :=
  (fs.locate cwd false path).map fs.nodeAt

/-- The entries of the directory a path names. -/
def list (fs : FileSystem) (cwd : Location) (path : Text) : Except Fault (List (Name × Node)) := do
  let l ← fs.locate cwd true path
  if (fs.nodeAt l).body = .directory then .ok (fs.entries l)
  else .error (.system .notDirectory path)

/-- The bytes of the file a path names. -/
def read (fs : FileSystem) (cwd : Location) (path : Text) : Except Fault (List UInt8) := do
  let l ← fs.locate cwd true path
  match (fs.nodeAt l).body with
  | .file content => .ok content.toList
  | .directory => .error (.system .isDirectory path)
  | .symlink _ | .special => .ok []

/-- Whether a path leads to a directory, links followed. -/
def leadsToDirectory (fs : FileSystem) (cwd : Location) (path : Text) : Bool :=
  match fs.locate cwd true path with
  | .ok l => (fs.nodeAt l).body = .directory
  | .error _ => false

/-- Whether a path names a symbolic link. -/
def isLink (fs : FileSystem) (cwd : Location) (path : Text) : Bool :=
  match fs.status cwd path with
  | .ok node => node.body.kind = some .symlink
  | .error _ => false

/-- The directory that holds the last step of a path, and that step; slashes at the end are ignored.
-/
def locateParent (fs : FileSystem) (cwd : Location) (path : Text) :
    Except Fault (Location × Option Text) := do
  checkPath path
  let way := (segments path).filter (!·.isEmpty)
  match fs.locateSteps (startOf cwd path) way.dropLast with
  | .error e => .error (.system e path)
  | .ok dir =>
    if (fs.nodeAt dir).body = .directory then .ok (dir, way.getLast?)
    else .error (.system .notDirectory path)

/-- The name and the node that the last step of a path finds in a directory. -/
def lookupIn (fs : FileSystem) (dir : Location) (step : Text) : Except Errno (Name × Node) :=
  match Name.ofText? step with
  | none => .error .nameTooLong
  | some name =>
    match fs.get? (name :: dir) with
    | none => .error .noEntry
    | some node => .ok (name, node)

/-- Takes a node out of its directory, whose time of modification changes with it. -/
def takeOut (fs : FileSystem) (now : Stamp) (name : Name) (dir : Location) : FileSystem :=
  (fs.remove (name :: dir)).touch dir now

/-- Removes the empty directory a path names. -/
def removeDirectory (fs : FileSystem) (cwd : Location) (now : Stamp) (path : Text) :
    Except Fault FileSystem := do
  let (dir, last) ← fs.locateParent cwd path
  match last with
  | none => .error (.system .busy path)
  | some ['.'] => .error (.system .invalid path)
  | some ['.', '.'] => .error (.system .notEmpty path)
  | some step =>
    match fs.lookupIn dir step with
    | .error e => .error (.system e path)
    | .ok (name, node) =>
      if node.body ≠ .directory then .error (.system .notDirectory path)
      else if !(fs.entries (name :: dir)).isEmpty then .error (.system .notEmpty path)
      else .ok (fs.takeOut now name dir)

/-- Removes the node a path names, unless it is a directory. -/
def removeFile (fs : FileSystem) (cwd : Location) (now : Stamp) (path : Text) :
    Except Fault FileSystem := do
  let (dir, last) ← fs.locateParent cwd path
  match last with
  | none | some ['.'] | some ['.', '.'] => .error (.system .isDirectory path)
  | some step =>
    match fs.lookupIn dir step with
    | .error e => .error (.system e path)
    | .ok (name, node) =>
      if node.body = .directory then .error (.system .isDirectory path)
      else if endsWith path '/' then .error (.system .notDirectory path)
      else .ok (fs.takeOut now name dir)

end FileSearch.FileSystem
