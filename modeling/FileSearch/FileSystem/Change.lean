import FileSearch.FileSystem.Requests

/-!
Changes to a file system: placing a node at a path, the directories on the way to it included, and
removing what a path names with all that is below it. A change that cannot be made is left out.
This is how a file system is built, and how others change it during a search.
-/

namespace FileSearch

inductive Change where
  | add (path : Text) (node : Node)
  | remove (path : Text)
  deriving DecidableEq, Repr

/-- Where changes are made and which times they leave. -/
structure ChangeSite where
  /-- the directory that paths start from -/
  base : Location
  /-- when a directory was made that no change names -/
  implied : Stamp
  /-- when a directory is modified that gains or loses an entry; no trace is left if absent -/
  stamp : Option Stamp

namespace ChangeSite

/-- Marks a directory as changed. -/
def mark (site : ChangeSite) (fs : FileSystem) (dir : Location) : FileSystem :=
  match site.stamp with
  | none => fs
  | some stamp => fs.touch dir stamp

/-- Goes down the steps and makes the directories that are missing. -/
def makeWay (site : ChangeSite) : FileSystem → Location → List Text → FileSystem × Location
  | fs, here, [] => (fs, here)
  | fs, here, step :: rest =>
    match fs.locateSteps here [step], Name.ofText? step with
    | .ok l, _ => makeWay site fs l rest
    | .error _, some name =>
      let fs := site.mark (fs.put name here ⟨.directory, site.implied⟩) here
      makeWay site fs (name :: here) rest
    | .error _, none => (fs, here)

/-- Makes a change. -/
def apply (site : ChangeSite) (fs : FileSystem) : Change → FileSystem
  | .add path node =>
    let way := (segments path).filter (!·.isEmpty)
    let (fs, dir) := site.makeWay fs site.base way.dropLast
    match way.getLast?.bind Name.ofText? with
    | none => fs
    | some name =>
      match fs.get? (name :: dir) with
      | none => site.mark (fs.put name dir node) dir
      | some _ => fs.put name dir node
  | .remove path =>
    match fs.locate site.base false path with
    | .error _ => fs
    | .ok l => site.mark (fs.remove l) l.tail

def applyAll (site : ChangeSite) (fs : FileSystem) (changes : List Change) : FileSystem :=
  changes.foldl site.apply fs

end ChangeSite

/-- Changes that are made as soon as a text is written. -/
structure Reaction where
  trigger : Text
  changes : List Change

/-- What others do who react to the texts that are written. -/
def reactTo (site : ChangeSite) (reactions : List Reaction) (_index : Nat) (text : Text)
    (fs : FileSystem) : FileSystem :=
  reactions.foldl (fun fs r => if r.trigger = text then site.applyAll fs r.changes else fs) fs

end FileSearch
