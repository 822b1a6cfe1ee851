import FileSearch.Age
import FileSearch.Entry
import FileSearch.Fault
import FileSearch.Glob.Parse

/-!
Whether a query holds for an entry. The conditions are checked in a fixed order (depth, kind, name,
path, emptiness, size, age), the first that fails ends the check, and nothing is looked up or parsed
for a condition that is absent or not reached.
-/

namespace FileSearch

/-- What the file system says of an entry: its size and when it was last modified. -/
structure Status where
  size : Int
  modified : Float

/-- What a look at an entry would answer, if it is taken. -/
structure Probe where
  status : Unit → Except Fault Status
  /-- whether the entry is a directory without entries -/
  vacant : Unit → Except Fault Bool

/-- Whether a name matches a glob in full. -/
def globHolds (pattern name : Text) : Except Fault Bool :=
  match globMatch? pattern name with
  | none => .error (.pattern pattern)
  | some b => .ok b

namespace Query

def nameHolds (q : Query) (name : Text) : Except Fault Bool :=
  match q.namePattern with
  | none => .ok true
  | some pattern =>
    if q.ignoreCase then globHolds (lowerCase pattern) (lowerCase name) else globHolds pattern name

def pathHolds (q : Query) (display : Text) : Except Fault Bool :=
  match q.pathPattern with
  | none => .ok true
  | some pattern => globHolds pattern display

/-- A directory is empty without entries, anything else with size zero. -/
def emptyHolds (q : Query) (kind : Option Kind) (probe : Probe) : Except Fault Bool :=
  if !q.emptyOnly then .ok true
  else if kind = some .directory then probe.vacant ()
  else (probe.status ()).map (·.size = 0)

def sizeHolds (q : Query) (status : Status) : Bool := q.size.all (·.test status.size)

def ageHolds (q : Query) (now : Float) (status : Status) : Except Fault Bool :=
  match q.age with
  | none => .ok true
  | some c =>
    match ageInDays status.modified now with
    | none => .error .noAge
    | some days => .ok (c.test days)

/-- Size and age share one look at the entry. -/
def statusHolds (q : Query) (now : Float) (probe : Probe) : Except Fault Bool :=
  if q.size.isNone && q.age.isNone then .ok true
  else do
    let status ← probe.status ()
    if q.sizeHolds status then q.ageHolds now status else .ok false

/-- The conditions that depend on the entry's depth and kind alone. -/
def shapeHolds (q : Query) (depth : Int) (kind : Option Kind) : Bool :=
  q.minDepth.all (fun least => least ≤ depth) && q.kind.all (fun k => kind = some k)

/-- Whether all conditions hold. -/
def holds (q : Query) (e : Entry) (probe : Probe) (now : Float) (depth : Int) : Except Fault Bool :=
  if !q.shapeHolds depth e.kind then .ok false
  else do
    if !(← q.nameHolds e.name) then return false
    if !(← q.pathHolds e.display) then return false
    if !(← q.emptyHolds e.kind probe) then return false
    q.statusHolds now probe

end Query

end FileSearch
