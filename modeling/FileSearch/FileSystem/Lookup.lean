import FileSearch.Fault
import FileSearch.FileSystem.Basic

/-!
Finding the node a path names. A path is walked step by step, from the top if it starts with a
slash and else from the current directory. Symbolic links on the way are followed, at most forty
of them; a link at the very end is followed only on request. A path that ends in a slash names a
directory.
Main statements: a way of plain names leads to the location they spell, and taking a shortcut
there changes nothing.
-/

namespace FileSearch

/-- The length in bytes from which a path is refused. -/
def maxPathBytes : Nat := 4096

/-- How many symbolic links one path may lead through. -/
def maxLinks : Nat := 40

/-- The steps of a path: its segments that are not empty, and a stay in place for a final slash. -/
def steps (path : Text) : List Text :=
  (segments path).filter (!·.isEmpty) ++ if endsWith path '/' then [['.']] else []

/-- Where the walk of a path starts. -/
def startOf (dir : Location) : Text → Location
  | '/' :: _ => []
  | _ => dir

namespace FileSystem

/-- The node at a location that was reached. A directory that was removed while it was the current
one can still be reached: it is a directory without entries. -/
def nodeAt (fs : FileSystem) (l : Location) : Node := (fs.get? l).getD ⟨.directory, ⟨0, 0⟩⟩

/-- How far a walk comes: to its end, or to a link that has to be followed first. -/
inductive Arrival where
  | reached (l : Location)
  | atLink (target : Text) (dir : Location) (rest : List Text)
  deriving DecidableEq

/-- The end of a way of plain names, if it exists and is no link to follow. What lies on such a way
are directories, so that nothing on it has to be looked at. -/
def shortcut? (fs : FileSystem) (followLast : Bool) (here : Location) (way : List Text) :
    Option Location :=
  match way.mapM Name.ofText? with
  | none => none
  | some names =>
    match fs.get? (names.reverse ++ here) with
    | none => none
    | some node =>
      if followLast && node.body.kind = some .symlink then none else some (names.reverse ++ here)

/-- Walks from a location until the end or the next link to follow. -/
def walkTo (fs : FileSystem) (followLast : Bool) : Location → List Text → Except Errno Arrival
  | here, [] => .ok (.reached here)
  | here, step :: rest =>
    match fs.shortcut? followLast here (step :: rest) with
    | some l => .ok (.reached l)
    | none =>
      if (fs.nodeAt here).body ≠ .directory then .error .notDirectory
      else if step = ['.'] then walkTo fs followLast here rest
      else if step = ['.', '.'] then walkTo fs followLast here.tail rest
      else
        match Name.ofText? step with
        | none => .error .nameTooLong
        | some name =>
          match fs.get? (name :: here) with
          | none => .error .noEntry
          | some ⟨.symlink target, _⟩ =>
            if rest.isEmpty && !followLast then .ok (.reached (name :: here))
            else .ok (.atLink target here rest)
          | some _ => walkTo fs followLast (name :: here) rest

/-- Walks to the end, through at most the given number of links. -/
def walkThrough (fs : FileSystem) (followLast : Bool) :
    Nat → Location → List Text → Except Errno Location
  | links, here, path =>
    match fs.walkTo followLast here path with
    | .error e => .error e
    | .ok (.reached l) => .ok l
    | .ok (.atLink target dir rest) =>
      match links with
      | 0 => .error .tooManyLinks
      | links + 1 =>
        if target.isEmpty then .error .noEntry
        else walkThrough fs followLast links (startOf dir target) (steps target ++ rest)

/-- The location of a list of steps, every link followed. -/
def locateSteps (fs : FileSystem) (here : Location) (path : List Text) : Except Errno Location :=
  fs.walkThrough true maxLinks here path

/-- Refuses the paths that no request can be made for. -/
def checkPath (path : Text) : Except Fault Unit :=
  if path.contains '\x00' then .error .nulInPath
  else if path.isEmpty then .error (.system .noEntry path)
  else if maxPathBytes ≤ byteLength path then .error (.system .nameTooLong path)
  else .ok ()

/-- The location a path names, seen from the current directory. -/
def locate (fs : FileSystem) (cwd : Location) (followLast : Bool) (path : Text) :
    Except Fault Location := do
  checkPath path
  match fs.walkThrough followLast maxLinks (startOf cwd path) (steps path) with
  | .error e => .error (.system e path)
  | .ok l => .ok l

/-! ### Plain names -/

/-- Every location above one that exists is a directory. -/
theorem isDirectory_of_get?_append {fs : FileSystem} {names : List Name} {here : Location}
    (hn : names ≠ []) (h : (fs.get? (names ++ here)).isSome) : fs.isDirectory here := by
  induction names with
  | nil => exact absurd rfl hn
  | cons m ms ih =>
    obtain ⟨x, hx⟩ := Option.isSome_iff_exists.1 h
    have hd := isDirectory_of_get? hx
    by_cases hms : ms = []
    · simpa [hms] using hd
    · obtain ⟨y, hy, -⟩ := isDirectory_iff.1 hd
      exact ih hms (Option.isSome_iff_exists.2 ⟨y, hy⟩)

theorem nodeAt_of_isDirectory {fs : FileSystem} {l : Location} (h : fs.isDirectory l) :
    (fs.nodeAt l).body = .directory := by
  obtain ⟨x, hx, hd⟩ := isDirectory_iff.1 h
  simp [nodeAt, hx, hd]

theorem mapM_ofText? (names : List Name) :
    (names.map Name.text).mapM Name.ofText? = some names := by
  induction names with
  | nil => rfl
  | cons n ns ih => simp [List.mapM_cons, ih]

theorem eq_map_of_mapM_ofText? {way : List Text} {names : List Name}
    (h : way.mapM Name.ofText? = some names) : way = names.map Name.text := by
  induction way generalizing names with
  | nil => cases h; rfl
  | cons s r ih =>
    rw [List.mapM_cons] at h
    cases hs : Name.ofText? s with
    | none => simp [hs] at h
    | some n =>
      cases hr : r.mapM Name.ofText? with
      | none => simp [hs, hr] at h
      | some ns =>
        simp only [hs, hr, bind, Option.bind, pure, Option.some.injEq] at h
        subst h
        simp [ih hr, Name.text_of_ofText? hs]

/-- A way of plain names leads to the location they spell, unless a link has to be followed there.
-/
theorem walkTo_plain {fs : FileSystem} {followLast : Bool} {names : List Name} {here : Location}
    {node : Node} (hend : fs.get? (names.reverse ++ here) = some node)
    (hlink : followLast = false ∨ node.body.kind ≠ some .symlink) :
    fs.walkTo followLast here (names.map Name.text) = .ok (.reached (names.reverse ++ here)) := by
  have hs : fs.shortcut? followLast here (names.map Name.text) = some (names.reverse ++ here) := by
    rw [shortcut?, mapM_ofText?]
    simp only [hend]
    rw [if_neg (by rcases hlink with h | h <;> simp [h])]
  cases names with
  | nil => simp [walkTo]
  | cons n ns =>
    rw [List.map_cons] at hs ⊢
    rw [walkTo, hs]

/-- One step of a walk, whether or not there is a shortcut. -/
theorem walkTo_cons (fs : FileSystem) (followLast : Bool) (here : Location) (step : Text)
    (rest : List Text) :
    fs.walkTo followLast here (step :: rest) =
      if (fs.nodeAt here).body ≠ .directory then .error .notDirectory
      else if step = ['.'] then fs.walkTo followLast here rest
      else if step = ['.', '.'] then fs.walkTo followLast here.tail rest
      else
        match Name.ofText? step with
        | none => .error .nameTooLong
        | some name =>
          match fs.get? (name :: here) with
          | none => .error .noEntry
          | some ⟨.symlink target, _⟩ =>
            if rest.isEmpty && !followLast then .ok (.reached (name :: here))
            else .ok (.atLink target here rest)
          | some _ => fs.walkTo followLast (name :: here) rest := by
  cases hs : fs.shortcut? followLast here (step :: rest) with
  | none => rw [walkTo, hs]
  | some l =>
    rw [walkTo, hs]
    unfold shortcut? at hs
    split at hs
    · cases hs
    rename_i names hnames
    split at hs
    · cases hs
    rename_i node hnode
    split at hs
    · cases hs
    rename_i hfollow
    obtain ⟨n, ns, rfl, rfl, rfl⟩ :
        ∃ n ns, names = n :: ns ∧ step = n.text ∧ rest = ns.map Name.text := by
      have := eq_map_of_mapM_ofText? hnames
      cases names with
      | nil => cases this
      | cons n ns =>
        obtain ⟨h1, h2⟩ := List.cons_eq_cons.1 this
        exact ⟨n, ns, rfl, h1, h2⟩
    cases hs
    have hhere : fs.isDirectory here :=
      isDirectory_of_get?_append (by simp) (Option.isSome_iff_exists.2 ⟨node, hnode⟩)
    have hnode' : fs.get? (ns.reverse ++ n :: here) = some node := by simpa using hnode
    have hlink : followLast = false ∨ node.body.kind ≠ some .symlink := by
      cases followLast <;> simp_all
    simp only [nodeAt_of_isDirectory hhere, ne_eq, not_true, if_false, Name.ne_dot, Name.ne_dotDot,
      Name.ofText?_text]
    by_cases hns : ns = []
    · subst hns
      simp only [List.reverse_nil, List.nil_append] at hnode'
      rw [hnode']
      obtain ⟨body, modified⟩ := node
      cases body with
      | symlink target =>
        rcases hlink with h | h
        · simp [h]
        · exact absurd rfl h
      | _ => simp [walkTo]
    · have hnext : fs.isDirectory (n :: here) :=
        isDirectory_of_get?_append (by simpa using hns) (Option.isSome_iff_exists.2 ⟨node, hnode'⟩)
      obtain ⟨⟨body, modified⟩, hy, rfl⟩ := isDirectory_iff.1 hnext
      rw [hy, walkTo_plain hnode' hlink]
      simp

end FileSystem

end FileSearch
