import FileSearch.FileSystem.Requests
import FileSearch.Proofs.Path.Segments

/-!
Where paths lead. The walk of a path goes through every link but one at the very end, so that what
stands before the last step counts as followed.
Main statements: a joined path names what stands under its name in the directory that the path leads
to, a path that names a directory leads to it, and these are the places where requests look.
-/

namespace FileSearch.FileSystem

variable {fs : FileSystem} {cwd : Location} {path : Text} {n : Name} {l dir : Location}

/-- Links followed, the path leads to a directory that stands at the location. -/
def LeadsTo (fs : FileSystem) (cwd : Location) (path : Text) (l : Location) : Prop :=
  fs.locate cwd true path = .ok l ∧ (fs.nodeAt l).body = .directory

/-- The path names a directory, and not a link to one. -/
def IsRealDirectory (fs : FileSystem) (cwd : Location) (path : Text) : Prop :=
  ∃ l, fs.locate cwd false path = .ok l ∧ (fs.nodeAt l).body = .directory

theorem isRealDirectory_iff :
    fs.IsRealDirectory cwd path ↔
      (match fs.locate cwd false path with
        | .ok l => decide ((fs.nodeAt l).body = .directory)
        | .error _ => false) = true := by
  unfold IsRealDirectory
  cases fs.locate cwd false path <;> simp

instance : Decidable (fs.IsRealDirectory cwd path) := decidable_of_iff _ isRealDirectory_iff.symm

/-- What a name finds in a directory. -/
def findName (fs : FileSystem) (dir : Location) (n : Name) : Except Errno Location :=
  if (fs.nodeAt dir).body ≠ .directory then .error .notDirectory
  else if (fs.get? (n :: dir)).isNone then .error .noEntry
  else .ok (n :: dir)

theorem findName_eq_ok_iff :
    fs.findName dir n = .ok l ↔
      (fs.nodeAt dir).body = .directory ∧ (fs.get? (n :: dir)).isSome ∧ l = n :: dir := by
  unfold findName
  split
  · simp_all
  · split
    · simp_all
    · rename_i hd hn
      rw [Except.ok.injEq, eq_comm, Option.isSome_iff_ne_none]
      simp_all

theorem nodeAt_of_get? {node : Node} (h : fs.get? l = some node) : fs.nodeAt l = node := by
  simp [nodeAt, h]

/-- What holds entries is a directory. -/
theorem nodeAt_directory_of_isSome (h : (fs.get? (n :: dir)).isSome) :
    (fs.nodeAt dir).body = .directory := by
  obtain ⟨node, hnode⟩ := Option.isSome_iff_exists.1 h
  exact nodeAt_of_isDirectory (isDirectory_of_get? hnode)

/-! ### Walks in two parts -/

/-- The last part of a walk starts where the first part ends, every link followed, or waits behind
the link that the first part has to follow. -/
theorem walkTo_append (fs : FileSystem) (followLast : Bool) (here : Location) (way : List Text)
    {tail : List Text} (htail : tail ≠ []) :
    fs.walkTo followLast here (way ++ tail) =
      match fs.walkTo true here way with
      | .error e => .error e
      | .ok (.reached l) => fs.walkTo followLast l tail
      | .ok (.atLink target dir rest) => .ok (.atLink target dir (rest ++ tail)) := by
  induction way generalizing here with
  | nil => simp [walkTo]
  | cons step rest ih =>
    rw [List.cons_append, walkTo_cons, walkTo_cons fs true]
    split
    · rfl
    · split
      · exact ih here
      · split
        · exact ih here.tail
        · split
          · rfl
          · rename_i name _
            split
            · rfl
            · simp [htail]
            · exact ih (name :: here)

/-- The same for walks through links, if the links that are left do not matter for the last part. -/
theorem walkThrough_append {followLast : Bool} {tail : List Text} (htail : tail ≠ [])
    {last : Location → Except Errno Location}
    (hlast : ∀ links l, fs.walkThrough followLast links l tail = last l) (links : Nat)
    (here : Location) (way : List Text) :
    fs.walkThrough followLast links here (way ++ tail) =
      (fs.walkThrough true links here way).bind last := by
  induction links generalizing here way with
  | zero =>
    rw [walkThrough, walkThrough, walkTo_append fs followLast here way htail]
    cases fs.walkTo true here way with
    | error e => rfl
    | ok a =>
      cases a with
      | reached l =>
        change _ = last l
        rw [← hlast 0 l, walkThrough]
      | atLink target dir rest => rfl
  | succ links ih =>
    rw [walkThrough, walkThrough, walkTo_append fs followLast here way htail]
    cases fs.walkTo true here way with
    | error e => rfl
    | ok a =>
      cases a with
      | reached l =>
        change _ = last l
        rw [← hlast (links + 1) l, walkThrough]
      | atLink target dir rest =>
        simp only
        split
        · rfl
        · rw [← List.append_assoc, ih]

theorem walkTo_name (fs : FileSystem) (n : Name) (l : Location) :
    fs.walkTo false l [n.text] = (fs.findName l n).map Arrival.reached := by
  rw [walkTo_cons, findName]
  simp only [n.ne_dot, n.ne_dotDot, if_false, Name.ofText?_text]
  split
  · rfl
  · cases hn : fs.get? (n :: l) with
    | none => rfl
    | some node =>
      obtain ⟨body, modified⟩ := node
      cases body <;> rfl

theorem walkThrough_name (fs : FileSystem) (n : Name) (links : Nat) (l : Location) :
    fs.walkThrough false links l [n.text] = fs.findName l n := by
  rw [walkThrough, walkTo_name]
  cases fs.findName l n <;> rfl

theorem walkThrough_stay (fs : FileSystem) (followLast : Bool) (links : Nat) (l : Location) :
    fs.walkThrough followLast links l [['.']] =
      if (fs.nodeAt l).body ≠ .directory then .error .notDirectory else .ok l := by
  have hw : fs.walkTo followLast l [['.']] =
      if (fs.nodeAt l).body ≠ .directory then .error .notDirectory else .ok (.reached l) := by
    rw [walkTo_cons, if_pos rfl, walkTo]
  rw [walkThrough, hw]
  by_cases hd : (fs.nodeAt l).body = .directory
  · simp [hd]
  · simp [hd]

/-! ### Directories -/

/-- A final slash makes no difference to what leads to a directory. -/
theorem leadsTo_iff :
    fs.LeadsTo cwd path l ↔ checkPath path = .ok () ∧
      fs.locateSteps (startOf cwd path) (components path) = .ok l ∧
        (fs.nodeAt l).body = .directory := by
  have hsteps : (fs.walkThrough true maxLinks (startOf cwd path) (steps path) = .ok l ∧
      (fs.nodeAt l).body = .directory) ↔
      (fs.locateSteps (startOf cwd path) (components path) = .ok l ∧
        (fs.nodeAt l).body = .directory) := by
    rw [steps_eq, locateSteps]
    split
    · rw [walkThrough_append (List.cons_ne_nil _ _) (walkThrough_stay fs true)]
      cases fs.walkThrough true maxLinks (startOf cwd path) (components path) with
      | error e => simp [Except.bind]
      | ok l' =>
        simp only [Except.bind, Except.ok.injEq]
        constructor
        · rintro ⟨h, hd⟩
          split at h <;> cases h
          exact ⟨rfl, hd⟩
        · rintro ⟨rfl, hd⟩
          exact ⟨if_neg (by simpa using hd), hd⟩
    · rw [List.append_nil]
  rw [LeadsTo, ← hsteps, locate]
  cases checkPath path with
  | error e => simp [bind, Except.bind]
  | ok u =>
    simp only [bind, Except.bind, true_and]
    cases fs.walkThrough true maxLinks (startOf cwd path) (steps path) <;> simp

theorem leadsTo_unique {l' : Location} (h : fs.LeadsTo cwd path l) (h' : fs.LeadsTo cwd path l') :
    l = l' := Except.ok.inj (h.1.symm.trans h'.1)

theorem list_eq_ok_iff {entries : List (Name × Node)} :
    fs.list cwd path = .ok entries ↔ ∃ l, fs.LeadsTo cwd path l ∧ entries = fs.entries l := by
  unfold list LeadsTo
  cases fs.locate cwd true path with
  | error e => simp [bind, Except.bind]
  | ok l' =>
    simp only [bind, Except.bind, Except.ok.injEq]
    constructor
    · intro h
      split at h <;> cases h
      exact ⟨l', ⟨rfl, ‹_›⟩, rfl⟩
    · rintro ⟨l, ⟨rfl, hd⟩, rfl⟩
      rw [if_pos hd]

/-- A walk that does not follow a link at its end does not care about the end if that is no link. -/
theorem walkTo_true_of_false {here : Location} {way : List Text} {a : Arrival}
    (h : fs.walkTo false here way = .ok a)
    (hlink : ∀ l, a = .reached l → (fs.nodeAt l).body.kind ≠ some .symlink) :
    fs.walkTo true here way = .ok a := by
  induction way generalizing here with
  | nil => simpa [walkTo] using h
  | cons step rest ih =>
    rw [walkTo_cons] at h ⊢
    split at h
    · cases h
    rw [if_neg ‹_›]
    split at h
    · rw [if_pos ‹_›]
      exact ih h
    rw [if_neg ‹_›]
    split at h
    · rw [if_pos ‹_›]
      exact ih h
    rw [if_neg ‹_›]
    cases hname : Name.ofText? step with
    | none => simp [hname] at h
    | some name =>
      simp only [hname] at h ⊢
      cases hn : fs.get? (name :: here) with
      | none => simp [hn] at h
      | some node =>
        obtain ⟨body, modified⟩ := node
        cases body with
        | symlink target =>
          simp only [hn] at h ⊢
          split at h
          · cases h
            exact absurd (by simp [nodeAt_of_get? hn, Body.kind]) (hlink _ rfl)
          · cases h
            simp
        | file | directory | special =>
          simp only [hn] at h ⊢
          exact ih h

theorem walkThrough_true_of_false {links : Nat} {here : Location} {way : List Text}
    (h : fs.walkThrough false links here way = .ok l)
    (hlink : (fs.nodeAt l).body.kind ≠ some .symlink) :
    fs.walkThrough true links here way = .ok l := by
  induction links generalizing here way with
  | zero =>
    rw [walkThrough] at h ⊢
    split at h
    · cases h
    · rename_i l' hw
      cases h
      rw [walkTo_true_of_false hw (by rintro _ ⟨⟩; exact hlink)]
    · cases h
  | succ links ih =>
    rw [walkThrough] at h ⊢
    split at h
    · cases h
    · rename_i l' hw
      cases h
      rw [walkTo_true_of_false hw (by rintro _ ⟨⟩; exact hlink)]
    · rename_i target dir rest hw
      rw [walkTo_true_of_false hw nofun]
      simp only at h ⊢
      split at h
      · cases h
      · rw [if_neg ‹_›]
        exact ih h

/-- A path that names something other than a link leads to it. -/
theorem locate_true_of_false (h : fs.locate cwd false path = .ok l)
    (hlink : (fs.nodeAt l).body.kind ≠ some .symlink) : fs.locate cwd true path = .ok l := by
  unfold locate at h ⊢
  cases hc : checkPath path with
  | error e => simp [hc, bind, Except.bind] at h
  | ok u =>
    simp only [hc, bind, Except.bind] at h ⊢
    split at h
    · cases h
    · rename_i l' hw
      cases h
      rw [walkThrough_true_of_false hw hlink]

/-- A path that names a directory leads to it. -/
theorem leadsTo_of_locate (h : fs.locate cwd false path = .ok l)
    (hd : (fs.nodeAt l).body = .directory) : fs.LeadsTo cwd path l :=
  ⟨locate_true_of_false h (by simp [hd, Body.kind]), hd⟩

/-- What is found can be asked for. -/
theorem checkPath_of_locate {followLast : Bool} (h : fs.locate cwd followLast path = .ok l) :
    checkPath path = .ok () := by
  unfold locate at h
  cases hc : checkPath path with
  | ok u => rfl
  | error e => simp [hc, bind, Except.bind] at h

/-! ### Joined paths -/

/-- A joined path names what stands under the name in the directory that the path leads to. -/
theorem locate_joinPath_eq_ok_iff (hpath : path ≠ []) :
    fs.locate cwd false (joinPath path n.text) = .ok l ↔
      checkPath (joinPath path n.text) = .ok () ∧
        ∃ dir, fs.LeadsTo cwd path dir ∧ (fs.get? (n :: dir)).isSome ∧ l = n :: dir := by
  have hwalk : fs.walkThrough false maxLinks (startOf cwd (joinPath path n.text))
      (steps (joinPath path n.text)) =
      (fs.locateSteps (startOf cwd path) (components path)).bind (fs.findName · n) := by
    rw [startOf_joinPath hpath, steps_joinPath,
      walkThrough_append (List.cons_ne_nil _ _) (walkThrough_name fs n), locateSteps]
  have hok : (fs.locateSteps (startOf cwd path) (components path)).bind (fs.findName · n) = .ok l ↔
      ∃ dir, fs.locateSteps (startOf cwd path) (components path) = .ok dir ∧
        fs.findName dir n = .ok l := by
    cases fs.locateSteps (startOf cwd path) (components path) <;> simp [Except.bind]
  constructor
  · intro h
    unfold locate at h
    cases hc : checkPath (joinPath path n.text) with
    | error e => simp [hc, bind, Except.bind] at h
    | ok u =>
      simp only [hc, bind, Except.bind, hwalk] at h
      split at h
      · cases h
      · rename_i l' hl
        cases h
        obtain ⟨dir, hdir, hfind⟩ := hok.1 hl
        obtain ⟨hd, hs, rfl⟩ := findName_eq_ok_iff.1 hfind
        exact ⟨rfl, dir, leadsTo_iff.2 ⟨checkPath_of_joinPath hpath hc, hdir, hd⟩, hs, rfl⟩
  · rintro ⟨hc, dir, hlead, hs, rfl⟩
    obtain ⟨-, hdir, hd⟩ := leadsTo_iff.1 hlead
    have hfind := hok.2 ⟨dir, hdir, findName_eq_ok_iff.2 ⟨hd, hs, rfl⟩⟩
    unfold locate
    simp only [hc, bind, Except.bind, hwalk]
    simp only [Except.bind] at hfind
    rw [hfind]

/-- The directory that holds what a joined path names is the one that the path leads to. -/
theorem locateParent_joinPath_eq_ok_iff (hpath : path ≠ []) {last : Option Text} :
    fs.locateParent cwd (joinPath path n.text) = .ok (dir, last) ↔
      checkPath (joinPath path n.text) = .ok () ∧ fs.LeadsTo cwd path dir ∧ last = some n.text := by
  have hcomp : (segments (joinPath path n.text)).filter (!·.isEmpty) =
      components path ++ [n.text] := components_joinPath path n
  unfold locateParent
  simp only [hcomp, List.dropLast_concat, List.getLast?_concat, startOf_joinPath hpath]
  cases hc : checkPath (joinPath path n.text) with
  | error e => simp [bind, Except.bind]
  | ok u =>
    simp only [bind, Except.bind, leadsTo_iff, checkPath_of_joinPath hpath hc, true_and]
    cases fs.locateSteps (startOf cwd path) (components path) with
    | error e => simp
    | ok d =>
      simp only [Except.ok.injEq]
      by_cases hd : (fs.nodeAt d).body = .directory
      · rw [if_pos hd]
        simp only [Except.ok.injEq, Prod.mk.injEq]
        constructor
        · rintro ⟨rfl, rfl⟩
          exact ⟨⟨rfl, hd⟩, rfl⟩
        · rintro ⟨⟨rfl, -⟩, rfl⟩
          exact ⟨rfl, rfl⟩
      · rw [if_neg hd]
        constructor
        · rintro ⟨⟩
        · rintro ⟨⟨rfl, h⟩, -⟩
          exact absurd h hd

end FileSearch.FileSystem
