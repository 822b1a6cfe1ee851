import FileSearch.Search.Delete

/-!
With which faults requests fail. A request for a path is refused by the file system, and the refusal
names the path, or the path holds a NUL, so that the request is never made.
Main statements: without a NUL in the path, every request of a search fails with a refusal only.
-/

namespace FileSearch

/-- Whatever fault it fails with, the fault is as told. -/
def FailsWith {α : Type} (p : Fault → Prop) (x : Except Fault α) : Prop := ∀ f, x = .error f → p f

/-- The file system refuses a request for the path. -/
def IsRefusal (path : Text) (f : Fault) : Prop := ∃ reason, f = .system reason path

namespace FailsWith

variable {α β : Type} {p : Fault → Prop} {x : Except Fault α} {g : α → Except Fault β}

theorem ok (a : α) : FailsWith p (.ok a) := nofun

theorem error {f : Fault} (h : p f) : FailsWith p (.error f : Except Fault α) := by
  rintro _ ⟨⟩
  exact h

theorem mono {p' : Fault → Prop} (h : FailsWith p x) (hp : ∀ f, p f → p' f) : FailsWith p' x :=
  fun f hf => hp f (h f hf)

theorem bind (hx : FailsWith p x) (hg : ∀ a, x = .ok a → FailsWith p (g a)) :
    FailsWith p (x >>= g) := by
  cases x with
  | ok a => exact hg a rfl
  | error f => exact .error (hx f rfl)

theorem map (hx : FailsWith p x) (h : α → β) : FailsWith p (x.map h) := by
  cases x with
  | ok a => exact .ok (h a)
  | error f => exact .error (hx f rfl)

end FailsWith

namespace FileSystem

variable {fs : FileSystem} {cwd : Location} {path : Text}

theorem refusal {α : Type} (reason : Errno) :
    FailsWith (IsRefusal path) (.error (.system reason path) : Except Fault α) :=
  .error ⟨reason, rfl⟩

theorem failsWith_checkPath (hnul : '\x00' ∉ path) :
    FailsWith (IsRefusal path) (checkPath path) := by
  unfold checkPath
  rw [if_neg (by simpa using hnul)]
  split
  · exact refusal .noEntry
  · split
    · exact refusal .nameTooLong
    · exact .ok ()

theorem failsWith_locate (fs : FileSystem) (cwd : Location) (followLast : Bool)
    (hnul : '\x00' ∉ path) : FailsWith (IsRefusal path) (fs.locate cwd followLast path) := by
  refine (failsWith_checkPath hnul).bind fun _ _ => ?_
  split
  · exact refusal _
  · exact .ok _

theorem failsWith_status (fs : FileSystem) (cwd : Location) (hnul : '\x00' ∉ path) :
    FailsWith (IsRefusal path) (fs.status cwd path) := (failsWith_locate fs cwd false hnul).map _

theorem failsWith_list (fs : FileSystem) (cwd : Location) (hnul : '\x00' ∉ path) :
    FailsWith (IsRefusal path) (fs.list cwd path) := by
  refine (failsWith_locate fs cwd true hnul).bind fun l _ => ?_
  split
  · exact .ok _
  · exact refusal .notDirectory

theorem failsWith_read (fs : FileSystem) (cwd : Location) (hnul : '\x00' ∉ path) :
    FailsWith (IsRefusal path) (fs.read cwd path) := by
  refine (failsWith_locate fs cwd true hnul).bind fun l _ => ?_
  split
  · exact .ok _
  · exact refusal .isDirectory
  · exact .ok _
  · exact .ok _

theorem failsWith_locateParent (fs : FileSystem) (cwd : Location) (hnul : '\x00' ∉ path) :
    FailsWith (IsRefusal path) (fs.locateParent cwd path) := by
  refine (failsWith_checkPath hnul).bind fun _ _ => ?_
  dsimp only
  split
  · exact refusal _
  · split
    · exact .ok _
    · exact refusal .notDirectory

theorem failsWith_removeDirectory (fs : FileSystem) (cwd : Location) (now : Stamp)
    (hnul : '\x00' ∉ path) : FailsWith (IsRefusal path) (fs.removeDirectory cwd now path) := by
  refine (failsWith_locateParent fs cwd hnul).bind ?_
  rintro ⟨dir, last⟩ -
  dsimp only
  split
  · exact refusal .busy
  · exact refusal .invalid
  · exact refusal .notEmpty
  · split
    · exact refusal _
    · split
      · exact refusal .notDirectory
      · split
        · exact refusal .notEmpty
        · exact .ok _

theorem failsWith_removeFile (fs : FileSystem) (cwd : Location) (now : Stamp)
    (hnul : '\x00' ∉ path) : FailsWith (IsRefusal path) (fs.removeFile cwd now path) := by
  refine (failsWith_locateParent fs cwd hnul).bind ?_
  rintro ⟨dir, last⟩ -
  dsimp only
  split
  · exact refusal .isDirectory
  · exact refusal .isDirectory
  · exact refusal .isDirectory
  · split
    · exact refusal _
    · split
      · exact refusal .isDirectory
      · split
        · exact refusal .notDirectory
        · exact .ok _

theorem failsWith_removeNode (s : Setting) (fs : FileSystem) (hnul : '\x00' ∉ path) :
    FailsWith (IsRefusal path) (Delete.removeNode s fs path) := by
  unfold Delete.removeNode
  split
  · exact failsWith_removeDirectory fs s.cwd s.stamp hnul
  · exact failsWith_removeFile fs s.cwd s.stamp hnul

end FileSystem

end FileSearch
