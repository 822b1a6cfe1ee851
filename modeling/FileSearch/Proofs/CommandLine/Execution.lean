import FileSearch.CommandLine.Run
import FileSearch.Proofs.Search.Failure
import Mathlib.Data.List.TakeWhile

/-!
What the command line makes of its search. Unless it is called without arguments or its options ask
for something else, its report tells how the search of the roots ended.
Main statements: the report of the command line is that of its search, it leaves the world of its
search, and an expression that does not compile is refused before anything is looked at.
-/

namespace FileSearch.CommandLine

variable {s : Setting} {options : Options} {args tokens : List Text} {w v : World} {n : Nat}
  {f : Fault}

/-- What is reported of a search. -/
def reportOf (options : Options) : EStateM.Result Fault World Nat → Report
  | .ok _ w => { ending := .finished 0, errors := logText options w, world := w }
  | .error f w => afterFault (logText options w) f w

theorem execute_eq (hargs : args ≠ [])
    (hread : Options.read (Arguments.ofList args).options = .ok (.search options)) :
    execute s args w = reportOf options
      (search s options (Arguments.ofList args).paths (Arguments.ofList args).expression w) := by
  simp only [execute, List.isEmpty_eq_false_iff.2 hargs, Bool.false_eq_true, if_false, hread]
  rfl

@[simp] theorem world_afterFault (errors : Text) (f : Fault) (w : World) :
    (afterFault errors f w).world = w := by
  unfold afterFault
  split
  · rfl
  · split <;> rfl

@[simp] theorem world_reportOf (options : Options) (r : EStateM.Result Fault World Nat) :
    (reportOf options r).world = Search.worldAfter r := by
  cases r with
  | ok n w => rfl
  | error f w => exact world_afterFault _ f w

/-! ### Searches -/

/-- The source of filters that the options ask for. -/
def sourceOf (s : Setting) (options : Options) : Option FilterSource :=
  if options.gitignore then some (IgnoreFile.source s.ignoring s.cwd) else none

/-- The roots of a search: the paths, or else the current directory. -/
def rootsOf (paths : List Text) : List Text := if paths.isEmpty then [['.']] else paths

section Roots

variable {q : Query} {source : Option FilterSource} {roots before after : List Text} {root : Text}

/-- Roots whose paths have bytes are searched one after the other. -/
theorem searchRoots_of_encoded (h : ∀ root ∈ roots, s.paths.encodes root = true) :
    searchRoots s q source roots = find s q source roots := by
  simp only [searchRoots, List.takeWhile_eq_self_iff.2 h, List.all_eq_true.2 h, if_true]
  exact bind_pure _

/-- A root whose path has no bytes ends the search of the roots before it. -/
theorem searchRoots_of_unencodable (hbefore : ∀ root ∈ before, s.paths.encodes root = true)
    (hroot : s.paths.encodes root = false) :
    searchRoots s q source (before ++ root :: after) =
      find s q source before >>= fun _ => throw .unencodable := by
  have hknown : (before ++ root :: after).takeWhile s.paths.encodes = before := by
    rw [List.takeWhile_append_of_pos hbefore, List.takeWhile_cons_of_neg (by simp [hroot]),
      List.append_nil]
  have hall : (before ++ root :: after).all s.paths.encodes = false := by simp [hroot]
  simp only [searchRoots, hknown, hall, Bool.false_eq_true, if_false]

/-- What ends the search of a root ends the search of all roots. -/
theorem searchRoots_of_findRoot_error {u : World}
    (hbefore : ∀ root ∈ before, s.paths.encodes root = true) (hroot : s.paths.encodes root = true)
    (hfind : find s q source before w = .ok n v)
    (herror : findRoot s q source root v = .error f u) :
    searchRoots s q source (before ++ root :: after) w = .error f u := by
  have hknown : (before ++ root :: after).takeWhile s.paths.encodes =
      before ++ root :: after.takeWhile s.paths.encodes := by
    rw [List.takeWhile_append_of_pos hbefore, List.takeWhile_cons_of_pos hroot]
  rw [searchRoots, hknown]
  exact Search.bind_error (find_of_error hfind herror)

/-- The search fails at a root whose path has bytes, as all before it, or at the first without. -/
theorem searchRoots_error_inv (h : searchRoots s q source roots w = .error f v) :
    (∃ known unknown, roots = known ++ unknown ∧ (∀ root ∈ known, s.paths.encodes root = true) ∧
      find s q source known w = .error f v) ∨
    ∃ before root after n, roots = before ++ root :: after ∧
      (∀ root ∈ before, s.paths.encodes root = true) ∧ s.paths.encodes root = false ∧
        find s q source before w = .ok n v ∧ f = .unencodable := by
  have hsplit := (List.takeWhile_append_dropWhile (p := s.paths.encodes) (l := roots)).symm
  have hknown : ∀ root ∈ roots.takeWhile s.paths.encodes, s.paths.encodes root = true :=
    List.all_eq_true.1 List.all_takeWhile
  rw [searchRoots] at h
  cases hfind : find s q source (roots.takeWhile s.paths.encodes) w with
  | error g u =>
    rw [Search.bind_error hfind] at h
    cases h
    exact .inl ⟨_, _, hsplit, hknown, hfind⟩
  | ok n u =>
    rw [Search.bind_ok hfind] at h
    cases hall : roots.all s.paths.encodes with
    | true =>
      rw [hall] at h
      cases h
    | false =>
      rw [hall] at h
      cases h
      cases hunknown : roots.dropWhile s.paths.encodes with
      | nil =>
        rw [List.all_eq_true.2 (List.dropWhile_eq_nil_iff.1 hunknown)] at hall
        cases hall
      | cons root after =>
        have hfirst := List.head?_dropWhile_not s.paths.encodes roots
        rw [hunknown] at hfirst hsplit
        exact .inr ⟨_, root, after, n, hsplit, hknown, by simpa using hfirst, hfind, rfl⟩

end Roots

theorem search_of_compile {q : Query} (h : compile tokens = .ok q) (options : Options)
    (paths : List Text) :
    search s options paths tokens = searchRoots s q (sourceOf s options) (rootsOf paths) := by
  funext w
  rw [search, h]
  exact Search.ofExcept_bind_ok rfl

/-- An expression that does not compile is refused before anything is looked at. -/
theorem search_of_compile_error {reason : CompileError} (h : compile tokens = .error reason)
    (options : Options) (paths : List Text) (w : World) :
    search s options paths tokens w = .error (.expression reason) w := by
  rw [search, h]
  exact Search.ofExcept_bind_error rfl

end FileSearch.CommandLine
