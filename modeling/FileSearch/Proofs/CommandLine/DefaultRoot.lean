import FileSearch.Proofs.CommandLine.Cut
import FileSearch.Proofs.Deletion.CurrentDirectory

/-!
The command line without paths. It searches the current directory, under the path of a single dot.
Main statement: an expression that deletes removes what it finds below the current directory, if
every directory is found with all its entries. It fails in the end if and only if the current
directory is found as well.
-/

namespace FileSearch

open FileSystem Walk

namespace Arguments

/-- An argument that starts an expression is no option. -/
theorem opensExpression_of_word {token : Text} (h : Word.ofText token ≠ .unknown) :
    ¬ ['-', '-'] <+: token ∧ OpensExpression token := by
  rw [← isLongOption_iff, ← startsExpression_iff]
  cases hword : Word.ofText token with
  | operator o =>
    rw [Word.ofText_eq_operator hword]
    cases o <;> decide
  | switch s =>
    rw [Word.ofText_eq_switch hword]
    cases s <;> decide
  | unknown => exact absurd hword h

/-- An expression that compiles is cut into no options and no paths. -/
theorem ofList_of_compile {tokens : List Text} {q : Query} (h : compile tokens = .ok q) :
    ofList tokens = ⟨[], [], tokens⟩ := by
  have hfirst : ∀ token ∈ tokens.head?, ¬ ['-', '-'] <+: token ∧ OpensExpression token := by
    intro token htoken
    obtain ⟨rest, rfl⟩ := List.head?_eq_some_iff.1 htoken
    refine opensExpression_of_word fun hunknown => ?_
    rw [compile, compileOnto, hunknown] at h
    cases h
  have hends : EndsOptions tokens [] [] tokens :=
    ⟨rfl, .inl rfl, List.forall_mem_nil _, fun _ token htoken => (hfirst token htoken).1⟩
  have hcut : IsCut tokens [] ⟨[], [], tokens⟩ :=
    hends.isCut (List.forall_mem_nil _) fun token htoken => (hfirst token htoken).2
  exact hcut.eq_ofList.symm

end Arguments

namespace CommandLine

variable {s : Setting} {q : Query} {tokens : List Text} {found : List Entry} {w w₁ : World}

/-- Without paths and with nobody else at work, an expression that deletes removes what it finds
below the current directory, and nothing else, if every directory is found with all its entries. If
the current directory itself is found, the command line ends with a failure, because its path
cannot be removed; if not, it ends well. -/
theorem execute_delete_here (hquiet : s.Quiet) (hcompile : compile tokens = .ok q)
    (hdelete : q.delete = true) (hwalk : walk ⟨s, q, none, here⟩ w = .ok found w₁)
    (hlength : ∀ m ∈ found, byteLength m.path < maxPathBytes)
    (hcomplete : ∀ d ∈ found, ¬ IsIncomplete w.files s.cwd found d) :
    ∃ v, Lost s.stamp w.files v.files
        (fun l => l ≠ s.cwd ∧ IsMatched w.files s.cwd found l) ∧
      execute s tokens w =
        if here ∈ found.map Entry.path then {
          ending := .finished 1
          errors := errorLine (Fault.system .invalid here).message
          world := v }
        else { ending := .finished 0, world := v } := by
  obtain ⟨v, hlost, hdeleted⟩ :=
    deleteFound_here (e := ⟨s, q, none, here⟩) hquiet rfl hwalk hlength hcomplete
  refine ⟨v, hlost, ?_⟩
  have hargs : tokens ≠ [] := by
    rintro rfl
    cases hcompile
    cases hdelete
  have hcut := Arguments.ofList_of_compile hcompile
  have hsearch : search s {} [] tokens w =
      if here ∈ found.map Entry.path then .error (.system .invalid here) v
      else .ok found.length v := by
    have hencoded : ∀ root ∈ [here], s.paths.encodes root = true :=
      List.forall_mem_singleton.2 (s.paths.encodes_of_ascii (by simp [here]))
    rw [search_of_compile hcompile]
    change searchRoots s q none [here] w = _
    rw [searchRoots_of_encoded hencoded]
    rw [find_singleton, findRoot_unfiltered, Search.bind_ok hwalk, dispose, hdelete, if_pos rfl]
    by_cases hin : here ∈ found.map Entry.path
    · rw [if_pos hin] at hdeleted ⊢
      exact Search.bind_error hdeleted
    · rw [if_neg hin] at hdeleted ⊢
      exact Search.bind_ok hdeleted
  have hoptions : Options.read (Arguments.ofList tokens).options = .ok (.search {}) := by
    rw [hcut]
    rfl
  rw [execute_eq hargs hoptions, hcut, hsearch]
  split
  · rfl
  · rfl

end CommandLine

/-- A directory with an empty file. -/
def oneFileTree : FileSystem :=
  ChangeSite.applyAll ⟨[], ⟨0, 0⟩, none⟩ (.empty ⟨0, 0⟩) [.add ['f'] ⟨.file {}, ⟨0, 0⟩⟩]

/-- The file is removed, and the command line fails all the same. -/
theorem execute_delete_here_oneFile :
    ∃ v, oneFileTree.get? [⟨['f'], rfl, by decide⟩] ≠ none ∧
      v.files.get? [⟨['f'], rfl, by decide⟩] = none ∧
      CommandLine.execute smallErrand.setting ["-delete".toList] ⟨oneFileTree, [], []⟩ = {
        ending := .finished 1
        errors := "findlite: [Errno 22] Invalid argument: '.'\n".toList
        world := v } := by
  let q : Query := { delete := true, print := false }
  let e : Errand := ⟨smallErrand.setting, q, none, here⟩
  have hroot : oneFileTree.locate [] false here = .ok [] := rfl
  have hwalk : ∃ found w₁, walk e ⟨oneFileTree, [], []⟩ = .ok found w₁ ∧
      found.map Entry.path = [here, ['.', '/', 'f']] := by
    rw [walk_eq_run (e := e) hroot, run_of_turns_done (n := 2) rfl rfl]
    exact ⟨_, _, rfl, rfl⟩
  obtain ⟨found, w₁, hwalk, hpaths⟩ := hwalk
  have hlength : ∀ m ∈ found, byteLength m.path < maxPathBytes := by
    have hall : ∀ path ∈ [here, ['.', '/', 'f']], byteLength path < maxPathBytes := by decide
    intro m hm
    exact hall _ (hpaths ▸ List.mem_map_of_mem hm)
  -- whatever stands there is found
  have hmatched : ∀ l node, oneFileTree.get? l = some node →
      IsMatched oneFileTree [] found l := by
    have hall : ∀ p ∈ oneFileTree.nodes, ∃ path ∈ [here, ['.', '/', 'f']],
        (oneFileTree.locate [] false path).toOption = some p.1 := by decide +kernel
    intro l node hnode
    obtain ⟨path, hpath, hl⟩ := hall _ (get?_eq_some_iff.1 hnode)
    rw [← hpaths] at hpath
    obtain ⟨m, hm, rfl⟩ := List.mem_map.1 hpath
    refine ⟨m, hm, ?_⟩
    cases hplace : oneFileTree.locate [] false m.path with
    | error f =>
      rw [hplace] at hl
      cases hl
    | ok l' =>
      rw [hplace] at hl
      rw [Option.some.inj hl]
  have hcomplete : ∀ d ∈ found, ¬ IsIncomplete oneFileTree [] found d := by
    rintro d - ⟨dir, n, -, -, hsome, hnot⟩
    obtain ⟨node, hnode⟩ := Option.isSome_iff_exists.1 hsome
    exact hnot (hmatched _ node hnode)
  have hcompile : compile ["-delete".toList] = .ok q := rfl
  obtain ⟨v, hlost, hexecute⟩ := CommandLine.execute_delete_here (fun _ _ _ => rfl) hcompile rfl
    hwalk hlength hcomplete
  have hmessage : CommandLine.errorLine (Fault.system .invalid here).message =
      "findlite: [Errno 22] Invalid argument: '.'\n".toList := by decide +kernel
  rw [if_pos (by rw [hpaths]; exact List.mem_cons_self), hmessage] at hexecute
  have hfile : oneFileTree.get? [⟨['f'], rfl, by decide⟩] = some ⟨.file {}, ⟨0, 0⟩⟩ := by
    decide +kernel
  refine ⟨v, by simp [hfile], hlost.absent _ ⟨by simp [smallErrand], hmatched _ _ hfile⟩, hexecute⟩

end FileSearch
