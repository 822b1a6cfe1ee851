import FileSearch.Proofs.CommandLine.Execution
import FileSearch.Proofs.Search.Idle
import FileSearch.Proofs.Search.Outcome

/-!
The command line with a wrong expression. One that does not compile is refused at once, in every
world; one with a malformed pattern is searched for, but in vain.
Main statement: neither writes anything or changes a file.
-/

namespace FileSearch

namespace CommandLine

variable {args : List Text} {options : Options}

theorem ne_nil_of_compile_error {reason : CompileError}
    (h : compile (Arguments.ofList args).expression = .error reason) : args ≠ [] := by
  rintro rfl
  cases h

theorem idle_searchRoots {s : Setting} {q : Query} (hbad : q.Malformed)
    (source : Option FilterSource) (roots : List Text) :
    Search.Idle (searchRoots s q source roots) (· = 0) := by
  rw [searchRoots]
  refine (idle_find hbad source _).bind ?_
  rintro _ rfl
  split
  · exact .pure rfl
  · exact .throw .unencodable _

/-- Reporting touches nothing that the search has not touched. -/
theorem onlyLogs_execute {s : Setting}
    (hread : Options.read (Arguments.ofList args).options = .ok (.search options))
    {p : Nat → Prop} (hidle : Search.Idle
      (search s options (Arguments.ofList args).paths (Arguments.ofList args).expression) p)
    (w : World) : OnlyLogs w (execute s args w).world := by
  by_cases hargs : args = []
  · subst hargs
    exact .refl w
  · rw [execute_eq hargs hread, world_reportOf]
    exact (hidle w).1

end CommandLine

open CommandLine Search in
/-- With options that are accepted, an expression that does not compile ends the command line in
every world at once, with the world as it is. If the expression compiles and has a pattern that is
malformed as it is compared, the search finds nothing under any roots and with any filters, writes
nothing and changes no file, whether or not it fails. A pattern is malformed as it is compared if it
is as it was given, unless a dotted capital I is put into lower case. -/
theorem wrong_expression_has_no_effect {args : List Text} {options : Options}
    (hoptions : Options.read (Arguments.ofList args).options = .ok (.search options))
    (s : Setting) :
    (∀ reason, compile (Arguments.ofList args).expression = .error reason → ∀ w,
      search s options (Arguments.ofList args).paths (Arguments.ofList args).expression w =
        .error (.expression reason) w ∧
      execute s args w = {
        ending := .finished 1
        errors := logText options w ++ errorLine reason.message
        world := w }) ∧
    (∀ q, compile (Arguments.ofList args).expression = .ok q → q.Malformed →
      Idle (search s options (Arguments.ofList args).paths (Arguments.ofList args).expression)
        (· = 0) ∧
      (∀ source roots, Idle (find s q source roots) (· = 0)) ∧
      ∀ w, OnlyLogs w (execute s args w).world) ∧
    ∀ q : Query,
      (q.ignoreCase = true → ∀ pattern, q.namePattern = some pattern → 'İ' ∉ pattern) →
      (q.Malformed ↔
        (∃ pattern, q.namePattern = some pattern ∧ Glob.ofText? pattern = none) ∨
          ∃ pattern, q.pathPattern = some pattern ∧ Glob.ofText? pattern = none) := by
  refine ⟨?_, ?_, fun q => Query.malformed_iff⟩
  · intro reason hcompile w
    have hsearch := search_of_compile_error (s := s) hcompile options
      (Arguments.ofList args).paths w
    refine ⟨hsearch, ?_⟩
    rw [execute_eq (ne_nil_of_compile_error hcompile) hoptions, hsearch]
    rfl
  · intro q hcompile hbad
    have hidle := idle_find (s := s) hbad
    have hsearch : Idle (search s options (Arguments.ofList args).paths
        (Arguments.ofList args).expression) (· = 0) := by
      rw [search_of_compile hcompile]
      exact idle_searchRoots hbad _ _
    exact ⟨hsearch, hidle, onlyLogs_execute hoptions hsearch⟩

/-- A class that is not closed keeps a deletion from removing anything. -/
theorem wrong_expression_has_no_effect_openClass :
    OnlyLogs ⟨smallTree, [], []⟩
      (CommandLine.execute smallErrand.setting
        [['r'], "-name".toList, ['['], "-delete".toList] ⟨smallTree, [], []⟩).world := by
  have hoptions : Options.read
      (Arguments.ofList [['r'], "-name".toList, ['['], "-delete".toList]).options =
        .ok (.search {}) := rfl
  have hcompile : compile
      (Arguments.ofList [['r'], "-name".toList, ['['], "-delete".toList]).expression =
        .ok { namePattern := some ['['], delete := true, print := false } := rfl
  have hbad : Query.Malformed { namePattern := some ['['], delete := true, print := false } :=
    .name rfl rfl
  exact ((wrong_expression_has_no_effect hoptions smallErrand.setting).2.1 _ hcompile hbad).2.2 _

/-- The class has no end for its second range as it is given. In lower case, two characters stand
for the dotted capital I, so that the first range ends before the second one starts, and the
directory and the file are found whose names lie in the first. -/
theorem malformed_name_found :
    Glob.ofText? "[a-İ-z]".toList = none ∧
    compile ["-iname".toList, "[a-İ-z]".toList] =
      .ok { namePattern := some "[a-İ-z]".toList, ignoreCase := true } ∧
    ∃ w, CommandLine.search smallErrand.setting {} [['r']]
        ["-iname".toList, "[a-İ-z]".toList] ⟨smallTree, [], []⟩ = .ok 2 w ∧
      w.written = [['r', '/', 'a', '\n'], ['r', '/', 'b', '\n']] := by
  let q : Query := { namePattern := some "[a-İ-z]".toList, ignoreCase := true }
  let e : Errand := ⟨smallErrand.setting, q, none, ['r']⟩
  have hcompile : compile ["-iname".toList, "[a-İ-z]".toList] = .ok q := rfl
  have hroot : smallTree.locate [] false ['r'] = .ok [⟨['r'], rfl, by decide⟩] := rfl
  have hturns : (Walk.turns e 5 (Walk.start e ⟨smallTree, [], []⟩ [⟨['r'], rfl, by decide⟩])).map
      (fun st => (st.stack, st.matched.length, st.world.written)) =
        some ([], 2, [['r', '/', 'a', '\n'], ['r', '/', 'b', '\n']]) := by decide +kernel
  obtain ⟨st, hst, hends⟩ := Option.map_eq_some_iff.1 hturns
  simp only [Prod.mk.injEq] at hends
  obtain ⟨hstack, hlength, hwritten⟩ := hends
  refine ⟨by decide +kernel, hcompile, st.world, ?_, hwritten⟩
  rw [CommandLine.search_of_compile hcompile,
    CommandLine.searchRoots_of_encoded fun _ _ => Encoding.utf8_encodes _]
  change find e.setting q none [['r']] _ = _
  rw [find_singleton, findRoot_of_kept rfl]
  refine ⟨st.matched, ?_, hlength.symm⟩
  rw [Walk.walk_eq_run (e := e) hroot, Walk.run_of_turns_done hst hstack]

end FileSearch
