import FileSearch.Proofs.Glob.Matching
import FileSearch.Proofs.Search.Outcome

/-!
Every entry can be selected alone, by its path. The path with every character escaped is a pattern
for this path only, different names make different paths below any spelling of the root, and a
search without a filter comes to every entry below its root.
Main statement: a search for the escaped path of an entry finds this entry and no other, and it ends
normally if and only if all directories below the root can be listed and the line fits.
-/

namespace FileSearch

open Walk

/-- The query for what is shown by exactly this path. -/
def Query.selecting (path : Text) : Query := { pathPattern := some (escapeAll path) }

theorem compile_selecting (path : Text) :
    compile [Operator.path.spelling, escapeAll path] = .ok (.selecting path) := rfl

/-- The query looks at nothing but the path, and it always has an answer. -/
theorem Query.holds_selecting (path : Text) (e : Entry) (probe : Probe) (now : Float)
    (depth : Int) :
    (Query.selecting path).holds e probe now depth = .ok (decide (e.display = path)) := by
  have hshape : (Query.selecting path).shapeHolds depth e.kind = true := rfl
  have hname : (Query.selecting path).nameHolds e.name = .ok true := rfl
  have hpath : (Query.selecting path).pathHolds e.display = .ok (decide (e.display = path)) :=
    globHolds_escapeAll path e.display
  have hempty : (Query.selecting path).emptyHolds e.kind probe = .ok true := rfl
  have hstatus : (Query.selecting path).statusHolds now probe = .ok true := rfl
  rw [holds, hshape, hname, hpath, hempty, hstatus]
  cases decide (e.display = path) <;> rfl

variable {s : Setting} {root path : Text} {fs : FileSystem} {top : Location}
  {names : List Name} {w : World}

theorem verdict_selecting {item : Item} :
    verdict ⟨s, .selecting path, none, root⟩ fs item = .ok (decide (item.entry.display = path)) :=
  Query.holds_selecting ..

/-- Of all that is shown below the root, one entry has the path. -/
theorem foundIn_selecting (hnames : names ∈ fs.preorder top) :
    foundIn ⟨s, .selecting (pathAt root names), none, root⟩ fs top =
      [(treeItem ⟨s, .selecting (pathAt root names), none, root⟩ fs top names).entry] := by
  have hfound (ns : List Name) :
      isFound ⟨s, .selecting (pathAt root names), none, root⟩ fs
        (treeItem ⟨s, .selecting (pathAt root names), none, root⟩ fs top ns) =
          decide (ns = names) := by
    have hpath : pathAt root ns = pathAt root names ↔ ns = names :=
      ⟨pathAt_injective, congrArg _⟩
    rw [isFound_eq verdict_selecting, decide_eq_decide]
    exact hpath
  have hone : (fs.preorder top).filter (fun ns => decide (ns = names)) = [names] := by
    rw [List.filter_eq, List.count_eq_one_of_mem (fs.nodup_preorder top) hnames]
    rfl
  rw [foundIn, listing, branch_nil_unbounded rfl rfl, List.filter_map, List.map_map]
  simp only [Function.comp_def, hfound, hone]
  rfl

/-- Every directory at the root or below it can be listed by its path. -/
def CanBeListed (s : Setting) (fs : FileSystem) (root : Text) (top : Location) : Prop :=
  ∀ names ∈ fs.preorder top, (fs.nodeAt (names.reverse ++ top)).body = .directory →
    ∃ entries, fs.list s.cwd (pathAt root names) = .ok entries

theorem answers_selecting_iff :
    (∀ item ∈ listing ⟨s, .selecting path, none, root⟩ fs top,
      Answers ⟨s, .selecting path, none, root⟩ fs item) ↔ CanBeListed s fs root top := by
  rw [listing, branch_nil_unbounded rfl rfl, List.forall_mem_map]
  refine forall₂_congr fun names _ => ?_
  rw [answers_iff rfl, isDirectory_treeItem]
  exact and_iff_right ⟨_, verdict_selecting⟩

/-- Whatever stands at the root or below it, a search for its path with every character escaped
writes the line of this path, and no other, and counts one. It ends normally if and only if all
directories below the root can be listed and there is room for the line. -/
theorem find_selects_entry (hquiet : s.Quiet) (htop : w.files.locate s.cwd false root = .ok top)
    (hnames : names ∈ w.files.preorder top) :
    ∃ q, compile ["-path".toList, escapeAll (displayPath root (relAt names))] = .ok q ∧
      ((∃ n w', find s q none [root] w = .ok n w') ↔
        CanBeListed s w.files root top ∧ Fits s w [displayPath root (relAt names) ++ ['\n']]) ∧
      ∀ n w', find s q none [root] w = .ok n w' → n = 1 ∧ w'.files = w.files ∧
        w'.written = w.written ++ [displayPath root (relAt names) ++ ['\n']] := by
  have hprinted : printed (.selecting (pathAt root names))
      (foundIn ⟨s, .selecting (pathAt root names), none, root⟩ w.files top) =
        [pathAt root names ++ ['\n']] := by
    rw [foundIn_selecting hnames]
    rfl
  have hiff (n : Nat) (t : List Text) := find_root_ok_iff (q := .selecting (pathAt root names))
    (n := n) (t := t) hquiet rfl htop
  simp only [answers_selecting_iff, hprinted] at hiff
  refine ⟨_, compile_selecting _, ⟨?_, ?_⟩, ?_⟩
  · rintro ⟨n, w', hfind⟩
    obtain ⟨hlists, hroom, -⟩ := (hiff n w'.written).1 ⟨w', hfind, rfl⟩
    exact ⟨hlists, hroom⟩
  · rintro ⟨hlists, hroom⟩
    obtain ⟨w', hfind, -⟩ := (hiff _ _).2 ⟨hlists, hroom, rfl, rfl⟩
    exact ⟨_, w', hfind⟩
  · intro n w' hfind
    obtain ⟨-, -, hcount, hwritten⟩ := (hiff n w'.written).1 ⟨w', hfind, rfl⟩
    have hreadOnly := find_readOnly (q := .selecting (pathAt root names)) hquiet rfl none [root] w
    rw [pathAt, hfind] at hreadOnly
    rw [foundIn_selecting hnames] at hcount
    exact ⟨hcount, hreadOnly, hwritten⟩

/-- A directory that holds two files, one of them called `*`. -/
def starTree : FileSystem :=
  ChangeSite.applyAll ⟨[], ⟨0, 0⟩, none⟩ (.empty ⟨0, 0⟩)
    [.add ['r', '/', 'a'] ⟨.file {}, ⟨0, 0⟩⟩, .add ['r', '/', '*'] ⟨.file {}, ⟨0, 0⟩⟩]

/-- The file called `*` is found by its escaped path, and the other one is not. -/
theorem find_selects_entry_star :
    compile ["-path".toList, "\\r\\/\\/\\*".toList] = .ok (.selecting "r//*".toList) ∧
      ∃ w', find smallErrand.setting (.selecting "r//*".toList) none ["r//".toList]
          ⟨starTree, [], []⟩ = .ok 1 w' ∧ w'.written = ["r//*\n".toList] := by
  let q : Query := .selecting "r//*".toList
  let top : Location := [⟨['r'], rfl, by decide⟩]
  have htop : starTree.locate smallErrand.setting.cwd false "r//".toList = .ok top := rfl
  have hwalk : ∃ found w', walk ⟨smallErrand.setting, q, none, "r//".toList⟩ ⟨starTree, [], []⟩ =
      .ok found w' := by
    rw [walk_eq_run (e := ⟨smallErrand.setting, q, none, "r//".toList⟩) htop,
      run_of_turns_done (n := 3) rfl rfl]
    exact ⟨_, _, rfl⟩
  obtain ⟨found, w', hwalk⟩ := hwalk
  have hfind : find smallErrand.setting q none ["r//".toList] ⟨starTree, [], []⟩ =
      .ok found.length w' :=
    (find_singleton_ok_iff rfl).2 ⟨none, _, found, rfl, hwalk, rfl⟩
  have hnames : [⟨['*'], rfl, by decide⟩] ∈ starTree.preorder top :=
    FileSystem.mem_preorder_iff.2 (.inr rfl)
  obtain ⟨q', hcompile, -, hone⟩ := find_selects_entry (s := smallErrand.setting)
    (w := ⟨starTree, [], []⟩) (fun _ _ _ => rfl) htop hnames
  obtain rfl : q = q' := Except.ok.inj hcompile
  obtain ⟨hcount, -, hwritten⟩ := hone _ _ hfind
  exact ⟨hcompile, w', hcount ▸ hfind, hwritten⟩

end FileSearch
