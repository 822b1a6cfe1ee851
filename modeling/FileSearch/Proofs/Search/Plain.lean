import FileSearch.Proofs.Deletion.Exact
import FileSearch.Proofs.Path.Below
import FileSearch.Proofs.Search.Outcome

/-!
What a search of a plain root comes to, with nobody else at work and no filter. What is found stands
below the root under the names of its path, and if it is to be deleted, it is what is gone.
Main statements: a search of a plain root ends normally if and only if the root is searchable and
the lines fit, and then it counts, prints and removes what is found there.
-/

namespace FileSearch

open FileSystem Walk

/-! ### What is found below a root -/

section Found

variable {e : Errand} {fs : FileSystem} {ns : List Name} {top l : Location} {m : Entry}

theorem mem_foundIn_iff :
    m ∈ foundIn e fs top ↔ ∃ ns ∈ branch e fs top [],
      isFound e fs (treeItem e fs top ns) = true ∧ (treeItem e fs top ns).entry = m := by
  simp [foundIn, listing, and_assoc]

/-- All that is shown below a place where something stands is there. -/
theorem isSome_of_mem_branch (hsome : (fs.get? top).isSome) (hns : ns ∈ branch e fs top []) :
    (fs.get? (ns.reverse ++ top)).isSome := by
  rcases mem_preorder_iff.1 (mem_branch_nil_iff.1 hns).1 with rfl | h
  · exact hsome
  · exact h

/-- What is shown below the root is where its path says, if the path can be asked for. -/
theorem locate_of_mem_branch (hroot : fs.locate e.setting.cwd false e.root = .ok top)
    (hns : ns ∈ branch e fs top []) (hcheck : checkPath (pathAt e.root ns) = .ok ()) :
    fs.locate e.setting.cwd false (pathAt e.root ns) = .ok (ns.reverse ++ top) := by
  refine locate_below (root_ne_nil hroot) hroot (fun hne => ?_) hcheck
  exact (mem_preorder_iff.1 (mem_branch_nil_iff.1 hns).1).resolve_left hne

/-- A path below the root is refused for its length only. -/
theorem checkPath_pathAt (hroot : fs.locate e.setting.cwd false e.root = .ok top)
    (hlength : byteLength (pathAt e.root ns) < maxPathBytes) :
    checkPath (pathAt e.root ns) = .ok () := by
  have hnul := (checkPath_eq_ok_iff.1 (checkPath_of_locate hroot)).1
  exact checkPath_eq_ok_iff.2
    ⟨nul_not_mem_pathAt hnul ns, pathAt_ne_nil (root_ne_nil hroot) ns, hlength⟩

theorem isMatched_foundIn_iff (hroot : fs.locate e.setting.cwd false e.root = .ok top)
    (hlength : ∀ m ∈ foundIn e fs top, byteLength m.path < maxPathBytes) :
    IsMatched fs e.setting.cwd (foundIn e fs top) l ↔ ∃ ns ∈ branch e fs top [],
      isFound e fs (treeItem e fs top ns) = true ∧ l = ns.reverse ++ top := by
  unfold IsMatched
  constructor
  · rintro ⟨m, hm, hl⟩
    obtain ⟨ns, hns, hfound, rfl⟩ := mem_foundIn_iff.1 hm
    have hplace := locate_of_mem_branch hroot hns (checkPath_pathAt hroot (hlength _ hm))
    exact ⟨ns, hns, hfound, Except.ok.inj (hl.symm.trans hplace)⟩
  · rintro ⟨ns, hns, hfound, rfl⟩
    have hm := mem_foundIn_iff.2 ⟨ns, hns, hfound, rfl⟩
    exact ⟨_, hm, locate_of_mem_branch hroot hns (checkPath_pathAt hroot (hlength _ hm))⟩

end Found

/-! ### Searches -/

/-- Nothing in the file system keeps a search of the root from its normal end: all items have an
answer, and what is found can be deleted, if it is to be. -/
structure Searchable (e : Errand) (fs : FileSystem) (top : Location) : Prop where
  root : fs.locate e.setting.cwd false e.root = .ok top
  answers : ∀ item ∈ listing e fs top, Answers e fs item
  short : e.query.delete = true → ∀ m ∈ foundIn e fs top, byteLength m.path < maxPathBytes
  complete : e.query.delete = true → ∀ m ∈ foundIn e fs top,
    ¬ IsIncomplete fs e.setting.cwd (foundIn e fs top) m

/-- What a search of the root removes. -/
def Doomed (e : Errand) (fs : FileSystem) (top l : Location) : Prop :=
  e.query.delete = true ∧ IsMatched fs e.setting.cwd (foundIn e fs top) l

/-- It lies at the root or below it. -/
theorem Searchable.suffix_of_doomed {e : Errand} {fs : FileSystem} {top l : Location}
    (h : Searchable e fs top) (hdoomed : Doomed e fs top l) : top <:+ l := by
  obtain ⟨hdelete, hmatched⟩ := hdoomed
  obtain ⟨ns, -, -, rfl⟩ := (isMatched_foundIn_iff h.root (h.short hdelete)).1 hmatched
  exact List.suffix_append _ _

/-- The worlds before and after a search of the root. -/
structure Searched (e : Errand) (top : Location) (w w' : World) : Prop where
  lost : Lost e.setting.stamp w.files w'.files (Doomed e w.files top)
  written : w'.written = w.written ++ printed e.query (foundIn e w.files top)

variable {s : Setting} {q : Query} {root : Text} {absolute : Bool} {names : List Name}
  {top : Location} {n : Nat} {found : List Entry} {w v w' : World}

theorem dispose_of_deleted (hdelete : q.delete = true) :
    dispose s q found w = .ok n w' ↔
      deleteFound s (found.map Entry.path) w = .ok () w' ∧ n = found.length := by
  rw [dispose, hdelete, if_pos rfl, Search.bind_eq_ok_iff]
  constructor
  · rintro ⟨u, v, hrun, hcount⟩
    obtain ⟨rfl, rfl⟩ := Search.pure_eq_ok_iff.1 hcount
    exact ⟨hrun, rfl⟩
  · rintro ⟨hrun, rfl⟩
    exact ⟨(), w', hrun, rfl⟩

/-- A search of a plain root that ends normally. -/
theorem searched_of_findRoot (hquiet : s.Quiet) (hplain : IsPlain w.files s.cwd absolute names root)
    (h : findRoot s q none root w = .ok n w') :
    ∃ top v, walk ⟨s, q, none, root⟩ w = .ok (foundIn ⟨s, q, none, root⟩ w.files top) v ∧
      Searchable ⟨s, q, none, root⟩ w.files top ∧
      Fits s w (printed q (foundIn ⟨s, q, none, root⟩ w.files top)) ∧
      n = (foundIn ⟨s, q, none, root⟩ w.files top).length ∧
      Searched ⟨s, q, none, root⟩ top w w' := by
  obtain ⟨found, v, hwalk, hdispose⟩ := findRoot_ok_iff.1 h
  obtain ⟨top, hcompletes, rfl, hadds⟩ := completes_of_walk hquiet hwalk
  refine ⟨top, v, hwalk, ?_⟩
  cases hdelete : q.delete with
  | false =>
    rw [dispose_of_kept hdelete] at hdispose
    cases hdispose
    have hno : ¬ q.delete = true := by simp [hdelete]
    refine ⟨⟨hcompletes.root, hcompletes.answers, fun h => absurd h hno, fun h => absurd h hno⟩,
      hcompletes.room, rfl, ?_, hadds.written⟩
    rw [hadds.files]
    exact (Lost.refl _ _).congr fun l => ⟨False.elim, fun h => hno h.1⟩
  | true =>
    obtain ⟨hrun, rfl⟩ := (dispose_of_deleted hdelete).1 hdispose
    obtain ⟨hchecks, hwritten⟩ := Delete.removePaths_ok_inv hrun
    have hshort : ∀ m ∈ foundIn ⟨s, q, none, root⟩ w.files top,
        byteLength m.path < maxPathBytes := by
      intro m hm
      have hcheck := hchecks m.path (by simpa using ⟨m, hm, rfl⟩)
      exact (checkPath_eq_ok_iff.1 hcheck).2.2
    have hresult := deleteFound_result (e := ⟨s, q, none, root⟩) hquiet hplain hwalk hshort
    rw [hrun] at hresult
    refine ⟨⟨hcompletes.root, hcompletes.answers, fun _ => hshort, fun _ => hresult.1⟩,
      hcompletes.room, rfl, ?_, hwritten.trans hadds.written⟩
    exact hresult.2.congr fun l => ⟨fun h => ⟨hdelete, h⟩, And.right⟩

/-- A root that is searchable is searched, if the lines fit. -/
theorem findRoot_of_searchable (hquiet : s.Quiet)
    (hplain : IsPlain w.files s.cwd absolute names root)
    (h : Searchable ⟨s, q, none, root⟩ w.files top)
    (hroom : Fits s w (printed q (foundIn ⟨s, q, none, root⟩ w.files top))) :
    ∃ w', findRoot s q none root w = .ok (foundIn ⟨s, q, none, root⟩ w.files top).length w' ∧
      Searched ⟨s, q, none, root⟩ top w w' := by
  obtain ⟨v, hwalk, hadds⟩ := walk_of_completes (e := ⟨s, q, none, root⟩) hquiet
    ⟨h.root, h.answers, hroom⟩
  have hdispose : ∃ w', dispose s q (foundIn ⟨s, q, none, root⟩ w.files top) v =
      .ok (foundIn ⟨s, q, none, root⟩ w.files top).length w' := by
    cases hdelete : q.delete with
    | false => exact ⟨v, dispose_of_kept hdelete⟩
    | true =>
      have hresult := deleteFound_result (e := ⟨s, q, none, root⟩) hquiet hplain hwalk
        (h.short hdelete)
      cases hrun : deleteFound s ((foundIn ⟨s, q, none, root⟩ w.files top).map Entry.path) v with
      | ok u w' => exact ⟨w', (dispose_of_deleted hdelete).2 ⟨hrun, rfl⟩⟩
      | error f w' =>
        rw [hrun] at hresult
        obtain ⟨before, d, after, hsplit, hkeeps, -⟩ := hresult
        have hd : d ∈ foundIn ⟨s, q, none, root⟩ w.files top := by
          rw [hsplit]
          simp
        exact absurd hkeeps (h.complete hdelete d hd)
  obtain ⟨w', hdispose⟩ := hdispose
  have hfind := findRoot_ok_iff.2 ⟨_, v, hwalk, hdispose⟩
  obtain ⟨top', -, -, hsearchable, -, -, hsearched⟩ := searched_of_findRoot hquiet hplain hfind
  obtain rfl := Except.ok.inj (hsearchable.root.symm.trans h.root)
  exact ⟨w', hfind, hsearched⟩

end FileSearch
