import FileSearch.Proofs.Search.Locality

/-!
A search that deletes what it finds, and the same search once more. What the first leaves behind are
the entries for which the query does not hold, under the same names and at the same depth, and if
the query looks nothing up, it does not hold for them later either.
Main statement: the second search of a plain root finds nothing and changes nothing, or the root
itself is gone.
-/

namespace FileSearch

open FileSystem Walk

/-- The query asks for no sizes, times or entries of directories. -/
structure Query.LooksUpNothing (q : Query) : Prop where
  empty : q.emptyOnly = false
  size : q.size = none
  age : q.age = none

variable {s s' : Setting} {q : Query} {root : Text} {absolute : Bool} {names ns : List Name}
  {top l : Location} {fs : FileSystem} {n : Nat} {w w₁ : World}

/-- Such a query holds for an item at any time and in any file system, or in none. -/
theorem verdict_of_looksUpNothing (h : q.LooksUpNothing) (fs fs' : FileSystem) (item : Item) :
    verdict ⟨s', q, none, root⟩ fs' item = verdict ⟨s, q, none, root⟩ fs item := by
  refine Query.holds_congr ?_ ?_ ?_
  · simp [h.empty, h.size, h.age]
  · simp [h.empty]
  · simp [h.age]

/-! ### What is left -/

/-- The root is removed if and only if it is found. -/
theorem doomed_top_iff {e : Errand} (hdelete : e.query.delete = true) (h : Searchable e fs top) :
    Doomed e fs top top ↔ ∃ m ∈ foundIn e fs top, m.path = e.root := by
  rw [Doomed, isMatched_foundIn_iff h.root (h.short hdelete)]
  constructor
  · rintro ⟨-, ns, hns, hfound, hplace⟩
    obtain rfl : ns = [] := by simpa using hplace
    exact ⟨_, mem_foundIn_iff.2 ⟨[], hns, hfound, rfl⟩, rfl⟩
  · rintro ⟨m, hm, hpath⟩
    obtain ⟨ns, hns, hfound, rfl⟩ := mem_foundIn_iff.1 hm
    obtain rfl : ns = [] := pathAt_injective (hpath.trans (pathAt_nil e.root).symm)
    exact ⟨hdelete, [], hns, hfound, rfl⟩

/-- What is listed after a search that removes what it finds was listed before, as the same item,
and the query does not hold for it. -/
theorem left_of_searched (hdelete : q.delete = true)
    (hplain : IsPlain w.files s.cwd absolute names root)
    (hsearchable : Searchable ⟨s, q, none, root⟩ w.files top)
    (hsearched : Searched ⟨s, q, none, root⟩ top w w₁)
    (hleft : ¬ Doomed ⟨s, q, none, root⟩ w.files top top)
    (hns : ns ∈ branch ⟨s', q, none, root⟩ w₁.files top []) :
    (w₁.files.get? (ns.reverse ++ top)).isSome ∧
      ns ∈ branch ⟨s, q, none, root⟩ w.files top [] ∧
      treeItem ⟨s', q, none, root⟩ w₁.files top ns = treeItem ⟨s, q, none, root⟩ w.files top ns ∧
      isFound ⟨s, q, none, root⟩ w.files (treeItem ⟨s, q, none, root⟩ w.files top ns) = false := by
  obtain ⟨hplace, hsome⟩ := locate_of_isPlain hplain hsearchable.root
  have hthere := isSome_of_mem_branch (hsearched.lost.isSome_iff.2 ⟨hsome, hleft⟩) hns
  obtain ⟨hbefore, hkept⟩ := hsearched.lost.isSome_iff.1 hthere
  have hitem : treeItem ⟨s', q, none, root⟩ w₁.files top ns =
      treeItem ⟨s, q, none, root⟩ w.files top ns := by
    rw [treeItem, treeItem, hsearched.lost.body_nodeAt hkept]
  have hlisted : ns ∈ branch ⟨s, q, none, root⟩ w.files top [] := by
    rw [mem_branch_nil_iff] at hns ⊢
    refine ⟨mem_preorder_iff.2 (.inr hbefore), ?_⟩
    have hshown := hns.2
    rw [isShown, hitem, isAllowed_unfiltered rfl] at hshown
    rwa [isShown, isAllowed_unfiltered rfl]
  refine ⟨hthere, hlisted, hitem, Bool.eq_false_iff.2 fun hfound => hkept ?_⟩
  exact ⟨hdelete, (isMatched_foundIn_iff hsearchable.root (hsearchable.short hdelete)).2
    ⟨ns, hlisted, hfound, rfl⟩⟩

/-- An item that is left has an answer, and the query does not hold for it. -/
theorem answers_of_left (hlooks : q.LooksUpNothing) (hcwd : s'.cwd = s.cwd)
    (hdelete : q.delete = true) (hplain : IsPlain w.files s.cwd absolute names root)
    (hsearchable : Searchable ⟨s, q, none, root⟩ w.files top)
    (hsearched : Searched ⟨s, q, none, root⟩ top w w₁)
    (hleft : ¬ Doomed ⟨s, q, none, root⟩ w.files top top) {item : Item}
    (hitem : item ∈ listing ⟨s', q, none, root⟩ w₁.files top) :
    isFound ⟨s', q, none, root⟩ w₁.files item = false ∧
      Answers ⟨s', q, none, root⟩ w₁.files item := by
  obtain ⟨ns, hns, rfl⟩ := List.mem_map.1 hitem
  obtain ⟨hthere, hbefore, hsame, hnot⟩ :=
    left_of_searched hdelete hplain hsearchable hsearched hleft hns
  have hanswers := hsearchable.answers _ (List.mem_map_of_mem hbefore)
  have hverdict : verdict ⟨s', q, none, root⟩ w₁.files = verdict ⟨s, q, none, root⟩ w.files :=
    funext fun item => verdict_of_looksUpNothing hlooks w.files w₁.files item
  refine ⟨?_, (answers_iff rfl).2 ⟨?_, fun hdir => ?_⟩⟩
  · rwa [isFound, hverdict, hsame]
  · rw [hverdict, hsame]
    exact hanswers.verdict
  · -- its path still leads to it
    obtain ⟨rfl, -⟩ := locate_of_isPlain hplain hsearchable.root
    obtain ⟨node, hnode⟩ := Option.isSome_iff_exists.1 hthere
    have hbody : node.body = .directory := by
      rw [← nodeAt_of_get? hnode]
      exact isDirectory_treeItem.1 hdir
    rw [hsame] at hdir
    obtain ⟨entries, hlist⟩ := ((answers_iff rfl).1 hanswers).2 hdir
    obtain ⟨dir, hlead, -⟩ := list_eq_ok_iff.1 hlist
    have hstill : ∃ dir, w₁.files.LeadsTo s'.cwd (pathAt root ns) dir := by
      rw [hcwd]
      exact ⟨_, locate_pathAt hplain (checkPath_of_leadsTo hlead) hnode
        (.inr (by simp [hbody, Body.kind])), by rw [nodeAt_of_get? hnode, hbody]⟩
    obtain ⟨dir', hlead'⟩ := hstill
    exact ⟨_, list_eq_ok_iff.2 ⟨dir', hlead', rfl⟩⟩

/-- Later the walk completes its listing without finding anything. -/
theorem completes_of_searched (hlooks : q.LooksUpNothing) (hcwd : s'.cwd = s.cwd)
    (hdelete : q.delete = true) (hplain : IsPlain w.files s.cwd absolute names root)
    (hsearchable : Searchable ⟨s, q, none, root⟩ w.files top)
    (hsearched : Searched ⟨s, q, none, root⟩ top w w₁)
    (hleft : ¬ Doomed ⟨s, q, none, root⟩ w.files top top) :
    foundIn ⟨s', q, none, root⟩ w₁.files top = [] ∧
      Completes ⟨s', q, none, root⟩ w₁ top := by
  have hitems : ∀ item ∈ listing ⟨s', q, none, root⟩ w₁.files top, _ := fun item hitem =>
    answers_of_left hlooks hcwd hdelete hplain hsearchable hsearched hleft hitem
  have hnone : foundIn ⟨s', q, none, root⟩ w₁.files top = [] := by
    rw [foundIn, List.map_eq_nil_iff, List.filter_eq_nil_iff]
    intro item hitem
    simp [(hitems item hitem).1]
  refine ⟨hnone, ?_, fun item hitem => (hitems item hitem).2, ?_⟩
  · obtain ⟨rfl, hsome⟩ := locate_of_isPlain hplain hsearchable.root
    obtain ⟨node, hnode⟩ :=
      Option.isSome_iff_exists.1 (hsearched.lost.isSome_iff.2 ⟨hsome, hleft⟩)
    have hcheck : checkPath (pathAt root []) = .ok () := checkPath_of_locate hsearchable.root
    rw [hcwd]
    exact locate_pathAt hplain hcheck hnode (.inl rfl)
  · rw [hnone]
    simpa [printed] using fits_nil

/-- A search that deletes what it finds under a plain root, and the same search once more, with
nobody else at work in the meantime. If the query looks nothing up, the second search finds nothing,
writes nothing and leaves the files as they are, unless the root itself was found: then the root is
not there any more. -/
theorem find_again (hquiet : s.Quiet) (hplain : IsPlain w.files s.cwd absolute names root)
    (hdelete : q.delete = true) (hlooks : q.LooksUpNothing)
    (h : find s q none [root] w = .ok n w₁) (hquiet' : s'.Quiet) (hcwd : s'.cwd = s.cwd) :
    ∃ found v, walk ⟨s, q, none, root⟩ w = .ok found v ∧
      ((∀ m ∈ found, m.path ≠ root) → ∃ w₂, walk ⟨s', q, none, root⟩ w₁ = .ok [] w₂ ∧
        find s' q none [root] w₁ = .ok 0 w₂ ∧ w₂.files = w₁.files ∧ w₂.written = w₁.written) ∧
      ((∃ m ∈ found, m.path = root) →
        find s' q none [root] w₁ = .error (.system .noEntry root) w₁) := by
  rw [find_singleton] at h
  obtain ⟨top, v, hwalk, hsearchable, -, -, hsearched⟩ := searched_of_findRoot hquiet hplain h
  refine ⟨_, v, hwalk, fun hleft => ?_, fun hgone => ?_⟩
  · have hleft : ¬ Doomed ⟨s, q, none, root⟩ w.files top top := by
      rw [doomed_top_iff (e := ⟨s, q, none, root⟩) hdelete hsearchable]
      simpa using hleft
    obtain ⟨hnone, hcompletes⟩ :=
      completes_of_searched hlooks hcwd hdelete hplain hsearchable hsearched hleft
    obtain ⟨w₂, hagain, hadds⟩ := walk_of_completes hquiet' hcompletes
    rw [hnone] at hagain hadds
    have hdispose : dispose s' q [] w₂ = .ok 0 w₂ := (dispose_of_deleted hdelete).2 ⟨rfl, rfl⟩
    refine ⟨w₂, hagain, ?_, hadds.files, ?_⟩
    · rw [find_singleton]
      exact findRoot_ok_iff.2 ⟨[], w₂, hagain, hdispose⟩
    · simpa [printed] using hadds.written
  · have hgone := (doomed_top_iff (e := ⟨s, q, none, root⟩) hdelete hsearchable).2 hgone
    obtain ⟨rfl, -⟩ := locate_of_isPlain hplain hsearchable.root
    have hafter : IsPlain w₁.files s'.cwd absolute names root := by
      rw [hcwd]
      refine isPlain_of_lost hplain hsearched.lost fun before hpre hne hdoomed => hne ?_
      -- nothing above the root is removed
      have habove := hsearchable.suffix_of_doomed hdoomed
      rw [List.suffix_append_self_iff, List.reverse_suffix] at habove
      exact hpre.eq_of_length_le habove.length_le
    have habsent := locate_of_absent hafter (checkPath_of_locate hsearchable.root)
      (by rw [hcwd]; exact hsearched.lost.absent _ hgone)
    rw [find_singleton, findRoot_unfiltered]
    exact Search.bind_error (walk_of_error (e := ⟨s', q, none, root⟩) habsent)

/-- The file in a directory is removed once, and a link that is the root is gone the second time. -/
theorem find_again_smallTree :
    (∃ w₁ w₂, find smallErrand.setting { kind := some .regular, delete := true } none
        [['r', '/', 'a']] ⟨smallTree, [], []⟩ = .ok 1 w₁ ∧
      find smallErrand.setting { kind := some .regular, delete := true } none
        [['r', '/', 'a']] w₁ = .ok 0 w₂ ∧ w₂.files = w₁.files ∧ w₂.written = w₁.written) ∧
    ∃ w₁, find smallErrand.setting { delete := true } none
        [['r', '/', 'l']] ⟨smallTree, [], []⟩ = .ok 1 w₁ ∧
      find smallErrand.setting { delete := true } none
        [['r', '/', 'l']] w₁ = .error (.system .noEntry ['r', '/', 'l']) w₁ := by
  let s : Setting := smallErrand.setting
  let w : World := ⟨smallTree, [], []⟩
  let r : Name := ⟨['r'], rfl, by decide⟩
  have hquiet : s.Quiet := fun _ _ _ => rfl
  constructor
  · let q : Query := { kind := some .regular, delete := true }
    have hrun : ∃ m v w₁, walk ⟨s, q, none, ['r', '/', 'a']⟩ w = .ok [m] v ∧
        m.path = ['r', '/', 'a', '/', 'x'] ∧ dispose s q [m] v = .ok 1 w₁ := by
      rw [walk_eq_run (e := ⟨s, q, none, ['r', '/', 'a']⟩) rfl, run_of_turns_done (n := 2) rfl rfl]
      exact ⟨_, _, _, rfl, rfl, rfl⟩
    obtain ⟨m, v, w₁, hwalk, hpath, hdispose⟩ := hrun
    have hfind : find s q none [['r', '/', 'a']] w = .ok 1 w₁ := by
      rw [find_singleton]
      exact findRoot_ok_iff.2 ⟨[m], v, hwalk, hdispose⟩
    have hplain : IsPlain w.files [] false [r, ⟨['a'], rfl, by decide⟩] ['r', '/', 'a'] := by decide
    obtain ⟨found, v', hwalk', hleft, -⟩ :=
      find_again hquiet hplain rfl ⟨rfl, rfl, rfl⟩ hfind hquiet rfl
    cases hwalk.symm.trans hwalk'
    obtain ⟨w₂, -, hagain, hfiles, hwritten⟩ := hleft (by simp [hpath])
    exact ⟨w₁, w₂, hfind, hagain, hfiles, hwritten⟩
  · let q : Query := { delete := true }
    have hrun : ∃ m v w₁, walk ⟨s, q, none, ['r', '/', 'l']⟩ w = .ok [m] v ∧
        m.path = ['r', '/', 'l'] ∧ dispose s q [m] v = .ok 1 w₁ := by
      rw [walk_eq_run (e := ⟨s, q, none, ['r', '/', 'l']⟩) rfl, run_of_turns_done (n := 1) rfl rfl]
      exact ⟨_, _, _, rfl, rfl, rfl⟩
    obtain ⟨m, v, w₁, hwalk, hpath, hdispose⟩ := hrun
    have hfind : find s q none [['r', '/', 'l']] w = .ok 1 w₁ := by
      rw [find_singleton]
      exact findRoot_ok_iff.2 ⟨[m], v, hwalk, hdispose⟩
    have hplain : IsPlain w.files [] false [r, ⟨['l'], rfl, by decide⟩] ['r', '/', 'l'] := by decide
    obtain ⟨found, v', hwalk', -, hgone⟩ :=
      find_again hquiet hplain rfl ⟨rfl, rfl, rfl⟩ hfind hquiet rfl
    cases hwalk.symm.trans hwalk'
    exact ⟨w₁, hfind, hgone ⟨m, by simp, hpath⟩⟩

end FileSearch
