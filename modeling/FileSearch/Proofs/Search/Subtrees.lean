import FileSearch.Proofs.Search.Outcome

/-!
A search of a directory, told by searches of what stands in it. A child that is reached from its
directory and the same child taken as a root have the same entry; it lies one level higher in the
latter case, for which the bounds of the query make up.
Main statement: a search that deletes nothing visits its root and then searches the children as
roots, with bounds less by one.
-/

namespace FileSearch

/-- The query for the children of a root as roots: its bounds are less by one. -/
def Query.fromChild (q : Query) : Query :=
  { q with maxDepth := q.maxDepth.map (· - 1), minDepth := q.minDepth.map (· - 1) }

/-- What lies below a child is as good for the one query as it is for the other from one level
further up. -/
theorem Query.holds_fromChild (q : Query) (e : Entry) (probe : Probe) (now : Float) (depth : Nat) :
    q.fromChild.holds e probe now depth = q.holds e probe now (depth + 1 : Nat) := by
  have hbound : q.fromChild.minDepth.all (fun least => least ≤ (depth : Int)) =
      q.minDepth.all (fun least => least ≤ ((depth + 1 : Nat) : Int)) := by
    cases hleast : q.minDepth with
    | none => simp [fromChild, hleast]
    | some least =>
      have hshift : ((least - 1 : Nat) : Int) ≤ depth ↔ (least : Int) ≤ (depth + 1 : Nat) := by
        omega
      simp [fromChild, hleast, hshift]
  have hshape : q.fromChild.shapeHolds depth e.kind = q.shapeHolds (depth + 1 : Nat) e.kind := by
    rw [shapeHolds, shapeHolds, hbound]
    rfl
  rw [holds, holds, hshape]
  rfl

namespace Walk

variable {e : Errand} {fs : FileSystem} {top : Location} {c : Name} {names : List Name}
  {item : Item} {found : Bool} {w v : World}

/-! ### A child as a root -/

/-- The errand at a child of the root. -/
def childErrand (e : Errand) (c : Name) : Errand :=
  { e with query := e.query.fromChild, root := displayPath e.root c.text }

/-- The names in the root that are not too deep. -/
def namesInReach (q : Query) (fs : FileSystem) (top : Location) : List Name :=
  if q.maxDepth = some 0 then [] else fs.childNames top

theorem mem_childNames_of_inReach {q : Query} (h : c ∈ namesInReach q fs top) :
    c ∈ fs.childNames top := by
  unfold namesInReach at h
  split at h
  · cases h
  · exact h

theorem entry_treeItem_cons (hroot : e.root ≠ []) :
    (treeItem e fs top (c :: names)).entry =
      (treeItem (childErrand e c) fs (c :: top) names).entry := by
  have hplace : (c :: names).reverse ++ top = names.reverse ++ c :: top := by simp
  rw [treeItem, hplace]
  exact entry_itemAt_concat_append hroot [] c names _

theorem verdict_cons (hroot : e.root ≠ []) :
    verdict e fs (treeItem e fs top (c :: names)) =
      verdict (childErrand e c) fs (treeItem (childErrand e c) fs (c :: top) names) := by
  rw [verdict, entry_treeItem_cons hroot]
  exact (e.query.holds_fromChild _ _ _ names.length).symm

theorem isFound_cons (hroot : e.root ≠ []) :
    isFound e fs (treeItem e fs top (c :: names)) =
      isFound (childErrand e c) fs (treeItem (childErrand e c) fs (c :: top) names) := by
  rw [isFound, isFound, verdict_cons hroot]

theorem answers_cons (hroot : e.root ≠ []) (hfilter : e.filter = none) :
    Answers e fs (treeItem e fs top (c :: names)) ↔
      Answers (childErrand e c) fs (treeItem (childErrand e c) fs (c :: top) names) := by
  rw [answers_iff hfilter, answers_iff (e := childErrand e c) hfilter, verdict_cons hroot,
    entry_treeItem_cons hroot]
  rfl

theorem isShown_cons (hfilter : e.filter = none) (hdeep : e.query.maxDepth ≠ some 0) :
    isShown e fs top (c :: names) = isShown (childErrand e c) fs (c :: top) names := by
  have hpos : ∀ bound, e.query.maxDepth = some bound → 0 < bound := by
    rintro bound hbound
    refine Nat.pos_of_ne_zero ?_
    rintro rfl
    exact hdeep hbound
  have hbound : tooDeep e.query (treeItem e fs top (c :: names)) =
      tooDeep (childErrand e c).query (treeItem (childErrand e c) fs (c :: top) names) := by
    rw [Bool.eq_iff_iff, tooDeep_iff, tooDeep_iff]
    simp only [childErrand, Query.fromChild, treeItem, itemAt, List.length_cons,
      Option.map_eq_some_iff]
    constructor
    · rintro ⟨bound, hbound, hlt⟩
      have := hpos bound hbound
      exact ⟨bound - 1, ⟨bound, hbound, rfl⟩, by omega⟩
    · rintro ⟨-, ⟨bound, hbound, rfl⟩, hlt⟩
      exact ⟨bound, hbound, by omega⟩
  rw [isShown, isShown, hbound, isAllowed_unfiltered hfilter,
    isAllowed_unfiltered (e := childErrand e c) hfilter]

/-- What is shown below a child is what is shown when the child is the root. -/
theorem branch_singleton (hfilter : e.filter = none) (hdeep : e.query.maxDepth ≠ some 0)
    (c : Name) :
    branch e fs top [c] = (branch (childErrand e c) fs (c :: top) []).map (c :: ·) := by
  have hshown : (isShown e fs top ∘ fun names => c :: names) =
      isShown (childErrand e c) fs (c :: top) :=
    funext fun names => isShown_cons hfilter hdeep
  rw [branch, branch, List.filter_map, List.filter_map, List.map_map]
  simp only [Function.comp_def, List.reverse_nil, List.nil_append, List.reverse_singleton,
    List.singleton_append] at hshown ⊢
  rw [hshown]

theorem tooDeep_root : tooDeep e.query (treeItem e fs top []) = false := by
  rw [Bool.eq_false_iff]
  intro hdeep
  obtain ⟨bound, -, hlt⟩ := tooDeep_iff.1 hdeep
  exact Nat.not_lt_zero _ hlt

/-- A listing is the root and then the listings of the children as roots. -/
theorem branch_nil_eq (hfilter : e.filter = none) :
    branch e fs top [] = [] :: (namesInReach e.query fs top).flatMap fun c =>
      (branch (childErrand e c) fs (c :: top) []).map (c :: ·) := by
  have hkids : kids e fs top [] = (fs.childNames top).map ([·]) := by
    rw [kids, List.filter_eq_self.2 fun k _ => by simp [isLeftOut_unfiltered hfilter]]
    simp
  rw [branch_eq tooDeep_root isAllowed_nil, hkids, List.flatMap_map, namesInReach]
  split
  · rename_i hdeep
    rw [List.flatMap_eq_nil_iff.2 fun c _ => ?_, List.flatMap_nil]
    exact branch_of_deep (tooDeep_iff.2 ⟨0, hdeep, Nat.zero_lt_one⟩)
  · rename_i hdeep
    simp only [branch_singleton hfilter hdeep]

theorem foundIn_eq (hroot : e.root ≠ []) (hfilter : e.filter = none) :
    foundIn e fs top = addMatch [] (isFound e fs (treeItem e fs top [])) (treeItem e fs top []) ++
      (namesInReach e.query fs top).flatMap fun c => foundIn (childErrand e c) fs (c :: top) := by
  have hchild (c : Name) :
      (((branch (childErrand e c) fs (c :: top) []).map (c :: ·)).filter
        fun names => isFound e fs (treeItem e fs top names)).map
          (fun names => (treeItem e fs top names).entry) =
        foundIn (childErrand e c) fs (c :: top) := by
    rw [foundIn, listing, List.filter_map, List.filter_map, List.map_map, List.map_map]
    simp only [Function.comp_def, isFound_cons hroot, entry_treeItem_cons hroot]
  have hsplit : foundIn e fs top =
      ((branch e fs top []).filter fun names => isFound e fs (treeItem e fs top names)).map
        fun names => (treeItem e fs top names).entry := by
    rw [foundIn, listing, List.filter_map, List.map_map]
    rfl
  rw [hsplit, branch_nil_eq hfilter, ← List.singleton_append, List.filter_append, List.map_append,
    List.filter_flatMap, List.map_flatMap]
  simp only [hchild]
  congr 1
  cases hfound : isFound e fs (treeItem e fs top []) <;> simp [hfound, addMatch]

theorem forall_listing_iff (hroot : e.root ≠ []) (hfilter : e.filter = none) :
    (∀ item ∈ listing e fs top, Answers e fs item) ↔
      Answers e fs (treeItem e fs top []) ∧
        ∀ c ∈ namesInReach e.query fs top, ∀ item ∈ listing (childErrand e c) fs (c :: top),
          Answers (childErrand e c) fs item := by
  simp only [listing, branch_nil_eq hfilter, List.forall_mem_map, List.forall_mem_cons,
    List.forall_mem_flatMap, answers_cons hroot hfilter]

/-! ### The visit of a root -/

/-- A visit that succeeds writes the line of the entry if it is found and to be printed. -/
theorem visit_ok (hquiet : e.setting.Quiet) (h : visit e item w = .ok found v) :
    verdict e w.files item = .ok found ∧
      Fits e.setting w (printed e.query (addMatch [] found item)) ∧
      Adds w (printed e.query (addMatch [] found item)) v := by
  have hlines : printed e.query (addMatch [] found item) =
      if found && e.query.print then [lineOf item.entry] else [] := by
    rw [printed, addMatch]
    cases found <;> cases e.query.print <;> rfl
  have hvisit := visit_result e item w
  rw [h] at hvisit
  obtain ⟨hverdict, hreport⟩ := hvisit
  have hroom := (hreport.room []).2 fits_nil
  rw [List.append_nil, ← hlines] at hroom
  exact ⟨hverdict, hroom, hreport.files hquiet, hlines ▸ hreport.written⟩

theorem exists_visit (hverdict : verdict e w.files item = .ok found)
    (hroom : Fits e.setting w (printed e.query (addMatch [] found item))) :
    ∃ v, visit e item w = .ok found v := by
  have hvisit := visit_result e item w
  cases h : visit e item w with
  | ok b v =>
    rw [h] at hvisit
    obtain rfl := Except.ok.inj (hvisit.1.symm.trans hverdict)
    exact ⟨v, rfl⟩
  | error f v =>
    rw [h] at hvisit
    obtain ⟨-, hfails | ⟨htrue, hprint, hrefusal⟩⟩ := hvisit
    · rw [hverdict] at hfails
      cases hfails
    · obtain rfl := Except.ok.inj (hverdict.symm.trans htrue)
      have hline : printed e.query (addMatch [] true item) = [lineOf item.entry] := by
        rw [printed, if_pos hprint]
        rfl
      rw [hline, fits_singleton, hrefusal] at hroom
      cases hroom

end Walk

open Walk

variable {s : Setting} {q : Query} {root : Text} {top : Location} {n : Nat} {t : List Text}
  {w : World}

/-- The children of a root that are not too deep, in the order of their names, with the locations
where they stand. -/
def childrenAt (q : Query) (fs : FileSystem) (root : Text) (top : Location) :
    List (Text × Location) :=
  (namesInReach q fs top).map fun c => (displayPath root c.text, c :: top)

/-- The shown paths of these children. -/
def childRoots (q : Query) (fs : FileSystem) (root : Text) (top : Location) : List Text :=
  (childrenAt q fs root top).map Prod.fst

/-- The item of a root that is a directory. -/
def rootItem (root : Text) : Item := ⟨Entry.root root (some .directory), [], 0⟩

section Children

variable {fs : FileSystem}

/-- A child of a root stands under its name, if its path names anything. -/
theorem locate_childrenAt (htop : fs.locate s.cwd false root = .ok top)
    (hdir : (fs.nodeAt top).body = .directory)
    (hchildren : ∀ child ∈ childRoots q fs root top, ∃ node, fs.status s.cwd child = .ok node) :
    ∀ r ∈ childrenAt q fs root top, fs.locate s.cwd false r.1 = .ok r.2 := by
  have hroot : root ≠ [] := root_ne_nil (e := ⟨s, q, none, root⟩) htop
  intro r hr
  obtain ⟨node, hstatus⟩ := hchildren _ (List.mem_map_of_mem hr)
  obtain ⟨c, hc, rfl⟩ := List.mem_map.1 hr
  have hpath : displayPath root c.text = joinPath root c.text := pathAt_concat hroot [] c
  have hcheck : FileSystem.checkPath (displayPath root c.text) = .ok () := by
    cases hl : fs.locate s.cwd false (displayPath root c.text) with
    | ok l => exact FileSystem.checkPath_of_locate hl
    | error f => cases (status_of_error hl).symm.trans hstatus
  simp only [hpath] at hcheck ⊢
  exact (FileSystem.locate_joinPath_eq_ok_iff hroot).2
    ⟨hcheck, top, FileSystem.leadsTo_of_locate htop hdir,
      FileSystem.mem_childNames.1 (mem_childNames_of_inReach hc), rfl⟩

theorem treeItem_root (hdir : (fs.nodeAt top).body = .directory) :
    treeItem ⟨s, q, none, root⟩ fs top [] = rootItem root := by
  rw [treeItem, List.reverse_nil, List.nil_append, hdir]
  rfl

/-- What is found under a directory is the directory, if it is found, and then what is found under
its children. -/
theorem foundIn_directory (hroot : root ≠ []) (hdir : (fs.nodeAt top).body = .directory) :
    foundIn ⟨s, q, none, root⟩ fs top =
      addMatch [] (isFound ⟨s, q, none, root⟩ fs (rootItem root)) (rootItem root) ++
        foundUnder s q.fromChild fs (childrenAt q fs root top) := by
  rw [foundIn_eq hroot rfl, treeItem_root hdir, foundUnder, childrenAt, List.flatMap_map]
  rfl

/-- A directory can be searched if it has an answer itself and its children can be searched. -/
theorem answers_directory (htop : fs.locate s.cwd false root = .ok top)
    (hdir : (fs.nodeAt top).body = .directory) :
    (∀ item ∈ listing ⟨s, q, none, root⟩ fs top, Answers ⟨s, q, none, root⟩ fs item) ↔
      (∃ b, verdict ⟨s, q, none, root⟩ fs (rootItem root) = .ok b) ∧
        ∀ r ∈ childrenAt q fs root top, ∀ item ∈ listing ⟨s, q.fromChild, none, r.1⟩ fs r.2,
          Answers ⟨s, q.fromChild, none, r.1⟩ fs item := by
  have hlist : ∃ entries, fs.list s.cwd root = .ok entries :=
    ⟨_, FileSystem.list_eq_ok_iff.2 ⟨top, FileSystem.leadsTo_of_locate htop hdir, rfl⟩⟩
  have hself : Answers ⟨s, q, none, root⟩ fs (rootItem root) ↔
      ∃ b, verdict ⟨s, q, none, root⟩ fs (rootItem root) = .ok b :=
    (answers_iff rfl).trans (and_iff_left fun _ => hlist)
  rw [forall_listing_iff (root_ne_nil (e := ⟨s, q, none, root⟩) htop) rfl, treeItem_root hdir,
    hself, childrenAt, List.forall_mem_map]
  rfl

end Children

/-- A search of a directory that deletes nothing is the visit of the directory and then the search
of its children as roots, in the order of their names and with bounds less by one. The one ends
normally if and only if the other does, with the same count and the same text. Only the paths of the
children must not be too long to be roots. -/
theorem find_directory_iff (hquiet : s.Quiet) (hkeep : q.delete = false)
    (htop : w.files.locate s.cwd false root = .ok top)
    (hdir : (w.files.nodeAt top).body = .directory)
    (hchildren : ∀ child ∈ childRoots q w.files root top,
      ∃ node, w.files.status s.cwd child = .ok node) :
    (∃ w', find s q none [root] w = .ok n w' ∧ w'.written = t) ↔
      ∃ found v m u, visit ⟨s, q, none, root⟩ (rootItem root) w = .ok found v ∧
        find s q.fromChild none (childRoots q w.files root top) v = .ok m u ∧
        n = found.toNat + m ∧ u.written = t := by
  have hroot : root ≠ [] := root_ne_nil (e := ⟨s, q, none, root⟩) htop
  have hplaced := locate_childrenAt htop hdir hchildren
  have hkeep' : q.fromChild.delete = false := hkeep
  have hcount (b : Bool) : (addMatch [] b (rootItem root)).length = b.toNat := by cases b <;> rfl
  rw [find_root_ok_iff hquiet hkeep htop, foundIn_directory hroot hdir, printed_append,
    List.length_append, hcount, answers_directory htop hdir]
  constructor
  · rintro ⟨⟨⟨b, hverdict⟩, hanswers⟩, hroom, rfl, rfl⟩
    rw [isFound_eq hverdict] at hroom ⊢
    obtain ⟨v, hvisit⟩ := exists_visit hverdict hroom.left
    obtain ⟨-, -, hadds⟩ := visit_ok hquiet hvisit
    rw [← hadds.files] at hplaced hanswers
    have hrest := hroom.right hadds.written
    rw [← hadds.files] at hrest
    obtain ⟨u, hfind, hwritten⟩ :=
      (find_ok_iff hquiet hkeep' hplaced).2 ⟨hanswers, hrest, rfl, rfl⟩
    rw [hadds.files] at hfind hwritten
    refine ⟨b, v, _, u, hvisit, hfind, rfl, ?_⟩
    rw [hwritten, hadds.written, List.append_assoc]
    rfl
  · rintro ⟨b, v, m, u, hvisit, hfind, rfl, rfl⟩
    obtain ⟨hverdict, hfirst, hadds⟩ := visit_ok hquiet hvisit
    rw [← hadds.files] at hplaced
    rw [childRoots, ← hadds.files] at hfind
    obtain ⟨hanswers, hroom, rfl, hwritten⟩ := (find_ok_iff hquiet hkeep' hplaced).1 ⟨u, hfind, rfl⟩
    rw [hadds.files] at hanswers hroom hwritten ⊢
    rw [isFound_eq hverdict]
    refine ⟨⟨⟨b, hverdict⟩, hanswers⟩, (fits_append hadds.written).2 ⟨hfirst, hroom⟩, rfl, ?_⟩
    rw [hwritten, hadds.written, List.append_assoc]
    rfl

/-- Two levels of the small tree, the root not counted, are the first levels of its three children.
-/
theorem find_directory_iff_smallTree :
    ∃ found v m u,
      visit ⟨smallErrand.setting, { maxDepth := some 1, minDepth := some 1 }, none, ['r', '/']⟩
        (rootItem ['r', '/']) ⟨smallTree, [], []⟩ = .ok found v ∧
      find smallErrand.setting { maxDepth := some 0, minDepth := some 0 } none
        [['r', '/', 'a'], ['r', '/', 'b'], ['r', '/', 'l']] v = .ok m u ∧
      3 = found.toNat + m ∧
      u.written = [['r', '/', 'a', '\n'], ['r', '/', 'b', '\n'], ['r', '/', 'l', '\n']] := by
  let q : Query := { maxDepth := some 1, minDepth := some 1 }
  let top : Location := [⟨['r'], rfl, by decide⟩]
  have hchildren : childRoots q smallTree ['r', '/'] top =
      [['r', '/', 'a'], ['r', '/', 'b'], ['r', '/', 'l']] := by
    rw [childRoots, childrenAt, namesInReach, if_neg nofun, ← map_fst_sortByName]
    rfl
  have hwalk : ∃ found w', walk ⟨smallErrand.setting, q, none, ['r', '/']⟩ ⟨smallTree, [], []⟩ =
      .ok found w' ∧ found.length = 3 ∧
        w'.written = [['r', '/', 'a', '\n'], ['r', '/', 'b', '\n'], ['r', '/', 'l', '\n']] := by
    rw [walk_eq_run (e := ⟨smallErrand.setting, q, none, ['r', '/']⟩) rfl,
      run_of_turns_done (n := 5) rfl rfl]
    exact ⟨_, _, rfl, rfl, rfl⟩
  obtain ⟨found, w', hwalk, hcount, hwritten⟩ := hwalk
  have hfind : find smallErrand.setting q none [['r', '/']] ⟨smallTree, [], []⟩ = .ok 3 w' := by
    rw [find_singleton]
    exact (findRoot_of_kept rfl).2 ⟨found, hwalk, hcount.symm⟩
  have hquiet : smallErrand.setting.Quiet := fun _ _ _ => rfl
  have htop : smallTree.locate smallErrand.setting.cwd false ['r', '/'] = .ok top := rfl
  have hstatus : ∀ child ∈ childRoots q smallTree ['r', '/'] top,
      ∃ node, smallTree.status smallErrand.setting.cwd child = .ok node := by
    simp only [hchildren, List.forall_mem_cons]
    exact ⟨⟨_, rfl⟩, ⟨_, rfl⟩, ⟨_, rfl⟩, nofun⟩
  have h := (find_directory_iff hquiet rfl htop rfl hstatus).1 ⟨w', hfind, hwritten⟩
  rwa [hchildren] at h

end FileSearch
