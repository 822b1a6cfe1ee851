import FileSearch.Proofs.Search.Plain

/-!
Deletion below the current directory, with nobody else at work. The path of a single dot leads to
the current directory as long as that is a directory, and what is found below it is removed by its
path as below any other root. But the dot itself cannot be removed: a file system refuses to remove
a directory by a path that ends in a dot.
Main statement: if every directory that was found was found with all its entries, everything but the
current directory is removed, and the deletion fails in the end if and only if that was found too.
-/

namespace FileSearch

open FileSystem Walk

/-- The path of the current directory. -/
def here : Text := ['.']

/-! ### The dot -/

section Here

variable {fs : FileSystem} {cwd l : Location} {followLast : Bool}

theorem locate_here (fs : FileSystem) (cwd : Location) (followLast : Bool) :
    fs.locate cwd followLast here =
      if (fs.nodeAt cwd).body = .directory then .ok cwd
      else .error (.system .notDirectory here) := by
  have hwalk : fs.walkThrough followLast maxLinks (startOf cwd here) (steps here) =
      if (fs.nodeAt cwd).body ≠ .directory then .error .notDirectory else .ok cwd :=
    walkThrough_stay fs followLast maxLinks cwd
  have hcheck : checkPath here = .ok () := rfl
  unfold locate
  rw [hcheck, hwalk]
  by_cases hdir : (fs.nodeAt cwd).body = .directory
  · simp only [hdir, ne_eq, not_true, if_false, if_true]
    rfl
  · simp only [hdir, ne_eq, not_false_eq_true, if_true, if_false]
    rfl

theorem locate_here_of_directory (h : (fs.nodeAt cwd).body = .directory) :
    fs.locate cwd followLast here = .ok cwd := by
  rw [locate_here, if_pos h]

/-- The dot names the current directory, or nothing. -/
theorem locate_here_inv (h : fs.locate cwd followLast here = .ok l) :
    l = cwd ∧ (fs.nodeAt cwd).body = .directory := by
  rw [locate_here] at h
  split at h
  · cases h
    exact ⟨rfl, ‹_›⟩
  · cases h

/-- The current directory is not removed by its dot. -/
theorem removeNode_here {s : Setting} (h : (fs.nodeAt s.cwd).body = .directory) :
    Delete.removeNode s fs here = .error (.system .invalid here) := by
  have hleads : fs.leadsToDirectory s.cwd here = true := by
    rw [leadsToDirectory, locate_here_of_directory h]
    exact decide_eq_true h
  have hlink : fs.isLink s.cwd here = false := by
    rw [isLink, status, locate_here_of_directory h]
    simp [Except.map, h, Body.kind]
  have hparent : fs.locateParent s.cwd here = .ok (s.cwd, some ['.']) := by
    have hsteps : fs.locateSteps (startOf s.cwd here) [] = .ok s.cwd := by
      rw [locateSteps, walkThrough, walkTo]
      rfl
    have hway : (segments here).filter (!·.isEmpty) = [['.']] := rfl
    have hcheck : checkPath here = .ok () := rfl
    unfold locateParent
    simp only [hcheck, hway, List.dropLast_singleton, hsteps, h, if_true]
    rfl
  rw [Delete.removeNode, hleads, hlink, removeDirectory, hparent]
  rfl

end Here

/-! ### Targets below a root -/

namespace Delete

variable {s : Setting} {fs : FileSystem} {root : Text} {top : Location} {ns : List Name}

/-- A path below a root addresses what stands under its names below the place that the root names,
if the root does so as long as that is a directory. -/
theorem addresses_below (hroot : root ≠ [])
    (hanchor : ∀ files : FileSystem, (files.nodeAt top).body = .directory →
      files.locate s.cwd false root = .ok top)
    (hne : ns ≠ []) (hcheck : checkPath (pathAt root ns) = .ok ()) :
    Addresses s (pathAt root ns) (ns.reverse ++ top) := by
  obtain ⟨init, n, rfl⟩ := (List.eq_nil_or_concat ns).resolve_left hne
  rw [List.concat_eq_append] at hcheck ⊢
  rw [List.reverse_append, List.reverse_singleton, List.singleton_append, List.cons_append]
  refine ⟨n, _, rfl, ?_⟩
  intro files node hnode
  have hsome : (files.get? (n :: (init.reverse ++ top))).isSome := by simp [hnode]
  have hbelow : (files.get? ((init ++ [n]).reverse ++ top)).isSome := by simpa using hsome
  have htop : (files.nodeAt top).body = .directory :=
    nodeAt_of_isDirectory (isDirectory_of_get?_append (by simp) hbelow)
  have hplace : files.locate s.cwd false (pathAt root (init ++ [n])) =
      .ok (n :: (init.reverse ++ top)) := by
    simpa using locate_below hroot (hanchor files htop) (fun _ => hbelow) hcheck
  have hend : endsWith (pathAt root (init ++ [n])) '/' = false := by
    rw [pathAt_concat hroot]
    exact endsWith_joinPath _ n
  exact removeNode_eq hnode (locateParent_below hroot (hanchor files htop) hsome hcheck) hplace hend

/-- Places below a root can all be removed if they are given with all that stands in them. -/
theorem removePaths_below {names : List (List Name)} {w : World} (hroot : root ≠ [])
    (hanchor : ∀ files : FileSystem, (files.nodeAt top).body = .directory →
      files.locate s.cwd false root = .ok top)
    (hsub : names.Sublist (w.files.preorder top)) (hne : ∀ ns ∈ names, ns ≠ [])
    (hcheck : ∀ ns ∈ names, checkPath (pathAt root ns) = .ok ())
    (hclosed : ∀ ns ∈ names, ∀ n, (w.files.get? ((ns ++ [n]).reverse ++ top)).isSome →
      ns ++ [n] ∈ names) :
    ∃ v, removePaths s (names.map (pathAt root)).reverse w = .ok () v ∧
      Lost s.stamp w.files v.files fun l => ∃ ns ∈ names, l = ns.reverse ++ top := by
  have htargets : Targets s w.files (names.map fun ns => (pathAt root ns, ns.reverse ++ top)) :=
    targets_of_preorder hsub
      (fun ns hns => addresses_below hroot hanchor (hne ns hns) (hcheck ns hns))
      fun ns hns => (mem_preorder_iff.1 (hsub.subset hns)).resolve_left (hne ns hns)
  have hlost : Lost s.stamp w.files w.files (Among []) :=
    (Lost.refl _ _).congr fun l => by simp [Among]
  rw [← List.append_nil (names.map _)] at htargets
  have hresult := removePaths_result htargets hlost
  simp only [List.append_nil, List.map_map, Function.comp_def] at hresult
  cases hrun : removePaths s (names.map (pathAt root)).reverse w with
  | ok u v =>
    rw [hrun] at hresult
    refine ⟨v, rfl, hresult.2.congr fun l => ?_⟩
    simp [Among, eq_comm]
  | error f v =>
    rw [hrun] at hresult
    obtain ⟨earlier, t, later, hsplit, ⟨n, hsome, hkept⟩, -⟩ := hresult
    have ht : t ∈ names.map fun ns => (pathAt root ns, ns.reverse ++ top) := by
      rw [hsplit]
      exact List.mem_append_right _ List.mem_cons_self
    obtain ⟨ns, hns, rfl⟩ := List.mem_map.1 ht
    have hmem := hclosed ns hns n (by simpa using hsome)
    exact absurd ⟨_, List.mem_map_of_mem hmem, by simp⟩ hkept

end Delete

/-! ### Deletion below the dot -/

/-- In the order of a tree its top comes first or not at all. -/
theorem eq_filter_or_eq_nil_cons {names : List (List Name)}
    (h : names.Pairwise fun a b => ¬ b <+: a) :
    names = names.filter (· ≠ []) ∨ names = [] :: names.filter (· ≠ []) := by
  cases names with
  | nil => exact .inl rfl
  | cons first rest =>
    have hlater : rest.filter (· ≠ []) = rest := by
      rw [List.filter_eq_self]
      rintro ns hns
      have hns : ns ≠ [] := by
        rintro rfl
        exact (List.pairwise_cons.1 h).1 [] hns List.nil_prefix
      exact decide_eq_true hns
    by_cases hfirst : first = []
    · right
      rw [List.filter_cons_of_neg (by simpa using hfirst), hlater, hfirst]
    · left
      rw [List.filter_cons_of_pos (by simpa using hfirst), hlater]

theorem removePaths_append {s : Setting} {paths more : List Text} :
    Delete.removePaths s (paths ++ more) =
      Delete.removePaths s paths >>= fun _ => Delete.removePaths s more := by
  induction paths with
  | nil => rfl
  | cons path paths ih =>
    rw [List.cons_append, Delete.removePaths, Delete.removePaths, ih, bind_assoc]

variable {e : Errand} {found : List Entry} {w w₁ : World}

/-- The names under which entries are found below the root. -/
def foundNames (e : Errand) (fs : FileSystem) (top : Location) : List (List Name) :=
  (branch e fs top []).filter fun ns => isFound e fs (treeItem e fs top ns)

theorem map_path_foundIn (e : Errand) (fs : FileSystem) (top : Location) :
    (foundIn e fs top).map Entry.path = (foundNames e fs top).map (pathAt e.root) := by
  rw [foundIn, listing, List.filter_map, List.map_map, List.map_map, foundNames]
  rfl

theorem mem_foundNames {fs : FileSystem} {top : Location} {ns : List Name} :
    ns ∈ foundNames e fs top ↔
      ns ∈ branch e fs top [] ∧ isFound e fs (treeItem e fs top ns) = true := List.mem_filter

theorem foundNames_sublist (e : Errand) (fs : FileSystem) (top : Location) :
    (foundNames e fs top).Sublist (fs.preorder top) :=
  List.filter_sublist.trans (branch_nil_sublist e fs top)

/-- What stands in a place that is found is found, if every directory is found with its entries. -/
theorem mem_foundNames_of_complete {fs : FileSystem} {top : Location}
    (hroot : fs.locate e.setting.cwd false e.root = .ok top)
    (hlength : ∀ m ∈ foundIn e fs top, byteLength m.path < maxPathBytes)
    (hcomplete : ∀ d ∈ foundIn e fs top,
      ¬ IsIncomplete fs e.setting.cwd (foundIn e fs top) d)
    {ns : List Name} {n : Name} (hns : ns ∈ foundNames e fs top)
    (hsome : (fs.get? ((ns ++ [n]).reverse ++ top)).isSome) : ns ++ [n] ∈ foundNames e fs top := by
  obtain ⟨hbranch, hfound⟩ := mem_foundNames.1 hns
  have hmem := mem_foundIn_iff.2 ⟨ns, hbranch, hfound, rfl⟩
  have hplace := locate_of_mem_branch hroot hbranch (checkPath_pathAt hroot (hlength _ hmem))
  have hsome : (fs.get? (n :: (ns.reverse ++ top))).isSome := by simpa using hsome
  by_contra hnot
  have hdir := nodeAt_directory_of_isSome hsome
  refine hcomplete _ hmem ⟨_, n, hplace, hdir, hsome, fun hmatched => ?_⟩
  obtain ⟨ms, hms, hfound, hsame⟩ := (isMatched_foundIn_iff hroot hlength).1 hmatched
  have hconcat : (ns ++ [n]).reverse ++ top = ms.reverse ++ top := by simpa using hsame
  obtain rfl : ns ++ [n] = ms := List.reverse_inj.1 (List.append_cancel_right hconcat)
  exact hnot (mem_foundNames.2 ⟨hms, hfound⟩)

/-- The same without the root itself. -/
def namesBelow (e : Errand) (fs : FileSystem) (top : Location) : List (List Name) :=
  (foundNames e fs top).filter (· ≠ [])

theorem mem_namesBelow {fs : FileSystem} {top : Location} {ns : List Name} :
    ns ∈ namesBelow e fs top ↔ ns ∈ foundNames e fs top ∧ ns ≠ [] := by
  simp [namesBelow, List.mem_filter]

/-- What is found below the current directory can be removed, if every directory is found with its
entries. -/
theorem removePaths_namesBelow (hroot : e.root = here) (hfiles : w₁.files = w.files)
    (htop : w.files.locate e.setting.cwd false e.root = .ok e.setting.cwd)
    (hlength : ∀ m ∈ foundIn e w.files e.setting.cwd, byteLength m.path < maxPathBytes)
    (hcomplete : ∀ d ∈ foundIn e w.files e.setting.cwd,
      ¬ IsIncomplete w.files e.setting.cwd (foundIn e w.files e.setting.cwd) d) :
    ∃ v, Delete.removePaths e.setting
        ((namesBelow e w.files e.setting.cwd).map (pathAt here)).reverse w₁ = .ok () v ∧
      Lost e.setting.stamp w.files v.files fun l => l ≠ e.setting.cwd ∧
        IsMatched w.files e.setting.cwd (foundIn e w.files e.setting.cwd) l := by
  have hsub : (namesBelow e w.files e.setting.cwd).Sublist (w₁.files.preorder e.setting.cwd) := by
    rw [hfiles]
    exact List.filter_sublist.trans (foundNames_sublist e w.files _)
  have hcheck : ∀ ns ∈ namesBelow e w.files e.setting.cwd, checkPath (pathAt here ns) = .ok () := by
    intro ns hns
    obtain ⟨hbranch, hfound⟩ := mem_foundNames.1 (mem_namesBelow.1 hns).1
    rw [← hroot]
    exact checkPath_pathAt htop (hlength _ (mem_foundIn_iff.2 ⟨ns, hbranch, hfound, rfl⟩))
  have hclosed : ∀ ns ∈ namesBelow e w.files e.setting.cwd, ∀ n,
      (w₁.files.get? ((ns ++ [n]).reverse ++ e.setting.cwd)).isSome →
        ns ++ [n] ∈ namesBelow e w.files e.setting.cwd := by
    intro ns hns n hsome
    rw [hfiles] at hsome
    exact mem_namesBelow.2
      ⟨mem_foundNames_of_complete htop hlength hcomplete (mem_namesBelow.1 hns).1 hsome, by simp⟩
  obtain ⟨v, hrun, hlost⟩ := Delete.removePaths_below (s := e.setting) (by decide : here ≠ [])
    (fun files h => locate_here_of_directory h) hsub (fun ns hns => (mem_namesBelow.1 hns).2)
    hcheck hclosed
  rw [hfiles] at hlost
  refine ⟨v, hrun, hlost.congr fun l => ?_⟩
  rw [isMatched_foundIn_iff htop hlength]
  constructor
  · rintro ⟨ns, hns, rfl⟩
    obtain ⟨hmem, hne⟩ := mem_namesBelow.1 hns
    obtain ⟨hbranch, hfound⟩ := mem_foundNames.1 hmem
    exact ⟨by simpa using hne, ns, hbranch, hfound, rfl⟩
  · rintro ⟨hne, ns, hbranch, hfound, rfl⟩
    have hmem := mem_foundNames.2 ⟨hbranch, hfound⟩
    exact ⟨ns, mem_namesBelow.2 ⟨hmem, by simpa using hne⟩, rfl⟩

/-- If every directory that was found was found with all its entries, then what was found below the
current directory is removed, and nothing else. If the current directory was found as well, the
deletion fails with that. -/
theorem deleteFound_here (hquiet : e.setting.Quiet) (hroot : e.root = here)
    (hwalk : walk e w = .ok found w₁)
    (hlength : ∀ m ∈ found, byteLength m.path < maxPathBytes)
    (hcomplete : ∀ d ∈ found, ¬ IsIncomplete w.files e.setting.cwd found d) :
    ∃ v, Lost e.setting.stamp w.files v.files
        (fun l => l ≠ e.setting.cwd ∧ IsMatched w.files e.setting.cwd found l) ∧
      deleteFound e.setting (found.map Entry.path) w₁ =
        if here ∈ found.map Entry.path then .error (.system .invalid here) v else .ok () v := by
  obtain ⟨top, hcompletes, rfl, hadds⟩ := completes_of_walk hquiet hwalk
  have htop := hcompletes.root
  obtain ⟨rfl, hdir⟩ : top = e.setting.cwd ∧ (w.files.nodeAt e.setting.cwd).body = .directory := by
    rw [hroot] at htop
    exact locate_here_inv htop
  obtain ⟨v, hrun, hlost⟩ :=
    removePaths_namesBelow hroot hadds.files htop hlength hcomplete
  have hpaths : (foundIn e w.files e.setting.cwd).map Entry.path =
      (foundNames e w.files e.setting.cwd).map (pathAt here) := by
    rw [map_path_foundIn, hroot]
  rw [deleteFound, hpaths]
  rcases eq_filter_or_eq_nil_cons ((pairwise_preorder w.files e.setting.cwd).sublist
    (foundNames_sublist e w.files _)) with hnames | hnames
  · have hnot : here ∉ (foundNames e w.files e.setting.cwd).map (pathAt here) := by
      intro hin
      obtain ⟨ns, hns, hpath⟩ := List.mem_map.1 hin
      rw [hnames] at hns
      exact (mem_namesBelow.1 hns).2 (pathAt_injective (hpath.trans (pathAt_nil here).symm))
    refine ⟨v, hlost, ?_⟩
    rw [if_neg hnot, hnames]
    exact hrun
  · have hin : here ∈ (foundNames e w.files e.setting.cwd).map (pathAt here) := by
      rw [hnames]
      exact List.mem_cons_self
    have hstill : (v.files.nodeAt e.setting.cwd).body = .directory := by
      rw [hlost.body_nodeAt fun h => h.1 rfl]
      exact hdir
    obtain ⟨v', hlast, hfiles⟩ := Delete.removePath_of_error (removeNode_here hstill)
    refine ⟨v', hfiles ▸ hlost, ?_⟩
    rw [if_pos hin, hnames, List.map_cons, List.reverse_cons, removePaths_append]
    exact (Search.bind_ok hrun).trans (Search.bind_error hlast)

end FileSearch
