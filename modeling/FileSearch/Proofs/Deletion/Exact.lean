import FileSearch.Proofs.Deletion.Removal
import FileSearch.Proofs.Walk.Refinement

/-!
What is gone after a deletion. The entries that a walk found are removed from the last to the first,
and a walk finds a directory before anything that stands in it. So when the turn of a directory
comes, the entries that are left in it are those that were not found.
Main statement: a deletion fails if and only if a directory was found with an entry that was not,
and then it stops at the last such directory; what it has removed by then is gone, and nothing else.
-/

namespace FileSearch

namespace Delete

open FileSystem

variable {s : Setting} {fs files : FileSystem} {before after targets : List (Text × Location)}
  {t : Text × Location} {path : Text} {w : World}

/-! ### One removal -/

theorem removePath_of_ok (h : removeNode s w.files path = .ok files) :
    ∃ w', removePath s path w = .ok () w' ∧ w'.files = files := by
  obtain ⟨v, hv, hlog⟩ := Search.onlyLogs_record (.deleting path) w
  rw [← hlog.files] at h
  refine ⟨{ v with files }, ?_, rfl⟩
  rw [removePath, Search.bind_ok hv, Search.get_bind, Search.ofExcept_bind_ok h]
  rfl

theorem removePath_of_error {f : Fault} (h : removeNode s w.files path = .error f) :
    ∃ w', removePath s path w = .error f w' ∧ w'.files = w.files := by
  obtain ⟨v, hv, hlog⟩ := Search.onlyLogs_record (.deleting path) w
  rw [← hlog.files] at h
  refine ⟨v, ?_, hlog.files⟩
  rw [removePath, Search.bind_ok hv, Search.get_bind, Search.ofExcept_bind_error h]

theorem removePath_ok_inv {w' : World} (h : removePath s path w = .ok () w') :
    removeNode s w.files path = .ok w'.files ∧ w'.written = w.written := by
  obtain ⟨v, hv, hlog⟩ := Search.onlyLogs_record (.deleting path) w
  rw [removePath, Search.bind_ok hv, Search.get_bind, hlog.files] at h
  obtain ⟨files, u, hout, h⟩ := Search.bind_eq_ok_iff.1 h
  obtain ⟨hremove, rfl⟩ := Search.ofExcept_eq_ok_iff.1 hout
  cases h
  exact ⟨hremove, hlog.written⟩

/-! ### Targets -/

/-- Paths to remove with the locations they address, in the order of discovery: what stands in a
directory comes after it. -/
structure Targets (s : Setting) (fs : FileSystem) (targets : List (Text × Location)) : Prop where
  addressed : ∀ t ∈ targets, Addresses s t.1 t.2
  present : ∀ t ∈ targets, (fs.get? t.2).isSome
  ordered : targets.Pairwise fun a b => ¬ b.2 <:+ a.2

def Among (targets : List (Text × Location)) (l : Location) : Prop := ∃ t ∈ targets, t.2 = l

/-- Places below a location, with paths that address them, in the order of the tree. -/
theorem targets_of_preorder {path : List Name → Text} {top : Location} {names : List (List Name)}
    (hsub : names.Sublist (fs.preorder top))
    (haddressed : ∀ ns ∈ names, Addresses s (path ns) (ns.reverse ++ top))
    (hpresent : ∀ ns ∈ names, (fs.get? (ns.reverse ++ top)).isSome) :
    Targets s fs (names.map fun ns => (path ns, ns.reverse ++ top)) := by
  refine ⟨?_, ?_, ?_⟩
  · intro t ht
    obtain ⟨ns, hns, rfl⟩ := List.mem_map.1 ht
    exact haddressed ns hns
  · intro t ht
    obtain ⟨ns, hns, rfl⟩ := List.mem_map.1 ht
    exact hpresent ns hns
  · rw [List.pairwise_map]
    refine ((pairwise_preorder fs top).sublist hsub).imp fun {a b} hab hsuf => hab ?_
    exact List.reverse_suffix.1 (List.suffix_append_self_iff.1 hsuf)

/-- Something stands in the target that is no target. -/
def Keeps (fs : FileSystem) (targets : List (Text × Location)) (t : Text × Location) : Prop :=
  ∃ n, (fs.get? (n :: t.2)).isSome ∧ ¬ Among targets (n :: t.2)

/-- Once the later targets are gone, nothing stands in a target but what it keeps. -/
theorem entries_eq_nil_iff (h : Targets s fs (before ++ t :: after))
    (hlost : Lost s.stamp fs files (Among after)) :
    files.entries t.2 = [] ↔ ¬ Keeps fs (before ++ t :: after) t := by
  have hlater (n : Name) : Among (before ++ t :: after) (n :: t.2) ↔ Among after (n :: t.2) := by
    constructor
    · rintro ⟨u, hu, hloc⟩
      rcases List.mem_append.1 hu with hu | hu
      · -- what stands in the target does not come before it
        have hord := (List.pairwise_append.1 h.ordered).2.2 u hu t List.mem_cons_self
        rw [hloc] at hord
        exact absurd (List.suffix_cons n t.2) hord
      · rcases List.mem_cons.1 hu with rfl | hu
        · have := congrArg List.length hloc
          simp at this
        · exact ⟨u, hu, hloc⟩
    · rintro ⟨u, hu, hloc⟩
      exact ⟨u, List.mem_append_right _ (List.mem_cons_of_mem _ hu), hloc⟩
  unfold Keeps
  simp only [hlater, ← hlost.isSome_iff, not_exists]
  rw [List.eq_nil_iff_forall_not_mem]
  constructor
  · intro hnone n hsome
    obtain ⟨node, hnode⟩ := Option.isSome_iff_exists.1 hsome
    exact hnone (n, node) (mem_entries_iff.2 hnode)
  · rintro hnone ⟨n, node⟩ hmem
    exact hnone n (Option.isSome_iff_exists.2 ⟨node, mem_entries_iff.1 hmem⟩)

/-- The turn of a target when the later ones are gone. -/
theorem removeNode_target (h : Targets s fs (before ++ t :: after))
    (hlost : Lost s.stamp fs files (Among after)) :
    (Keeps fs (before ++ t :: after) t ∧
        removeNode s files t.1 = .error (.system .notEmpty t.1)) ∨
      (¬ Keeps fs (before ++ t :: after) t ∧ ∃ files', removeNode s files t.1 = .ok files' ∧
        Lost s.stamp fs files' (Among (t :: after))) := by
  have hmem : t ∈ before ++ t :: after := List.mem_append_right _ List.mem_cons_self
  obtain ⟨n, dir, hloc, haddr⟩ := h.addressed t hmem
  have hnot : ¬ Among after t.2 := by
    rintro ⟨u, hu, hsame⟩
    have hord := (List.pairwise_cons.1 (List.pairwise_append.1 h.ordered).2.1).1 u hu
    rw [hsame] at hord
    exact hord (List.suffix_refl _)
  obtain ⟨node, hnode⟩ :=
    Option.isSome_iff_exists.1 (hlost.isSome_iff.2 ⟨h.present t hmem, hnot⟩)
  rw [haddr files node hnode]
  by_cases hkeeps : Keeps fs (before ++ t :: after) t
  · have hentries : files.entries t.2 ≠ [] := by
      intro hnil
      exact (entries_eq_nil_iff h hlost).1 hnil hkeeps
    have hdir : node.body = .directory := by
      obtain ⟨⟨m, child⟩, hchild⟩ := List.exists_mem_of_ne_nil _ hentries
      have := nodeAt_directory_of_isSome (Option.isSome_iff_exists.2 ⟨_, mem_entries_iff.1 hchild⟩)
      rwa [nodeAt_of_get? hnode] at this
    exact .inl ⟨hkeeps, if_pos ⟨hdir, hentries⟩⟩
  · have hentries := (entries_eq_nil_iff h hlost).2 hkeeps
    refine .inr ⟨hkeeps, _, if_neg fun hfull => hfull.2 hentries, ?_⟩
    have hbelow (k : Name) : files.get? (k :: n :: dir) = none := by
      rw [← hloc, Option.eq_none_iff_forall_ne_some]
      intro child hchild
      have := mem_entries_iff.2 hchild
      rw [hentries] at this
      cases this
    refine (hlost.takeOut hbelow).congr fun l => ?_
    simp only [Among, List.exists_mem_cons_iff, hloc, eq_comm]

/-! ### All removals -/

/-- Removing targets, the last one first, when those after them are gone already. -/
theorem removePaths_result (h : Targets s fs (before ++ after))
    (hlost : Lost s.stamp fs w.files (Among after)) :
    match removePaths s (before.map Prod.fst).reverse w with
    | .ok _ w' => (∀ t ∈ before, ¬ Keeps fs (before ++ after) t) ∧
        Lost s.stamp fs w'.files (Among (before ++ after))
    | .error f w' => ∃ earlier t later, before = earlier ++ t :: later ∧
        Keeps fs (before ++ after) t ∧ (∀ u ∈ later, ¬ Keeps fs (before ++ after) u) ∧
          f = .system .notEmpty t.1 ∧ Lost s.stamp fs w'.files (Among (later ++ after)) := by
  induction before using List.reverseRecOn generalizing after w with
  | nil => exact ⟨nofun, hlost⟩
  | append_singleton earlier t ih =>
    rw [List.append_assoc, List.singleton_append] at h
    rw [List.map_append, List.map_singleton, List.reverse_append, List.reverse_singleton,
      List.singleton_append, removePaths, List.append_assoc, List.singleton_append]
    rcases removeNode_target h hlost with ⟨hkeeps, hremove⟩ | ⟨hkeeps, files', hremove, hlost'⟩
    · obtain ⟨v, hv, hfiles⟩ := removePath_of_error hremove
      rw [Search.bind_error hv]
      exact ⟨earlier, t, [], rfl, hkeeps, nofun, rfl, by rwa [hfiles]⟩
    · obtain ⟨v, hv, rfl⟩ := removePath_of_ok hremove
      rw [Search.bind_ok hv]
      have hrest := ih h hlost'
      cases hr : removePaths s (earlier.map Prod.fst).reverse v with
      | ok u w' =>
        rw [hr] at hrest
        refine ⟨?_, hrest.2⟩
        intro u hu
        rcases List.mem_append.1 hu with hu | hu
        · exact hrest.1 u hu
        · rwa [List.mem_singleton.1 hu]
      | error f w' =>
        rw [hr] at hrest
        obtain ⟨first, u, later, rfl, hkeeps', hlater, rfl, hgone⟩ := hrest
        refine ⟨first, u, later ++ [t], by simp, hkeeps', ?_, rfl, by simpa using hgone⟩
        intro x hx
        rcases List.mem_append.1 hx with hx | hx
        · exact hlater x hx
        · rwa [List.mem_singleton.1 hx]

/-- Removals write nothing, and the paths of those that succeed can be asked for. -/
theorem removePaths_ok_inv {paths : List Text} {w' : World}
    (h : removePaths s paths w = .ok () w') :
    (∀ path ∈ paths, checkPath path = .ok ()) ∧ w'.written = w.written := by
  induction paths generalizing w with
  | nil =>
    cases h
    exact ⟨nofun, rfl⟩
  | cons path paths ih =>
    obtain ⟨u, v, hpath, hrest⟩ := Search.bind_eq_ok_iff.1 h
    obtain ⟨hremove, hwritten⟩ := removePath_ok_inv hpath
    obtain ⟨hchecks, hwritten'⟩ := ih hrest
    exact ⟨List.forall_mem_cons.2 ⟨checkPath_of_removeNode hremove, hchecks⟩,
      hwritten'.trans hwritten⟩

end Delete

/-! ### What a walk found -/

open FileSystem

/-- One of the entries names the location. -/
def IsMatched (fs : FileSystem) (cwd : Location) (found : List Entry) (l : Location) : Prop :=
  ∃ m ∈ found, fs.locate cwd false m.path = .ok l

/-- The entry is a directory, and no link to one, in which something stands that is not among the
entries. -/
def IsIncomplete (fs : FileSystem) (cwd : Location) (found : List Entry) (d : Entry) : Prop :=
  ∃ dir n, fs.locate cwd false d.path = .ok dir ∧ (fs.nodeAt dir).body = .directory ∧
    (fs.get? (n :: dir)).isSome ∧ ¬ IsMatched fs cwd found (n :: dir)

/-- Where an entry stands. -/
def placeOf (fs : FileSystem) (cwd : Location) (m : Entry) : Location :=
  match fs.locate cwd false m.path with
  | .ok l => l
  | .error _ => []

/-- What is to be removed for the entries. -/
def targetsOf (fs : FileSystem) (cwd : Location) (found : List Entry) : List (Text × Location) :=
  found.map fun m => (m.path, placeOf fs cwd m)

variable {e : Errand} {w w₁ : World} {absolute : Bool} {names : List Name} {found : List Entry}
  {fs : FileSystem} {cwd : Location}

theorem placeOf_eq {m : Entry} {l : Location} (h : fs.locate cwd false m.path = .ok l) :
    placeOf fs cwd m = l := by
  rw [placeOf, h]

/-- What the walk of a plain root finds stands where its paths say, and can be removed by them. -/
theorem targets_of_walk (hquiet : e.setting.Quiet)
    (hplain : IsPlain w.files e.setting.cwd absolute names e.root) (hwalk : walk e w = .ok found w₁)
    (hlength : ∀ m ∈ found, byteLength m.path < maxPathBytes) :
    w₁.files = w.files ∧
      (∀ m ∈ found, w.files.locate e.setting.cwd false m.path =
        .ok (placeOf w.files e.setting.cwd m)) ∧
      Delete.Targets e.setting w.files (targetsOf w.files e.setting.cwd found) := by
  obtain ⟨top, hroot⟩ := Walk.locate_of_walk hwalk
  obtain ⟨htop, hsome⟩ := locate_of_isPlain hplain hroot
  have hfinished := Walk.walk_result hquiet hroot
  rw [hwalk] at hfinished
  -- the names of the entries below the root
  let below := (Walk.branch e w.files top []).filter fun ns =>
    Walk.isFound e w.files (Walk.treeItem e w.files top ns)
  have hfound : found = below.map fun ns => (Walk.treeItem e w.files top ns).entry := by
    rw [hfinished.found, Walk.listing, List.filter_map, List.map_map]
    rfl
  have hbelow : below.Sublist (w.files.preorder top) :=
    List.filter_sublist.trans (Walk.branch_nil_sublist e w.files top)
  have hpath (ns : List Name) :
      (Walk.treeItem e w.files top ns).entry.path = spell absolute (names ++ ns) := by
    rw [← pathAt_spell hplain.ne_nil, ← hplain.text]
    rfl
  have hplace (ns : List Name) :
      (names ++ ns).reverse ++ baseOf absolute e.setting.cwd = ns.reverse ++ top := by
    rw [htop, List.reverse_append, List.append_assoc]
  have hnode : ∀ ns ∈ below, (w.files.get? (ns.reverse ++ top)).isSome := by
    intro ns hns
    rcases mem_preorder_iff.1 (hbelow.subset hns) with rfl | h
    · exact hsome
    · exact h
  have hne (ns : List Name) : names ++ ns ≠ [] := by simp [hplain.ne_nil]
  have hcheck : ∀ ns ∈ below, checkPath (spell absolute (names ++ ns)) = .ok () := by
    intro ns hns
    refine checkPath_spell (hne ns) ?_
    rw [← hpath]
    exact hlength _ (hfound ▸ List.mem_map_of_mem hns)
  have hlocate : ∀ ns ∈ below, w.files.locate e.setting.cwd false
      (Walk.treeItem e w.files top ns).entry.path = .ok (ns.reverse ++ top) := by
    intro ns hns
    obtain ⟨node, hnode⟩ := Option.isSome_iff_exists.1 (hnode ns hns)
    rw [← hplace] at hnode ⊢
    rw [hpath]
    exact locate_spell (hne ns) (hcheck ns hns) hnode (.inl rfl)
  have htargets : targetsOf w.files e.setting.cwd found =
      below.map fun ns => (spell absolute (names ++ ns), ns.reverse ++ top) := by
    rw [targetsOf, hfound, List.map_map]
    refine List.map_congr_left fun ns hns => ?_
    simp only [Function.comp_apply, placeOf_eq (hlocate ns hns), hpath]
  refine ⟨hfinished.files, ?_, ?_⟩
  · rw [hfound]
    intro m hm
    obtain ⟨ns, hns, rfl⟩ := List.mem_map.1 hm
    rw [placeOf_eq (hlocate ns hns), hlocate ns hns]
  · rw [htargets]
    refine Delete.targets_of_preorder hbelow (fun ns hns => ?_) hnode
    rw [← hplace]
    exact Delete.addresses_spell (hne ns) (hcheck ns hns)

theorem among_targetsOf
    (hlocated : ∀ m ∈ found, fs.locate cwd false m.path = .ok (placeOf fs cwd m)) (l : Location) :
    Delete.Among (targetsOf fs cwd found) l ↔ IsMatched fs cwd found l := by
  unfold Delete.Among IsMatched targetsOf
  constructor
  · rintro ⟨t, ht, rfl⟩
    obtain ⟨m, hm, rfl⟩ := List.mem_map.1 ht
    exact ⟨m, hm, hlocated m hm⟩
  · rintro ⟨m, hm, hl⟩
    exact ⟨_, List.mem_map_of_mem hm, placeOf_eq hl⟩

/-- An entry is incomplete when its target keeps something. -/
theorem isIncomplete_iff
    (hlocated : ∀ m ∈ found, fs.locate cwd false m.path = .ok (placeOf fs cwd m))
    {d : Entry} (hd : d ∈ found) :
    IsIncomplete fs cwd found d ↔
      Delete.Keeps fs (targetsOf fs cwd found) (d.path, placeOf fs cwd d) := by
  unfold IsIncomplete Delete.Keeps
  simp only [among_targetsOf hlocated]
  constructor
  · rintro ⟨dir, n, hdir, -, hsome, hnot⟩
    rw [← placeOf_eq hdir] at hsome hnot
    exact ⟨n, hsome, hnot⟩
  · rintro ⟨n, hsome, hnot⟩
    exact ⟨_, n, hlocated d hd, nodeAt_directory_of_isSome hsome, hsome, hnot⟩

/-- What a deletion after a walk of a plain root comes to. -/
theorem deleteFound_result (hquiet : e.setting.Quiet)
    (hplain : IsPlain w.files e.setting.cwd absolute names e.root) (hwalk : walk e w = .ok found w₁)
    (hlength : ∀ m ∈ found, byteLength m.path < maxPathBytes) :
    match deleteFound e.setting (found.map Entry.path) w₁ with
    | .ok _ w₂ => (∀ d ∈ found, ¬ IsIncomplete w.files e.setting.cwd found d) ∧
        Lost e.setting.stamp w.files w₂.files (IsMatched w.files e.setting.cwd found)
    | .error f w₂ => ∃ before d after, found = before ++ d :: after ∧
        IsIncomplete w.files e.setting.cwd found d ∧
        (∀ m ∈ after, ¬ IsIncomplete w.files e.setting.cwd found m) ∧
        f = .system .notEmpty d.path ∧
        Lost e.setting.stamp w.files w₂.files (IsMatched w.files e.setting.cwd after) := by
  obtain ⟨hfiles, hlocated, htargets⟩ := targets_of_walk hquiet hplain hwalk hlength
  have hpaths : found.map Entry.path = (targetsOf w.files e.setting.cwd found).map Prod.fst := by
    rw [targetsOf, List.map_map]
    rfl
  have hlost : Lost e.setting.stamp w.files w₁.files (Delete.Among []) := by
    rw [hfiles]
    exact (Lost.refl _ _).congr fun l => by simp [Delete.Among]
  rw [← List.append_nil (targetsOf w.files e.setting.cwd found)] at htargets
  have h := Delete.removePaths_result htargets hlost
  rw [deleteFound, hpaths]
  cases hrun : Delete.removePaths e.setting
      ((targetsOf w.files e.setting.cwd found).map Prod.fst).reverse w₁ with
  | ok u w₂ =>
    rw [hrun] at h
    simp only [List.append_nil] at h
    obtain ⟨hkeeps, hlost⟩ := h
    refine ⟨?_, hlost.congr (among_targetsOf hlocated)⟩
    intro d hd
    rw [isIncomplete_iff hlocated hd]
    exact hkeeps _ (List.mem_map_of_mem hd)
  | error f w₂ =>
    rw [hrun] at h
    simp only [List.append_nil] at h
    obtain ⟨earlier, t, later, hsplit, hkeeps, hlater, rfl, hlost⟩ := h
    -- the targets are cut where the entries are
    obtain ⟨before, rest, rfl, rfl, hrest⟩ := List.map_eq_append_iff.1 hsplit
    obtain ⟨d, after, rfl, rfl, rfl⟩ := List.map_eq_cons_iff.1 hrest
    have hafter : ∀ m ∈ after, m ∈ before ++ d :: after := by
      intro m hm
      exact List.mem_append_right _ (List.mem_cons_of_mem _ hm)
    refine ⟨before, d, after, rfl, ?_, ?_, rfl, ?_⟩
    · exact (isIncomplete_iff hlocated (List.mem_append_right _ List.mem_cons_self)).2 hkeeps
    · intro m hm
      rw [isIncomplete_iff hlocated (hafter m hm)]
      exact hlater _ (List.mem_map_of_mem hm)
    · exact hlost.congr (among_targetsOf fun m hm => hlocated m (hafter m hm))

/-- A deletion after a walk of a plain root, with nobody else at work, fails if and only if a
directory was found with an entry that was not. If there is no such directory, what was found is
gone. If there is one, the last of them cannot be removed, and what was found after it is gone.
Nothing else is lost or changed, but for the times of directories that lost an entry. -/
theorem deleteFound_exact (hquiet : e.setting.Quiet)
    (hplain : IsPlain w.files e.setting.cwd absolute names e.root) (hwalk : walk e w = .ok found w₁)
    (hlength : ∀ m ∈ found, byteLength m.path < maxPathBytes) :
    ((∃ f w₂, deleteFound e.setting (found.map Entry.path) w₁ = .error f w₂) ↔
      ∃ d ∈ found, IsIncomplete w.files e.setting.cwd found d) ∧
    ((∀ d ∈ found, ¬ IsIncomplete w.files e.setting.cwd found d) →
      ∃ w₂, deleteFound e.setting (found.map Entry.path) w₁ = .ok () w₂ ∧
        Lost e.setting.stamp w.files w₂.files (IsMatched w.files e.setting.cwd found)) ∧
    ((∃ d ∈ found, IsIncomplete w.files e.setting.cwd found d) →
      ∃ before d after w₂, found = before ++ d :: after ∧
        IsIncomplete w.files e.setting.cwd found d ∧
        (∀ m ∈ after, ¬ IsIncomplete w.files e.setting.cwd found m) ∧
        deleteFound e.setting (found.map Entry.path) w₁ = .error (.system .notEmpty d.path) w₂ ∧
        Lost e.setting.stamp w.files w₂.files (IsMatched w.files e.setting.cwd after)) := by
  have h := deleteFound_result hquiet hplain hwalk hlength
  cases hrun : deleteFound e.setting (found.map Entry.path) w₁ with
  | ok u w₂ =>
    rw [hrun] at h
    obtain ⟨hall, hlost⟩ := h
    have hnone : ¬ ∃ d ∈ found, IsIncomplete w.files e.setting.cwd found d := by
      rintro ⟨d, hd, hinc⟩
      exact hall d hd hinc
    refine ⟨⟨?_, ?_⟩, ?_, ?_⟩
    · rintro ⟨f, w', hw'⟩
      cases hw'
    · intro hd
      exact absurd hd hnone
    · intro _
      exact ⟨w₂, rfl, hlost⟩
    · intro hd
      exact absurd hd hnone
  | error f w₂ =>
    rw [hrun] at h
    obtain ⟨before, d, after, hfound, hinc, hafter, rfl, hlost⟩ := h
    have hd : d ∈ found := hfound ▸ List.mem_append_right _ List.mem_cons_self
    refine ⟨⟨?_, ?_⟩, ?_, ?_⟩
    · intro _
      exact ⟨d, hd, hinc⟩
    · intro _
      exact ⟨_, _, rfl⟩
    · intro hall
      exact absurd hinc (hall d hd)
    · intro _
      exact ⟨before, d, after, w₂, hfound, hinc, hafter, rfl, hlost⟩

/-- When all of the small tree is to be deleted, the file that is excluded keeps the root from being
removed. -/
theorem deleteFound_exact_smallTree :
    ∃ found w₁, walk { smallErrand with query := { print := false, delete := true } }
        ⟨smallTree, [], []⟩ = .ok found w₁ ∧
      found.map Entry.path =
        [['r'], ['r', '/', 'a'], ['r', '/', 'a', '/', 'x'], ['r', '/', 'l']] ∧
      ∃ d ∈ found, IsIncomplete smallTree [] found d := by
  let e : Errand := { smallErrand with query := { print := false, delete := true } }
  have hroot : smallTree.locate [] false ['r'] = .ok [⟨['r'], rfl, by decide⟩] := rfl
  have hwalk : ∃ found w₁, walk e ⟨smallTree, [], []⟩ = .ok found w₁ ∧
      found.map Entry.path =
        [['r'], ['r', '/', 'a'], ['r', '/', 'a', '/', 'x'], ['r', '/', 'l']] ∧
      ∃ f w₂, deleteFound e.setting (found.map Entry.path) w₁ = .error f w₂ := by
    rw [Walk.walk_eq_run (e := e) hroot, Walk.run_of_turns_done (n := 4) rfl rfl]
    refine ⟨_, _, rfl, rfl, Search.isError_iff.1 ?_⟩
    decide +kernel
  obtain ⟨found, w₁, hwalk, hpaths, hfails⟩ := hwalk
  have hplain : IsPlain smallTree [] false [⟨['r'], rfl, by decide⟩] ['r'] := by
    refine ⟨by simp, rfl, fun before hpre hne => ?_⟩
    cases before with
    | nil => exact isDirectory_nil smallTree
    | cons n rest =>
      obtain ⟨rfl, hrest⟩ := List.cons_prefix_cons.1 hpre
      obtain rfl := List.prefix_nil.1 hrest
      exact absurd rfl hne
  have hlength : ∀ m ∈ found, byteLength m.path < maxPathBytes := by
    intro m hm
    have := List.mem_map_of_mem (f := Entry.path) hm
    rw [hpaths] at this
    revert this
    generalize m.path = path
    revert path
    decide
  exact ⟨found, w₁, hwalk, hpaths,
    (deleteFound_exact (e := e) (fun _ _ _ => rfl) hplain hwalk hlength).1.1 hfails⟩

end FileSearch
