import FileSearch.Proofs.Deletion.Interference
import FileSearch.Proofs.Query.Conjunction
import FileSearch.Proofs.Search.Plain

/-!
What a search for empty entries finds, with nobody else at work. A directory is empty without
entries, and all else is empty with size zero. A link has the size of its target; a special file has
size zero.
Main statement: in a file system without empty links, every entry that is found is a directory
without entries, a regular file without content, or a special file.
-/

namespace FileSearch

open FileSystem

variable {s : Setting} {q : Query} {source : Option FilterSource} {root : Text}
  {roots before : List Text} {found : List Entry} {fs fs' : FileSystem} {cwd top : Location}
  {w v : World} {n : Nat}

/-! ### Empty entries -/

/-- No link has an empty target. -/
def HasNoEmptyLink (fs : FileSystem) : Prop :=
  ∀ l node, fs.get? l = some node → node.body ≠ .symlink []

/-- The path names something without content, which is no link. -/
inductive HoldsNothing (fs : FileSystem) (cwd : Location) (path : Text) : Prop
  | directory {l : Location} (hplace : fs.locate cwd false path = .ok l)
      (hbody : (fs.nodeAt l).body = .directory) (hentries : fs.entries l = [])
  | file {l : Location} {content : Content} (hplace : fs.locate cwd false path = .ok l)
      (hbody : (fs.nodeAt l).body = .file content) (hsize : content.size = 0)
  | special {l : Location} (hplace : fs.locate cwd false path = .ok l)
      (hbody : (fs.nodeAt l).body = .special)

theorem HasNoEmptyLink.within (h : HasNoEmptyLink fs) (hwithin : Within fs' fs) :
    HasNoEmptyLink fs' := by
  intro l node' hnode' hbody'
  obtain ⟨node, hnode, hbody⟩ := hwithin l node' hnode'
  exact h l node hnode (hbody.trans hbody')

theorem HasNoEmptyLink.nodeAt_ne (h : HasNoEmptyLink fs) (l : Location) :
    (fs.nodeAt l).body ≠ .symlink [] := by
  cases hnode : fs.get? l with
  | none => simp [nodeAt, hnode]
  | some node =>
    rw [nodeAt_of_get? hnode]
    exact h l node hnode

theorem holdsNothing_of_size {path : Text} {l : Location} (hlinks : HasNoEmptyLink fs)
    (hplace : fs.locate cwd false path = .ok l) (hdir : (fs.nodeAt l).body ≠ .directory)
    (hsize : (fs.nodeAt l).body.size = 0) : HoldsNothing fs cwd path := by
  have hlink := hlinks.nodeAt_ne l
  cases hbody : (fs.nodeAt l).body with
  | file content =>
    rw [hbody] at hsize
    exact .file hplace hbody hsize
  | directory => exact absurd hbody hdir
  | symlink target =>
    rw [hbody] at hsize hlink
    have hlength := length_le_byteLength target
    have hzero : byteLength target = 0 := hsize
    have hnil : target = [] := List.length_eq_zero_iff.1 (by omega)
    exact absurd (congrArg Body.symlink hnil) hlink
  | special => exact .special hplace hbody

/-! ### Entries of a walk -/

namespace Walk

variable {e : Errand} {item : Item} {ns : List Name}

/-- With nobody else at work, the items whose turn comes are those of the listing. -/
theorem mem_listing_of_checked (hquiet : e.setting.Quiet)
    (hroot : w.files.locate e.setting.cwd false e.root = .ok top)
    (h : item ∈ checked e (start e w top)) : item ∈ listing e w.files top := by
  have hresult := walk_result hquiet hroot
  cases hwalk : walk e w with
  | ok found w' =>
    rw [hwalk] at hresult
    rwa [hresult.checked] at h
  | error f w' =>
    obtain ⟨earlier, last, later, _, hlisting, hbroken⟩ := walk_broken hquiet hroot hwalk
    rw [hbroken.checked] at h
    rw [hlisting, List.append_cons]
    exact List.mem_append_left _ h

/-- An item of the listing has no content if the query asks for that and holds. -/
theorem holdsNothing_of_verdict (hempty : e.query.emptyOnly = true) (hlinks : HasNoEmptyLink fs)
    (hroot : fs.locate e.setting.cwd false e.root = .ok top) (hmem : item ∈ listing e fs top)
    (hverdict : verdict e fs item = .ok true) :
    HoldsNothing fs e.setting.cwd item.entry.path := by
  obtain ⟨ns, hns, rfl⟩ := List.mem_map.1 hmem
  have hplace := locate_of_mem_branch hroot hns
  have hnothing := (Query.holds_eq_ok_true_iff.1 hverdict).empty hempty
  have hkind : (treeItem e fs top ns).entry.kind = some .directory ↔
      (fs.nodeAt (ns.reverse ++ top)).body = .directory := Body.kind_eq_directory_iff
  by_cases hdir : (fs.nodeAt (ns.reverse ++ top)).body = .directory
  · rw [if_pos (hkind.2 hdir)] at hnothing
    have hlist : fs.list e.setting.cwd (pathAt e.root ns) = .ok [] := by
      have hmap : (fs.list e.setting.cwd (pathAt e.root ns)).map (·.isEmpty) = .ok true := hnothing
      cases hl : fs.list e.setting.cwd (pathAt e.root ns) with
      | error f => simp [hl, Except.map] at hmap
      | ok entries => simpa [hl, Except.map] using hmap
    obtain ⟨l, hlead, hentries⟩ := list_eq_ok_iff.1 hlist
    have hplace := hplace (checkPath_of_leadsTo hlead)
    obtain rfl := leadsTo_unique hlead (leadsTo_of_locate hplace hdir)
    exact .directory hplace hdir hentries.symm
  · rw [if_neg (mt hkind.1 hdir)] at hnothing
    obtain ⟨status, hstatus, hsize⟩ := hnothing
    have hmap : (fs.status e.setting.cwd (pathAt e.root ns)).map
        (fun node => (⟨node.body.size, node.modified.toFloat⟩ : Status)) = .ok status := hstatus
    cases hl : fs.locate e.setting.cwd false (pathAt e.root ns) with
    | error f => simp [FileSystem.status, hl, Except.map] at hmap
    | ok l =>
      have hplace := hplace (checkPath_of_locate hl)
      obtain rfl := Except.ok.inj (hl.symm.trans hplace)
      have hnode : status.size = (fs.nodeAt (ns.reverse ++ top)).body.size := by
        simp only [FileSystem.status, hl, Except.map, Except.ok.injEq] at hmap
        rw [← hmap]
      exact holdsNothing_of_size hlinks hplace hdir (by omega)

end Walk

/-! ### Searches of several roots -/

/-- A search only takes away. -/
theorem within_findRoot (hquiet : s.Quiet) (h : findRoot s q source root w = .ok n v) :
    Within v.files w.files := by
  rw [findRoot_eq, Search.bind_eq_ok_iff] at h
  obtain ⟨found, u, hdiscover, hdispose⟩ := h
  have hfiles := discover_quiet (q := q) hquiet source root w
  rw [hdiscover] at hfiles
  rw [← (hfiles : u.files = w.files)]
  cases hdelete : q.delete with
  | false =>
    rw [dispose_of_kept hdelete] at hdispose
    cases hdispose
    exact .refl _
  | true =>
    exact Delete.within_removePaths ((dispose_of_deleted hdelete).1 hdispose).1

theorem within_find (hquiet : s.Quiet) (h : find s q source roots w = .ok n v) :
    Within v.files w.files := by
  induction roots generalizing w n with
  | nil =>
    obtain ⟨-, rfl⟩ := Search.pure_eq_ok_iff.1 h
    exact .refl _
  | cons root roots ih =>
    obtain ⟨here, u, there, hhere, hthere, -⟩ := find_cons_ok_iff.1 h
    exact (ih hthere).trans (within_findRoot hquiet hhere)

/-- In the search of one of the roots the turn of the item comes, and the query holds for it. -/
inductive Finds (s : Setting) (q : Query) (source : Option FilterSource) (roots : List Text)
    (w : World) : FileSystem → Item → Prop
  | root {before after : List Text} {root : Text} {n : Nat} {v u : World} {top : Location}
      {filter : Option EntryFilter} {item : Item} (hroots : roots = before ++ root :: after)
      (hbefore : find s q source before w = .ok n v)
      (hfilter : filterFor source root v = .ok filter u)
      (hroot : u.files.locate s.cwd false root = .ok top)
      (hturn : item ∈ Walk.checked ⟨s, q, filter, root⟩ (Walk.start ⟨s, q, filter, root⟩ u top))
      (hverdict : Walk.verdict ⟨s, q, filter, root⟩ u.files item = .ok true) :
      Finds s q source roots w u.files item

/-- What a discovery finds after the roots before was found at its turn. -/
theorem finds_of_discover (hquiet : s.Quiet) (after : List Text)
    (hbefore : find s q source before w = .ok n v) {u : World}
    (h : discover s q source root v = .ok found u) {m : Entry} (hm : m ∈ found) :
    ∃ item, item.entry = m ∧ Finds s q source (before ++ root :: after) w v.files item := by
  obtain ⟨filter, v', hfilter, hwalk⟩ := Search.bind_eq_ok_iff.1 h
  have hlog := onlyLogs_of_filterFor hfilter
  let e : Errand := ⟨s, q, filter, root⟩
  have hwalk : walk e v' = .ok found u := hwalk
  obtain ⟨top, hroot⟩ := Walk.locate_of_walk hwalk
  have hfinished := Walk.walk_result hquiet hroot
  rw [hwalk] at hfinished
  rw [hfinished.found] at hm
  obtain ⟨item, hitem, rfl⟩ := List.mem_map.1 hm
  obtain ⟨hmem, hfound⟩ := List.mem_filter.1 hitem
  obtain ⟨b, hverdict⟩ := (hfinished.answers item hmem).verdict
  rw [Walk.isFound_eq hverdict] at hfound
  subst hfound
  refine ⟨item, rfl, hlog.files ▸ .root rfl hbefore hfilter hroot ?_ hverdict⟩
  rwa [hfinished.checked]

/-- With nobody else at work and in a file system without empty links, a search for empty entries
finds nothing but directories without entries, regular files without content, and special files.
This holds at the turn of each entry, and so of all that is printed or deleted, whatever the roots,
the filters and the other conditions are. -/
theorem found_entries_hold_nothing (hquiet : s.Quiet) (hempty : q.emptyOnly = true)
    (hlinks : HasNoEmptyLink w.files) (source : Option FilterSource) :
    (∀ roots files item, Finds s q source roots w files item →
      HoldsNothing files s.cwd item.entry.path) ∧
    ∀ before root n v found u, find s q source before w = .ok n v →
      discover s q source root v = .ok found u →
        ∀ m ∈ found, HoldsNothing v.files s.cwd m.path := by
  have hturns : ∀ roots files item, Finds s q source roots w files item →
      HoldsNothing files s.cwd item.entry.path := by
    rintro roots _ item ⟨hroots, hbefore, hfilter, hroot, hturn, hverdict⟩
    have hlinks := hlinks.within (within_find hquiet hbefore)
    rw [← (onlyLogs_of_filterFor hfilter).files] at hlinks
    have hmem := Walk.mem_listing_of_checked hquiet hroot hturn
    exact Walk.holdsNothing_of_verdict hempty hlinks hroot hmem hverdict
  refine ⟨hturns, ?_⟩
  intro before root n v found u hbefore hfound m hm
  obtain ⟨item, rfl, hfinds⟩ := finds_of_discover hquiet [] hbefore hfound hm
  exact hturns _ _ _ hfinds

/-- A directory that holds a named pipe. -/
def pipeTree : FileSystem :=
  ChangeSite.applyAll ⟨[], ⟨0, 0⟩, none⟩ (.empty ⟨0, 0⟩) [.add ['r', '/', 'p'] ⟨.special, ⟨0, 0⟩⟩]

/-- The pipe is found, though it is neither a directory nor a regular file. -/
theorem found_entries_hold_nothing_pipe :
    ∃ found w, compile ["-empty".toList] = .ok { emptyOnly := true } ∧
      discover smallErrand.setting { emptyOnly := true } none ['r'] ⟨pipeTree, [], []⟩ =
        .ok found w ∧
      found.map Entry.path = [['r', '/', 'p']] ∧ w.written = [['r', '/', 'p', '\n']] ∧
      (pipeTree.nodeAt [⟨['p'], rfl, by decide⟩, ⟨['r'], rfl, by decide⟩]).body = .special ∧
      ∀ m ∈ found, HoldsNothing pipeTree [] m.path := by
  let q : Query := { emptyOnly := true }
  let e : Errand := ⟨smallErrand.setting, q, none, ['r']⟩
  have hroot : pipeTree.locate [] false ['r'] = .ok [⟨['r'], rfl, by decide⟩] := rfl
  have hdiscover : ∃ found w, discover e.setting q none ['r'] ⟨pipeTree, [], []⟩ = .ok found w ∧
      found.map Entry.path = [['r', '/', 'p']] ∧ w.written = [['r', '/', 'p', '\n']] := by
    change ∃ found w, walk e ⟨pipeTree, [], []⟩ = .ok found w ∧ _
    rw [Walk.walk_eq_run (e := e) hroot, Walk.run_of_turns_done (n := 2) rfl rfl]
    exact ⟨_, _, rfl, rfl, rfl⟩
  obtain ⟨found, w, hdiscover, hpaths, hwritten⟩ := hdiscover
  have hlinks : HasNoEmptyLink pipeTree := by
    have hall : ∀ p ∈ pipeTree.nodes, p.2.body ≠ .symlink [] := by decide +kernel
    intro l node hnode
    exact hall _ (get?_eq_some_iff.1 hnode)
  refine ⟨found, w, rfl, hdiscover, hpaths, hwritten, rfl, ?_⟩
  exact (found_entries_hold_nothing (w := ⟨pipeTree, [], []⟩) (fun _ _ _ => rfl) rfl hlinks
    none).2 [] ['r'] 0 _ found w rfl hdiscover

end FileSearch
