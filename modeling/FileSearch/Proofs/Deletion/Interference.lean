import FileSearch.FileSystem.Change
import FileSearch.Proofs.Deletion.Exact
import FileSearch.Proofs.Path.Agreement
import FileSearch.Proofs.Walk.History
import FileSearch.Search.Find

/-!
Deletions when others change the files while a search writes its lines. A deletion goes by paths,
and what a path leads to is looked up when its turn comes. So a link that others have put in the
place of a directory is followed.
Main statements: this is the only way for a removal to leave the directories below a root, and it is
a way: there is a search that removes what stands outside its root.
-/

namespace FileSearch

open FileSystem Relation

/-- One removal in a search: the walk that found the entry, with the world it started in, and the
files before and after. -/
structure Removal where
  errand : Errand
  world : World
  entry : Entry
  before : FileSystem
  after : FileSystem

/-- The removals that a search of the roots makes. The entries found later are gone when the turn of
an entry comes, and so is all that was to be deleted for the roots before. -/
inductive Removes (s : Setting) (q : Query) (source : Option FilterSource) :
    List Text → World → Removal → Prop
  | here {root : Text} {roots : List Text} {w w₀ w₁ v : World} {filter : Option EntryFilter}
      {found earlier later : List Entry} {m : Entry} {files : FileSystem}
      (hdelete : q.delete = true) (hfilter : filterFor source root w = .ok filter w₀)
      (hwalk : walk ⟨s, q, filter, root⟩ w₀ = .ok found w₁) (hfound : found = earlier ++ m :: later)
      (hlater : deleteFound s (later.map Entry.path) w₁ = .ok () v)
      (hremove : Delete.removeNode s v.files m.path = .ok files) :
      Removes s q source (root :: roots) w ⟨⟨s, q, filter, root⟩, w₀, m, v.files, files⟩
  | there {root : Text} {roots : List Text} {w v : World} {n : Nat} {r : Removal}
      (hroot : findRoot s q source root w = .ok n v) (h : Removes s q source roots v r) :
      Removes s q source (root :: roots) w r

/-! ### What a removal does -/

namespace Delete

variable {s : Setting} {files files' : FileSystem} {path : Text} {paths : List Text} {w w' : World}
  {n : Name}

theorem within_takeOut (files : FileSystem) (stamp : Stamp) (n : Name) (dir : Location) :
    Within (files.takeOut stamp n dir) files := by
  intro l node' hnode'
  rw [get?_takeOut] at hnode'
  split at hnode'
  · cases hnode'
  split at hnode'
  · obtain ⟨node, hnode, rfl⟩ := Option.map_eq_some_iff.1 hnode'
    exact ⟨node, hnode, rfl⟩
  · exact ⟨node', hnode', rfl⟩

theorem within_removeNode (h : removeNode s files path = .ok files') : Within files' files := by
  obtain ⟨dir, step, n, node, -, -, rfl⟩ := removeNode_inv h
  exact within_takeOut files s.stamp n dir

theorem within_removePaths (h : removePaths s paths w = .ok () w') : Within w'.files w.files := by
  induction paths generalizing w with
  | nil =>
    cases h
    exact Within.refl _
  | cons path paths ih =>
    obtain ⟨u, v, hpath, hrest⟩ := Search.bind_eq_ok_iff.1 h
    exact (ih hrest).trans (within_removeNode (removePath_ok_inv hpath).1)

/-- A removal by a joined path takes the name out of the directory that the path leads to. -/
theorem removeNode_joinPath_inv (hpath : path ≠ [])
    (h : removeNode s files (joinPath path n.text) = .ok files') :
    ∃ dir, files.LeadsTo s.cwd path dir ∧ (files.get? (n :: dir)).isSome ∧
      files' = files.takeOut s.stamp n dir := by
  obtain ⟨dir, step, m, node, hparent, hlookup, rfl⟩ := removeNode_inv h
  obtain ⟨-, hlead, hstep⟩ := (locateParent_joinPath_eq_ok_iff hpath).1 hparent
  obtain rfl := Option.some.inj hstep
  unfold lookupIn at hlookup
  rw [Name.ofText?_text] at hlookup
  simp only at hlookup
  split at hlookup
  · cases hlookup
  · rename_i node' hnode
    cases hlookup
    exact ⟨dir, hlead, by simp [hnode], rfl⟩

end Delete

/-! ### Ways below a root -/

section Ways

variable {fs : FileSystem} {cwd top l : Location} {root : Text} {names before : List Name}

/-- All directories on the way from the root to the last of the names are real ones. -/
def ThroughRealDirectories (fs : FileSystem) (cwd : Location) (root : Text) (names : List Name) :
    Prop :=
  ∀ before, before <+: names → before ≠ [] → before ≠ names →
    fs.IsRealDirectory cwd (Walk.pathAt root before)

/-- What leads to a directory below the root leads there on the way that the names spell. -/
theorem leadsTo_of_prefix (hroot : root ≠ []) (hpre : before <+: names)
    (h : fs.LeadsTo cwd (Walk.pathAt root names) l) :
    ∃ m, fs.LeadsTo cwd (Walk.pathAt root before) m := by
  obtain ⟨rest, rfl⟩ := hpre
  induction rest using List.reverseRecOn generalizing l with
  | nil => exact ⟨l, by simpa using h⟩
  | append_singleton ks k ih =>
    rw [← List.append_assoc, Walk.pathAt_concat hroot] at h
    obtain ⟨dir, hdir, -⟩ := leadsTo_of_joinPath (Walk.pathAt_ne_nil hroot _) h
    exact ih hdir

/-- A way through real directories stays in the tree of the root. -/
theorem leadsTo_of_real (hroot : root ≠ []) (htop : fs.LeadsTo cwd root top)
    (hreal : ∀ before, before <+: names → before ≠ [] →
      fs.IsRealDirectory cwd (Walk.pathAt root before)) :
    fs.LeadsTo cwd (Walk.pathAt root names) (names.reverse ++ top) := by
  induction names using List.reverseRecOn with
  | nil => exact htop
  | append_singleton ks k ih =>
    have hparent := ih fun before hpre hne => hreal before (hpre.trans (List.prefix_append _ _)) hne
    obtain ⟨m, hlocate, hbody⟩ := hreal (ks ++ [k]) List.prefix_rfl (by simp)
    have hlead := leadsTo_of_locate hlocate hbody
    rw [Walk.pathAt_concat hroot] at hlocate
    obtain ⟨-, dir, hdir, -, rfl⟩ :=
      (locate_joinPath_eq_ok_iff (Walk.pathAt_ne_nil hroot ks)).1 hlocate
    obtain rfl := leadsTo_unique hdir hparent
    simpa using hlead

end Ways

/-! ### Removals of a search -/

open Walk in
/-- In the walk of the errand, when a line was written, others made something else of the directory
that the path named. -/
def OvertakenInWalk (e : Errand) (w : World) (path : Text) : Prop :=
  ∃ top last, w.files.locate e.setting.cwd false e.root = .ok top ∧
    Overtaken e (start e w top) last path

variable {s : Setting} {q : Query} {source : Option FilterSource} {roots : List Text} {w : World}
  {r : Removal}

/-- What a walk finds lies in directories that are real ones when it ends, or were overtaken. -/
theorem real_or_overtaken_of_walk {e : Errand} {w₁ : World} {found : List Entry} {m : Entry}
    (hwalk : walk e w = .ok found w₁) (hm : m ∈ found) :
    ∃ names, m.path = Walk.pathAt e.root names ∧
      ∀ before, before <+: names → before ≠ [] → before ≠ names →
        w₁.files.IsRealDirectory e.setting.cwd (Walk.pathAt e.root before) ∨
          OvertakenInWalk e w (Walk.pathAt e.root before) := by
  obtain ⟨top, hroot⟩ := Walk.locate_of_walk hwalk
  rw [Walk.walk_eq_run hroot] at hwalk
  obtain ⟨last, hreach, rfl, rfl⟩ := Walk.reaches_of_run hwalk
  have htracked := Walk.allTracked_of_reaches (Walk.root_ne_nil hroot)
    (Walk.allTracked_start top) hreach
  obtain ⟨item, rfl, names, kind, rfl, hbefore, -⟩ := htracked.matched m hm
  refine ⟨names, rfl, fun before hpre hne hproper => ?_⟩
  rcases (hbefore before hpre hne hproper).now_or_overtaken with hreal | hover
  · exact .inl hreal
  · exact .inr ⟨top, last, hroot, hover⟩

/-- A removal below a root goes through real directories, but for those that others made something
else of while the root was walked. If it goes through real directories, it takes out what stands in
the tree of the root under the names of its path. -/
theorem removal_below_root (h : Removes s q source roots w r) :
    ∃ names, r.entry.path = Walk.pathAt r.errand.root names ∧
      (∀ before, before <+: names → before ≠ [] → before ≠ names →
        r.before.IsRealDirectory s.cwd (Walk.pathAt r.errand.root before) ∨
          OvertakenInWalk r.errand r.world (Walk.pathAt r.errand.root before)) ∧
      (names ≠ [] → ThroughRealDirectories r.before s.cwd r.errand.root names →
        ∃ top n dir, r.before.LeadsTo s.cwd r.errand.root top ∧ n :: dir = names.reverse ++ top ∧
          (r.before.get? (n :: dir)).isSome ∧ r.after = r.before.takeOut s.stamp n dir) := by
  induction h with
  | there hroot h ih => exact ih
  | @here root roots w w₀ w₁ v filter found earlier later m files hdelete hfilter hwalk hfound
      hlater hremove =>
    obtain ⟨top, htop⟩ := Walk.locate_of_walk hwalk
    have hroot : root ≠ [] := Walk.root_ne_nil htop
    obtain ⟨names, hpath, hbefore⟩ := real_or_overtaken_of_walk hwalk (m := m) (by simp [hfound])
    have hwithin : Within v.files w₁.files := Delete.within_removePaths hlater
    rcases List.eq_nil_or_concat names with rfl | ⟨init, n, rfl⟩
    · refine ⟨[], hpath, ?_, ?_⟩
      · intro before hpre hne
        exact absurd (List.prefix_nil.1 hpre) hne
      · intro hne
        exact absurd rfl hne
    rw [List.concat_eq_append] at *
    rw [hpath, Walk.pathAt_concat hroot] at hremove
    obtain ⟨dir, hlead, hsome, rfl⟩ :=
      Delete.removeNode_joinPath_inv (Walk.pathAt_ne_nil hroot init) hremove
    have hproper : ∀ before, before <+: init ++ [n] → before ≠ init ++ [n] → before <+: init := by
      intro before hpre hne
      exact (List.prefix_concat_iff.1 (by simpa using hpre)).resolve_left (by simpa using hne)
    refine ⟨init ++ [n], hpath, ?_, ?_⟩
    · intro before hpre hne hshort
      rcases hbefore before hpre hne hshort with hreal | hover
      · -- what is left of a real directory on the way is a real directory
        obtain ⟨l, hl⟩ := leadsTo_of_prefix hroot (hproper before hpre hshort) hlead
        obtain ⟨ks, k, rfl⟩ := (List.eq_nil_or_concat before).resolve_left hne
        rw [List.concat_eq_append, Walk.pathAt_concat hroot] at hreal hl ⊢
        exact .inl (isRealDirectory_of_within (Walk.pathAt_ne_nil hroot ks) hwithin hreal hl)
      · exact .inr hover
    · intro _ hreal
      obtain ⟨top', htop'⟩ := leadsTo_of_prefix hroot List.nil_prefix hlead
      have hway : ∀ before, before <+: init → before ≠ [] →
          v.files.IsRealDirectory s.cwd (Walk.pathAt root before) := by
        intro before hpre hne
        apply hreal before (hpre.trans (List.prefix_append _ _)) hne
        intro heq
        have := hpre.length_le
        rw [heq, List.length_append, List.length_singleton] at this
        omega
      obtain rfl := leadsTo_unique hlead (leadsTo_of_real hroot htop' hway)
      exact ⟨top', n, _, htop', by simp, hsome, rfl⟩

/-! ### A removal through a link -/

/-- The root holds a directory with a file, and another file of the same name stands elsewhere. -/
def divertedTree : FileSystem :=
  ChangeSite.applyAll ⟨[], ⟨0, 0⟩, none⟩ (.empty ⟨0, 0⟩)
    [.add ['r', '/', 'd', '/', 'f'] ⟨.file {}, ⟨0, 0⟩⟩, .add ['o', '/', 'f'] ⟨.file {}, ⟨0, 0⟩⟩]

/-- As soon as the file below the root is printed, its directory becomes a link to the other one. -/
def divertedSetting : Setting where
  cwd := []
  now := 0
  stamp := ⟨0, 0⟩
  others := reactTo ⟨[], ⟨0, 0⟩, none⟩
    [⟨['r', '/', 'd', '/', 'f', '\n'],
      [.remove ['r', '/', 'd'], .add ['r', '/', 'd'] ⟨.symlink ['.', '.', '/', 'o'], ⟨0, 0⟩⟩]⟩]

/-- Prints and deletes the files below the root. -/
def divertedErrand : Errand where
  setting := divertedSetting
  query := { kind := some .regular, explicitPrint := true, delete := true }
  filter := none
  root := ['r']

/-- The only entry that a walk without a filter has found is removed, if it can be. -/
theorem exists_removal_of_walk {e : Errand} {w₁ : World} {m : Entry} (hfilter : e.filter = none)
    (hdelete : e.query.delete = true) (hwalk : walk e w = .ok [m] w₁)
    (hremove : (Delete.removeNode e.setting w₁.files m.path).isOk = true) :
    ∃ r, Removes e.setting e.query none [e.root] w r ∧ r.errand = e ∧ r.world = w ∧
      r.entry = m ∧ r.before = w₁.files := by
  obtain ⟨s, q, filter, root⟩ := e
  obtain rfl : filter = none := hfilter
  cases hfiles : Delete.removeNode s w₁.files m.path with
  | error f =>
    rw [hfiles] at hremove
    cases hremove
  | ok files =>
    have hsplit : [m] = [] ++ m :: [] := rfl
    exact ⟨_, .here hdelete rfl hwalk hsplit rfl hfiles, rfl, rfl, rfl, rfl⟩

/-- The search removes the other file. -/
theorem exists_diverted_removal :
    ∃ r, Removes divertedSetting divertedErrand.query none [['r']] ⟨divertedTree, [], []⟩ r ∧
      r.errand = divertedErrand ∧ r.world = ⟨divertedTree, [], []⟩ ∧
      r.entry.path = ['r', '/', 'd', '/', 'f'] ∧
      ¬ r.before.IsRealDirectory [] ['r', '/', 'd'] := by
  have hroot : divertedTree.locate [] false ['r'] = .ok [⟨['r'], rfl, by decide⟩] := rfl
  have hwalk : ∃ m w₁, walk divertedErrand ⟨divertedTree, [], []⟩ = .ok [m] w₁ ∧
      m.path = ['r', '/', 'd', '/', 'f'] ∧ ¬ w₁.files.IsRealDirectory [] ['r', '/', 'd'] ∧
        (Delete.removeNode divertedSetting w₁.files ['r', '/', 'd', '/', 'f']).isOk = true := by
    rw [Walk.walk_eq_run (e := divertedErrand) hroot, Walk.run_of_turns_done (n := 3) rfl rfl]
    refine ⟨_, _, rfl, rfl, ?_, ?_⟩
    · decide +kernel
    · decide +kernel
  obtain ⟨m, w₁, hwalk, hpath, hlink, hremove⟩ := hwalk
  rw [← hpath] at hremove
  obtain ⟨r, hr, herrand, hworld, hentry, hbefore⟩ :=
    exists_removal_of_walk (e := divertedErrand) rfl rfl hwalk hremove
  exact ⟨r, hr, herrand, hworld, hentry ▸ hpath, hbefore ▸ hlink⟩

/-- The names on the way to the file that is printed. -/
theorem names_of_diverted {names : List Name}
    (h : Walk.pathAt ['r'] names = ['r', '/', 'd', '/', 'f']) :
    names = [⟨['d'], rfl, by decide⟩, ⟨['f'], rfl, by decide⟩] :=
  pathAt_injective (h.trans rfl)

/-- Not every removal goes through real directories. -/
theorem removal_not_through_real_directories :
    ¬ ∀ (s : Setting) (q : Query) (source : Option FilterSource) (roots : List Text) (w : World)
      (r : Removal), Removes s q source roots w r →
        ∃ names, r.entry.path = Walk.pathAt r.errand.root names ∧
          ThroughRealDirectories r.before s.cwd r.errand.root names := by
  intro h
  obtain ⟨r, hr, herrand, -, hpath, hlink⟩ := exists_diverted_removal
  obtain ⟨names, hnames, hthrough⟩ := h _ _ _ _ _ r hr
  rw [herrand] at hnames hthrough
  obtain rfl := names_of_diverted (hnames.symm.trans hpath)
  exact hlink (hthrough [⟨['d'], rfl, by decide⟩] (by simp) (by simp) (by simp))

/-- The same search with nobody else at work. -/
def plainErrand : Errand :=
  { divertedErrand with setting := { divertedSetting with others := fun _ _ files => files } }

/-- This search removes the file that it has printed. -/
theorem exists_plain_removal :
    ∃ r, Removes plainErrand.setting plainErrand.query none [['r']] ⟨divertedTree, [], []⟩ r ∧
      r.errand = plainErrand ∧ r.entry.path = ['r', '/', 'd', '/', 'f'] ∧
      r.before.IsRealDirectory [] ['r', '/', 'd'] := by
  have hroot : divertedTree.locate [] false ['r'] = .ok [⟨['r'], rfl, by decide⟩] := rfl
  have hwalk : ∃ m w₁, walk plainErrand ⟨divertedTree, [], []⟩ = .ok [m] w₁ ∧
      m.path = ['r', '/', 'd', '/', 'f'] ∧ w₁.files.IsRealDirectory [] ['r', '/', 'd'] ∧
        (Delete.removeNode plainErrand.setting w₁.files ['r', '/', 'd', '/', 'f']).isOk = true := by
    rw [Walk.walk_eq_run (e := plainErrand) hroot, Walk.run_of_turns_done (n := 3) rfl rfl]
    refine ⟨_, _, rfl, rfl, ?_, ?_⟩
    · decide +kernel
    · decide +kernel
  obtain ⟨m, w₁, hwalk, hpath, hreal, hremove⟩ := hwalk
  rw [← hpath] at hremove
  obtain ⟨r, hr, herrand, -, hentry, hbefore⟩ :=
    exists_removal_of_walk (e := plainErrand) rfl rfl hwalk hremove
  exact ⟨r, hr, herrand, hentry ▸ hpath, hbefore ▸ hreal⟩

/-- What was removed instead was out of reach before the directory was overtaken. With nobody else
at work, what is removed stands in the tree of the root, under the names of the path. -/
theorem removal_below_root_diverted :
    OvertakenInWalk divertedErrand ⟨divertedTree, [], []⟩ ['r', '/', 'd'] ∧
    ∃ r, Removes plainErrand.setting plainErrand.query none [['r']] ⟨divertedTree, [], []⟩ r ∧
      r.entry.path = ['r', '/', 'd', '/', 'f'] ∧
      ∃ top n dir, r.before.LeadsTo [] ['r'] top ∧
        n :: dir = [⟨['f'], rfl, by decide⟩, ⟨['d'], rfl, by decide⟩] ++ top ∧
        (r.before.get? (n :: dir)).isSome ∧ r.after = r.before.takeOut ⟨0, 0⟩ n dir := by
  constructor
  · obtain ⟨r, hr, herrand, hworld, hpath, hlink⟩ := exists_diverted_removal
    obtain ⟨names, hnames, hbefore, -⟩ := removal_below_root hr
    rw [herrand] at hnames hbefore
    rw [hworld] at hbefore
    obtain rfl := names_of_diverted (hnames.symm.trans hpath)
    exact (hbefore [⟨['d'], rfl, by decide⟩] (by simp) (by simp) (by simp)).resolve_left hlink
  · obtain ⟨r, hr, herrand, hpath, hreal⟩ := exists_plain_removal
    obtain ⟨names, hnames, -, htakes⟩ := removal_below_root hr
    rw [herrand] at hnames htakes
    obtain rfl := names_of_diverted (hnames.symm.trans hpath)
    refine ⟨r, hr, hpath, htakes (by simp) ?_⟩
    -- the one directory on the way is a real one
    intro before hpre hne hshort
    have hbefore := (List.mem_inits _ _).2 hpre
    simp only [List.inits, List.map_cons, List.map_nil, List.mem_cons, List.not_mem_nil,
      or_false] at hbefore
    rcases hbefore with rfl | rfl | rfl
    · exact absurd rfl hne
    · exact hreal
    · exact absurd rfl hshort

end FileSearch
