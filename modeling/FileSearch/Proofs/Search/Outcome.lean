import FileSearch.Proofs.Path.Plain
import FileSearch.Proofs.Search.Failure
import Mathlib.Data.List.Nodup

/-!
What a search comes to that ends normally, with nobody else at work. Of a root that is walked all is
told by its listing: the entries for which the query holds are found, and their lines are written.
Main statements: a walk ends normally if and only if it completes its listing, and a search without
a filter that deletes nothing takes the listings of its roots one after the other.
-/

namespace FileSearch

namespace Walk

variable {e : Errand} {fs : FileSystem} {top : Location} {names : List Name} {item : Item}
  {found : List Entry} {w w' : World}

/-- The entries of the listing for which the query holds. -/
def foundIn (e : Errand) (fs : FileSystem) (top : Location) : List Entry :=
  ((listing e fs top).filter (isFound e fs)).map Item.entry

/-- Nothing keeps the walk of a root that stands at the location from its normal end. -/
structure Completes (e : Errand) (w : World) (top : Location) : Prop where
  root : w.files.locate e.setting.cwd false e.root = .ok top
  answers : ∀ item ∈ listing e w.files top, Answers e w.files item
  room : Fits e.setting w (printed e.query (foundIn e w.files top))

/-- A world that differs by the lines that were written, and by the log. -/
structure Adds (w : World) (lines : List Text) (w' : World) : Prop where
  files : w'.files = w.files
  written : w'.written = w.written ++ lines

theorem printed_sublist {q : Query} {entries fewer : List Entry} (h : fewer.Sublist entries) :
    (printed q fewer).Sublist (printed q entries) := by
  unfold printed
  split
  · exact h.map lineOf
  · exact List.Sublist.refl _

theorem completes_of_walk (hquiet : e.setting.Quiet) (h : walk e w = .ok found w') :
    ∃ top, Completes e w top ∧ found = foundIn e w.files top ∧
      Adds w (printed e.query (foundIn e w.files top)) w' := by
  obtain ⟨top, hroot⟩ := locate_of_walk h
  have hfinished := walk_result hquiet hroot
  rw [h] at hfinished
  have hroom := hfinished.room
  have hwritten := hfinished.written
  rw [linesOf_eq] at hroom hwritten
  exact ⟨top, ⟨hroot, hfinished.answers, hroom⟩, hfinished.found, hfinished.files, hwritten⟩

theorem walk_of_completes (hquiet : e.setting.Quiet) (h : Completes e w top) :
    ∃ w', walk e w = .ok (foundIn e w.files top) w' ∧
      Adds w (printed e.query (foundIn e w.files top)) w' := by
  have hresult := walk_result hquiet h.root
  cases hwalk : walk e w with
  | ok found w' =>
    obtain ⟨top', hcompletes, rfl, hadds⟩ := completes_of_walk hquiet hwalk
    obtain rfl := Except.ok.inj (hcompletes.root.symm.trans h.root)
    exact ⟨w', rfl, hadds⟩
  | error f w' =>
    rw [hwalk, linesOf_eq] at hresult
    exact absurd ⟨h.answers, h.room⟩ hresult

/-- A walk that ends normally has checked its listing. -/
theorem checked_of_completes (hquiet : e.setting.Quiet) (h : Completes e w top) :
    checked e (start e w top) = listing e w.files top := by
  obtain ⟨w', hwalk, -⟩ := walk_of_completes hquiet h
  have hfinished := walk_result hquiet h.root
  rw [hwalk] at hfinished
  exact hfinished.checked

/-- What is put on the stack has nothing to do with the query. -/
theorem Answers.of_query {q : Query} (h : Answers e fs item)
    (hverdict : ∃ b, Walk.verdict { e with query := q } fs item = .ok b) :
    Answers { e with query := q } fs item := by
  refine ⟨hverdict, ?_⟩
  obtain ⟨below, hbelow⟩ := h.below
  cases hbelow with
  | leaf hdir => exact ⟨_, .leaf hdir⟩
  | listed hdir hlist hfilter => exact ⟨_, .listed hdir hlist hfilter⟩

/-- No two items of a listing have the same line. -/
theorem nodup_lines (e : Errand) (fs : FileSystem) (top : Location) :
    ((listing e fs top).map fun i => lineOf i.entry).Nodup := by
  have hbranch := (fs.nodup_preorder top).sublist (branch_nil_sublist e fs top)
  rw [listing, List.map_map]
  exact hbranch.map fun ms ns h => pathAt_injective (List.append_cancel_right h)

theorem nodup_lines_foundIn (e : Errand) (fs : FileSystem) (top : Location) :
    ((foundIn e fs top).map lineOf).Nodup := by
  rw [foundIn, List.map_map]
  exact (nodup_lines e fs top).sublist (List.filter_sublist.map _)

/-- Without a filter nothing is left out. -/
theorem isLeftOut_unfiltered (hfilter : e.filter = none) : isLeftOut e fs top names = false := by
  rw [isLeftOut, hfilter]

theorem isAllowed_unfiltered (hfilter : e.filter = none) : isAllowed e fs top names = true :=
  isAllowed_iff.2 fun _ _ _ => isLeftOut_unfiltered hfilter

/-- Without a filter and a bound for the depth the whole tree is shown. -/
theorem branch_nil_unbounded (hfilter : e.filter = none) (hmax : e.query.maxDepth = none) :
    branch e fs top [] = fs.preorder top := by
  have hshown (ns : List Name) : isShown e fs top ns = true := by
    simp [isShown, tooDeep, hmax, isAllowed_unfiltered hfilter]
  simp [branch, hshown]

/-- Without a filter an item has an answer if the query has one, and its directory can be listed. -/
theorem answers_iff (hfilter : e.filter = none) :
    Answers e fs item ↔ (∃ b, verdict e fs item = .ok b) ∧
      (item.entry.isDirectory = true →
        ∃ entries, fs.list e.setting.cwd item.entry.path = .ok entries) := by
  constructor
  · rintro ⟨hverdict, below, hbelow⟩
    refine ⟨hverdict, fun hdir => ?_⟩
    cases hbelow with
    | leaf hleaf => simp [hdir] at hleaf
    | listed _ hlist => exact ⟨_, hlist⟩
  · rintro ⟨hverdict, hlist⟩
    refine ⟨hverdict, ?_⟩
    cases hdir : item.entry.isDirectory with
    | false => exact ⟨_, .leaf hdir⟩
    | true =>
      obtain ⟨entries, hentries⟩ := hlist hdir
      exact ⟨_, .listed hdir hentries fun i _ => ⟨false, by rw [hfilter]; rfl⟩⟩

end Walk

open Walk

variable {s : Setting} {q : Query} {root : Text} {source : Option FilterSource} {n : Nat}
  {t : List Text} {w w' : World}

/-! ### Searches of one root -/

theorem find_singleton : find s q source [root] = findRoot s q source root := by
  funext w
  cases h : findRoot s q source root w with
  | ok n v => exact Search.bind_ok h
  | error f v => exact Search.bind_error h

/-- A search of one root that deletes nothing is a walk with the filter of the root. -/
theorem find_singleton_ok_iff (hkeep : q.delete = false) :
    find s q source [root] w = .ok n w' ↔ ∃ filter v found, filterFor source root w = .ok filter v ∧
      walk ⟨s, q, filter, root⟩ v = .ok found w' ∧ n = found.length := by
  rw [find_singleton, findRoot_eq, Search.bind_eq_ok_iff]
  simp only [dispose_of_kept hkeep, discover, Search.bind_eq_ok_iff]
  constructor
  · rintro ⟨found, u, ⟨filter, v, hfilter, hwalk⟩, hcount⟩
    cases hcount
    exact ⟨filter, v, found, hfilter, hwalk, rfl⟩
  · rintro ⟨filter, v, found, hfilter, hwalk, rfl⟩
    exact ⟨found, w', ⟨filter, v, hfilter, hwalk⟩, rfl⟩

/-- There is a filter for the root, or none is needed, and the root is found, so that a walk with
this filter starts there. -/
structure Departs (s : Setting) (source : Option FilterSource) (root : Text) (w : World)
    (filter : Option EntryFilter) (v : World) (top : Location) : Prop where
  filter : filterFor source root w = .ok filter v
  root : v.files.locate s.cwd false root = .ok top

theorem exists_departs_of_find (hkeep : q.delete = false)
    (h : find s q source [root] w = .ok n w') :
    ∃ filter v top, Departs s source root w filter v top := by
  obtain ⟨filter, v, found, hfilter, hwalk, -⟩ := (find_singleton_ok_iff hkeep).1 h
  obtain ⟨top, htop⟩ := locate_of_walk hwalk
  exact ⟨filter, v, top, hfilter, htop⟩

section Departure

variable {filter : Option EntryFilter} {v : World} {top : Location}

/-- A search that ends normally has counted and written what is found in the listing. -/
theorem Departs.completes_of_find (hstart : Departs s source root w filter v top)
    (hquiet : s.Quiet) (hkeep : q.delete = false) (h : find s q source [root] w = .ok n w') :
    Completes ⟨s, q, filter, root⟩ v top ∧
      n = (foundIn ⟨s, q, filter, root⟩ v.files top).length ∧
      Adds w (printed q (foundIn ⟨s, q, filter, root⟩ v.files top)) w' := by
  obtain ⟨filter', v', found, hfilter, hwalk, rfl⟩ := (find_singleton_ok_iff hkeep).1 h
  obtain ⟨rfl, rfl⟩ : filter' = filter ∧ v' = v := by
    have hsame := hfilter.symm.trans hstart.filter
    injection hsame with hfilter hworld
    exact ⟨hfilter, hworld⟩
  obtain ⟨top', hcompletes, rfl, hadds⟩ := completes_of_walk hquiet hwalk
  obtain rfl := Except.ok.inj (hcompletes.root.symm.trans hstart.root)
  have hlog := onlyLogs_of_filterFor hfilter
  exact ⟨hcompletes, rfl, hadds.files.trans hlog.files, by rw [hadds.written, hlog.written]⟩

theorem Departs.lines_of_find (hstart : Departs s source root w filter v top) (hquiet : s.Quiet)
    (hkeep : q.delete = false) (hprint : q.print = true) (h : find s q source [root] w = .ok n w') :
    w'.written = w.written ++ (foundIn ⟨s, q, filter, root⟩ v.files top).map lineOf ∧
      n = ((foundIn ⟨s, q, filter, root⟩ v.files top).map lineOf).length := by
  obtain ⟨-, hcount, hadds⟩ := hstart.completes_of_find hquiet hkeep h
  have hwritten := hadds.written
  rw [printed, if_pos hprint] at hwritten
  exact ⟨hwritten, by rw [hcount, List.length_map]⟩

theorem Departs.find_of_completes (hstart : Departs s source root w filter v top)
    (hquiet : s.Quiet) (hkeep : q.delete = false) (h : Completes ⟨s, q, filter, root⟩ v top) :
    ∃ w', find s q source [root] w = .ok (foundIn ⟨s, q, filter, root⟩ v.files top).length w' ∧
      Adds w (printed q (foundIn ⟨s, q, filter, root⟩ v.files top)) w' := by
  obtain ⟨w', hwalk, hadds⟩ := walk_of_completes hquiet h
  have hlog := onlyLogs_of_filterFor hstart.filter
  exact ⟨w', (find_singleton_ok_iff hkeep).2 ⟨filter, v, _, hstart.filter, hwalk, rfl⟩,
    hadds.files.trans hlog.files, by rw [hadds.written, hlog.written]⟩

end Departure

/-! ### Searches of roots without a filter -/

theorem findRoot_unfiltered :
    findRoot s q none root = walk ⟨s, q, none, root⟩ >>= dispose s q := findRoot_eq

theorem findRoot_ok_iff :
    findRoot s q none root w = .ok n w' ↔
      ∃ found v, walk ⟨s, q, none, root⟩ w = .ok found v ∧ dispose s q found v = .ok n w' := by
  rw [findRoot_unfiltered, Search.bind_eq_ok_iff]

theorem find_cons_ok_iff {roots : List Text} :
    find s q source (root :: roots) w = .ok n w' ↔ ∃ here v there,
      findRoot s q source root w = .ok here v ∧ find s q source roots v = .ok there w' ∧
        n = here + there := by
  rw [find, Search.bind_eq_ok_iff]
  simp only [Search.bind_eq_ok_iff, Search.pure_eq_ok_iff]
  constructor
  · rintro ⟨here, v, hhere, there, u, hthere, rfl, rfl⟩
    exact ⟨here, v, there, hhere, hthere, rfl⟩
  · rintro ⟨here, v, there, hhere, hthere, rfl⟩
    exact ⟨here, v, hhere, there, w', hthere, rfl, rfl⟩

/-- A search that deletes nothing counts what the walk finds. -/
theorem findRoot_of_kept (hkeep : q.delete = false) :
    findRoot s q none root w = .ok n w' ↔
      ∃ found, walk ⟨s, q, none, root⟩ w = .ok found w' ∧ n = found.length := by
  rw [findRoot_ok_iff]
  constructor
  · rintro ⟨found, v, hwalk, hdispose⟩
    rw [dispose_of_kept hkeep] at hdispose
    cases hdispose
    exact ⟨found, hwalk, rfl⟩
  · rintro ⟨found, hwalk, rfl⟩
    exact ⟨found, w', hwalk, dispose_of_kept hkeep⟩

/-- The entries that are found under several roots, each with the location where it stands. -/
def foundUnder (s : Setting) (q : Query) (fs : FileSystem) (roots : List (Text × Location)) :
    List Entry :=
  roots.flatMap fun r => foundIn ⟨s, q, none, r.1⟩ fs r.2

/-- A search that deletes nothing ends normally if and only if the listings of its roots have an
answer and all lines fit, and then it counts and prints what is found, root after root. -/
theorem find_ok_iff (hquiet : s.Quiet) (hkeep : q.delete = false) {roots : List (Text × Location)}
    (hroots : ∀ r ∈ roots, w.files.locate s.cwd false r.1 = .ok r.2) :
    (∃ w', find s q none (roots.map Prod.fst) w = .ok n w' ∧ w'.written = t) ↔
      (∀ r ∈ roots, ∀ item ∈ listing ⟨s, q, none, r.1⟩ w.files r.2,
        Answers ⟨s, q, none, r.1⟩ w.files item) ∧
      Fits s w (printed q (foundUnder s q w.files roots)) ∧
      n = (foundUnder s q w.files roots).length ∧
      t = w.written ++ printed q (foundUnder s q w.files roots) := by
  induction roots generalizing w n with
  | nil =>
    have hlines : printed q (foundUnder s q w.files []) = [] := by simp [foundUnder, printed]
    rw [hlines]
    constructor
    · rintro ⟨w', hfind, rfl⟩
      obtain ⟨rfl, rfl⟩ := Search.pure_eq_ok_iff.1 hfind
      exact ⟨List.forall_mem_nil _, fits_nil, rfl, by simp⟩
    · rintro ⟨-, -, rfl, rfl⟩
      exact ⟨w, rfl, by simp⟩
  | cons r roots ih =>
    obtain ⟨hroot, hroots⟩ := List.forall_mem_cons.1 hroots
    have hfound : foundUnder s q w.files (r :: roots) =
        foundIn ⟨s, q, none, r.1⟩ w.files r.2 ++ foundUnder s q w.files roots := rfl
    rw [hfound, printed_append, List.length_append, ← List.append_assoc]
    constructor
    · rintro ⟨w', hfind, rfl⟩
      obtain ⟨here, v, there, hhere, hthere, rfl⟩ := find_cons_ok_iff.1 hfind
      obtain ⟨found, hwalk, rfl⟩ := (findRoot_of_kept hkeep).1 hhere
      obtain ⟨top, hcompletes, rfl, hadds⟩ := completes_of_walk hquiet hwalk
      obtain rfl := Except.ok.inj (hcompletes.root.symm.trans hroot)
      have hrest := (ih (by rwa [hadds.files])).1 ⟨w', hthere, rfl⟩
      rw [hadds.files, hadds.written] at hrest
      obtain ⟨hanswers, hroom, rfl, hwritten⟩ := hrest
      exact ⟨List.forall_mem_cons.2 ⟨hcompletes.answers, hanswers⟩,
        (fits_append hadds.written).2 ⟨hcompletes.room, hroom⟩, rfl, hwritten⟩
    · rintro ⟨hanswers, hroom, rfl, rfl⟩
      obtain ⟨hhere, hthere⟩ := List.forall_mem_cons.1 hanswers
      obtain ⟨v, hwalk, hadds⟩ := walk_of_completes hquiet ⟨hroot, hhere, hroom.left⟩
      have hsecond := hroom.right hadds.written
      obtain ⟨u, hfind, hwritten⟩ :=
        (ih (w := v) (n := _) (by rwa [hadds.files])).2
          ⟨by rwa [hadds.files], by rwa [hadds.files], rfl, by rw [hadds.files, hadds.written]⟩
      rw [hadds.files] at hfind
      exact ⟨u, find_cons_ok_iff.2 ⟨_, v, _, (findRoot_of_kept hkeep).2 ⟨_, hwalk, rfl⟩, hfind, rfl⟩,
        hwritten⟩

/-- The same for one root. -/
theorem find_root_ok_iff (hquiet : s.Quiet) (hkeep : q.delete = false) {top : Location}
    (htop : w.files.locate s.cwd false root = .ok top) :
    (∃ w', find s q none [root] w = .ok n w' ∧ w'.written = t) ↔
      (∀ item ∈ listing ⟨s, q, none, root⟩ w.files top, Answers ⟨s, q, none, root⟩ w.files item) ∧
      Fits s w (printed q (foundIn ⟨s, q, none, root⟩ w.files top)) ∧
      n = (foundIn ⟨s, q, none, root⟩ w.files top).length ∧
      t = w.written ++ printed q (foundIn ⟨s, q, none, root⟩ w.files top) := by
  have hroots : ∀ r ∈ [(root, top)], w.files.locate s.cwd false r.1 = .ok r.2 := by
    simpa using htop
  have hunder : foundUnder s q w.files [(root, top)] = foundIn ⟨s, q, none, root⟩ w.files top :=
    List.flatMap_singleton ..
  have h : (∃ w', find s q none [root] w = .ok n w' ∧ w'.written = t) ↔
      _ ∧ Fits s w _ ∧ _ := find_ok_iff hquiet hkeep hroots
  rwa [hunder, List.forall_mem_singleton] at h

end FileSearch
