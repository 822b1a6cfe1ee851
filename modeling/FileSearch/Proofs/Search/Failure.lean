import FileSearch.Proofs.Walk.Refinement
import FileSearch.Search.Find

/-!
What a search leaves behind that fails, with nobody else at work. To search a root is to discover
what matches and then to dispose of it; only the latter changes the file system. So a root whose
filter, status or walk fails is left as it was, and what the roots before it lost stays lost.
Main statement: a search fails in the discovery at a root or in the disposal; in the first case the
file system is what the roots before left, and the text is theirs with the lines of the entries that
matched before the fault. A search that is not to delete changes nothing.
-/

namespace FileSearch

namespace Search

variable {α β : Type} {x : Search α} {f : α → Search β} {fault : Fault} {w w' : World}

theorem bind_eq_error_iff : (x >>= f) w = .error fault w' ↔
    x w = .error fault w' ∨ ∃ a v, x w = .ok a v ∧ f a v = .error fault w' := by
  cases hx : x w with
  | ok a v =>
    rw [bind_ok hx]
    simp
  | error g v =>
    rw [bind_error hx]
    simp

/-- The world in which a search ends. -/
def worldAfter : EStateM.Result Fault World α → World
  | .ok _ w => w
  | .error _ w => w

/-- A search that changes no file, whether or not it fails. -/
def ReadOnly (x : Search α) : Prop := ∀ w, (worldAfter (x w)).files = w.files

theorem ReadOnly.pure (a : α) : ReadOnly (Pure.pure a) := fun _ => rfl

theorem ReadOnly.bind (hx : ReadOnly x) (hf : ∀ a, ReadOnly (f a)) : ReadOnly (x >>= f) := by
  intro w
  have h := hx w
  cases hrun : x w with
  | ok a v =>
    rw [hrun] at h
    rw [bind_ok hrun]
    exact (hf a v).trans h
  | error g v =>
    rw [hrun] at h
    rwa [bind_error hrun]

end Search

/-- Finds what matches under a root. -/
def discover (s : Setting) (q : Query) (source : Option FilterSource) (root : Text) :
    Search (List Entry) := do
  let filter ← filterFor source root
  walk ⟨s, q, filter, root⟩

/-- Deletes what was found, if the query says so, and counts it. -/
def dispose (s : Setting) (q : Query) (found : List Entry) : Search Nat := do
  if q.delete then deleteFound s (found.map Entry.path) else pure ()
  return found.length

/-- What the source says of a root: the filter, or that there is none. -/
def filterOf (source : Option FilterSource) (files : FileSystem) (root : Text) :
    Except Fault (Option RootFilter) :=
  match source with
  | none => .ok none
  | some make => make files root

variable {s : Setting} {q : Query} {source : Option FilterSource} {root : Text}
  {roots before after : List Text} {found : List Entry} {f : Fault} {w w' w₁ w₂ : World} {n : Nat}

theorem findRoot_eq : findRoot s q source root = discover s q source root >>= dispose s q := by
  simp only [findRoot, discover, bind_assoc]
  rfl

/-! ### Discovery -/

theorem filterFor_result (source : Option FilterSource) (root : Text) (w : World) :
    match filterFor source root w with
    | .ok filter v => OnlyLogs w v ∧
        ∃ made, filterOf source w.files root = .ok made ∧ filter = made.map RootFilter.excludes
    | .error f v => v = w ∧ filterOf source w.files root = .error f := by
  cases source with
  | none => exact ⟨.refl w, none, rfl, rfl⟩
  | some make =>
    rw [filterFor, Search.get_bind]
    cases hmade : make w.files root with
    | error f =>
      rw [Search.ofExcept_bind_error hmade]
      exact ⟨rfl, hmade⟩
    | ok made =>
      rw [Search.ofExcept_bind_ok hmade]
      cases made with
      | none => exact ⟨.refl w, none, hmade, rfl⟩
      | some filter => exact ⟨⟨rfl, rfl⟩, some filter, hmade, rfl⟩

theorem onlyLogs_filterFor (source : Option FilterSource) (root : Text) (w : World) :
    OnlyLogs w (Search.worldAfter (filterFor source root w)) := by
  have hresult := filterFor_result source root w
  cases hrun : filterFor source root w with
  | ok filter v =>
    rw [hrun] at hresult
    exact hresult.1
  | error f v =>
    rw [hrun] at hresult
    obtain ⟨rfl, -⟩ := hresult
    exact .refl v

theorem onlyLogs_of_filterFor {filter : Option EntryFilter}
    (h : filterFor source root w = .ok filter w') : OnlyLogs w w' := by
  have hlog := onlyLogs_filterFor source root w
  rwa [h] at hlog

theorem filterFor_of_error (h : filterOf source w.files root = .error f) :
    filterFor source root w = .error f w := by
  have hresult := filterFor_result source root w
  cases hrun : filterFor source root w with
  | ok filter v =>
    rw [hrun] at hresult
    obtain ⟨-, made, hmade, -⟩ := hresult
    rw [h] at hmade
    cases hmade
  | error g v =>
    rw [hrun] at hresult
    obtain ⟨rfl, hmade⟩ := hresult
    rw [h] at hmade
    cases hmade
    rfl

/-- How a walk breaks off: the fault, and the entries that matched before it. Either the root cannot
be looked up, or the walk fails at an item of the listing; all items before it have an answer, and
their lines fit. -/
inductive Walk.BreaksOff (e : Errand) (w : World) : Fault → List Entry → Prop
  | status {f : Fault} (hstatus : w.files.status e.setting.cwd e.root = .error f) :
      Walk.BreaksOff e w f []
  | item {f : Fault} {top : Location} {earlier later : List Item} {item : Item} {last : List Entry}
      (hroot : w.files.locate e.setting.cwd false e.root = .ok top)
      (hlisting : listing e w.files top = earlier ++ item :: later)
      (hanswers : ∀ i ∈ earlier, Answers e w.files i)
      (hroom : Fits e.setting w (linesOf e w.files earlier))
      (hfails : FailsAt e w.files (w.written ++ linesOf e w.files earlier) item f last) :
      Walk.BreaksOff e w f ((earlier.filter (isFound e w.files)).map Item.entry ++ last)

/-- How a discovery breaks off: there is no filter to be had, or the walk breaks off. -/
inductive BreaksOff (s : Setting) (q : Query) (source : Option FilterSource) (root : Text)
    (w : World) : Fault → List Entry → Prop
  | filter {f : Fault} (hfilter : filterOf source w.files root = .error f) :
      BreaksOff s q source root w f []
  | walk {f : Fault} {found : List Entry} {made : Option RootFilter}
      (hfilter : filterOf source w.files root = .ok made)
      (hwalk : Walk.BreaksOff ⟨s, q, made.map RootFilter.excludes, root⟩ w f found) :
      BreaksOff s q source root w f found

/-- The log has no say in it. -/
theorem Walk.BreaksOff.of_onlyLogs {e : Errand} (hlog : OnlyLogs w w')
    (h : Walk.BreaksOff e w' f found) : Walk.BreaksOff e w f found := by
  obtain ⟨files, written, log⟩ := w
  obtain ⟨files', written', log'⟩ := w'
  obtain ⟨hfiles, hwritten⟩ := hlog
  obtain rfl : files' = files := hfiles
  obtain rfl : written' = written := hwritten
  cases h with
  | status hstatus => exact .status hstatus
  | item hroot hlisting hanswers hroom hfails =>
    exact .item hroot hlisting hanswers ⟨hroom.encoded, hroom.room⟩ hfails

open Walk in
/-- A walk changes no file, and if it fails it has written the lines of what matched before. -/
theorem walk_quiet {e : Errand} (hquiet : e.setting.Quiet) (w : World) :
    match walk e w with
    | .ok _ v => v.files = w.files
    | .error f v => ∃ found, Walk.BreaksOff e w f found ∧ v.files = w.files ∧
        v.written = w.written ++ printed e.query found := by
  cases hroot : w.files.locate e.setting.cwd false e.root with
  | error f =>
    rw [walk_of_error hroot]
    exact ⟨[], .status (status_of_error hroot), rfl, by simp [printed]⟩
  | ok top =>
    have hresult := walk_result hquiet hroot
    cases hwalk : walk e w with
    | ok found v =>
      rw [hwalk] at hresult
      exact hresult.files
    | error f v =>
      obtain ⟨earlier, item, later, last, hlisting, hbroken⟩ := walk_broken hquiet hroot hwalk
      refine ⟨_, .item hroot hlisting hbroken.answers hbroken.room hbroken.fails, hbroken.files, ?_⟩
      rw [hbroken.written, linesOf_eq, printed_append, List.append_assoc]
      rfl

/-- A discovery changes no file, and if it fails it has written the lines of what matched before. -/
theorem discover_quiet (hquiet : s.Quiet) (source : Option FilterSource) (root : Text) (w : World) :
    match discover s q source root w with
    | .ok _ v => v.files = w.files
    | .error f v => ∃ found, BreaksOff s q source root w f found ∧
        v.files = w.files ∧ v.written = w.written ++ Walk.printed q found := by
  have hfilter := filterFor_result source root w
  unfold discover
  cases hmade : filterFor source root w with
  | error f v =>
    rw [hmade] at hfilter
    obtain ⟨rfl, hfails⟩ := hfilter
    rw [Search.bind_error hmade]
    exact ⟨[], .filter hfails, rfl, by simp [Walk.printed]⟩
  | ok filter v =>
    rw [hmade] at hfilter
    obtain ⟨hlog, made, hmade', rfl⟩ := hfilter
    rw [Search.bind_ok hmade]
    have hwalk := walk_quiet (e := ⟨s, q, made.map RootFilter.excludes, root⟩) hquiet v
    cases hrun : walk ⟨s, q, made.map RootFilter.excludes, root⟩ v with
    | ok found u =>
      rw [hrun] at hwalk
      exact hwalk.trans hlog.files
    | error f u =>
      rw [hrun] at hwalk
      obtain ⟨found, hbreaks, hfiles, hwritten⟩ := hwalk
      exact ⟨found, .walk hmade' (hbreaks.of_onlyLogs hlog), hfiles.trans hlog.files,
        hlog.written ▸ hwritten⟩

theorem discover_readOnly (hquiet : s.Quiet) (source : Option FilterSource) (root : Text) :
    Search.ReadOnly (discover s q source root) := by
  intro w
  have h := discover_quiet (q := q) hquiet source root w
  cases hrun : discover s q source root w with
  | ok found v =>
    rw [hrun] at h
    exact h
  | error f v =>
    rw [hrun] at h
    obtain ⟨-, -, hfiles, -⟩ := h
    exact hfiles

/-! ### Disposal -/

theorem dispose_of_kept (hkeep : q.delete = false) :
    dispose s q found w = .ok found.length w := by
  simp only [dispose, hkeep]
  rfl

theorem dispose_readOnly (hkeep : q.delete = false) (found : List Entry) :
    Search.ReadOnly (dispose s q found) := by
  intro w
  rw [dispose_of_kept hkeep]
  rfl

theorem dispose_error_inv (h : dispose s q found w = .error f w') :
    q.delete = true ∧ deleteFound s (found.map Entry.path) w = .error f w' := by
  cases hdelete : q.delete with
  | false =>
    rw [dispose_of_kept hdelete] at h
    cases h
  | true =>
    rw [dispose, hdelete, if_pos rfl, Search.bind_eq_error_iff] at h
    obtain h | ⟨_, v, -, h⟩ := h
    · exact ⟨rfl, h⟩
    · cases h

/-! ### Several roots -/

/-- A search that fails has searched the roots before the one where it fails. -/
theorem find_error_inv (h : find s q source roots w = .error f w') :
    ∃ before root after n w₁, roots = before ++ root :: after ∧
      find s q source before w = .ok n w₁ ∧ findRoot s q source root w₁ = .error f w' := by
  induction roots generalizing w with
  | nil => cases h
  | cons root roots ih =>
    rw [find, Search.bind_eq_error_iff] at h
    obtain h | ⟨here, v, hhere, h⟩ := h
    · exact ⟨[], root, roots, 0, w, rfl, rfl, h⟩
    · obtain h | ⟨there, u, -, h⟩ := Search.bind_eq_error_iff.1 h
      · obtain ⟨before, next, after, n, w₁, rfl, hbefore, hnext⟩ := ih h
        refine ⟨root :: before, next, after, here + n, w₁, rfl, ?_, hnext⟩
        rw [find, Search.bind_ok hhere, Search.bind_ok hbefore]
        rfl
      · cases h

/-- What fails at a root fails after the roots before it as well. -/
theorem find_of_error (hbefore : find s q source before w = .ok n w₁)
    (h : findRoot s q source root w₁ = .error f w') :
    find s q source (before ++ root :: after) w = .error f w' := by
  induction before generalizing w n with
  | nil =>
    obtain ⟨-, rfl⟩ := Search.pure_eq_ok_iff.1 hbefore
    rw [List.nil_append, find, Search.bind_error h]
  | cons first before ih =>
    rw [find] at hbefore
    obtain ⟨here, v, hhere, hbefore⟩ := Search.bind_eq_ok_iff.1 hbefore
    obtain ⟨there, u, hthere, hbefore⟩ := Search.bind_eq_ok_iff.1 hbefore
    obtain ⟨-, rfl⟩ := Search.pure_eq_ok_iff.1 hbefore
    rw [List.cons_append, find, Search.bind_ok hhere, Search.bind_error (ih hthere)]

theorem find_readOnly (hquiet : s.Quiet) (hkeep : q.delete = false)
    (source : Option FilterSource) (roots : List Text) :
    Search.ReadOnly (find s q source roots) := by
  induction roots with
  | nil => exact .pure 0
  | cons root roots ih =>
    have hroot : Search.ReadOnly (findRoot s q source root) := by
      rw [findRoot_eq]
      exact (discover_readOnly hquiet source root).bind (dispose_readOnly hkeep)
    exact hroot.bind fun here => ih.bind fun there => .pure (here + there)

/-- With nobody else at work, a search that fails for want of a filter, of a root, or in a walk ends
as it was left by the roots before, but for the lines of the entries that matched at this root
before the fault. Every other failure is one of a deletion. Discovering changes no file, and neither
does a search that is not to delete. -/
theorem failed_discovery_deletes_nothing (hquiet : s.Quiet) (q : Query)
    (source : Option FilterSource) :
    (∀ before root after w n w₁ f w', find s q source before w = .ok n w₁ →
      discover s q source root w₁ = .error f w' →
        find s q source (before ++ root :: after) w = .error f w' ∧ w'.files = w₁.files ∧
          ∃ found, BreaksOff s q source root w₁ f found ∧
            w'.written = w₁.written ++ Walk.printed q found) ∧
    (∀ roots w f w', find s q source roots w = .error f w' →
      ∃ before root after n w₁, roots = before ++ root :: after ∧
        find s q source before w = .ok n w₁ ∧
          (discover s q source root w₁ = .error f w' ∨
            ∃ found w₂, discover s q source root w₁ = .ok found w₂ ∧ q.delete = true ∧
              deleteFound s (found.map Entry.path) w₂ = .error f w')) ∧
    (∀ root, Search.ReadOnly (discover s q source root)) ∧
    (q.delete = false → ∀ roots, Search.ReadOnly (find s q source roots)) := by
  refine ⟨?_, ?_, discover_readOnly hquiet source, fun hkeep => find_readOnly hquiet hkeep source⟩
  · intro before root after w n w₁ f w' hbefore hfails
    have hroot : findRoot s q source root w₁ = .error f w' := by
      rw [findRoot_eq, Search.bind_error hfails]
    have hquit := discover_quiet (q := q) hquiet source root w₁
    rw [hfails] at hquit
    obtain ⟨found, hbreaks, hfiles, hwritten⟩ := hquit
    exact ⟨find_of_error hbefore hroot, hfiles, found, hbreaks, hwritten⟩
  · intro roots w f w' h
    obtain ⟨before, root, after, n, w₁, hroots, hbefore, hroot⟩ := find_error_inv h
    refine ⟨before, root, after, n, w₁, hroots, hbefore, ?_⟩
    rw [findRoot_eq, Search.bind_eq_error_iff] at hroot
    obtain hfails | ⟨found, w₂, hfound, hdispose⟩ := hroot
    · exact .inl hfails
    · exact .inr ⟨found, w₂, hfound, dispose_error_inv hdispose⟩

/-- Two lines fit: that of a file, which is deleted then, and that of the directory it was in. The
second line of the directory does not fit, and no more is deleted. -/
theorem failed_discovery_deletes_nothing_brokenPipe :
    ∃ w₁ w', find { smallErrand.setting with capacity := some 2 } { delete := true, print := true }
        none [['r', '/', 'a', '/', 'x']] ⟨smallTree, [], []⟩ = .ok 1 w₁ ∧
      find { smallErrand.setting with capacity := some 2 } { delete := true, print := true } none
        [['r', '/', 'a', '/', 'x'], ['r']] ⟨smallTree, [], []⟩ = .error .brokenPipe w' ∧
      w'.files = w₁.files ∧
      w'.written = [['r', '/', 'a', '/', 'x', '\n'], ['r', '\n']] := by
  let s : Setting := { smallErrand.setting with capacity := some 2 }
  let q : Query := { delete := true, print := true }
  let x : Entry := ⟨['r', '/', 'a', '/', 'x'], ['r', '/', 'a', '/', 'x'], ['x'], some .regular⟩
  let v : World := ⟨smallTree, [Walk.lineOf x], []⟩
  let w₁ : World := Search.worldAfter (dispose s q [x] v)
  let w' : World := { w₁ with written := w₁.written ++ [['r', '\n']] }
  have hwalk : walk ⟨s, q, none, x.path⟩ ⟨smallTree, [], []⟩ = .ok [x] v := by
    rw [Walk.walk_eq_run (e := ⟨s, q, none, x.path⟩) rfl, Walk.run_of_turns_done (n := 1) rfl rfl]
    rfl
  have hdispose : dispose s q [x] v = .ok 1 w₁ := rfl
  have hfails : walk ⟨s, q, none, ['r']⟩ w₁ = .error .brokenPipe w' := by
    rw [Walk.walk_eq_run (e := ⟨s, q, none, ['r']⟩) rfl, Walk.run_of_turns (n := 1) rfl,
      Walk.run_of_failed rfl]
    rfl
  have hfind : find s q none [x.path] ⟨smallTree, [], []⟩ = .ok 1 w₁ := by
    have hroot : findRoot s q none x.path ⟨smallTree, [], []⟩ = .ok 1 w₁ := by
      rw [findRoot_eq]
      exact (Search.bind_ok hwalk).trans hdispose
    rw [find, Search.bind_ok hroot]
    rfl
  have h := (failed_discovery_deletes_nothing (s := s) (fun _ _ _ => rfl) q none).1
    [x.path] ['r'] [] ⟨smallTree, [], []⟩ 1 w₁ .brokenPipe w' hfind hfails
  exact ⟨w₁, w', hfind, h.1, h.2.1, rfl⟩

end FileSearch
