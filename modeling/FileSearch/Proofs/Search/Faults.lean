import FileSearch.Proofs.Deletion.Interference
import FileSearch.Proofs.Path.Refusal
import FileSearch.Proofs.Query.ShortCircuit
import FileSearch.Proofs.Search.Outcome

/-!
With which faults a search fails. The names that a directory lists have no NUL, so that no path of a
walk has one if its root has none; and an age can be told of everything if it can be told at the
start.
Main statement: a search of roots without a NUL fails with a fault that is reported, or because
there is no filter for one of its roots, or because the output has no bytes for a line that is to be
printed. Such a line makes it fail.
-/

namespace FileSearch

open FileSystem Walk

theorem IsRefusal.isReported {path : Text} {f : Fault} (h : IsRefusal path f) :
    f.isReported = true := by
  obtain ⟨reason, rfl⟩ := h
  rfl

/-! ### Ends of a search -/

namespace Search

variable {α β : Type} {x : Search α} {g : α → Search β} {w : World} {p p' : α → World → Prop}
  {r : β → World → Prop} {b b' : Fault → Prop}

/-- A search ended well or with a fault, as told. -/
inductive Ends (p : α → World → Prop) (b : Fault → Prop) : EStateM.Result Fault World α → Prop
  | ok {a : α} {v : World} (h : p a v) : Ends p b (.ok a v)
  | error {f : Fault} {v : World} (h : b f) : Ends p b (.error f v)

theorem Ends.mono {result : EStateM.Result Fault World α} (h : Ends p b result)
    (hp : ∀ a v, p a v → p' a v) (hb : ∀ f, b f → b' f) : Ends p' b' result := by
  cases h with
  | ok h => exact .ok (hp _ _ h)
  | error h => exact .error (hb _ h)

theorem Ends.bind (hx : Ends p b (x w)) (hg : ∀ a v, p a v → Ends r b (g a v)) :
    Ends r b ((x >>= g) w) := by
  cases hrun : x w with
  | ok a v =>
    rw [hrun] at hx
    cases hx with
    | ok h =>
      rw [bind_ok hrun]
      exact hg a v h
  | error f v =>
    rw [hrun] at hx
    cases hx with
    | error h =>
      rw [bind_error hrun]
      exact .error h

end Search

open Search (Ends)

/-! ### Ages -/

/-- If the query asks for an age, it can be told how long ago the time is. -/
def HasAge (s : Setting) (q : Query) (stamp : Stamp) : Prop :=
  q.age.isSome = true → (ageInDays stamp.toFloat s.now).isSome

/-- The same of everything in the file system. -/
def HasAges (s : Setting) (q : Query) (files : FileSystem) : Prop :=
  ∀ l node, files.get? l = some node → HasAge s q node.modified

/-- Ages can be told of what is modified during a search, and of a current directory that is
removed. -/
structure KeepsAges (s : Setting) (q : Query) : Prop where
  stamp : HasAge s q s.stamp
  removed : HasAge s q ⟨0, 0⟩
  others : ∀ index text files, HasAges s q files → HasAges s q (s.others index text files)

section Ages

variable {s : Setting} {q : Query} {files : FileSystem}

theorem hasAge_of_none (h : q.age = none) (stamp : Stamp) : HasAge s q stamp := by
  intro hage
  rw [h] at hage
  cases hage

/-- A query that asks for no age is content with every time. -/
theorem hasAges_of_none (h : q.age = none) : HasAges s q files :=
  fun _ node _ => hasAge_of_none h node.modified

theorem keepsAges_of_none (h : q.age = none) : KeepsAges s q where
  stamp := hasAge_of_none h _
  removed := hasAge_of_none h _
  others _ _ _ _ := hasAges_of_none h

theorem HasAges.nodeAt (hs : KeepsAges s q) (h : HasAges s q files) (l : Location) :
    HasAge s q (files.nodeAt l).modified := by
  cases hnode : files.get? l with
  | none =>
    rw [FileSystem.nodeAt, hnode]
    exact hs.removed
  | some node =>
    rw [nodeAt_of_get? hnode]
    exact h l node hnode

theorem HasAges.takeOut (hs : KeepsAges s q) (h : HasAges s q files) (n : Name) (dir : Location) :
    HasAges s q (files.takeOut s.stamp n dir) := by
  intro l node hnode
  rw [get?_takeOut] at hnode
  split at hnode
  · cases hnode
  · split at hnode
    · obtain ⟨old, -, rfl⟩ := Option.map_eq_some_iff.1 hnode
      exact hs.stamp
    · exact h l node hnode

end Ages

/-! ### Conditions -/

/-- A look at an entry fails only with faults that are reported, and tells its age if the query asks
for one. -/
structure Probe.IsSound (probe : Probe) (q : Query) (now : Float) : Prop where
  status : FailsWith (·.isReported = true) (probe.status ())
  age : ∀ status, probe.status () = .ok status → q.age.isSome = true →
    (ageInDays status.modified now).isSome
  vacant : FailsWith (·.isReported = true) (probe.vacant ())

namespace Query

variable {q : Query} {probe : Probe} {now : Float}

theorem failsWith_globHolds (pattern name : Text) :
    FailsWith (·.isReported = true) (globHolds pattern name) := by
  unfold globHolds
  split
  · exact .error rfl
  · exact .ok _

/-- The check of a condition fails only with faults that are reported. -/
theorem failsWith_outcome? (h : probe.IsSound q now) {e : Entry} {depth : Int} {c : Condition}
    {x : Except Fault Bool} (hx : q.outcome? e probe now depth c = some x) :
    FailsWith (·.isReported = true) x := by
  cases c with
  | depth =>
    obtain ⟨least, -, rfl⟩ := Option.map_eq_some_iff.1 hx
    exact .ok _
  | kind =>
    obtain ⟨k, -, rfl⟩ := Option.map_eq_some_iff.1 hx
    exact .ok _
  | name =>
    obtain ⟨glob, -, rfl⟩ := Option.map_eq_some_iff.1 hx
    exact failsWith_globHolds _ _
  | path =>
    obtain ⟨pattern, -, rfl⟩ := Option.map_eq_some_iff.1 hx
    exact failsWith_globHolds _ _
  | empty =>
    rw [outcome?] at hx
    split at hx
    · cases hx
    · split at hx
      · cases hx
        exact h.vacant
      · cases hx
        exact h.status.map _
  | size =>
    obtain ⟨b, -, rfl⟩ := Option.map_eq_some_iff.1 hx
    exact h.status.map _
  | age =>
    obtain ⟨b, hage, rfl⟩ := Option.map_eq_some_iff.1 hx
    refine h.status.bind fun status hstatus => ?_
    have hsome := h.age status hstatus (by simp [hage])
    obtain ⟨days, hdays⟩ := Option.isSome_iff_exists.1 hsome
    rw [hdays]
    exact .ok _

/-- A query fails only with faults that are reported. -/
theorem failsWith_holds (h : probe.IsSound q now) (e : Entry) (depth : Int) :
    FailsWith (·.isReported = true) (q.holds e probe now depth) := by
  intro f hf
  rw [holds_eq_inOrder, inOrder_eq_iff_stopsWith (by simp)] at hf
  obtain ⟨_, c, _, -, hc, -⟩ := hf
  exact failsWith_outcome? h hc f rfl

end Query

/-! ### Walks -/

namespace Walk

variable {e : Errand} {files : FileSystem} {item : Item} {found : Bool} {below : List Item}
  {w w' : World}

theorem isSound_probe {s : Setting} {q : Query} (hs : KeepsAges s q) (hages : HasAges s q files)
    {path : Text} (hnul : '\x00' ∉ path) : (probe s files path).IsSound q s.now where
  status := ((failsWith_status files s.cwd hnul).map _).mono fun _ h => h.isReported
  age := by
    intro status hstatus
    simp only [probe, FileSystem.status] at hstatus
    cases hplace : files.locate s.cwd false path with
    | error f => simp [hplace, Except.map] at hstatus
    | ok l =>
      simp only [hplace, Except.map, Except.ok.injEq] at hstatus
      subst hstatus
      exact hages.nodeAt hs l
  vacant := ((failsWith_list files s.cwd hnul).map _).mono fun _ h => h.isReported

/-- The filter has an answer for every item. -/
def FilterAnswers (filter : Option EntryFilter) : Prop := ∀ item, Answered filter item

theorem failsWith_verdict (hs : KeepsAges e.setting e.query)
    (hages : HasAges e.setting e.query files) (hnul : '\x00' ∉ item.entry.path) :
    FailsWith (·.isReported = true) (verdict e files item) :=
  Query.failsWith_holds (isSound_probe hs hages hnul) item.entry item.depth

theorem Reports.hasAges {v : World} (hs : KeepsAges e.setting e.query)
    (hages : HasAges e.setting e.query w.files) (h : Reports e item w found v) :
    HasAges e.setting e.query v.files := by
  cases h with
  | line => exact hs.others _ _ _ hages
  | silent => exact hages

theorem Step.hasAges (hs : KeepsAges e.setting e.query)
    (hages : HasAges e.setting e.query w.files) (h : Step e item w found below w') :
    HasAges e.setting e.query w'.files := by
  cases h with
  | deep _ hlog => exact hlog.files ▸ hages
  | checked _ _ hreport _ hlog => exact hlog.files ▸ hreport.hasAges hs hages

/-- A walk comes to an item that is to be printed and has a line without bytes. -/
inductive Unwritable (e : Errand) : WalkState → Prop
  | here {st : WalkState} {item : Item} {rest : List Item} (hstack : st.stack = item :: rest)
      (hdeep : tooDeep e.query item = false) (hverdict : verdict e st.world.files item = .ok true)
      (hprint : e.query.print = true) (hline : e.setting.output.encodes (lineOf item.entry) = false) :
      Unwritable e st
  | later {st st' : WalkState} (hturn : turn e st = .next st') (h : Unwritable e st') :
      Unwritable e st

/-- The turn of an item with a line without bytes fails. -/
theorem turn_of_unwritable {st : WalkState} {rest : List Item} (hstack : st.stack = item :: rest)
    (hdeep : tooDeep e.query item = false) (hverdict : verdict e st.world.files item = .ok true)
    (hprint : e.query.print = true)
    (hline : e.setting.output.encodes (lineOf item.entry) = false) :
    turn e st = .failed .unencodable st.world := by
  have hrefusal : Search.refusal? e.setting st.world.written.length (lineOf item.entry) =
      some .unencodable := by simp [Search.refusal?, hline]
  have hreport : report e true item.entry st.world = .error .unencodable st.world := by
    rw [report, hprint]
    exact write_of_refusal hrefusal
  have hvisit : visit e item st.world = .error .unencodable st.world := by
    rw [visit, Search.get_bind]
    exact (Search.ofExcept_bind_ok hverdict).trans (Search.bind_error hreport)
  have hprocess : process e item st.world = .error .unencodable st.world := by
    rw [process, hdeep]
    exact Search.bind_error hvisit
  simp only [turn, hstack, hprocess]

theorem Unwritable.run_eq {st : WalkState} (h : Unwritable e st) :
    ∃ w, run e st = .error .unencodable w := by
  induction h with
  | here hstack hdeep hverdict hprint hline =>
    exact ⟨_, run_of_failed (turn_of_unwritable hstack hdeep hverdict hprint hline)⟩
  | later hturn _ ih =>
    obtain ⟨w, hrun⟩ := ih
    exact ⟨w, (run_of_next hturn).trans hrun⟩

/-- A turn that fails does so with a fault that is reported, or because of the line of its item. -/
theorem Stuck.isReported_or {st : WalkState} {rest : List Item} (hs : KeepsAges e.setting e.query)
    (hages : HasAges e.setting e.query st.world.files) (hfilter : FilterAnswers e.filter)
    (hnul : '\x00' ∉ item.entry.path) (hstack : st.stack = item :: rest) {f : Fault}
    (h : Stuck e item st.world f w') :
    f.isReported = true ∨ f = .unencodable ∧ Unwritable e st := by
  cases h with
  | check _ hverdict => exact .inl (failsWith_verdict hs hages hnul f hverdict)
  | write hdeep hverdict hprint hrefusal =>
    unfold Search.refusal? at hrefusal
    cases hline : e.setting.output.encodes (lineOf item.entry) with
    | false =>
      obtain rfl : Fault.unencodable = f := by simpa [hline] using hrefusal
      exact .inr ⟨rfl, .here hstack hdeep hverdict hprint hline⟩
    | true =>
      obtain ⟨-, rfl⟩ : _ ∧ Fault.brokenPipe = f := by simpa [hline] using hrefusal
      exact .inl rfl
  | expand _ _ _ hfail _ =>
    cases hfail with
    | list _ hlist => exact .inl (failsWith_list _ _ hnul f hlist).isReported
    | filter _ _ _ hexcluded =>
      obtain ⟨b, hb⟩ := hfilter _
      rw [hb] at hexcluded
      cases hexcluded

theorem Step.nul_not_mem (hnul : '\x00' ∉ item.entry.path) (h : Step e item w found below w') :
    ∀ i ∈ below, '\x00' ∉ i.entry.path := by
  cases h with
  | deep => exact List.forall_mem_nil _
  | checked _ _ _ hexpand _ =>
    cases hexpand with
    | leaf => exact List.forall_mem_nil _
    | listed _ _ _ =>
      intro i hi
      obtain ⟨p, -, rfl⟩ := List.mem_map.1 (List.mem_filter.1 hi).1
      exact nul_not_mem_joinPath hnul p.1.nul_not_mem

/-- A run from a stack of paths without a NUL finds such paths, or fails with a fault that is
reported, or comes to a line without bytes. -/
theorem run_faults (hs : KeepsAges e.setting e.query) (hfilter : FilterAnswers e.filter)
    (st : WalkState) (hages : HasAges e.setting e.query st.world.files)
    (hstack : ∀ i ∈ st.stack, '\x00' ∉ i.entry.path)
    (hmatched : ∀ m ∈ st.matched, '\x00' ∉ m.path) :
    Ends (fun found v => HasAges e.setting e.query v.files ∧ ∀ m ∈ found, '\x00' ∉ m.path)
      (fun f => f.isReported = true ∨ f = .unencodable ∧ Unwritable e st) (run e st) := by
  induction st using run.induct e with
  | case1 st hturn =>
    rw [run_of_done hturn]
    exact .ok ⟨hages, hmatched⟩
  | case2 st f w hturn =>
    rw [run_of_failed hturn]
    cases turned_of_eq hturn with
    | failed htop hstuck =>
      rw [htop] at hstack
      exact .error (hstuck.isReported_or hs hages hfilter (hstack _ List.mem_cons_self) htop)
  | case3 st st' hturn ih =>
    rw [run_of_next hturn]
    cases turned_of_eq hturn with
    | @next item rest below found _ htop hstep hbelow hmatch =>
      rw [htop] at hstack
      obtain ⟨hitem, hrest⟩ := List.forall_mem_cons.1 hstack
      refine (ih (hstep.hasAges hs hages) ?_ ?_).mono (fun _ _ h => h) fun f hf =>
        hf.imp_right fun h => ⟨h.1, .later hturn h.2⟩
      · rw [hbelow]
        intro i hi
        rcases List.mem_append.1 hi with hi | hi
        · exact hstep.nul_not_mem hitem i hi
        · exact hrest i hi
      · rw [hmatch]
        intro m hm
        cases found with
        | false => exact hmatched m hm
        | true =>
          rcases List.mem_append.1 hm with hm | hm
          · exact hmatched m hm
          · rw [List.mem_singleton.1 hm]
            exact hitem

theorem walk_faults (hs : KeepsAges e.setting e.query) (hfilter : FilterAnswers e.filter)
    (hages : HasAges e.setting e.query w.files) (hnul : '\x00' ∉ e.root) :
    Ends (fun found v => HasAges e.setting e.query v.files ∧ ∀ m ∈ found, '\x00' ∉ m.path)
      (fun f => f.isReported = true ∨ f = .unencodable ∧
        ∃ top, w.files.locate e.setting.cwd false e.root = .ok top ∧ Unwritable e (start e w top))
      (walk e w) := by
  cases hroot : w.files.locate e.setting.cwd false e.root with
  | error f =>
    rw [walk_of_error hroot]
    exact .error (.inl (failsWith_locate _ _ false hnul f hroot).isReported)
  | ok top =>
    rw [walk_eq_run hroot]
    have hrun := run_faults hs hfilter (start e w top) hages
      (List.forall_mem_singleton.2 hnul) (List.forall_mem_nil _)
    exact hrun.mono (fun _ _ h => h) fun f hf => hf.imp_right fun h => ⟨h.1, top, rfl, h.2⟩

end Walk

/-! ### Deletions -/

variable {s : Setting} {q : Query} {source : Option FilterSource} {root : Text}
  {roots : List Text} {found : List Entry} {w w' : World} {n : Nat}

theorem removePath_faults (hs : KeepsAges s q) (hages : HasAges s q w.files) {path : Text}
    (hnul : '\x00' ∉ path) :
    Ends (fun _ v => HasAges s q v.files) (·.isReported = true) (Delete.removePath s path w) := by
  cases hremove : Delete.removeNode s w.files path with
  | error f =>
    obtain ⟨v, hv, -⟩ := Delete.removePath_of_error hremove
    rw [hv]
    exact .error (failsWith_removeNode s w.files hnul f hremove).isReported
  | ok files =>
    obtain ⟨v, hv, rfl⟩ := Delete.removePath_of_ok hremove
    obtain ⟨dir, step, n, node, -, -, hfiles⟩ := Delete.removeNode_inv hremove
    rw [hv]
    refine .ok ?_
    rw [hfiles]
    exact hages.takeOut hs n dir

theorem removePaths_faults (hs : KeepsAges s q) {paths : List Text}
    (hnul : ∀ path ∈ paths, '\x00' ∉ path) (hages : HasAges s q w.files) :
    Ends (fun _ v => HasAges s q v.files) (·.isReported = true) (Delete.removePaths s paths w) := by
  induction paths generalizing w with
  | nil => exact .ok hages
  | cons path paths ih =>
    obtain ⟨hpath, hpaths⟩ := List.forall_mem_cons.1 hnul
    exact (removePath_faults hs hages hpath).bind fun _ _ hages => ih hpaths hages

theorem dispose_faults (hs : KeepsAges s q) (hages : HasAges s q w.files)
    (hnul : ∀ m ∈ found, '\x00' ∉ m.path) :
    Ends (fun _ v => HasAges s q v.files) (·.isReported = true) (dispose s q found w) := by
  cases hdelete : q.delete with
  | false =>
    rw [dispose_of_kept hdelete]
    exact .ok hages
  | true =>
    have hpaths : ∀ path ∈ (found.map Entry.path).reverse, '\x00' ∉ path := by
      simpa using hnul
    rw [dispose, hdelete, if_pos rfl]
    exact (removePaths_faults hs hpaths hages).bind fun _ _ hages => .ok hages

/-! ### Searches -/

/-- The filters of the source have an answer for every item. -/
def SourceAnswers (source : Option FilterSource) : Prop :=
  ∀ files root made, filterOf source files root = .ok made →
    FilterAnswers (made.map RootFilter.excludes)

/-- The walk of a root comes to a line without bytes. -/
def HasUnwritable (s : Setting) (q : Query) (source : Option FilterSource) (root : Text)
    (w : World) : Prop :=
  ∃ filter v top, filterFor source root w = .ok filter v ∧
    v.files.locate s.cwd false root = .ok top ∧
      Unwritable ⟨s, q, filter, root⟩ (start ⟨s, q, filter, root⟩ v top)

theorem HasUnwritable.findRoot_eq (h : HasUnwritable s q source root w) :
    ∃ v, findRoot s q source root w = .error .unencodable v := by
  obtain ⟨filter, v, top, hfilter, hplace, hline⟩ := h
  obtain ⟨u, hrun⟩ := hline.run_eq
  have hwalk : walk ⟨s, q, filter, root⟩ v = .error .unencodable u :=
    (walk_eq_run hplace).trans hrun
  exact ⟨u, (Search.bind_ok hfilter).trans (Search.bind_error hwalk)⟩

theorem filterFor_faults (hsource : SourceAnswers source) (hages : HasAges s q w.files)
    (root : Text) :
    Ends (fun filter v => filterFor source root w = .ok filter v ∧ HasAges s q v.files ∧
        FilterAnswers filter)
      (fun f => filterOf source w.files root = .error f) (filterFor source root w) := by
  have hfilter := filterFor_result source root w
  cases hrun : filterFor source root w with
  | error f v =>
    rw [hrun] at hfilter
    exact .error hfilter.2
  | ok filter v =>
    rw [hrun] at hfilter
    obtain ⟨hlog, made, hmade, rfl⟩ := hfilter
    exact .ok ⟨rfl, hlog.files ▸ hages, hsource _ _ _ hmade⟩

/-- With which faults the search of a root fails. -/
theorem findRoot_faults (hs : KeepsAges s q) (hsource : SourceAnswers source)
    (hages : HasAges s q w.files) (hnul : '\x00' ∉ root) :
    Ends (fun _ v => HasAges s q v.files)
      (fun f => f.isReported = true ∨ filterOf source w.files root = .error f ∨
        f = .unencodable ∧ HasUnwritable s q source root w)
      (findRoot s q source root w) := by
  have hfilter := filterFor_faults hsource hages root
  rw [FileSearch.findRoot_eq, discover, bind_assoc]
  refine (hfilter.mono (fun _ _ h => h) fun _ h => .inr (.inl h)).bind ?_
  rintro filter v ⟨hmade, hages, hanswers⟩
  have hwalk := walk_faults (e := ⟨s, q, filter, root⟩) hs hanswers hages hnul
  have hline {f : Fault} (hf : f.isReported = true ∨ f = .unencodable ∧
      ∃ top, v.files.locate s.cwd false root = .ok top ∧
        Unwritable ⟨s, q, filter, root⟩ (start ⟨s, q, filter, root⟩ v top)) :
      f.isReported = true ∨ filterOf source w.files root = .error f ∨
        f = .unencodable ∧ HasUnwritable s q source root w := by
    rcases hf with hreported | ⟨rfl, top, hplace, hline⟩
    · exact .inl hreported
    · exact .inr (.inr ⟨rfl, filter, v, top, hmade, hplace, hline⟩)
  refine (hwalk.mono (fun _ _ h => h) fun _ => hline).bind ?_
  rintro found u ⟨hages, hpaths⟩
  exact (dispose_faults hs hages hpaths).mono (fun _ _ h => h) fun _ => .inl

theorem hasAges_of_find (hs : KeepsAges s q) (hsource : SourceAnswers source)
    (hages : HasAges s q w.files) (hnul : ∀ root ∈ roots, '\x00' ∉ root)
    (h : find s q source roots w = .ok n w') : HasAges s q w'.files := by
  induction roots generalizing w n with
  | nil =>
    obtain ⟨-, rfl⟩ := Search.pure_eq_ok_iff.1 h
    exact hages
  | cons root roots ih =>
    obtain ⟨hroot, hroots⟩ := List.forall_mem_cons.1 hnul
    obtain ⟨here, u, there, hhere, hthere, -⟩ := find_cons_ok_iff.1 h
    have hfirst := findRoot_faults (q := q) hs hsource hages hroot
    rw [hhere] at hfirst
    cases hfirst with
    | ok hages => exact ih hages hroots hthere

/-- A search of roots without a NUL fails with a fault that is reported, or because there is no
filter for one of them, or because of a line without bytes. -/
theorem find_faults (hs : KeepsAges s q) (hsource : SourceAnswers source)
    (hages : HasAges s q w.files) (hnul : ∀ root ∈ roots, '\x00' ∉ root) {f : Fault}
    (h : find s q source roots w = .error f w') :
    f.isReported = true ∨ ∃ before root after n v, roots = before ++ root :: after ∧
      find s q source before w = .ok n v ∧ (filterOf source v.files root = .error f ∨
        f = .unencodable ∧ HasUnwritable s q source root v) := by
  obtain ⟨before, root, after, n, v, rfl, hbefore, hroot⟩ := find_error_inv h
  have hroots : ∀ r ∈ before, '\x00' ∉ r := fun r hr => hnul r (List.mem_append_left _ hr)
  have hnul : '\x00' ∉ root := hnul root (List.mem_append_right _ List.mem_cons_self)
  have hages := hasAges_of_find hs hsource hages hroots hbefore
  have hfaults := findRoot_faults (q := q) hs hsource hages hnul
  rw [hroot] at hfaults
  cases hfaults with
  | error h =>
    rcases h with hreported | hfails
    · exact .inl hreported
    · exact .inr ⟨before, root, after, n, v, rfl, hbefore, hfails⟩

end FileSearch
