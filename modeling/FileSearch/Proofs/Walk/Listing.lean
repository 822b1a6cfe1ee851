import FileSearch.Proofs.Path.Resolution
import FileSearch.Proofs.Walk.Items
import FileSearch.Proofs.Walk.Step
import Mathlib.Data.List.Infix

/-!
What a walk is to show: the tree below its root in pre-order, without what lies too deep and without
what the filter excludes or holds an excluded directory above it. The root itself is not put to the
filter.
Main statements: what is shown below a place is the place and then what is shown below each of its
children that are kept, and these children are what a turn of the walk puts on the stack.
-/

namespace FileSearch.Walk

variable {e : Errand} {fs : FileSystem} {top : Location} {names k : List Name} {n : Name}
  {w : World}

/-- The item under the names, as the file system has it. The root stands at the given location. -/
def treeItem (e : Errand) (fs : FileSystem) (top : Location) (names : List Name) : Item :=
  itemAt e.root names (fs.nodeAt (names.reverse ++ top)).body.kind

/-- The filter says of the path that the names spell that it is to be left out, asked with whether
a directory stands there. -/
def isLeftOut (e : Errand) (fs : FileSystem) (top : Location) (names : List Name) : Bool :=
  match e.filter with
  | none => false
  | some excludes =>
    match excludes (relAt names) ((fs.nodeAt (names.reverse ++ top)).body = .directory) with
    | .ok out => out
    | .error _ => false

/-- Neither what the names lead to nor what lies on the way to it is left out. -/
def isAllowed (e : Errand) (fs : FileSystem) (top : Location) (names : List Name) : Bool :=
  names.inits.all fun before => before.isEmpty || !isLeftOut e fs top before

def isShown (e : Errand) (fs : FileSystem) (top : Location) (names : List Name) : Bool :=
  !tooDeep e.query (treeItem e fs top names) && isAllowed e fs top names

/-- What is shown at a place and below it, by the names on the way from the root. -/
def branch (e : Errand) (fs : FileSystem) (top : Location) (names : List Name) : List (List Name) :=
  ((fs.preorder (names.reverse ++ top)).map (names ++ ·)).filter (isShown e fs top)

/-- The items that a walk is to check. -/
def listing (e : Errand) (fs : FileSystem) (top : Location) : List Item :=
  (branch e fs top []).map (treeItem e fs top)

/-- The children of a place that the filter keeps, in the order of their names. -/
def kids (e : Errand) (fs : FileSystem) (top : Location) (names : List Name) : List (List Name) :=
  ((fs.childNames (names.reverse ++ top)).map fun n => names ++ [n]).filter fun k =>
    !isLeftOut e fs top k

/-- What the walk excludes is what is to be left out. -/
theorem isExcluded_treeItem (e : Errand) (fs : FileSystem) (top : Location) (names : List Name) :
    isExcluded e.filter (treeItem e fs top names) = isLeftOut e fs top names := by
  have hdir : (treeItem e fs top names).entry.isDirectory =
      decide ((fs.nodeAt (names.reverse ++ top)).body = .directory) := by
    simp only [treeItem, itemAt, Entry.isDirectory, Body.kind_eq_directory_iff]
  unfold isExcluded excluded isLeftOut
  rw [← hdir]
  cases e.filter <;> rfl

theorem isAllowed_iff :
    isAllowed e fs top names = true ↔
      ∀ before, before <+: names → before ≠ [] →
        isLeftOut e fs top before = false := by
  unfold isAllowed
  simp only [List.all_eq_true, List.mem_inits, Bool.or_eq_true, List.isEmpty_iff,
    Bool.not_eq_true']
  constructor
  · intro h before hpre hne
    exact (h before hpre).resolve_left hne
  · intro h before hpre
    by_cases hne : before = []
    · exact .inl hne
    · exact .inr (h before hpre hne)

theorem isAllowed_nil : isAllowed e fs top [] = true := by
  rw [isAllowed_iff]
  intro before hpre hne
  exact absurd (List.prefix_nil.1 hpre) hne

theorem isAllowed_concat :
    isAllowed e fs top (names ++ [n]) = true ↔
      isAllowed e fs top names = true ∧
        isLeftOut e fs top (names ++ [n]) = false := by
  simp only [isAllowed_iff]
  constructor
  · intro h
    refine ⟨?_, h _ List.prefix_rfl (by simp)⟩
    intro before hpre
    exact h before (hpre.trans (List.prefix_append _ _))
  · rintro ⟨h, hlast⟩ before hpre hne
    rcases List.prefix_concat_iff.1 (by simpa using hpre) with rfl | hpre
    · simpa using hlast
    · exact h before hpre hne

theorem tooDeep_iff {q : Query} {item : Item} :
    tooDeep q item = true ↔ ∃ bound, q.maxDepth = some bound ∧ bound < item.depth := by
  unfold tooDeep
  cases q.maxDepth <;> simp

/-- What lies below a place that is too deep is too deep as well. -/
theorem branch_of_deep (hdeep : tooDeep e.query (treeItem e fs top names) = true) :
    branch e fs top names = [] := by
  unfold branch
  rw [List.filter_eq_nil_iff]
  intro m hm
  obtain ⟨ns, -, rfl⟩ := List.mem_map.1 hm
  obtain ⟨bound, hbound, hlt⟩ := tooDeep_iff.1 hdeep
  have hlt : bound < names.length := hlt
  have hdeep' : tooDeep e.query (treeItem e fs top (names ++ ns)) = true := by
    refine tooDeep_iff.2 ⟨bound, hbound, ?_⟩
    change bound < (names ++ ns).length
    rw [List.length_append]
    omega
  simp [isShown, hdeep']

/-- Nothing is shown below what is left out. -/
theorem branch_of_leftOut (hne : names ≠ []) (hout : isLeftOut e fs top names = true) :
    branch e fs top names = [] := by
  unfold branch
  rw [List.filter_eq_nil_iff]
  intro m hm
  obtain ⟨ns, -, rfl⟩ := List.mem_map.1 hm
  intro hshown
  rw [isShown, Bool.and_eq_true, isAllowed_iff] at hshown
  have := hshown.2 names (List.prefix_append _ _) hne
  rw [hout] at this
  cases this

/-- A place that is shown comes first, and then what is shown below its children. -/
theorem branch_eq (hdeep : tooDeep e.query (treeItem e fs top names) = false)
    (hallowed : isAllowed e fs top names = true) :
    branch e fs top names = names :: (kids e fs top names).flatMap (branch e fs top) := by
  have hchild (n : Name) :
      ((((fs.preorder (n :: (names.reverse ++ top))).map (n :: ·)).map (names ++ ·)).filter
        (isShown e fs top)) = branch e fs top (names ++ [n]) := by
    simp [branch, Function.comp_def]
  have hkids (ns : List Name) :
      ns.flatMap (fun n => branch e fs top (names ++ [n])) =
        ((ns.map fun n => names ++ [n]).filter fun k => !isLeftOut e fs top k).flatMap
          (branch e fs top) := by
    induction ns with
    | nil => rfl
    | cons n ns ih =>
      rw [List.flatMap_cons, List.map_cons, List.filter_cons, ih]
      cases hout : isLeftOut e fs top (names ++ [n]) with
      | true =>
        rw [branch_of_leftOut (by simp) hout]
        rfl
      | false => rfl
  have hself : isShown e fs top (names ++ []) = true := by
    rw [List.append_nil, isShown, hdeep, hallowed]
    rfl
  rw [branch, FileSystem.preorder_eq, List.map_cons, List.filter_cons_of_pos hself,
    List.append_nil, List.map_flatMap, List.filter_flatMap, kids, ← hkids]
  simp only [hchild]

theorem mem_branch_nil_iff :
    names ∈ branch e fs top [] ↔ names ∈ fs.preorder top ∧ isShown e fs top names = true := by
  simp [branch, List.mem_filter]

/-- What is shown is a part of the tree, in the order of the tree. -/
theorem branch_nil_sublist (e : Errand) (fs : FileSystem) (top : Location) :
    (branch e fs top []).Sublist (fs.preorder top) := by
  have hall : (fs.preorder ([].reverse ++ top)).map ([] ++ ·) = fs.preorder top := by simp
  rw [branch, hall]
  exact List.filter_sublist

/-! ### The children on the stack -/

/-- What holds of the places on the stack: their paths name them, if a request can be made for these
paths at all, and they are allowed. -/
structure Scheduled (e : Errand) (fs : FileSystem) (top : Location) (names : List Name) :
    Prop where
  placed : FileSystem.checkPath (pathAt e.root names) = .ok () →
    fs.locate e.setting.cwd false (pathAt e.root names) = .ok (names.reverse ++ top)
  allowed : isAllowed e fs top names = true

/-- What leads somewhere can be asked for. -/
theorem checkPath_of_leadsTo {cwd dir : Location} {path : Text} (h : fs.LeadsTo cwd path dir) :
    FileSystem.checkPath path = .ok () := (FileSystem.leadsTo_iff.1 h).1

theorem Scheduled.leadsTo (h : Scheduled e fs top names)
    (hdir : (fs.nodeAt (names.reverse ++ top)).body = .directory) {dir : Location}
    (hlead : fs.LeadsTo e.setting.cwd (pathAt e.root names) dir) : dir = names.reverse ++ top :=
  FileSystem.leadsTo_unique hlead
    (FileSystem.leadsTo_of_locate (h.placed (checkPath_of_leadsTo hlead)) hdir)

theorem Scheduled.kid (hroot : e.root ≠ []) (h : Scheduled e fs top names)
    (hlead : fs.LeadsTo e.setting.cwd (pathAt e.root names) (names.reverse ++ top))
    (hk : k ∈ kids e fs top names) : Scheduled e fs top k := by
  obtain ⟨hk, hkeep⟩ := List.mem_filter.1 hk
  obtain ⟨n, hn, rfl⟩ := List.mem_map.1 hk
  refine ⟨?_, isAllowed_concat.2 ⟨h.allowed, by simpa using hkeep⟩⟩
  intro hcheck
  rw [pathAt_concat hroot] at hcheck ⊢
  refine (FileSystem.locate_joinPath_eq_ok_iff (pathAt_ne_nil hroot names)).2
    ⟨hcheck, _, hlead, FileSystem.mem_childNames.1 hn, by simp⟩

theorem isDirectory_treeItem :
    (treeItem e fs top names).entry.isDirectory = true ↔
      (fs.nodeAt (names.reverse ++ top)).body = .directory := by
  simp [treeItem, itemAt, Entry.isDirectory, Body.kind_eq_directory_iff]

theorem kids_of_not_directory
    (hdir : (fs.nodeAt (names.reverse ++ top)).body ≠ .directory) : kids e fs top names = [] := by
  have hnone : fs.childNames (names.reverse ++ top) = [] := by
    rw [List.eq_nil_iff_forall_not_mem]
    intro n hn
    exact hdir (FileSystem.nodeAt_directory_of_isSome (FileSystem.mem_childNames.1 hn))
  rw [kids, hnone]
  rfl

/-- What a turn puts on the stack is the children that are kept, and these are scheduled. -/
theorem below_of_expands (hroot : e.root ≠ []) (h : Scheduled e fs top names) {below : List Item}
    (hexp : Expands e fs (treeItem e fs top names) below) :
    below = (kids e fs top names).map (treeItem e fs top) ∧
      ∀ k ∈ kids e fs top names, Scheduled e fs top k := by
  rcases hexp with hdir | ⟨hdir, hlist, hfilter⟩
  · have hnot : (fs.nodeAt (names.reverse ++ top)).body ≠ .directory := by
      intro hd
      rw [isDirectory_treeItem.2 hd] at hdir
      cases hdir
    rw [kids_of_not_directory hnot]
    exact ⟨rfl, nofun⟩
  · rw [isDirectory_treeItem] at hdir
    obtain ⟨dir, hlead, rfl⟩ := FileSystem.list_eq_ok_iff.1 hlist
    have hlead : fs.LeadsTo e.setting.cwd (pathAt e.root names) dir := hlead
    obtain rfl := h.leadsTo hdir hlead
    refine ⟨?_, fun k hk => h.kid hroot hlead hk⟩
    have hitems : childItems e (treeItem e fs top names) (fs.entries (names.reverse ++ top)) =
        ((fs.childNames (names.reverse ++ top)).map fun n => names ++ [n]).map
          (treeItem e fs top) := by
      rw [childItems, treeItem, children_itemAt hroot, List.map_map]
      apply List.map_congr_left
      intro n _
      simp [treeItem]
    have hkept : (fun i => !isExcluded e.filter i) ∘ treeItem e fs top =
        fun k => !isLeftOut e fs top k := by
      funext k
      rw [Function.comp_apply, isExcluded_treeItem]
    rw [hitems, List.filter_map, hkept, kids]

/-! ### The start of a walk -/

/-- Where the walk of a root starts that stands at the location. -/
def start (e : Errand) (w : World) (top : Location) : WalkState :=
  ⟨[treeItem e w.files top []], [], w⟩

theorem root_ne_nil (hroot : fs.locate e.setting.cwd false e.root = .ok top) : e.root ≠ [] := by
  intro hempty
  rw [hempty] at hroot
  cases hroot

theorem walk_eq_run (hroot : w.files.locate e.setting.cwd false e.root = .ok top) :
    walk e w = run e (start e w top) := by
  have hstatus : w.files.status e.setting.cwd e.root = .ok (w.files.nodeAt top) := by
    rw [FileSystem.status, hroot]
    rfl
  rw [walk, Search.get_bind]
  exact Search.ofExcept_bind_ok hstatus

theorem status_of_error {cwd : Location} {path : Text} {f : Fault}
    (h : fs.locate cwd false path = .error f) : fs.status cwd path = .error f := by
  rw [FileSystem.status, h]
  rfl

/-- A walk that does not find its root fails with nothing done. -/
theorem walk_of_error {f : Fault} (h : w.files.locate e.setting.cwd false e.root = .error f) :
    walk e w = .error f w := by
  rw [walk, Search.get_bind]
  exact Search.ofExcept_bind_error (status_of_error h)

/-- A walk that ends normally has found its root. -/
theorem locate_of_walk {found : List Entry} {w' : World} (h : walk e w = .ok found w') :
    ∃ top, w.files.locate e.setting.cwd false e.root = .ok top := by
  cases hroot : w.files.locate e.setting.cwd false e.root with
  | ok top => exact ⟨top, rfl⟩
  | error f =>
    rw [walk_of_error hroot] at h
    cases h

end FileSearch.Walk
