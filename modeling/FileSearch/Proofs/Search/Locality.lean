import FileSearch.Proofs.Query.ShortCircuit
import FileSearch.Proofs.Search.Plain

/-!
What a search of a plain root depends on. The paths of a walk name what stands at the root and below
it, so that file systems which agree there are searched alike, whatever they hold elsewhere and
wherever links below the root lead.
Main statements: a query looks up no more than its conditions ask for, and a plain root is
searchable in two file systems alike if they agree below it; the same is found there and the same is
removed.
-/

namespace FileSearch

/-! ### What a query looks up -/

section Lookups

variable {q : Query} {p p' : Probe} {now now' : Float}

/-- Two looks at an entry lead to the same answer if they agree on what the query asks for. -/
theorem Query.holds_congr {e : Entry} {depth : Int}
    (hstatus : q.emptyOnly = true ∨ q.size ≠ none ∨ q.age ≠ none → p.status () = p'.status ())
    (hvacant : q.emptyOnly = true → e.kind = some .directory → p.vacant () = p'.vacant ())
    (hnow : q.age ≠ none → now = now') : q.holds e p now depth = q.holds e p' now' depth := by
  rw [holds_eq_inOrder, holds_eq_inOrder]
  refine inOrder_congr fun c _ => ?_
  cases c with
  | depth | kind | name | path => rfl
  | empty =>
    unfold outcome?
    cases honly : q.emptyOnly with
    | false => rfl
    | true =>
      rw [hstatus (.inl honly)]
      by_cases hkind : e.kind = some .directory
      · simp [hkind, hvacant honly hkind]
      · simp [hkind]
  | size =>
    unfold outcome?
    cases hsize : q.size with
    | none => rw [Option.map_none, Option.map_none]
    | some b => rw [hstatus (.inr (.inl (by simp [hsize])))]
  | age =>
    unfold outcome?
    -- without a condition on the age the two times are not compared, so that no age is computed
    cases hage : q.age with
    | none => rw [Option.map_none, Option.map_none]
    | some b => rw [hstatus (.inr (.inr (by simp [hage]))), hnow (by simp [hage])]

end Lookups

/-! ### File systems that agree below a location -/

namespace FileSystem

variable {fs fs' : FileSystem} {top dir l : Location} {ns : List Name}

/-- At the location and below it stands the same. -/
def AgreeBelow (fs fs' : FileSystem) (top : Location) : Prop :=
  ∀ l, top <:+ l → fs'.get? l = fs.get? l

theorem AgreeBelow.symm (h : AgreeBelow fs fs' top) : AgreeBelow fs' fs top :=
  fun l hl => (h l hl).symm

theorem AgreeBelow.get? (h : AgreeBelow fs fs' top) (ns : List Name) :
    fs'.get? (ns.reverse ++ top) = fs.get? (ns.reverse ++ top) := h _ (List.suffix_append _ _)

theorem AgreeBelow.get?_child (h : AgreeBelow fs fs' top) (n : Name) (ns : List Name) :
    fs'.get? (n :: (ns.reverse ++ top)) = fs.get? (n :: (ns.reverse ++ top)) :=
  h _ ((List.suffix_append _ _).trans (List.suffix_cons _ _))

theorem AgreeBelow.nodeAt (h : AgreeBelow fs fs' top) (ns : List Name) :
    fs'.nodeAt (ns.reverse ++ top) = fs.nodeAt (ns.reverse ++ top) := by
  rw [FileSystem.nodeAt, FileSystem.nodeAt, h.get?]

theorem childNames_congr (h : ∀ n, fs'.get? (n :: dir) = fs.get? (n :: dir)) :
    fs'.childNames dir = fs.childNames dir := by
  refine List.Perm.eq_of_pairwise (fun m n _ _ hmn hnm => ?_) (fs'.pairwise_childNames dir)
    (fs.pairwise_childNames dir) ?_
  · exact Name.text_injective (sortsBefore_antisymm hmn hnm)
  · rw [List.perm_ext_iff_of_nodup (fs'.nodup_childNames dir) (fs.nodup_childNames dir)]
    intro n
    rw [mem_childNames, mem_childNames, h]

theorem isEmpty_entries_congr (h : ∀ n, fs'.get? (n :: dir) = fs.get? (n :: dir)) :
    (fs'.entries dir).isEmpty = (fs.entries dir).isEmpty := by
  rw [Bool.eq_iff_iff, List.isEmpty_iff, List.isEmpty_iff, List.eq_nil_iff_forall_not_mem,
    List.eq_nil_iff_forall_not_mem]
  simp only [Prod.forall, mem_entries_iff, h]

/-- The same tree is listed. -/
theorem AgreeBelow.preorder (h : AgreeBelow fs fs' top) : fs'.preorder top = fs.preorder top := by
  induction top using preorder.induct fs with
  | case1 top ih =>
    have hchildren := childNames_congr fun n => h (n :: top) (List.suffix_cons n top)
    rw [preorder_eq, preorder_eq, hchildren]
    congr 1
    refine List.flatMap_congr fun n hn => ?_
    rw [ih ⟨n, hn⟩ fun l hl => h l ((List.suffix_cons n top).trans hl)]

end FileSystem

open FileSystem Walk

/-! ### Requests below a plain root -/

/-- File systems that agree below a root of plain names, which stands at the location. -/
structure SameBelow (fs fs' : FileSystem) (cwd : Location) (absolute : Bool) (names : List Name)
    (root : Text) (top : Location) : Prop where
  plain : IsPlain fs cwd absolute names root
  place : top = names.reverse ++ baseOf absolute cwd
  agree : AgreeBelow fs fs' top

section Requests

variable {fs fs' : FileSystem} {cwd : Location} {root : Text} {absolute : Bool}
  {names ns : List Name} {top : Location}

/-- What stands below the root is found in both, or its path is too long. -/
theorem SameBelow.locate_cases (h : SameBelow fs fs' cwd absolute names root top)
    (hsome : (fs.get? (ns.reverse ++ top)).isSome) {followLast : Bool}
    (hlink : followLast = false ∨ (fs.nodeAt (ns.reverse ++ top)).body = .directory) :
    (∃ f, fs.locate cwd followLast (pathAt root ns) = .error f ∧
        fs'.locate cwd followLast (pathAt root ns) = .error f) ∨
      (fs.locate cwd followLast (pathAt root ns) = .ok (ns.reverse ++ top) ∧
        fs'.locate cwd followLast (pathAt root ns) = .ok (ns.reverse ++ top)) := by
  obtain ⟨hplain, rfl, hagree⟩ := h
  obtain ⟨node, hnode⟩ := Option.isSome_iff_exists.1 hsome
  rw [nodeAt_of_get? hnode] at hlink
  have hlink : followLast = false ∨ node.body.kind ≠ some .symlink :=
    hlink.imp_right fun hdir => by simp [hdir, Body.kind]
  cases hcheck : checkPath (pathAt root ns) with
  | error f => exact .inl ⟨f, by simp [locate, hcheck, bind, Except.bind]⟩
  | ok u =>
    exact .inr ⟨locate_pathAt hplain hcheck hnode hlink,
      locate_pathAt hplain hcheck ((hagree.get? ns).trans hnode) hlink⟩

theorem SameBelow.status (h : SameBelow fs fs' cwd absolute names root top)
    (hsome : (fs.get? (ns.reverse ++ top)).isSome) :
    fs'.status cwd (pathAt root ns) = fs.status cwd (pathAt root ns) := by
  rw [FileSystem.status, FileSystem.status]
  obtain ⟨f, hl, hl'⟩ | ⟨hl, hl'⟩ := h.locate_cases hsome (.inl rfl)
  · rw [hl, hl']
    rfl
  · rw [hl, hl', Except.map, Except.map, h.agree.nodeAt]

/-- A directory is listed in both, in whatever order. -/
theorem SameBelow.list (h : SameBelow fs fs' cwd absolute names root top)
    (hsome : (fs.get? (ns.reverse ++ top)).isSome)
    (hdir : (fs.nodeAt (ns.reverse ++ top)).body = .directory) :
    (fs'.list cwd (pathAt root ns)).map List.isEmpty =
      (fs.list cwd (pathAt root ns)).map List.isEmpty := by
  unfold FileSystem.list
  obtain ⟨f, hl, hl'⟩ | ⟨hl, hl'⟩ := h.locate_cases hsome (.inr hdir)
  · rw [hl, hl']
    rfl
  · simp only [hl, hl', bind, Except.bind, h.agree.nodeAt, hdir, if_true, Except.map]
    exact congrArg _ (isEmpty_entries_congr fun n => h.agree.get?_child n ns)

end Requests

/-! ### Searches of plain roots -/

section Searches

variable {e : Errand} {fs fs' : FileSystem} {absolute : Bool} {names ns : List Name}
  {top l : Location} {m : Entry}

theorem treeItem_congr (h : AgreeBelow fs fs' top) : treeItem e fs' top = treeItem e fs top := by
  funext ns
  rw [treeItem, treeItem, h.nodeAt]

theorem isAllowed_congr (h : AgreeBelow fs fs' top) : isAllowed e fs' top = isAllowed e fs top := by
  have hleft : isLeftOut e fs' top = isLeftOut e fs top := by
    funext ns
    rw [isLeftOut, isLeftOut, h.nodeAt]
  funext ns
  rw [isAllowed, isAllowed, hleft]

theorem branch_nil_congr (h : AgreeBelow fs fs' top) :
    branch e fs' top [] = branch e fs top [] := by
  have hshown : isShown e fs' top = isShown e fs top := by
    funext ns
    rw [isShown, isShown, treeItem_congr h, isAllowed_congr h]
  rw [branch, branch, hshown, List.reverse_nil, List.nil_append, h.preorder]

theorem listing_congr (h : AgreeBelow fs fs' top) : listing e fs' top = listing e fs top := by
  rw [listing, listing, branch_nil_congr h, treeItem_congr h]

theorem verdict_congr (h : SameBelow fs fs' e.setting.cwd absolute names e.root top)
    (hsome : (fs.get? (ns.reverse ++ top)).isSome) :
    verdict e fs' (treeItem e fs top ns) = verdict e fs (treeItem e fs top ns) := by
  refine Query.holds_congr (fun _ => ?_) (fun _ hkind => ?_) fun _ => rfl
  · exact congrArg (Except.map _) (h.status hsome)
  · exact h.list hsome (Body.kind_eq_directory_iff.1 hkind)

theorem isFound_congr (h : SameBelow fs fs' e.setting.cwd absolute names e.root top)
    (hsome : (fs.get? (ns.reverse ++ top)).isSome) :
    isFound e fs' (treeItem e fs top ns) = isFound e fs (treeItem e fs top ns) := by
  rw [isFound, isFound, verdict_congr h hsome]

theorem answers_congr (h : SameBelow fs fs' e.setting.cwd absolute names e.root top)
    (hfilter : e.filter = none) (hsome : (fs.get? (ns.reverse ++ top)).isSome)
    (hanswers : Answers e fs (treeItem e fs top ns)) : Answers e fs' (treeItem e fs top ns) := by
  rw [answers_iff hfilter] at hanswers ⊢
  rw [verdict_congr h hsome]
  refine ⟨hanswers.1, fun hdir => ?_⟩
  obtain ⟨entries, hentries⟩ := hanswers.2 hdir
  have hlist := h.list hsome (isDirectory_treeItem.1 hdir)
  change (fs.list e.setting.cwd (pathAt e.root ns)) = _ at hentries
  rw [hentries] at hlist
  change ∃ entries, fs'.list e.setting.cwd (pathAt e.root ns) = _
  cases hl : fs'.list e.setting.cwd (pathAt e.root ns) with
  | ok entries => exact ⟨entries, rfl⟩
  | error f => simp [hl, Except.map] at hlist

/-- The same is found. -/
theorem foundIn_congr (h : SameBelow fs fs' e.setting.cwd absolute names e.root top)
    (hsome : (fs.get? top).isSome) : foundIn e fs' top = foundIn e fs top := by
  rw [foundIn, foundIn, listing_congr h.agree, List.filter_congr fun item hitem => ?_]
  obtain ⟨ns, hns, rfl⟩ := List.mem_map.1 hitem
  exact isFound_congr h (isSome_of_mem_branch hsome hns)

/-- What is found is found in the same place. -/
theorem locate_found_congr (h : SameBelow fs fs' e.setting.cwd absolute names e.root top)
    (hsome : (fs.get? top).isSome) (hm : m ∈ foundIn e fs top) :
    fs'.locate e.setting.cwd false m.path = fs.locate e.setting.cwd false m.path := by
  obtain ⟨ns, hns, -, rfl⟩ := mem_foundIn_iff.1 hm
  obtain ⟨f, hl, hl'⟩ | ⟨hl, hl'⟩ := h.locate_cases (isSome_of_mem_branch hsome hns) (.inl rfl)
  · exact hl'.trans hl.symm
  · exact hl'.trans hl.symm

theorem isMatched_congr (h : SameBelow fs fs' e.setting.cwd absolute names e.root top)
    (hsome : (fs.get? top).isSome) :
    IsMatched fs' e.setting.cwd (foundIn e fs' top) l ↔
      IsMatched fs e.setting.cwd (foundIn e fs top) l := by
  rw [foundIn_congr h hsome]
  unfold IsMatched
  exact exists_congr fun m => and_congr_right fun hm => by rw [locate_found_congr h hsome hm]

/-- The same is removed. -/
theorem doomed_congr (h : SameBelow fs fs' e.setting.cwd absolute names e.root top)
    (hsome : (fs.get? top).isSome) : Doomed e fs' top l ↔ Doomed e fs top l :=
  and_congr_right fun _ => isMatched_congr h hsome

theorem isIncomplete_congr (h : SameBelow fs fs' e.setting.cwd absolute names e.root top)
    (hsome : (fs.get? top).isSome) (hm : m ∈ foundIn e fs top) :
    IsIncomplete fs' e.setting.cwd (foundIn e fs' top) m ↔
      IsIncomplete fs e.setting.cwd (foundIn e fs top) m := by
  unfold IsIncomplete
  refine exists_congr fun dir => exists_congr fun n => ?_
  rw [isMatched_congr h hsome, locate_found_congr h hsome hm]
  refine and_congr_right fun hdir => ?_
  obtain ⟨ns, hns, -, rfl⟩ := mem_foundIn_iff.1 hm
  have hplace : dir = ns.reverse ++ top := by
    obtain ⟨f, hl, -⟩ | ⟨hl, -⟩ := h.locate_cases (isSome_of_mem_branch hsome hns) (.inl rfl)
    · cases hl.symm.trans hdir
    · exact Except.ok.inj (hdir.symm.trans hl)
  rw [hplace, h.agree.nodeAt, h.agree.get?_child]

/-- A root that is searchable in the one is so in the other. -/
theorem Searchable.congr (hsearchable : Searchable e fs top) (hfilter : e.filter = none)
    (h : SameBelow fs fs' e.setting.cwd absolute names e.root top) : Searchable e fs' top := by
  obtain ⟨hplace, hsome⟩ := locate_of_isPlain h.plain hsearchable.root
  refine ⟨?_, ?_, ?_, ?_⟩
  · have hroot : (fs.get? (([] : List Name).reverse ++ top)).isSome := hsome
    obtain ⟨f, hl, -⟩ | ⟨-, hl'⟩ := h.locate_cases hroot (.inl rfl)
    · rw [pathAt_nil, hsearchable.root] at hl
      cases hl
    · exact hl'
  · intro item hitem
    rw [listing_congr h.agree] at hitem
    have hanswers := hsearchable.answers item hitem
    obtain ⟨ns, hns, rfl⟩ := List.mem_map.1 hitem
    exact answers_congr h hfilter (isSome_of_mem_branch hsome hns) hanswers
  · rw [foundIn_congr h hsome]
    exact hsearchable.short
  · intro hdelete m hm
    rw [foundIn_congr h hsome] at hm
    rw [isIncomplete_congr h hsome hm]
    exact hsearchable.complete hdelete m hm

end Searches

end FileSearch
