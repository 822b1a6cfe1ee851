import FileSearch.Proofs.Path.Plain
import FileSearch.Proofs.Walk.Refinement
import Mathlib.Data.List.Nodup

/-!
How many turns a walk takes. An item that lies too deep is dropped when its turn comes, and nothing
is put in its place, so that a walk has a turn for everything that it would check if the greatest
depth were one more.
Main statement: on a file system that nobody else changes, a walk in which nothing fails ends after
one turn for its root and one for each node below it that is not excluded, does not stand below
anything excluded, and lies at most one level below the greatest depth. Links hold nothing, so that
what they lead to has no turn of its own.
-/

namespace FileSearch

namespace Walk

variable {e : Errand} {fs : FileSystem} {top l : Location} {names k : List Name}
  {todo rest : List (List Name)} {st : WalkState} {found : List Entry} {f : Fault} {w : World}

/-! ### Turns of a run -/

/-- A run that ends normally takes a turn for each item, and then its stack is empty. -/
theorem turns_of_run (h : run e st = .ok found w) :
    turns e (popped e st).length st = some ⟨[], found, w⟩ := by
  induction st using run.induct e with
  | case1 st hturn =>
    obtain ⟨hstack⟩ := turned_of_eq hturn
    obtain ⟨stack, matched, world⟩ := st
    obtain rfl : stack = [] := hstack
    rw [run_of_done hturn] at h
    cases h
    rw [popped_of_done hturn]
    rfl
  | case2 st f v hturn =>
    rw [run_of_failed hturn] at h
    cases h
  | case3 st st' hturn ih =>
    rw [run_of_next hturn] at h
    cases turned_of_eq hturn with
    | next hstack hstep hbelow hmatched =>
      rw [popped_of_next hturn, hstack, List.take_succ_cons, List.take_zero, List.singleton_append,
        List.length_cons, turns, hturn]
      exact ih h

/-- A run that fails has a turn that fails. -/
theorem exists_failed_of_run (h : run e st = .error f w) :
    ∃ n st', turns e n st = some st' ∧ turn e st' = .failed f w := by
  induction st using run.induct e with
  | case1 st hturn =>
    rw [run_of_done hturn] at h
    cases h
  | case2 st f' v hturn =>
    rw [run_of_failed hturn] at h
    cases h
    exact ⟨0, st, rfl, hturn⟩
  | case3 st st' hturn ih =>
    rw [run_of_next hturn] at h
    obtain ⟨n, st'', hturns, hfailed⟩ := ih h
    refine ⟨n + 1, st'', ?_, hfailed⟩
    rw [turns, hturn]
    exact hturns

/-- A run ends normally if and only if no turn that it comes to fails. -/
theorem exists_ok_of_run_iff :
    (∃ found w, run e st = .ok found w) ↔
      ∀ n st', turns e n st = some st' → ∀ f w, turn e st' ≠ .failed f w := by
  constructor
  · rintro ⟨found, w, hrun⟩ n st' hturns f v hfailed
    rw [run_of_turns hturns, run_of_failed hfailed] at hrun
    cases hrun
  · intro hgood
    cases hrun : run e st with
    | ok found w => exact ⟨found, w, rfl⟩
    | error f w =>
      obtain ⟨n, st', hturns, hfailed⟩ := exists_failed_of_run hrun
      exact absurd hfailed (hgood n st' hturns f w)

/-! ### One level more -/

/-- The same walk with the greatest depth one level deeper. -/
def deeper (e : Errand) : Errand :=
  { e with query := { e.query with maxDepth := e.query.maxDepth.map (· + 1) } }

theorem Scheduled.deeper (h : Scheduled e fs top names) :
    Scheduled (Walk.deeper e) fs top names := ⟨h.placed, h.allowed⟩

/-- A child lies below the deeper bound if and only if its directory lies below the bound. -/
theorem tooDeep_deeper_kid (hk : k ∈ kids e fs top names) :
    tooDeep (deeper e).query (treeItem e fs top k) = tooDeep e.query (treeItem e fs top names) := by
  obtain ⟨n, -, rfl⟩ := List.mem_map.1 (List.mem_filter.1 hk).1
  unfold tooDeep deeper
  cases e.query.maxDepth with
  | none => rfl
  | some bound =>
    have hlength : bound + 1 < (names ++ [n]).length ↔ bound < names.length := by simp
    exact decide_eq_decide.2 hlength

/-- An item that lies too deep has its turn, and nothing below it has one. -/
theorem itemsOf_deeper_of_deep (hdeep : tooDeep e.query (treeItem e fs top names) = true)
    (hreach : tooDeep (deeper e).query (treeItem e fs top names) = false)
    (hallowed : isAllowed e fs top names = true) :
    itemsOf (deeper e) fs top (names :: rest) =
      treeItem e fs top names :: itemsOf (deeper e) fs top rest := by
  have hbelow : (kids e fs top names).flatMap (branch (deeper e) fs top) = [] := by
    rw [List.flatMap_eq_nil_iff]
    intro k hk
    exact branch_of_deep ((tooDeep_deeper_kid hk).trans hdeep)
  have hbranch : branch (deeper e) fs top names =
      names :: (kids e fs top names).flatMap (branch (deeper e) fs top) :=
    branch_eq (e := deeper e) hreach hallowed
  rw [itemsOf, List.flatMap_cons, hbranch, hbelow]
  rfl

/-- A run that ends normally has a turn for each place that is pending and for what is shown below
it with one level more, so that the turns still to come are told by the stack at any time. -/
theorem popped_of_pending (hroot : e.root ≠ []) (hquiet : e.setting.Quiet)
    (h : Pending e fs top st todo)
    (hreach : ∀ names ∈ todo, tooDeep (deeper e).query (treeItem e fs top names) = false)
    (hrun : run e st = .ok found w) : popped e st = itemsOf (deeper e) fs top todo := by
  induction st using run.induct e generalizing todo with
  | case1 st hturn =>
    obtain rfl := h.eq_nil_of_done hturn
    rw [popped_of_done hturn]
    rfl
  | case2 st f v hturn =>
    rw [run_of_failed hturn] at hrun
    cases hrun
  | case3 st st' hturn ih =>
    rw [run_of_next hturn] at hrun
    rw [popped_of_next hturn, h.stack]
    cases h.advances hroot hquiet hturn with
    | @deep names rest hdeep hlog hmatched hpending =>
      obtain ⟨hfirst, hrest⟩ := List.forall_mem_cons.1 hreach
      have hallowed := (h.scheduled names List.mem_cons_self).allowed
      rw [ih hpending hrest hrun, itemsOf_deeper_of_deep hdeep hfirst hallowed]
      rfl
    | @checked names rest _ _ _ hdeep hverdict hreport hexpand hlog hmatched hpending =>
      obtain ⟨hfirst, hrest⟩ := List.forall_mem_cons.1 hreach
      have hscheduled := (h.scheduled names List.mem_cons_self).deeper
      have hkids : ∀ k ∈ kids e fs top names ++ rest,
          tooDeep (deeper e).query (treeItem e fs top k) = false := by
        intro k hk
        rcases List.mem_append.1 hk with hk | hk
        · exact (tooDeep_deeper_kid hk).trans hdeep
        · exact hrest k hk
      have hitems : itemsOf (deeper e) fs top (names :: rest) = treeItem e fs top names ::
          itemsOf (deeper e) fs top (kids e fs top names ++ rest) :=
        itemsOf_of_not_deep hfirst hscheduled
      rw [ih hpending hkids hrun, hitems]
      rfl

/-- A walk that ends normally has a turn for each item of the listing with one level more. -/
theorem popped_start (hquiet : e.setting.Quiet)
    (hroot : w.files.locate e.setting.cwd false e.root = .ok top) {v : World}
    (h : run e (start e w top) = .ok found v) :
    popped e (start e w top) = listing (deeper e) w.files top := by
  have hreach : ∀ names ∈ [[]],
      tooDeep (deeper e).query (treeItem e w.files top names) = false := by
    intro names hnames
    obtain rfl := List.mem_singleton.1 hnames
    simp [tooDeep, treeItem, itemAt]
  rw [popped_of_pending (root_ne_nil hroot) hquiet (pending_start hroot) hreach h, itemsOf,
    List.flatMap_singleton, ← listing]

/-! ### Places -/

/-- The names on the way from a location to another one below it. -/
def wayBelow? (top l : Location) : Option (List Name) :=
  if top <:+ l then some (l.take (l.length - top.length)).reverse else none

/-- Whether what stands below the root under the names has a turn: neither it nor anything on the
way to it is excluded, and it lies at most one level below the greatest depth. -/
def hasTurn (e : Errand) (fs : FileSystem) (top : Location) (names : List Name) : Bool :=
  !names.isEmpty && isAllowed e fs top names && e.query.maxDepth.all (names.length ≤ · + 1)

/-- How many of all nodes stand below the root and have a turn. -/
def turnsBelow (e : Errand) (fs : FileSystem) (top : Location) : Nat :=
  fs.nodes.countP fun p => (wayBelow? top p.1).any (hasTurn e fs top)

/-- Different names lead to different items. -/
theorem treeItem_injective : Function.Injective (treeItem e fs top) :=
  fun _ _ h => pathAt_injective (congrArg (·.entry.path) h)

theorem wayBelow?_eq_some_iff : wayBelow? top l = some names ↔ l = names.reverse ++ top := by
  unfold wayBelow?
  constructor
  · intro h
    split at h
    · rename_i hsuffix
      obtain ⟨before, rfl⟩ := hsuffix
      cases h
      simp
    · cases h
  · rintro rfl
    simp

/-- Nodes below a location are counted by the names on the ways to them. -/
theorem countP_nodes_eq_length {ways : List (List Name)} {p : List Name → Bool}
    (hnodup : ways.Nodup) (hmem : ∀ names, names ∈ ways ↔
      (fs.get? (names.reverse ++ top)).isSome ∧ p names = true) :
    fs.nodes.countP (fun q => (wayBelow? top q.1).any p) = ways.length := by
  have hinj : Function.Injective fun names : List Name => names.reverse ++ top := by
    intro ms ns h
    exact List.reverse_injective (List.append_cancel_right h)
  have hperm : ((fs.nodes.map Prod.fst).filter fun l => (wayBelow? top l).any p).Perm
      (ways.map fun names => names.reverse ++ top) := by
    refine (List.perm_ext_iff_of_nodup (fs.distinct.filter _) (hnodup.map hinj)).2 fun l => ?_
    rw [List.mem_map, List.mem_filter, Option.any_eq_true]
    constructor
    · rintro ⟨hl, names, hnames, hp⟩
      obtain rfl := wayBelow?_eq_some_iff.1 hnames
      obtain ⟨⟨-, node⟩, hnode, rfl⟩ := List.mem_map.1 hl
      refine ⟨names, (hmem names).2 ⟨?_, hp⟩, rfl⟩
      rw [FileSystem.get?_eq_some_iff.2 hnode]
      rfl
    · rintro ⟨names, hnames, rfl⟩
      obtain ⟨hsome, hp⟩ := (hmem names).1 hnames
      obtain ⟨node, hnode⟩ := Option.isSome_iff_exists.1 hsome
      exact ⟨List.mem_map.2 ⟨_, FileSystem.get?_eq_some_iff.1 hnode, rfl⟩, names,
        wayBelow?_eq_some_iff.2 rfl, hp⟩
  have hlength := hperm.length_eq
  rwa [List.length_map, ← List.countP_eq_length_filter, List.countP_map] at hlength

theorem isShown_deeper (hne : names ≠ []) :
    isShown (deeper e) fs top names = hasTurn e fs top names := by
  have hbound : (!tooDeep (deeper e).query (treeItem (deeper e) fs top names)) =
      e.query.maxDepth.all (names.length ≤ · + 1) := by
    unfold tooDeep deeper
    cases e.query.maxDepth with
    | none => rfl
    | some bound =>
      have hlength : ¬ bound + 1 < names.length ↔ names.length ≤ bound + 1 := Nat.not_lt
      exact decide_not.symm.trans (decide_eq_decide.2 hlength)
  have hallowed : isAllowed (deeper e) fs top names = isAllowed e fs top names := rfl
  rw [isShown, hbound, hallowed, hasTurn, List.isEmpty_eq_false_iff.2 hne, Bool.and_comm]
  rfl

/-- The root comes first, and then what has a turn below it, each once. -/
theorem exists_below (e : Errand) (fs : FileSystem) (top : Location) :
    ∃ below, branch (deeper e) fs top [] = [] :: below ∧ below.Nodup ∧ ∀ names, names ∈ below ↔
      (fs.get? (names.reverse ++ top)).isSome ∧ hasTurn e fs top names = true := by
  have hreach : tooDeep (deeper e).query (treeItem (deeper e) fs top []) = false := by
    simp [tooDeep, treeItem, itemAt]
  have hnodup := (fs.nodup_preorder top).sublist (branch_nil_sublist (deeper e) fs top)
  have hcons := branch_eq hreach isAllowed_nil
  have hmem (names : List Name) (hne : names ≠ []) : names ∈ branch (deeper e) fs top [] ↔
      (fs.get? (names.reverse ++ top)).isSome ∧ hasTurn e fs top names = true := by
    rw [mem_branch_nil_iff, FileSystem.mem_preorder_iff, isShown_deeper hne]
    simp only [hne, false_or]
  rw [hcons, List.nodup_cons] at hnodup
  refine ⟨_, hcons, hnodup.2, fun names => ⟨fun h => ?_, fun h => ?_⟩⟩
  · have hne : names ≠ [] := by
      rintro rfl
      exact hnodup.1 h
    exact (hmem names hne).1 (hcons ▸ List.mem_cons_of_mem _ h)
  · have hne : names ≠ [] := by
      rintro rfl
      cases h.2
    have hin := (hmem names hne).2 h
    rw [hcons] at hin
    exact (List.mem_cons.1 hin).resolve_left hne

theorem length_branch_deeper (e : Errand) (fs : FileSystem) (top : Location) :
    (branch (deeper e) fs top []).length = 1 + turnsBelow e fs top := by
  obtain ⟨below, hcons, hnodup, hmem⟩ := exists_below e fs top
  rw [hcons, List.length_cons, ← countP_nodes_eq_length hnodup hmem, turnsBelow, Nat.add_comm]

end Walk

open Walk

/-- With nobody else at work, a walk in which no turn fails ends: its stack is empty after one turn
for the root and one for each node below the root that has a turn. Each of these has its turn once,
and nothing else has one. -/
theorem walk_takes_each_place_once {e : Errand} {w : World} {top : Location}
    (hquiet : e.setting.Quiet) (hroot : w.files.locate e.setting.cwd false e.root = .ok top)
    (hgood : ∀ n st, turns e n (start e w top) = some st → ∀ f v, turn e st ≠ .failed f v) :
    ∃ found v, walk e w = .ok found v ∧
      turns e (1 + turnsBelow e w.files top) (start e w top) = some ⟨[], found, v⟩ ∧
      (popped e (start e w top)).length = 1 + turnsBelow e w.files top ∧
      (popped e (start e w top)).Nodup ∧
      ∀ item, item ∈ popped e (start e w top) ↔ item = treeItem e w.files top [] ∨
        ∃ names, (w.files.get? (names.reverse ++ top)).isSome ∧
          hasTurn e w.files top names = true ∧ item = treeItem e w.files top names := by
  obtain ⟨found, v, hrun⟩ := exists_ok_of_run_iff.2 hgood
  have hpopped := popped_start hquiet hroot hrun
  have hlength : (popped e (start e w top)).length = 1 + turnsBelow e w.files top := by
    rw [hpopped, listing, List.length_map, length_branch_deeper]
  have hturns := turns_of_run hrun
  rw [hlength] at hturns
  obtain ⟨below, hbranch, -, hmem⟩ := exists_below e w.files top
  have hitems : popped e (start e w top) = ([] :: below).map (treeItem e w.files top) := by
    rw [hpopped, listing, hbranch]
    rfl
  refine ⟨found, v, (walk_eq_run hroot).trans hrun, hturns, hlength, ?_, fun item => ?_⟩
  · rw [hitems, ← hbranch]
    exact ((w.files.nodup_preorder top).sublist (branch_nil_sublist _ _ _)).map treeItem_injective
  · rw [hitems, List.map_cons, List.mem_cons, List.mem_map]
    simp only [hmem, and_assoc, eq_comm]

/-- A directory with a file and a directory, in which a link leads back and two more directories
and a file stand one in the other. -/
def cyclicTree : FileSystem :=
  ChangeSite.applyAll ⟨[], ⟨0, 0⟩, none⟩ (.empty ⟨0, 0⟩)
    [.add "r/b".toList ⟨.file {}, ⟨0, 0⟩⟩, .add "r/a/up".toList ⟨.symlink ['.', '.'], ⟨0, 0⟩⟩,
      .add "r/a/d/e/y".toList ⟨.file {}, ⟨0, 0⟩⟩]

/-- The file right below the root is excluded and that in the innermost directory lies too deep, so
that four nodes below the root have a turn. -/
theorem walk_takes_each_place_once_cyclic :
    let e : Errand := { smallErrand with query := { maxDepth := some 2 } }
    let w : World := ⟨cyclicTree, [], []⟩
    ∃ found v, walk e w = .ok found v ∧
      turns e 5 (start e w [⟨['r'], rfl, by decide⟩]) = some ⟨[], found, v⟩ := by
  intro e w
  have hroot : cyclicTree.locate [] false ['r'] = .ok [⟨['r'], rfl, by decide⟩] := rfl
  have hcount : turnsBelow e cyclicTree [⟨['r'], rfl, by decide⟩] = 4 := by decide +kernel
  have hends : (turns e 5 (start e w [⟨['r'], rfl, by decide⟩])).map WalkState.stack =
      some [] := by decide +kernel
  obtain ⟨st, hst, hstack⟩ := Option.map_eq_some_iff.1 hends
  have hgood := exists_ok_of_run_iff.1 ⟨_, _, run_of_turns_done hst hstack⟩
  obtain ⟨found, v, hwalk, hturns, -⟩ :=
    walk_takes_each_place_once (e := e) (w := w) (fun _ _ _ => rfl) hroot hgood
  rw [hcount] at hturns
  exact ⟨found, v, hwalk, hturns⟩

end FileSearch
