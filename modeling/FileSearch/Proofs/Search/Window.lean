import FileSearch.Proofs.Search.Outcome
import FileSearch.Proofs.Walk.Spelling

/-!
Bounds for the depth. The greatest depth is minded when the turn of an item comes, and the least
depth when it is checked, so that what lies too high is passed over and its directory is listed all
the same.
Main statement: a search with bounds ends normally if the search without bounds does, and it finds
what the latter finds between the bounds, in the same order.
-/

namespace FileSearch

/-- The query with these bounds for the depth. -/
def Query.within (q : Query) (least most : Nat) : Query :=
  { q with minDepth := some least, maxDepth := some most }

theorem Query.holds_within {q : Query} (hmin : q.minDepth = none) (least most : Nat) (e : Entry)
    (probe : Probe) (now : Float) (depth : Nat) :
    (q.within least most).holds e probe now depth =
      if least ≤ depth then q.holds e probe now depth else .ok false := by
  have hshape : (q.within least most).shapeHolds depth e.kind =
      (decide (least ≤ depth) && q.shapeHolds depth e.kind) := by
    simp [shapeHolds, within, hmin]
  rw [holds, hshape]
  by_cases h : least ≤ depth
  · rw [if_pos h, holds, decide_eq_true h, Bool.true_and]
    rfl
  · rw [if_neg h, decide_eq_false h]
    rfl

/-- The item lies between the depths. -/
def Item.isWithin (least most : Nat) (item : Item) : Bool :=
  least ≤ item.depth && item.depth ≤ most

namespace Walk

/-- The same walk with bounds for the depth. -/
def within (e : Errand) (least most : Nat) : Errand :=
  { e with query := e.query.within least most }

variable {e : Errand} {fs : FileSystem} {top : Location} {item : Item} {w : World}
  {least most : Nat}

/-- Only what lies below the greatest depth is not shown any more. -/
theorem listing_within (hmax : e.query.maxDepth = none) :
    listing (within e least most) fs top =
      (listing e fs top).filter fun i => i.depth ≤ most := by
  have hshown (names : List Name) : isShown (within e least most) fs top names =
      (decide (names.length ≤ most) && isShown e fs top names) := by
    have hfree : tooDeep e.query (treeItem e fs top names) = false := by
      rw [tooDeep, hmax]
      rfl
    have hbound : tooDeep (within e least most).query (treeItem (within e least most) fs top names) =
        decide (most < names.length) := rfl
    have hallowed : isAllowed (within e least most) fs top names = isAllowed e fs top names := rfl
    rw [isShown, isShown, hfree, hbound, hallowed, ← decide_not]
    simp only [Nat.not_lt, Bool.not_false, Bool.true_and]
  have hbranch : branch (within e least most) fs top [] =
      (branch e fs top []).filter fun names => names.length ≤ most := by
    rw [branch, branch, List.filter_filter]
    exact List.filter_congr fun names _ => hshown names
  rw [listing, listing, hbranch, List.filter_map]
  rfl

theorem verdict_within (hmin : e.query.minDepth = none) :
    verdict (within e least most) fs item =
      if least ≤ item.depth then verdict e fs item else .ok false :=
  Query.holds_within hmin ..

theorem isFound_within (hmin : e.query.minDepth = none) :
    isFound (within e least most) fs item =
      (decide (least ≤ item.depth) && isFound e fs item) := by
  by_cases h : least ≤ item.depth
  · simp only [isFound, verdict_within hmin, h, if_true, decide_true, Bool.true_and]
  · simp only [isFound, verdict_within hmin, h, if_false, decide_false, Bool.false_and]

theorem answers_within (hmin : e.query.minDepth = none) (h : Answers e fs item) :
    Answers (within e least most) fs item := by
  refine h.of_query ?_
  change ∃ b, verdict (within e least most) fs item = .ok b
  rw [verdict_within hmin]
  split
  · exact h.verdict
  · exact ⟨false, rfl⟩

theorem filter_listing_within (hmin : e.query.minDepth = none) (hmax : e.query.maxDepth = none) :
    (listing (within e least most) fs top).filter (isFound (within e least most) fs) =
      ((listing e fs top).filter (isFound e fs)).filter (Item.isWithin least most) := by
  rw [listing_within hmax, List.filter_filter, List.filter_filter]
  refine List.filter_congr fun i _ => ?_
  rw [isFound_within hmin, Item.isWithin, Bool.and_right_comm]

theorem foundIn_within (hmin : e.query.minDepth = none) (hmax : e.query.maxDepth = none) :
    foundIn (within e least most) fs top =
      (((listing e fs top).filter (isFound e fs)).filter (Item.isWithin least most)).map
        Item.entry := by
  rw [foundIn, filter_listing_within hmin hmax]

/-- What is not shown any more keeps no walk from its normal end. -/
theorem Completes.within (hmin : e.query.minDepth = none) (hmax : e.query.maxDepth = none)
    (h : Completes e w top) : Completes (within e least most) w top where
  root := h.root
  answers := by
    intro item hitem
    rw [listing_within hmax] at hitem
    exact answers_within hmin (h.answers item (List.mem_filter.1 hitem).1)
  room := by
    have hfewer : (foundIn (Walk.within e least most) w.files top).Sublist
        (foundIn e w.files top) := by
      rw [foundIn_within hmin hmax]
      exact List.filter_sublist.map _
    exact h.room.of_sublist (printed_sublist (q := e.query) hfewer)

end Walk

open Walk

variable {s : Setting} {q : Query} {source : Option FilterSource} {root : Text} {n : Nat}
  {w w' : World}

/-- A search with bounds for the depth. If the search without them ends normally, so does this one,
and it counts and writes those of the items found by the former that lie between the bounds, in the
same order. It checks all items down to the greatest depth, those above the least depth included,
and so lists their directories and no others. -/
theorem find_within_depths (hquiet : s.Quiet) (hkeep : q.delete = false) (hmin : q.minDepth = none)
    (hmax : q.maxDepth = none) (least most : Nat)
    (h : find s q source [root] w = .ok n w') :
    ∃ filter v top, Departs s source root w filter v top ∧
      let free : Errand := ⟨s, q, filter, root⟩
      let bounded : Errand := ⟨s, q.within least most, filter, root⟩
      let items := checked free (start free v top)
      let found := items.filter (isFound free v.files)
      let between := found.filter (Item.isWithin least most)
      (∀ i ∈ items, WellSpelled root i) ∧
      n = found.length ∧ w'.written = w.written ++ printed q (found.map Item.entry) ∧
      (∃ u, find s (q.within least most) source [root] w = .ok between.length u ∧
        u.files = w.files ∧ u.written = w.written ++ printed q (between.map Item.entry)) ∧
      checked bounded (start bounded v top) = items.filter fun i => i.depth ≤ most := by
  obtain ⟨filter, v, top, hstart⟩ := exists_departs_of_find hkeep h
  obtain ⟨hcompletes, hcount, hadds⟩ := hstart.completes_of_find hquiet hkeep h
  refine ⟨filter, v, top, hstart, ?_⟩
  intro free bounded items found between
  have hbounded : Completes bounded v top := hcompletes.within hmin hmax
  have hitems : items = listing free v.files top := checked_of_completes hquiet hcompletes
  have hfound : found.map Item.entry = foundIn free v.files top := by rw [foundIn, ← hitems]
  have hbetween : between.map Item.entry = foundIn bounded v.files top := by
    have hwithin : foundIn bounded v.files top = _ := foundIn_within (e := free) hmin hmax
    rw [hwithin, ← hitems]
  refine ⟨?_, ?_, ?_, ?_, ?_⟩
  · intro i hi
    rw [hitems] at hi
    obtain ⟨names, -, rfl⟩ := List.mem_map.1 hi
    exact Placed.wellSpelled (root_ne_nil hcompletes.root) ⟨names, _, rfl⟩
  · rw [hcount, ← hfound, List.length_map]
  · rw [hadds.written, hfound]
  · obtain ⟨u, hfind, hadds⟩ :=
      hstart.find_of_completes (q := q.within least most) hquiet hkeep hbounded
    rw [← List.length_map Item.entry, hbetween]
    exact ⟨u, hfind, hadds.files, hadds.written⟩
  · have hwithin : listing bounded v.files top = _ := listing_within (e := free) hmax
    rw [hitems, ← hwithin]
    exact checked_of_completes hquiet hbounded

/-- Makes the filter of the small errand for every root. -/
def smallSource : FilterSource := fun _ _ => .ok (some ⟨['i'], fun rel _ => .ok (rel == ['b'])⟩)

/-- Of the four entries in the small tree that are not excluded, two lie right below the root. -/
theorem find_within_depths_smallTree :
    ∃ (w' u : World) (found : List Item),
      find smallErrand.setting {} (some smallSource) [['r']] ⟨smallTree, [], []⟩ = .ok 4 w' ∧
      w'.written = printed {} (found.map Item.entry) ∧
      find smallErrand.setting (Query.within {} 1 1) (some smallSource) [['r']]
        ⟨smallTree, [], []⟩ = .ok 2 u ∧
      u.written = printed {} ((found.filter (Item.isWithin 1 1)).map Item.entry) ∧
      u.written = [['r', '/', 'a', '\n'], ['r', '/', 'l', '\n']] := by
  let filter : EntryFilter := fun rel _ => .ok (rel == ['b'])
  let v : World := ⟨smallTree, [], [.loaded ['i']]⟩
  let free : Errand := ⟨smallErrand.setting, {}, some filter, ['r']⟩
  let bounded : Errand := ⟨smallErrand.setting, Query.within {} 1 1, some filter, ['r']⟩
  have hroot : smallTree.locate [] false ['r'] = .ok [⟨['r'], rfl, by decide⟩] := rfl
  have hfree : ∃ entries w', walk free v = .ok entries w' ∧ 4 = entries.length := by
    rw [walk_eq_run (e := free) hroot, run_of_turns_done (n := 4) rfl rfl]
    exact ⟨_, _, rfl, rfl⟩
  have hbounded : ∃ entries u, walk bounded v = .ok entries u ∧ 2 = entries.length ∧
      u.written = [['r', '/', 'a', '\n'], ['r', '/', 'l', '\n']] := by
    rw [walk_eq_run (e := bounded) hroot, run_of_turns_done (n := 4) rfl rfl]
    exact ⟨_, _, rfl, rfl, rfl⟩
  obtain ⟨entries, w', hfree, hfour⟩ := hfree
  obtain ⟨entries', u, hbounded, htwo, hlines⟩ := hbounded
  have hfind : find smallErrand.setting {} (some smallSource) [['r']] ⟨smallTree, [], []⟩ =
      .ok 4 w' := (find_singleton_ok_iff rfl).2 ⟨some filter, v, entries, rfl, hfree, hfour⟩
  have hfind' : find smallErrand.setting (Query.within {} 1 1) (some smallSource) [['r']]
      ⟨smallTree, [], []⟩ = .ok 2 u :=
    (find_singleton_ok_iff rfl).2 ⟨some filter, v, entries', rfl, hbounded, htwo⟩
  obtain ⟨_, _, _, -, -, -, hwritten, ⟨u', hsame, -, hwritten'⟩, -⟩ :=
    find_within_depths (s := smallErrand.setting) (fun _ _ _ => rfl) rfl rfl rfl 1 1 hfind
  obtain rfl : u = u' := by
    rw [hfind'] at hsame
    injection hsame
  exact ⟨w', u, _, hfind, hwritten, hfind', hwritten', hlines⟩

end FileSearch
