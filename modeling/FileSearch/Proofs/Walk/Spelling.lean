import FileSearch.Proofs.Path.Plain
import FileSearch.Proofs.Walk.Journey
import FileSearch.Proofs.Walk.Refinement

/-!
The texts of an item on the stack. Its path grows by joining names to the root, its shown path is
put together from the root and the relative path, and the name of a root is cut out of the root
while that of anything else is listed.
Main statement: these come to the same however the root is spelled, whatever others do to the
files, and so the lines that are written are the paths to delete.
-/

namespace FileSearch

/-- The texts of an item and its depth, told by the root and the relative path alone. -/
structure WellSpelled (root : Text) (item : Item) : Prop where
  path : item.entry.path = displayPath root item.rel
  display : item.entry.display = displayPath root item.rel
  depth : item.depth = if item.rel = [] then 0 else (segments item.rel).length
  /-- the last component of the path, or all of a path of slashes -/
  name : item.entry.name = (components item.entry.path).getLast?.getD item.entry.path

namespace Walk

variable {e : Errand} {m m' : Moment} {items more below : List Item} {item : Item}
  {kind : Option Kind} {w w' : World} {files : FileSystem} {root : Text}

/-- The item stands below the root under some names. -/
def Placed (root : Text) (item : Item) : Prop := ∃ names kind, item = itemAt root names kind

theorem Placed.wellSpelled (hroot : root ≠ []) (h : Placed root item) : WellSpelled root item := by
  obtain ⟨names, kind, rfl⟩ := h
  refine ⟨rfl, rfl, ?_, ?_⟩
  · by_cases hne : names = []
    · subst hne
      rfl
    · simp [itemAt, relAt_ne_nil hne, segments_relAt hne]
  · rcases List.eq_nil_or_concat names with rfl | ⟨ms, n, rfl⟩
    · exact baseName_eq root
    · simp only [itemAt, List.concat_eq_append, pathAt_concat hroot, components_joinPath,
        List.getLast?_concat, Option.map_some, Option.getD_some]

theorem Placed.child (hroot : e.root ≠ []) (h : Placed e.root item)
    (hexpand : Expands e files item below) : ∀ i ∈ below, Placed e.root i := by
  obtain ⟨names, kind, rfl⟩ := h
  cases hexpand with
  | leaf => exact nofun
  | listed hdir hlist hfilter =>
    intro i hi
    obtain ⟨⟨n, node⟩, -, rfl⟩ := List.mem_map.1 (List.mem_filter.1 hi).1
    exact ⟨names ++ [n], _, child_itemAt hroot names kind n node⟩

theorem placed_move (hroot : e.root ≠ []) (hopened : ∀ item, m.opened = some item → item ∈ items)
    (h : ∀ item ∈ items ++ m.state.stack, Placed e.root item) (hmove : Moves e m more m') :
    ∀ item ∈ (items ++ more) ++ m'.state.stack, Placed e.root item := by
  cases hmove with
  | change files => rwa [List.append_nil]
  | drop hdeep hlog =>
    rw [List.append_nil]
    exact fun i hi => h i (by simp at hi ⊢; tauto)
  | check hdeep hreport => rwa [List.append_assoc]
  | @list item rest below matched v v' hexpand hlog =>
    have hitem := h item (List.mem_append_left _ (hopened item rfl))
    intro i hi
    rw [List.append_nil] at hi
    rcases List.mem_append.1 hi with hi | hi
    · exact h i (List.mem_append_left _ hi)
    · rcases List.mem_append.1 hi with hi | hi
      · exact hitem.child hroot hexpand i hi
      · exact h i (List.mem_append_right _ hi)

/-- Whatever others do, all items of a walk stand below its root. -/
theorem Journey.placed (hroot : e.root ≠ []) (h : Journey e (departure e kind w) items m) :
    ∀ item ∈ items ++ m.state.stack, Placed e.root item := by
  induction h with
  | here =>
    intro i hi
    obtain rfl := List.mem_singleton.1 hi
    exact ⟨[], kind, rfl⟩
  | @go items more m m' hjourney hmove ih =>
    refine placed_move hroot (fun item hitem => ?_) ih hmove
    obtain ⟨before, rfl⟩ := hjourney.faithful.opened item hitem
    simp

/-- What matched is shown by its path. -/
theorem Journey.map_display_eq (hroot : e.root ≠ []) (h : Journey e (departure e kind w) items m) :
    m.state.matched.map Entry.display = m.state.matched.map Entry.path := by
  refine List.map_congr_left fun entry hentry => ?_
  obtain ⟨item, hitem, rfl⟩ := List.mem_map.1 (h.faithful.matched.subset hentry)
  have hspelled := (h.placed hroot item (List.mem_append_left _ hitem)).wellSpelled hroot
  rw [hspelled.path, hspelled.display]

theorem map_lineOf (found : List Entry) :
    found.map lineOf = (found.map Entry.display).map (· ++ ['\n']) := by
  rw [List.map_map]
  rfl

/-- The lines that were written are the paths of what matched. -/
theorem Journey.written_paths (hroot : e.root ≠ []) (h : Journey e (departure e kind w) items m)
    (hprint : e.query.print = true) :
    m.state.world.written = w.written ++ (m.state.matched.map Entry.path).map (· ++ ['\n']) := by
  rw [h.faithful.written, hprint, if_pos rfl, map_lineOf, h.map_display_eq hroot]

end Walk

open Walk

/-- On every walk, whatever others do to the files, the texts of the items on the stack are those
that the root and their relative paths tell, and the lines that are written are the paths of the
entries that matched, which are the ones to delete. -/
theorem stack_well_spelled {e : Errand} (hroot : e.root ≠ []) :
    (∀ kind w items m, Journey e (departure e kind w) items m →
      (∀ item ∈ m.state.stack, WellSpelled e.root item) ∧
      (e.query.print = true → m.state.world.written =
        w.written ++ (m.state.matched.map Entry.path).map (· ++ ['\n']))) ∧
    ∀ w found w', walk e w = .ok found w' → e.query.print = true →
      w'.written = w.written ++ (found.map Entry.path).map (· ++ ['\n']) := by
  constructor
  · intro kind w items m h
    refine ⟨fun item hitem => ?_, h.written_paths hroot⟩
    exact (h.placed hroot item (List.mem_append_right _ hitem)).wellSpelled hroot
  · intro w found w' hwalk hprint
    obtain ⟨top, htop⟩ := locate_of_walk hwalk
    obtain ⟨items, m, hjourney, -, hend⟩ := journey_of_walk htop
    rw [hwalk] at hend
    have hwritten := hjourney.written_paths hroot hprint
    rwa [hend] at hwritten

/-- Prints and deletes all of a directory that is spelled with slashes at its end. -/
def slashedErrand : Errand :=
  { smallErrand with
    query := { explicitPrint := true, delete := true }, filter := none, root := ['r', '/', '/'] }

/-- The slashes at the end of a root stay in all paths, also when the files are gone by the time the
entries are checked. -/
theorem stack_well_spelled_slashes :
    (∃ items m, Journey slashedErrand
        (departure slashedErrand (some .directory) ⟨smallTree, [], []⟩) items m ∧
      m.state.world.files = .empty ⟨0, 0⟩ ∧
      m.state.stack.map (·.entry.path) =
        [['r', '/', '/', 'a'], ['r', '/', '/', 'b'], ['r', '/', '/', 'l']] ∧
      ∀ item ∈ m.state.stack, WellSpelled ['r', '/', '/'] item) ∧
    ∃ found w', walk slashedErrand ⟨smallTree, [], []⟩ = .ok found w' ∧
      w'.written = (found.map Entry.path).map (· ++ ['\n']) ∧
      found.map Entry.path = [['r', '/', '/'], ['r', '/', '/', 'a'], ['r', '/', '/', 'a', '/', 'x'],
        ['r', '/', '/', 'b'], ['r', '/', '/', 'l']] := by
  have h := stack_well_spelled (e := slashedErrand) (by decide)
  have hroot : smallTree.locate [] false ['r', '/', '/'] = .ok [⟨['r'], rfl, by decide⟩] := rfl
  have hexpand : Expands slashedErrand smallTree
      ⟨Entry.root ['r', '/', '/'] (some .directory), [], 0⟩ _ :=
    .listed rfl rfl fun i _ => ⟨false, rfl⟩
  have hchecked : Journey slashedErrand
      (departure slashedErrand (some .directory) ⟨smallTree, [], []⟩) _ _ :=
    Journey.here.go (.check rfl (.line rfl rfl))
  have hjourney := (hchecked.go (.list hexpand (.refl _))).go (.change (.empty ⟨0, 0⟩))
  refine ⟨⟨_, _, hjourney, rfl, rfl, (h.1 _ _ _ _ hjourney).1⟩, ?_⟩
  have hwalk : ∃ found w', walk slashedErrand ⟨smallTree, [], []⟩ = .ok found w' ∧
      found.map Entry.path = [['r', '/', '/'], ['r', '/', '/', 'a'], ['r', '/', '/', 'a', '/', 'x'],
        ['r', '/', '/', 'b'], ['r', '/', '/', 'l']] := by
    rw [walk_eq_run (e := slashedErrand) hroot, run_of_turns_done (n := 5) rfl rfl]
    exact ⟨_, _, rfl, rfl⟩
  obtain ⟨found, w', hwalk, hpaths⟩ := hwalk
  exact ⟨found, w', hwalk, h.2 _ _ _ hwalk rfl, hpaths⟩

end FileSearch
