import FileSearch.Proofs.Path.Order
import FileSearch.Proofs.Walk.Spelling
import Mathlib.Data.List.Nodup

/-!
The order of a walk. What waits on the stack comes after all that was checked, and nothing on the
stack lies below something that comes before it there, so that a directory can be replaced by its
entries. None of this depends on what the file system is at any time, only on each list of a
directory having its names once.
Main statement: the items of a walk are checked in the strict order of their ways, whatever others
do to the files.
-/

namespace FileSearch

/-- The names on the way from the root to the item. -/
def Item.way (item : Item) : List Text := components item.rel

namespace Walk

variable {e : Errand} {m m' : Moment} {items more below rest : List Item} {item i : Item}
  {kind : Option Kind} {w : World} {files : FileSystem}

/-- A directory is replaced by ways that are one name longer, in the order of these names. -/
theorem exists_names_of_expands (h : Expands e files item below) :
    ∃ names : List Text, names.Pairwise CodeBefore ∧
      below.map Item.way = names.map fun n => item.way ++ [n] := by
  cases h with
  | leaf => exact ⟨[], .nil, rfl⟩
  | listed hdir hlist hfilter =>
    obtain ⟨dir, -, rfl⟩ := FileSystem.list_eq_ok_iff.1 hlist
    have hways : (childItems e item (files.entries dir)).map Item.way =
        ((files.childNames dir).map Name.text).map fun n => item.way ++ [n] := by
      rw [childItems, ← map_fst_sortByName, List.map_map, List.map_map, List.map_map]
      exact List.map_congr_left fun p _ => components_joinPath item.rel p.1
    have hsorted : ((files.childNames dir).map Name.text).Pairwise CodeBefore := by
      rw [List.pairwise_map]
      refine ((files.pairwise_childNames dir).and (files.nodup_childNames dir)).imp ?_
      rintro n k ⟨hnk, hne⟩
      exact codeBefore_of_sortsBefore hnk fun htext => hne (Name.text_injective htext)
    have hsub := (List.filter_sublist (l := childItems e item (files.entries dir))
      (p := fun i => !isExcluded e.filter i)).map Item.way
    rw [hways, List.sublist_map_iff] at hsub
    obtain ⟨names, hnames, heq⟩ := hsub
    exact ⟨names, hsorted.sublist hnames, heq⟩

theorem way_of_expands (h : Expands e files item below) (hi : i ∈ below) :
    ∃ n, i.way = item.way ++ [n] := by
  obtain ⟨names, -, hways⟩ := exists_names_of_expands h
  have hi := List.mem_map_of_mem (f := Item.way) hi
  rw [hways] at hi
  obtain ⟨n, -, hn⟩ := List.mem_map.1 hi
  exact ⟨n, hn.symm⟩

theorem pairwise_of_expands (h : Expands e files item below) :
    below.Pairwise fun i j => Precedes i.way j.way := by
  obtain ⟨names, hnames, hways⟩ := exists_names_of_expands h
  rw [← List.pairwise_map (f := Item.way) (R := Precedes), hways, List.pairwise_map]
  exact hnames.imp fun hmn => .concat _ hmn

/-- The items that were checked and those that wait, in order. -/
structure Sorted (items : List Item) (m : Moment) : Prop where
  increasing : (items ++ m.state.stack).Pairwise fun i j => Precedes i.way j.way
  apart : m.state.stack.Pairwise fun i j => ¬ i.way <+: j.way
  opened : ∀ item, m.opened = some item → ∀ i ∈ m.state.stack, ¬ item.way <+: i.way

/-- What stands in a directory takes its place after the directory and before all that waits. -/
theorem Sorted.expand {before : List Item} {matched : List Entry} {v v' : World}
    (h : Sorted (before ++ [item]) ⟨⟨rest, matched, v⟩, some item⟩)
    (hexpand : Expands e files item below) :
    Sorted (before ++ [item]) ⟨⟨below ++ rest, matched, v'⟩, none⟩ := by
  obtain ⟨hincreasing, hapart, habove⟩ := h
  have habove : ∀ i ∈ rest, ¬ item.way <+: i.way := habove item rfl
  obtain ⟨hchecked, hrest, hcross⟩ := List.pairwise_append.1 hincreasing
  have hbefore : ∀ i ∈ before, Precedes i.way item.way := by
    intro i hi
    exact (List.pairwise_append.1 hchecked).2.2 i hi item List.mem_cons_self
  have hitem : ∀ i ∈ rest, Precedes item.way i.way := hcross item (by simp)
  have hafter : ∀ i ∈ below, Precedes item.way i.way := by
    intro i hi
    obtain ⟨n, hn⟩ := way_of_expands hexpand hi
    rw [hn]
    exact .of_beginning (List.prefix_append _ _) (by simp)
  refine ⟨List.pairwise_append.2 ⟨hchecked, ?_, ?_⟩, ?_, nofun⟩
  · refine List.pairwise_append.2 ⟨pairwise_of_expands hexpand, hrest, fun i hi j hj => ?_⟩
    obtain ⟨n, hn⟩ := way_of_expands hexpand hi
    rw [hn]
    exact (hitem j hj).extend (habove j hj) [n]
  · intro v hv i hi
    rcases List.mem_append.1 hi with hi | hi
    · rcases List.mem_append.1 hv with hv | hv
      · exact (hbefore v hv).trans (hafter i hi)
      · obtain rfl := List.mem_singleton.1 hv
        exact hafter i hi
    · exact hcross v hv i hi
  · refine List.pairwise_append.2 ⟨?_, hapart, fun i hi j hj hpre => ?_⟩
    · refine (pairwise_of_expands hexpand).imp_of_mem fun {i j} hi hj hij hpre => ?_
      obtain ⟨m, hm⟩ := way_of_expands hexpand hi
      obtain ⟨n, hn⟩ := way_of_expands hexpand hj
      -- the ways are of the same length, so that neither is a proper beginning of the other
      have heq := hpre.eq_of_length (by simp [hm, hn])
      rw [heq] at hij
      exact Precedes.irrefl _ hij
    · obtain ⟨n, hn⟩ := way_of_expands hexpand hi
      rw [hn] at hpre
      exact habove j hj ((List.prefix_append _ _).trans hpre)

theorem Sorted.move (h : Sorted items m)
    (hopened : ∀ item, m.opened = some item → ∃ before, items = before ++ [item])
    (hmove : Moves e m more m') : Sorted (items ++ more) m' := by
  obtain ⟨hincreasing, hapart, habove⟩ := h
  cases hmove with
  | change files =>
    rw [List.append_nil]
    exact ⟨hincreasing, hapart, habove⟩
  | drop hdeep hlog =>
    rw [List.append_nil]
    exact ⟨hincreasing.sublist ((List.sublist_cons_self _ _).append_left _),
      (List.pairwise_cons.1 hapart).2, nofun⟩
  | check hdeep hreport =>
    obtain ⟨hitem, hrest⟩ := List.pairwise_cons.1 hapart
    refine ⟨?_, hrest, ?_⟩
    · rwa [List.append_assoc]
    · rintro _ ⟨⟩
      exact hitem
  | @list item rest below matched v v' hexpand hlog =>
    obtain ⟨before, rfl⟩ := hopened item rfl
    rw [List.append_nil]
    exact Sorted.expand ⟨hincreasing, hapart, habove⟩ hexpand

theorem Journey.sorted (h : Journey e (departure e kind w) items m) : Sorted items m := by
  induction h with
  | here => exact ⟨List.pairwise_singleton _ _, List.pairwise_singleton _ _, nofun⟩
  | go hjourney hmove ih => exact ih.move hjourney.faithful.opened hmove

/-- Entries of different items are shown differently. -/
theorem Journey.nodup_display (hroot : e.root ≠ []) (h : Journey e (departure e kind w) items m) :
    (m.state.matched.map Entry.display).Nodup := by
  have hspelled : ∀ i ∈ items, i.entry.display = displayPath e.root i.rel := by
    intro i hi
    exact ((h.placed hroot i (List.mem_append_left _ hi)).wellSpelled hroot).display
  have hincreasing := (List.pairwise_append.1 h.sorted.increasing).1
  have hitems : ((items.map Item.entry).map Entry.display).Nodup := by
    rw [List.map_map, List.Nodup, List.pairwise_map]
    refine hincreasing.imp_of_mem fun {i j} hi hj hij heq => ?_
    have hrel : i.rel = j.rel := displayPath_injective <| by
      rw [← hspelled i hi, ← hspelled j hj]
      exact heq
    rw [Item.way, Item.way, hrel] at hij
    exact Precedes.irrefl _ hij
  exact hitems.sublist (h.faithful.matched.map Entry.display)

end Walk

open Walk

/-- The items come in the strict order of their ways. So nothing comes after what stands below it,
and what stands below a way comes without a gap. -/
structure InPreorder (items : List Item) : Prop where
  increasing : items.Pairwise fun i j => Precedes i.way j.way
  ancestors_first : items.Pairwise fun i j => ¬ j.way <+: i.way
  contiguous : ∀ a b c way, [a, b, c].Sublist items → way <+: a.way → way <+: c.way → way <+: b.way

theorem InPreorder.of_increasing {items : List Item}
    (h : items.Pairwise fun i j => Precedes i.way j.way) : InPreorder items where
  increasing := h
  ancestors_first := h.imp Precedes.not_beginning
  contiguous a b c way hsub ha hc := by
    have hthree := h.sublist hsub
    simp only [List.pairwise_cons, List.mem_cons, List.not_mem_nil, or_false] at hthree
    exact Precedes.beginning_between (hthree.1 b (.inl rfl)) (hthree.2.1 c rfl) ha hc

/-- From one world to the other, no line is written twice; no entry that matched is shown or is to
be deleted twice. -/
structure NothingTwice (w : World) (matched : List Entry) (w' : World) : Prop where
  displays : (matched.map Entry.display).Nodup
  paths : (matched.map Entry.path).Nodup
  lines : ∃ lines, w'.written = w.written ++ lines ∧ lines.Nodup

theorem Walk.Journey.nothingTwice {e : Errand} {kind : Option Kind} {w : World} {items : List Item}
    {m : Moment} (hroot : e.root ≠ []) (h : Journey e (departure e kind w) items m) :
    NothingTwice w m.state.matched m.state.world := by
  have hdisplays := h.nodup_display hroot
  refine ⟨hdisplays, h.map_display_eq hroot ▸ hdisplays, _, h.faithful.written, ?_⟩
  split
  · rw [map_lineOf]
    exact List.Nodup.map (fun _ _ => List.append_cancel_right) hdisplays
  · exact List.nodup_nil

/-- On every walk, whatever others do to the files, the items that were checked and those that wait
come in the strict order of their ways, and nothing comes twice. -/
theorem walk_in_strict_order {e : Errand} (hroot : e.root ≠ []) :
    (∀ kind w items m, Journey e (departure e kind w) items m →
      InPreorder (items ++ m.state.stack) ∧ NothingTwice w m.state.matched m.state.world) ∧
    ∀ w top, w.files.locate e.setting.cwd false e.root = .ok top →
      InPreorder (checked e (start e w top)) ∧
        ∀ found w', walk e w = .ok found w' → NothingTwice w found w' := by
  constructor
  · intro kind w items m h
    exact ⟨.of_increasing h.sorted.increasing, h.nothingTwice hroot⟩
  · intro w top htop
    obtain ⟨items, m, hjourney, hchecked, hend⟩ := journey_of_walk htop
    refine ⟨.of_increasing (hjourney.sorted.increasing.sublist hchecked.sublist), ?_⟩
    intro found w' hwalk
    rw [hwalk] at hend
    have hnothing := hjourney.nothingTwice hroot
    rwa [hend] at hnothing

/-- A directory with a file in it, and beside it a file whose name goes on with a dot. -/
def dottedTree : FileSystem :=
  ChangeSite.applyAll ⟨[], ⟨0, 0⟩, none⟩ (.empty ⟨0, 0⟩)
    [.add ['r', '/', 'a', '.', 'b'] ⟨.file {}, ⟨0, 0⟩⟩,
      .add ['r', '/', 'a', '/', 'x'] ⟨.file {}, ⟨0, 0⟩⟩]

/-- The file in the directory comes before the one with the dot, unlike their paths. -/
theorem walk_in_strict_order_dotted :
    sortsBefore ['r', '/', 'a', '.', 'b'] ['r', '/', 'a', '/', 'x'] = true ∧
    InPreorder (checked { smallErrand with filter := none }
      (start { smallErrand with filter := none } ⟨dottedTree, [], []⟩
        [⟨['r'], rfl, by decide⟩])) ∧
    ∃ found w', walk { smallErrand with filter := none } ⟨dottedTree, [], []⟩ = .ok found w' ∧
      found.map Entry.path =
        [['r'], ['r', '/', 'a'], ['r', '/', 'a', '/', 'x'], ['r', '/', 'a', '.', 'b']] ∧
      NothingTwice ⟨dottedTree, [], []⟩ found w' := by
  let e : Errand := { smallErrand with filter := none }
  have hroot : dottedTree.locate [] false ['r'] = .ok [⟨['r'], rfl, by decide⟩] := rfl
  have hwalk : ∃ found w', walk e ⟨dottedTree, [], []⟩ = .ok found w' ∧
      found.map Entry.path =
        [['r'], ['r', '/', 'a'], ['r', '/', 'a', '/', 'x'], ['r', '/', 'a', '.', 'b']] := by
    rw [walk_eq_run (e := e) hroot, run_of_turns_done (n := 4) rfl rfl]
    exact ⟨_, _, rfl, rfl⟩
  obtain ⟨found, w', hwalk, hpaths⟩ := hwalk
  obtain ⟨hchecked, hnothing⟩ :=
    (walk_in_strict_order (e := e) (by decide)).2 ⟨dottedTree, [], []⟩ _ hroot
  exact ⟨by decide, hchecked, found, w', hwalk, hpaths, hnothing found w' hwalk⟩

end FileSearch
