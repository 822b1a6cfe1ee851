import FileSearch.FileSystem.Node

/-!
A file system is a finite set of nodes, each at its own location, such that the top is a directory
and every other node stands in a directory.
Main statements: what a removal and a new time do to the node found at a location, and that a
directory lists exactly the nodes that stand in it.
-/

namespace FileSearch

structure FileSystem where
  nodes : List (Location × Node)
  distinct : (nodes.map Prod.fst).Nodup
  top : ∃ node, ([], node) ∈ nodes ∧ node.body = .directory
  closed : ∀ name dir node, (name :: dir, node) ∈ nodes →
    ∃ parent, (dir, parent) ∈ nodes ∧ parent.body = .directory

namespace FileSystem

/-- The file system that has an empty directory at its top and nothing else. -/
def empty (modified : Stamp) : FileSystem where
  nodes := [([], ⟨.directory, modified⟩)]
  distinct := by simp
  top := ⟨_, List.mem_singleton_self _, rfl⟩
  closed := by simp

/-- The node at a location. -/
def get? (fs : FileSystem) (l : Location) : Option Node := fs.nodes.lookup l

/-- The name and the node of what stands in the directory. -/
def entryIn (dir : Location) : Location × Node → Option (Name × Node)
  | ([], _) => none
  | (name :: parent, node) => if parent = dir then some (name, node) else none

/-- The nodes that stand in a directory, with their names, in no particular order. -/
def entries (fs : FileSystem) (dir : Location) : List (Name × Node) :=
  fs.nodes.filterMap (entryIn dir)

def isDirectory (fs : FileSystem) (l : Location) : Bool :=
  match fs.get? l with
  | some node => node.body = .directory
  | none => false

theorem get?_eq_some_iff {fs : FileSystem} {l : Location} {node : Node} :
    fs.get? l = some node ↔ (l, node) ∈ fs.nodes := by
  have key : ∀ nodes : List (Location × Node), (nodes.map Prod.fst).Nodup →
      (nodes.lookup l = some node ↔ (l, node) ∈ nodes) := by
    intro nodes
    induction nodes with
    | nil => simp
    | cons p ps ih =>
      intro hd
      simp only [List.map_cons, List.nodup_cons] at hd
      rw [List.lookup_cons, List.mem_cons]
      by_cases h : l = p.1
      · subst h
        simp only [beq_self_eq_true, Option.some.injEq]
        constructor
        · rintro rfl
          exact .inl rfl
        · rintro (h | h)
          · rw [← h]
          · exact absurd (List.mem_map_of_mem (f := Prod.fst) h) hd.1
      · rw [show (l == p.1) = false by simpa using h, ih hd.2]
        constructor
        · exact .inr
        · rintro (rfl | h')
          · exact absurd rfl h
          · exact h'
  exact key _ fs.distinct

theorem get?_eq_none_iff {fs : FileSystem} {l : Location} :
    fs.get? l = none ↔ ∀ node, (l, node) ∉ fs.nodes := by
  rw [Option.eq_none_iff_forall_ne_some]
  exact forall_congr' fun node => not_congr get?_eq_some_iff

theorem isDirectory_iff {fs : FileSystem} {l : Location} :
    fs.isDirectory l ↔ ∃ node, fs.get? l = some node ∧ node.body = .directory := by
  unfold isDirectory
  cases fs.get? l <;> simp

@[simp] theorem isDirectory_nil (fs : FileSystem) : fs.isDirectory [] := by
  obtain ⟨node, h, hd⟩ := fs.top
  exact isDirectory_iff.2 ⟨node, get?_eq_some_iff.2 h, hd⟩

/-- Whatever stands in a location stands in a directory. -/
theorem isDirectory_of_get? {fs : FileSystem} {name : Name} {dir : Location} {node : Node}
    (h : fs.get? (name :: dir) = some node) : fs.isDirectory dir := by
  obtain ⟨parent, hp, hd⟩ := fs.closed name dir node (get?_eq_some_iff.1 h)
  exact isDirectory_iff.2 ⟨parent, get?_eq_some_iff.2 hp, hd⟩

theorem entryIn_eq_some_iff {dir : Location} {p : Location × Node} {name : Name} {node : Node} :
    entryIn dir p = some (name, node) ↔ p = (name :: dir, node) := by
  obtain ⟨l, x⟩ := p
  cases l with
  | nil => simp [entryIn]
  | cons m parent => by_cases h : parent = dir <;> simp [entryIn, h]

theorem mem_entries_iff {fs : FileSystem} {dir : Location} {name : Name} {node : Node} :
    (name, node) ∈ fs.entries dir ↔ fs.get? (name :: dir) = some node := by
  simp [get?_eq_some_iff, entries, List.mem_filterMap, entryIn_eq_some_iff]

theorem nodup_names (fs : FileSystem) (dir : Location) : ((fs.entries dir).map Prod.fst).Nodup := by
  rw [entries, List.map_filterMap, List.nodup_iff_pairwise_ne, List.pairwise_filterMap]
  refine (List.pairwise_map.1 fs.distinct).imp ?_
  rintro p q hpq name hp _ hq rfl
  obtain ⟨⟨_, x⟩, hx, rfl⟩ := Option.map_eq_some_iff.1 hp
  obtain ⟨⟨_, y⟩, hy, hxy⟩ := Option.map_eq_some_iff.1 hq
  cases hxy
  rw [entryIn_eq_some_iff] at hx hy
  exact hpq (by rw [hx, hy])

/-! ### Removing and placing nodes -/

/-- Removes the node at a location with all that stands below it; the top stays. -/
def remove (fs : FileSystem) (l : Location) : FileSystem :=
  if hl : l = [] then fs else
  { nodes := fs.nodes.filter fun p => !decide (l <:+ p.1)
    distinct := fs.distinct.sublist (List.filter_sublist.map _)
    top := by
      obtain ⟨node, h, hd⟩ := fs.top
      exact ⟨node, List.mem_filter.2 ⟨h, by simpa using hl⟩, hd⟩
    closed := by
      intro name dir node h
      obtain ⟨hm, hs⟩ := List.mem_filter.1 h
      obtain ⟨parent, hp, hd⟩ := fs.closed name dir node hm
      refine ⟨parent, List.mem_filter.2 ⟨hp, ?_⟩, hd⟩
      simp only [Bool.not_eq_true', decide_eq_false_iff_not] at hs ⊢
      exact fun h' => hs (h'.trans (List.suffix_cons name dir)) }

theorem get?_remove {fs : FileSystem} {l : Location} (hl : l ≠ []) (m : Location) :
    (fs.remove l).get? m = if l <:+ m then none else fs.get? m := by
  have hmem : ∀ node, (m, node) ∈ (fs.remove l).nodes ↔ ¬ l <:+ m ∧ (m, node) ∈ fs.nodes := by
    intro node
    simp [remove, hl, and_comm]
  split
  · rename_i h
    exact get?_eq_none_iff.2 fun node hn => ((hmem node).1 hn).1 h
  · rename_i h
    apply Option.ext
    intro node
    rw [get?_eq_some_iff, get?_eq_some_iff, hmem]
    simp [h]

/-- Places a node in a directory. Nothing happens where there is no directory, and a directory that
is not empty can only be replaced by a directory. -/
def put (fs : FileSystem) (name : Name) (dir : Location) (node : Node) : FileSystem :=
  if h : fs.isDirectory dir ∧ (node.body = .directory ∨ fs.entries (name :: dir) = []) then
  { nodes := (name :: dir, node) :: fs.nodes.filter (·.1 ≠ name :: dir)
    distinct := by
      rw [List.map_cons, List.nodup_cons]
      exact ⟨by simp, fs.distinct.sublist (List.filter_sublist.map _)⟩
    top := by
      obtain ⟨t, ht, hd⟩ := fs.top
      exact ⟨t, List.mem_cons_of_mem _ (List.mem_filter.2 ⟨ht, by simp⟩), hd⟩
    closed := by
      have hkeep : ∀ l x, l ≠ name :: dir → (l, x) ∈ fs.nodes →
          (l, x) ∈ (name :: dir, node) :: fs.nodes.filter (·.1 ≠ name :: dir) :=
        fun l x hl hx => List.mem_cons_of_mem _ (List.mem_filter.2 ⟨hx, by simpa using hl⟩)
      intro m parent x hx
      rcases List.mem_cons.1 hx with hx | hx
      · simp only [Prod.mk.injEq, List.cons.injEq] at hx
        obtain ⟨⟨-, rfl⟩, -⟩ := hx
        obtain ⟨p, hp, hd⟩ := isDirectory_iff.1 h.1
        exact ⟨p, hkeep _ _ (by simp) (get?_eq_some_iff.1 hp), hd⟩
      · obtain ⟨hx, -⟩ := List.mem_filter.1 hx
        obtain ⟨p, hp, hd⟩ := fs.closed m parent x hx
        by_cases hq : parent = name :: dir
        · subst hq
          rcases h.2 with hn | hn
          · exact ⟨node, List.mem_cons_self, hn⟩
          · have := mem_entries_iff.2 (get?_eq_some_iff.2 hx)
            simp [hn] at this
        · exact ⟨p, hkeep _ _ hq hp, hd⟩ }
  else fs

/-- Sets when the node at a location was last modified. -/
def touch (fs : FileSystem) (l : Location) (modified : Stamp) : FileSystem where
  nodes := fs.nodes.map fun p => if p.1 = l then (p.1, { p.2 with modified }) else p
  distinct := by
    rw [List.map_map, show Prod.fst ∘ _ = Prod.fst from funext fun p => ?_]
    · exact fs.distinct
    · simp only [Function.comp_apply]
      split <;> rfl
  top := by
    obtain ⟨t, ht, hd⟩ := fs.top
    refine ⟨if [] = l then { t with modified } else t, List.mem_map.2 ⟨_, ht, ?_⟩, ?_⟩
    · by_cases hl : [] = l <;> simp [hl]
    · by_cases hl : [] = l <;> simp [hl, hd]
  closed := by
    intro name dir node h
    obtain ⟨⟨l', x⟩, hx, he⟩ := List.mem_map.1 h
    have hl' : l' = name :: dir := by
      by_cases hl : l' = l
      · simp only [hl, if_true, Prod.mk.injEq] at he
        exact hl ▸ he.1
      · simp only [hl, if_false, Prod.mk.injEq] at he
        exact he.1
    obtain ⟨p, hp, hd⟩ := fs.closed name dir x (hl' ▸ hx)
    refine ⟨if dir = l then { p with modified } else p, List.mem_map.2 ⟨_, hp, ?_⟩, ?_⟩
    · by_cases hl : dir = l <;> simp [hl]
    · by_cases hl : dir = l <;> simp [hl, hd]

theorem get?_touch (fs : FileSystem) (l : Location) (modified : Stamp) (m : Location) :
    (fs.touch l modified).get? m =
      if m = l then (fs.get? m).map ({ · with modified }) else fs.get? m := by
  apply Option.ext
  intro x
  by_cases hm : m = l
  · subst hm
    rw [get?_eq_some_iff, if_pos rfl, Option.map_eq_some_iff]
    simp only [touch, List.mem_map, get?_eq_some_iff]
    constructor
    · rintro ⟨⟨l', y⟩, hy, he⟩
      by_cases hl : l' = m
      · subst hl
        simp only [if_true, Prod.mk.injEq, true_and] at he
        exact ⟨y, hy, he⟩
      · simp only [hl, if_false, Prod.mk.injEq, false_and] at he
    · rintro ⟨y, hy, rfl⟩
      exact ⟨_, hy, by simp⟩
  · rw [if_neg hm, get?_eq_some_iff, get?_eq_some_iff]
    simp only [touch, List.mem_map]
    constructor
    · rintro ⟨⟨l', y⟩, hy, he⟩
      by_cases hl : l' = l
      · simp only [hl, if_true, Prod.mk.injEq] at he
        exact absurd he.1.symm hm
      · simp only [hl, if_false] at he
        exact he ▸ hy
    · intro h
      exact ⟨_, h, by simp [hm]⟩

end FileSystem

end FileSearch
