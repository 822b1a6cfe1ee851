import FileSearch.FileSystem.Lookup

/-!
The tree below a location, listed in pre-order: the location itself, and then what stands below each
of its names, the names in the order of code points. Whatever stands in the list is told by the
names on the way to it. Only directories hold anything, so that links and special files are leaves.
Main statements: the list has every node at or below the location once, and none of them comes after
one that stands below it.
-/

namespace FileSearch.FileSystem

variable {fs : FileSystem} {l dir : Location} {n : Name}

/-- The names that a directory lists, in the order of code points. -/
def childNames (fs : FileSystem) (dir : Location) : List Name :=
  ((fs.entries dir).map Prod.fst).mergeSort fun m n => sortsBefore m.text n.text

/-- The greatest number of names on the way to a node. -/
def depth (fs : FileSystem) : Nat := fs.nodes.foldr (fun p d => max p.1.length d) 0

theorem mem_childNames : n ∈ fs.childNames dir ↔ (fs.get? (n :: dir)).isSome := by
  rw [childNames, (List.mergeSort_perm _ _).mem_iff, Option.isSome_iff_exists]
  constructor
  · intro h
    obtain ⟨⟨m, node⟩, hp, rfl⟩ := List.mem_map.1 h
    exact ⟨node, mem_entries_iff.1 hp⟩
  · rintro ⟨node, h⟩
    exact List.mem_map.2 ⟨(n, node), mem_entries_iff.2 h, rfl⟩

theorem nodup_childNames (fs : FileSystem) (dir : Location) : (fs.childNames dir).Nodup :=
  (List.mergeSort_perm _ _).nodup_iff.2 (fs.nodup_names dir)

theorem pairwise_childNames (fs : FileSystem) (dir : Location) :
    (fs.childNames dir).Pairwise fun m n => sortsBefore m.text n.text = true := by
  have htrans (a b c : Name) (hab : sortsBefore a.text b.text = true)
      (hbc : sortsBefore b.text c.text = true) : sortsBefore a.text c.text = true :=
    sortsBefore_trans hab hbc
  have htotal (a b : Name) : (sortsBefore a.text b.text || sortsBefore b.text a.text) = true := by
    rw [Bool.or_eq_true]
    exact sortsBefore_total a.text b.text
  exact List.pairwise_mergeSort htrans htotal _

theorem length_le_depth {node : Node} (h : fs.get? l = some node) : l.length ≤ fs.depth := by
  have hmax : ∀ nodes : List (Location × Node), (l, node) ∈ nodes →
      l.length ≤ nodes.foldr (fun p d => max p.1.length d) 0 := by
    intro nodes
    induction nodes with
    | nil => simp
    | cons p ps ih =>
      intro h
      rw [List.foldr_cons]
      rcases List.mem_cons.1 h with rfl | h
      · exact Nat.le_max_left _ _
      · exact Nat.le_trans (ih h) (Nat.le_max_right _ _)
  exact hmax fs.nodes (get?_eq_some_iff.1 h)

/-- One name more on the way leaves less of the tree below. -/
theorem depth_sub_lt (h : n ∈ fs.childNames dir) :
    fs.depth - (n :: dir).length < fs.depth - dir.length := by
  obtain ⟨node, hnode⟩ := Option.isSome_iff_exists.1 (mem_childNames.1 h)
  have := length_le_depth hnode
  simp only [List.length_cons] at this ⊢
  omega

/-- What stands at a location and below it, by the names on the way from the location. -/
def preorder (fs : FileSystem) (l : Location) : List (List Name) :=
  [] :: (fs.childNames l).attach.flatMap fun n => (fs.preorder (n.1 :: l)).map (n.1 :: ·)
termination_by fs.depth - l.length
decreasing_by exact depth_sub_lt n.2

theorem preorder_eq (fs : FileSystem) (l : Location) :
    fs.preorder l =
      [] :: (fs.childNames l).flatMap fun n => (fs.preorder (n :: l)).map (n :: ·) := by
  rw [preorder, List.flatMap_subtype (g := fun n => (fs.preorder (n :: l)).map (n :: ·))
    (fun _ _ => rfl), List.unattach_attach]

theorem mem_preorder_iff {names : List Name} :
    names ∈ fs.preorder l ↔ names = [] ∨ (fs.get? (names.reverse ++ l)).isSome := by
  induction names generalizing l with
  | nil =>
    rw [preorder_eq]
    simp
  | cons n ns ih =>
    have hloc : (n :: ns).reverse ++ l = ns.reverse ++ n :: l := by simp
    rw [preorder_eq, hloc]
    simp only [List.mem_cons, reduceCtorEq, false_or, List.mem_flatMap, List.mem_map]
    constructor
    · rintro ⟨m, hm, ns', hns, heq⟩
      obtain ⟨rfl, rfl⟩ := List.cons_eq_cons.1 heq
      rcases ih.1 hns with rfl | h
      · exact mem_childNames.1 hm
      · exact h
    · intro h
      refine ⟨n, mem_childNames.2 ?_, ns, ih.2 (.inr h), rfl⟩
      cases hns : ns with
      | nil => simpa [hns] using h
      | cons m ms =>
        -- what stands on the way to a node is a directory
        have hd := isDirectory_of_get?_append (List.reverse_ne_nil_iff.2 (by simp [hns])) h
        obtain ⟨node, hnode, -⟩ := isDirectory_iff.1 hd
        simp [hnode]

/-- Nothing comes after what stands below it, and nothing comes twice. -/
theorem pairwise_preorder (fs : FileSystem) (l : Location) :
    (fs.preorder l).Pairwise fun a b => ¬ b <+: a := by
  induction l using preorder.induct fs with
  | case1 l ih =>
    rw [preorder_eq, List.pairwise_cons]
    refine ⟨?_, ?_⟩
    · intro names h
      obtain ⟨n, -, h⟩ := List.mem_flatMap.1 h
      obtain ⟨ns, -, rfl⟩ := List.mem_map.1 h
      simp
    · rw [List.pairwise_flatMap]
      refine ⟨?_, ?_⟩
      · intro n hn
        rw [List.pairwise_map]
        exact (ih ⟨n, hn⟩).imp fun {a b} hab h => hab ((List.cons_prefix_cons.1 h).2)
      · refine (fs.nodup_childNames l).imp ?_
        intro m n hmn a ha b hb h
        obtain ⟨as, -, rfl⟩ := List.mem_map.1 ha
        obtain ⟨bs, -, rfl⟩ := List.mem_map.1 hb
        exact hmn (List.cons_prefix_cons.1 h).1.symm

theorem nodup_preorder (fs : FileSystem) (l : Location) : (fs.preorder l).Nodup := by
  refine (fs.pairwise_preorder l).imp ?_
  rintro a b hnot rfl
  exact hnot List.prefix_rfl

end FileSearch.FileSystem
