import FileSearch.Proofs.Path.Segments
import FileSearch.Proofs.Tree.Preorder
import FileSearch.Search.Children

/-!
The item of a walk that stands below the root under given names. Its path is built by joining names,
its shown path from the root and the relative path, and both come to the same.
Main statements: the children of such an item are the items under one name more, an item keeps its
entry when a directory above it is taken as the root, and a directory puts its children into the
order of code points, whatever the order it lists them in.
-/

namespace FileSearch.Walk

variable {root : Text} {names : List Name} {n : Name}

/-- The path that the names spell from the root. -/
def relAt (names : List Name) : Text := joinSegments (names.map Name.text)

/-- The path below the root that the names spell. -/
def pathAt (root : Text) (names : List Name) : Text := displayPath root (relAt names)

/-- The item of what stands below the root under the names. -/
def itemAt (root : Text) (names : List Name) (kind : Option Kind) : Item where
  entry := {
    path := pathAt root names
    display := pathAt root names
    name := (names.getLast?.map Name.text).getD (baseName root)
    kind }
  rel := relAt names
  depth := names.length

theorem relAt_concat_of_ne_nil (n : Name) (hne : names ≠ []) :
    relAt (names ++ [n]) = relAt names ++ '/' :: n.text := by
  simp only [relAt]
  induction names with
  | nil => exact absurd rfl hne
  | cons m ms ih =>
    cases ms with
    | nil => rfl
    | cons k ks => simpa [joinSegments] using ih (by simp)

theorem relAt_ne_nil (hne : names ≠ []) : relAt names ≠ [] := by
  obtain ⟨ms, m, rfl⟩ := (List.eq_nil_or_concat names).resolve_left hne
  rw [List.concat_eq_append]
  by_cases hms : ms = []
  · simpa [hms, relAt, joinSegments] using m.text_ne_nil
  · simp [relAt_concat_of_ne_nil m hms]

theorem endsWith_relAt (names : List Name) : endsWith (relAt names) '/' = false := by
  rcases List.eq_nil_or_concat names with rfl | ⟨ms, m, rfl⟩
  · rfl
  · rw [List.concat_eq_append]
    by_cases hms : ms = []
    · simp [hms, relAt, joinSegments]
    · rw [relAt_concat_of_ne_nil m hms]
      have := endsWith_append_text (relAt ms ++ ['/']) m
      rwa [List.append_assoc, List.singleton_append] at this

/-- A relative path grows by joining a name. -/
theorem relAt_concat (names : List Name) (n : Name) :
    relAt (names ++ [n]) = joinPath (relAt names) n.text := by
  by_cases hne : names = []
  · simp [hne, relAt, joinSegments, joinPath]
  · rw [relAt_concat_of_ne_nil n hne, joinPath, if_neg]
    simp [endsWith_relAt, relAt_ne_nil hne]

@[simp] theorem pathAt_nil (root : Text) : pathAt root [] = root := rfl

theorem pathAt_ne_nil (hroot : root ≠ []) (names : List Name) : pathAt root names ≠ [] := by
  unfold pathAt displayPath
  split
  · exact hroot
  · split
    · simp [hroot]
    · simp

/-- The shown path grows by joining a name, as the path itself does. -/
theorem pathAt_concat (hroot : root ≠ []) (names : List Name) (n : Name) :
    pathAt root (names ++ [n]) = joinPath (pathAt root names) n.text := by
  have hrel : relAt (names ++ [n]) ≠ [] := relAt_ne_nil (by simp)
  by_cases hne : names = []
  · subst hne
    rw [pathAt, displayPath, if_neg (by simpa using hrel), pathAt_nil, joinPath]
    simp [relAt, joinSegments, hroot]
  · have hfull : endsWith (pathAt root names) '/' = false := by
      rw [pathAt, displayPath, if_neg (by simpa using relAt_ne_nil hne)]
      have hend := endsWith_relAt names
      rw [endsWith] at hend
      have hlast := List.getLast?_eq_some_getLast (relAt_ne_nil hne)
      split
      · rwa [endsWith, List.getLast?_append, hlast, Option.some_or, ← hlast]
      · rwa [endsWith, List.getLast?_append, List.getLast?_cons, hlast, Option.some_or,
          Option.getD_some, ← hlast]
    rw [joinPath, if_neg (by simp [hfull, pathAt_ne_nil hroot names])]
    have hempty : (relAt names).isEmpty = false := by simpa using relAt_ne_nil hne
    have hmore : (relAt names ++ '/' :: n.text).isEmpty = false := by simp
    simp only [pathAt, displayPath, relAt_concat_of_ne_nil n hne, hempty, hmore,
      Bool.false_eq_true, if_false]
    split <;> simp

theorem nul_not_mem_relAt (names : List Name) : '\x00' ∉ relAt names := by
  induction names using List.reverseRecOn with
  | nil => simp [relAt, joinSegments]
  | append_singleton ms m ih =>
    rw [relAt_concat]
    exact nul_not_mem_joinPath ih m.nul_not_mem

/-- The names bring no NUL into a path. -/
theorem nul_not_mem_pathAt (h : '\x00' ∉ root) (names : List Name) :
    '\x00' ∉ pathAt root names := by
  have hrel := nul_not_mem_relAt names
  unfold pathAt displayPath
  split
  · exact h
  · split <;> simp [h, hrel]

/-- A path below a path below the root is a path below the root. -/
theorem pathAt_append (hroot : root ≠ []) (names more : List Name) :
    pathAt root (names ++ more) = pathAt (pathAt root names) more := by
  induction more using List.reverseRecOn with
  | nil => simp
  | append_singleton ms m ih =>
    rw [← List.append_assoc, pathAt_concat hroot, pathAt_concat (pathAt_ne_nil hroot names), ih]

theorem baseName_pathAt_concat (hroot : root ≠ []) (names : List Name) (n : Name) :
    baseName (pathAt root (names ++ [n])) = n.text := by
  rw [baseName_eq, pathAt_concat hroot, components_joinPath, List.getLast?_concat, Option.getD_some]

/-- What stands below a place has the same entry when that place is taken as the root. -/
theorem entry_itemAt_concat_append (hroot : root ≠ []) (names : List Name) (n : Name)
    (more : List Name) (kind : Option Kind) :
    (itemAt root (names ++ [n] ++ more) kind).entry =
      (itemAt (pathAt root (names ++ [n])) more kind).entry := by
  have hname : ((names ++ [n] ++ more).getLast?.map Name.text).getD (baseName root) =
      (more.getLast?.map Name.text).getD (baseName (pathAt root (names ++ [n]))) := by
    rw [baseName_pathAt_concat hroot, List.getLast?_append, List.getLast?_concat]
    cases more.getLast? <;> rfl
  simp only [itemAt, hname, pathAt_append hroot (names ++ [n])]

/-- A child is the item under one name more. -/
theorem child_itemAt (hroot : root ≠ []) (names : List Name) (kind : Option Kind) (n : Name)
    (node : Node) :
    child root (itemAt root names kind) n node = itemAt root (names ++ [n]) node.body.kind := by
  simp only [child, itemAt, ← pathAt_concat hroot, ← relAt_concat]
  simp [pathAt]

/-! ### Sorted entries -/

theorem insertByName_perm (p : Name × Node) (qs : List (Name × Node)) :
    (insertByName p qs).Perm (p :: qs) := by
  induction qs with
  | nil => exact .refl _
  | cons q qs ih =>
    simp only [insertByName]
    split
    · exact .refl _
    · exact (ih.cons q).trans (.swap p q qs)

theorem sortByName_perm (ps : List (Name × Node)) : (sortByName ps).Perm ps := by
  induction ps with
  | nil => exact .refl _
  | cons p ps ih => exact (insertByName_perm p _).trans (ih.cons p)

theorem pairwise_insertByName {p : Name × Node} {qs : List (Name × Node)}
    (h : qs.Pairwise fun p q => sortsBefore p.1.text q.1.text = true) :
    (insertByName p qs).Pairwise fun p q => sortsBefore p.1.text q.1.text = true := by
  induction qs with
  | nil => simp [insertByName]
  | cons q qs ih =>
    obtain ⟨hq, hqs⟩ := List.pairwise_cons.1 h
    simp only [insertByName]
    split
    · rename_i hpq
      refine List.pairwise_cons.2 ⟨fun r hr => ?_, h⟩
      rcases List.mem_cons.1 hr with rfl | hr
      · exact hpq
      · exact sortsBefore_trans hpq (hq r hr)
    · rename_i hpq
      have hqp := (sortsBefore_total p.1.text q.1.text).resolve_left hpq
      refine List.pairwise_cons.2 ⟨fun r hr => ?_, ih hqs⟩
      rcases List.mem_cons.1 ((insertByName_perm p qs).mem_iff.1 hr) with rfl | hr
      · exact hqp
      · exact hq r hr

theorem pairwise_sortByName (ps : List (Name × Node)) :
    (sortByName ps).Pairwise fun p q => sortsBefore p.1.text q.1.text = true := by
  induction ps with
  | nil => exact .nil
  | cons p ps ih => exact pairwise_insertByName ih

/-- Sorting puts the entries of a directory into the one order of their names. -/
theorem map_fst_sortByName (fs : FileSystem) (dir : Location) :
    (sortByName (fs.entries dir)).map Prod.fst = fs.childNames dir := by
  refine List.Perm.eq_of_pairwise (fun m n _ _ hmn hnm => ?_) ?_ (fs.pairwise_childNames dir) ?_
  · exact Name.text_injective (sortsBefore_antisymm hmn hnm)
  · exact List.pairwise_map.2 (pairwise_sortByName _)
  · exact ((sortByName_perm _).map Prod.fst).trans (List.mergeSort_perm _ _).symm

/-- The children of an item, as a directory puts them on the stack. -/
theorem children_itemAt (hroot : root ≠ []) (names : List Name) (kind : Option Kind)
    (fs : FileSystem) (dir : Location) :
    (sortByName (fs.entries dir)).map (fun p => child root (itemAt root names kind) p.1 p.2) =
      (fs.childNames dir).map fun n =>
        itemAt root (names ++ [n]) (fs.nodeAt (n :: dir)).body.kind := by
  rw [← map_fst_sortByName, List.map_map]
  refine List.map_congr_left fun p hp => ?_
  have hnode : fs.get? (p.1 :: dir) = some p.2 :=
    FileSystem.mem_entries_iff.1 (mem_sortByName.1 hp)
  rw [child_itemAt hroot]
  simp [FileSystem.nodeAt, hnode]

end FileSearch.Walk
