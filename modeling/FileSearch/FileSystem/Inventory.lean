import FileSearch.FileSystem.Basic

/-!
The inventory of a directory: the path of every node below it with a letter for what the node is, in
the order of code points.
Main statements: the lines of an inventory are those of the nodes below the directory, and they are
in order.
-/

namespace FileSearch

def Body.letter : Body → Char
  | .file _ => 'f'
  | .directory => 'd'
  | .symlink _ => 'l'
  | .special => 'p'

namespace FileSystem

/-- The path of a location below a directory, if it is below. -/
def pathBelow? (base l : Location) : Option Text :=
  let names := l.take (l.length - base.length)
  if base <:+ l ∧ names ≠ [] then some (joinSegments (names.reverse.map Name.text)) else none

def inventory (fs : FileSystem) (base : Location) : List Text :=
  (fs.nodes.filterMap fun p =>
    (pathBelow? base p.1).map (· ++ [':', p.2.body.letter])).mergeSort sortsBefore

variable {fs : FileSystem} {base l : Location} {path line : Text}

/-- The path of a location below a directory is spelled by the names on the way to it. -/
theorem pathBelow?_eq_some_iff :
    pathBelow? base l = some path ↔
      ∃ names, names ≠ [] ∧ l = names.reverse ++ base ∧
        path = joinSegments (names.map Name.text) := by
  simp only [pathBelow?, Option.ite_none_right_eq_some, Option.some.injEq]
  constructor
  · rintro ⟨⟨⟨names, rfl⟩, hne⟩, rfl⟩
    rw [List.length_append, Nat.add_sub_cancel, List.take_left] at hne ⊢
    exact ⟨names.reverse, by simpa using hne, by simp, rfl⟩
  · rintro ⟨names, hne, rfl, rfl⟩
    rw [List.length_append, Nat.add_sub_cancel, List.take_left, List.reverse_reverse]
    exact ⟨⟨List.suffix_append _ _, by simpa using hne⟩, rfl⟩

theorem mem_inventory_iff :
    line ∈ fs.inventory base ↔
      ∃ names node, names ≠ [] ∧ fs.get? (names.reverse ++ base) = some node ∧
        line = joinSegments (names.map Name.text) ++ [':', node.body.letter] := by
  simp only [inventory, List.mem_mergeSort, List.mem_filterMap, Option.map_eq_some_iff,
    pathBelow?_eq_some_iff, get?_eq_some_iff]
  constructor
  · rintro ⟨⟨l, node⟩, hnode, path, ⟨names, hne, rfl, rfl⟩, rfl⟩
    exact ⟨names, node, hne, hnode, rfl⟩
  · rintro ⟨names, node, hne, hnode, rfl⟩
    exact ⟨_, hnode, _, ⟨names, hne, rfl, rfl⟩, rfl⟩

theorem pairwise_inventory (fs : FileSystem) (base : Location) :
    (fs.inventory base).Pairwise fun a b => sortsBefore a b = true := by
  have htrans (a b c : Text) (hab : sortsBefore a b = true) (hbc : sortsBefore b c = true) :
      sortsBefore a c = true := sortsBefore_trans hab hbc
  have htotal (a b : Text) : (sortsBefore a b || sortsBefore b a) = true := by
    rw [Bool.or_eq_true]
    exact sortsBefore_total a b
  exact List.pairwise_mergeSort htrans htotal _

end FileSystem

end FileSearch
