import FileSearch.Entry
import FileSearch.FileSystem.Node
import FileSearch.Search.World

/-!
The entries of one directory on their way into a walk: they are sorted by name, get their paths from
the paths of the directory, and are sifted by a filter.
Main statements: sorting keeps the entries, sifting keeps their order, and the path of an entry is
longer than that of its directory.
-/

namespace FileSearch

/-- Says of a path relative to the root, and of whether it is a directory, if it is excluded. -/
abbrev EntryFilter := Text → Bool → Except Fault Bool

/-- An entry on the stack with its path relative to the root and its depth below it. -/
structure Item where
  entry : Entry
  rel : Text
  depth : Nat
  deriving DecidableEq, Repr

namespace Walk

def insertByName (p : Name × Node) : List (Name × Node) → List (Name × Node)
  | [] => [p]
  | q :: qs => if sortsBefore p.1.text q.1.text then p :: q :: qs else q :: insertByName p qs

def sortByName : List (Name × Node) → List (Name × Node)
  | [] => []
  | p :: ps => insertByName p (sortByName ps)

/-- The item of an entry that a directory lists. -/
def child (root : Text) (parent : Item) (name : Name) (node : Node) : Item :=
  let rel := joinPath parent.rel name.text
  { entry := {
      path := joinPath parent.entry.path name.text
      display := displayPath root rel
      name := name.text
      kind := node.body.kind }
    rel
    depth := parent.depth + 1 }

/-- Whether the filter excludes an item. -/
def excluded (filter : Option EntryFilter) (item : Item) : Except Fault Bool :=
  match filter with
  | none => .ok false
  | some excludes => excludes item.rel item.entry.isDirectory

/-- Keeps what the filter does not exclude. -/
def sift (filter : Option EntryFilter) : List Item → Search (List Item)
  | [] => pure []
  | item :: items => do
    if ← Search.ofExcept (excluded filter item) then
      Search.record (.excluded item.entry.path)
      sift filter items
    else
      return item :: (← sift filter items)

theorem sift_sublist {filter : Option EntryFilter} {items kept : List Item} {w w' : World}
    (h : sift filter items w = .ok kept w') : kept.Sublist items := by
  induction items generalizing kept w w' with
  | nil =>
    obtain ⟨rfl, -⟩ := Search.pure_eq_ok_iff.1 h
    exact .slnil
  | cons item items ih =>
    rw [sift.eq_def] at h
    obtain ⟨out, v, -, h⟩ := Search.bind_eq_ok_iff.1 h
    cases out with
    | true =>
      obtain ⟨-, v', -, h⟩ := Search.bind_eq_ok_iff.1 h
      exact .cons _ (ih h)
    | false =>
      obtain ⟨kept', v', hk, h⟩ := Search.bind_eq_ok_iff.1 h
      obtain ⟨rfl, -⟩ := Search.pure_eq_ok_iff.1 h
      exact .cons_cons _ (ih hk)

theorem mem_sortByName {q : Name × Node} {ps : List (Name × Node)} :
    q ∈ sortByName ps ↔ q ∈ ps := by
  have hins (p : Name × Node) (qs : List (Name × Node)) :
      q ∈ insertByName p qs ↔ q = p ∨ q ∈ qs := by
    induction qs with
    | nil => simp [insertByName]
    | cons r rs ih =>
      simp only [insertByName]
      split
      · simp
      · simp [ih, or_left_comm]
  induction ps with
  | nil => simp [sortByName]
  | cons p ps ih => simp [sortByName, hins, ih]

/-- The path of an entry is longer than the path of its directory. -/
theorem byteLength_lt_child (root : Text) (parent : Item) (name : Name) (node : Node) :
    byteLength parent.entry.path < byteLength (child root parent name node).entry.path := by
  have hname : 0 < byteLength name.text := by
    have := length_le_byteLength name.text
    have := List.length_pos_iff.2 name.text_ne_nil
    omega
  simp only [child, joinPath]
  split
  · simpa using hname
  · simp only [byteLength_append, byteLength]
    omega

end Walk

end FileSearch
