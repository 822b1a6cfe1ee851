import FileSearch.Text.Basic

/-!
Where a node stands in a tree of directories: the names on the way to it, the innermost first, so
that the directory of a location is its tail. A name is a text that a directory can list: it is not
empty, holds no slash and no NUL, is not one of the two dots, and takes at most 255 bytes.
-/

namespace FileSearch

/-- The longest name in bytes. -/
def maxNameBytes : Nat := 255

/-- Whether a directory can list the text as a name, its length apart. -/
def isListable (t : Text) : Bool :=
  !t.isEmpty && !t.contains '/' && !t.contains '\x00' && t != ['.'] && t != ['.', '.']

structure Name where
  text : Text
  listable : isListable text = true
  short : byteLength text ≤ maxNameBytes
  deriving DecidableEq

namespace Name

def ofText? (t : Text) : Option Name :=
  if h : isListable t = true ∧ byteLength t ≤ maxNameBytes then some ⟨t, h.1, h.2⟩ else none

@[simp] theorem ofText?_text (n : Name) : ofText? n.text = some n := by
  simp [ofText?, n.listable, n.short]

theorem text_of_ofText? {t : Text} {n : Name} (h : ofText? t = some n) : n.text = t := by
  unfold ofText? at h
  split at h
  · exact (Option.some.inj h) ▸ rfl
  · cases h

theorem text_injective {m n : Name} (h : m.text = n.text) : m = n := by
  cases m; cases n; cases h; rfl

theorem text_ne_nil (n : Name) : n.text ≠ [] := by
  have := n.listable
  simp only [isListable, Bool.and_eq_true, Bool.not_eq_true', List.isEmpty_eq_false_iff] at this
  exact this.1.1.1.1

theorem slash_not_mem (n : Name) : '/' ∉ n.text := by
  have := n.listable
  simp only [isListable, Bool.and_eq_true, Bool.not_eq_true', List.contains_eq_mem,
    decide_eq_false_iff_not] at this
  exact this.1.1.1.2

theorem nul_not_mem (n : Name) : '\x00' ∉ n.text := by
  have := n.listable
  simp only [isListable, Bool.and_eq_true, Bool.not_eq_true', List.contains_eq_mem,
    decide_eq_false_iff_not] at this
  exact this.1.1.2

theorem ne_dot (n : Name) : n.text ≠ ['.'] := by
  have := n.listable
  simp only [isListable, Bool.and_eq_true, bne_iff_ne] at this
  exact this.1.2

theorem ne_dotDot (n : Name) : n.text ≠ ['.', '.'] := by
  have := n.listable
  simp only [isListable, Bool.and_eq_true, bne_iff_ne] at this
  exact this.2

end Name

/-- The way to a node, innermost name first; the empty location is the top of the tree. -/
abbrev Location := List Name

end FileSearch
