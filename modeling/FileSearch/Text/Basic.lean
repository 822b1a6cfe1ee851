/-!
Text is a list of characters, so that names, paths, patterns and tokens are read and compared one
code point at a time. A surrogate that stands alone is no character. This module holds what the rest
of the library asks of a text: its length in UTF-8, its pieces between separators, the order of code
points, and membership of a character in a class or in a table of code ranges.
Main statements: the order is total, transitive and antisymmetric.
-/

namespace FileSearch

abbrev Text := List Char

/-- The number of bytes the text takes in UTF-8. -/
def byteLength : Text → Nat
  | [] => 0
  | c :: r => c.utf8Size + byteLength r

@[simp] theorem byteLength_append (s t : Text) :
    byteLength (s ++ t) = byteLength s + byteLength t := by
  induction s with
  | nil => simp [byteLength]
  | cons c r ih => simp [byteLength, ih, Nat.add_assoc]

theorem length_le_byteLength (t : Text) : t.length ≤ byteLength t := by
  induction t with
  | nil => simp [byteLength]
  | cons c r ih => have := c.utf8Size_pos; simp only [byteLength, List.length_cons]; omega

/-! ### Pieces -/

/-- The pieces of a text between the characters that separate; there is always at least one. -/
def splitWhere (sep : Char → Bool) : Text → List Text
  | [] => [[]]
  | c :: r =>
    if sep c then [] :: splitWhere sep r
    else match splitWhere sep r with
      | [] => [[c]]
      | s :: ss => (c :: s) :: ss

/-- The pieces of a text between its slashes. -/
def segments (t : Text) : List Text := splitWhere (· == '/') t

/-- Puts segments together with a slash between neighbours. -/
def joinSegments : List Text → Text
  | [] => []
  | [s] => s
  | s :: t :: ss => s ++ '/' :: joinSegments (t :: ss)

theorem splitWhere_ne_nil (sep : Char → Bool) (t : Text) : splitWhere sep t ≠ [] := by
  cases t with
  | nil => simp [splitWhere]
  | cons c r =>
    simp only [splitWhere]
    split
    · simp
    · split <;> simp

/-! ### Order -/

/-- Whether the first text comes first or is the second one, by code points. -/
def sortsBefore : Text → Text → Bool
  | [], _ => true
  | _ :: _, [] => false
  | c :: s, d :: t => decide (c.toNat < d.toNat) || (decide (c.toNat = d.toNat) && sortsBefore s t)

theorem sortsBefore_cons_iff {c d : Char} {s t : Text} :
    sortsBefore (c :: s) (d :: t) = true ↔
      c.toNat < d.toNat ∨ c.toNat = d.toNat ∧ sortsBefore s t = true := by
  simp [sortsBefore]

theorem sortsBefore_total (s t : Text) : sortsBefore s t = true ∨ sortsBefore t s = true := by
  induction s generalizing t with
  | nil => exact .inl rfl
  | cons c s ih =>
    cases t with
    | nil => exact .inr rfl
    | cons d t =>
      rw [sortsBefore_cons_iff, sortsBefore_cons_iff]
      rcases Nat.lt_trichotomy c.toNat d.toNat with h | h | h
      · exact .inl (.inl h)
      · rcases ih t with ht | ht
        · exact .inl (.inr ⟨h, ht⟩)
        · exact .inr (.inr ⟨h.symm, ht⟩)
      · exact .inr (.inl h)

theorem sortsBefore_trans {s t u : Text} (h : sortsBefore s t = true)
    (h' : sortsBefore t u = true) : sortsBefore s u = true := by
  induction s generalizing t u with
  | nil => rfl
  | cons c s ih =>
    cases t with
    | nil => cases h
    | cons d t =>
      cases u with
      | nil => cases h'
      | cons k u =>
        rw [sortsBefore_cons_iff] at h h' ⊢
        rcases h with h | ⟨h, hs⟩
        · omega
        · rcases h' with h' | ⟨h', ht⟩
          · omega
          · exact .inr ⟨h.trans h', ih hs ht⟩

theorem sortsBefore_antisymm {s t : Text} (h : sortsBefore s t = true)
    (h' : sortsBefore t s = true) : s = t := by
  induction s generalizing t with
  | nil =>
    cases t with
    | nil => rfl
    | cons d t => cases h'
  | cons c s ih =>
    cases t with
    | nil => cases h
    | cons d t =>
      rw [sortsBefore_cons_iff] at h h'
      rcases h with h | ⟨h, hs⟩
      · omega
      · rcases h' with h' | ⟨-, ht⟩
        · omega
        · rw [Char.toNat_inj.1 h, ih hs ht]

/-! ### Ends and classes -/

/-- Whether the text ends in the character. -/
def endsWith (t : Text) (c : Char) : Bool := t.getLast? == some c

/-- The text without the trailing characters that satisfy the test. -/
def dropTrailing (p : Char → Bool) (t : Text) : Text := (t.reverse.dropWhile p).reverse

/-- Whether a table of inclusive code ranges has the character. -/
def inRanges (table : List (Nat × Nat)) (c : Char) : Bool :=
  table.any fun r => r.1 ≤ c.toNat && c.toNat ≤ r.2

/-- All characters from `lo` to `hi`, both included; none if the ends are the wrong way round. -/
structure CharRange where
  lo : Char
  hi : Char
  deriving DecidableEq, Repr

def CharRange.contains (r : CharRange) (c : Char) : Bool := r.lo ≤ c && c ≤ r.hi

structure CharClass where
  negated : Bool
  ranges : List CharRange
  deriving DecidableEq, Repr

def CharClass.contains (k : CharClass) (c : Char) : Bool :=
  k.negated != k.ranges.any (·.contains c)

end FileSearch
