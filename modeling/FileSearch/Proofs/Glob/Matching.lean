import FileSearch.Proofs.Glob.Grammar
import FileSearch.Query.Holds
import Mathlib.Data.List.Forall2

/-!
What patterns match. Each item takes some pieces of text: a wildcard takes no slash, a class takes
one character that lies in one of its ranges or, if negated, in none of them, a slash included.
Main statements: a pattern matches exactly the names that can be cut into pieces, one for each of
its items and in their order, such that each item takes its piece; and matching fails with a text
that is no pattern, and with no other. A pattern in which every character is escaped matches one
name only.
-/

namespace FileSearch

/-- The code point of the character lies between the ends; never if they are the wrong way round. -/
def CharRange.Covers (r : CharRange) (c : Char) : Prop :=
  r.lo.toNat ≤ c.toNat ∧ c.toNat ≤ r.hi.toNat

/-- The pieces an item takes. -/
def GlobItem.Takes : GlobItem → Text → Prop
  | star, u => ∀ c ∈ u, c ≠ '/'
  | one, u => ∃ c, u = [c] ∧ c ≠ '/'
  | literal a, u => u = [a]
  | oneOf ⟨false, ranges⟩, u => ∃ c, u = [c] ∧ ∃ r ∈ ranges, r.Covers c
  | oneOf ⟨true, ranges⟩, u => ∃ c, u = [c] ∧ ∀ r ∈ ranges, ¬ r.Covers c

theorem CharRange.contains_iff_covers {r : CharRange} {c : Char} : r.contains c ↔ r.Covers c := by
  simp [contains, Covers, Char.le_def, UInt32.le_iff_toNat_le]

theorem GlobItem.allows_iff_takes (i : GlobItem) (u : Text) : i.Allows u ↔ i.Takes u := by
  cases i with
  | star =>
    constructor
    · rintro h c hc rfl
      exact h hc
    · exact fun h hs => h '/' hs rfl
  | one => simp [Allows, Takes, admits]
  | literal a => simp [Allows, Takes, admits]
  | oneOf k =>
    obtain ⟨negated, ranges⟩ := k
    cases negated with
    | false =>
      simp only [Allows, Takes, admits, CharClass.contains, ← CharRange.contains_iff_covers]
      simp
    | true =>
      simp only [Allows, Takes, admits, CharClass.contains, ← CharRange.contains_iff_covers]
      simp

theorem Glob.cuts_iff_exists_pieces {g : Glob} {n : Text} :
    Cuts g n ↔ ∃ pieces : List Text, pieces.flatten = n ∧ List.Forall₂ GlobItem.Takes g pieces := by
  constructor
  · intro h
    induction h with
    | nil => exact ⟨[], rfl, .nil⟩
    | @cons i g u v hu _ ih =>
      obtain ⟨pieces, rfl, hp⟩ := ih
      exact ⟨u :: pieces, rfl, .cons ((i.allows_iff_takes u).1 hu) hp⟩
  · rintro ⟨pieces, rfl, hp⟩
    induction hp with
    | nil => exact .nil
    | @cons i u g pieces hu _ ih => exact .cons ((i.allows_iff_takes u).2 hu) ih

/-! ### The outcome of matching -/

theorem globHolds_of_spells {pattern : Text} {items : Glob} (h : Spells pattern items)
    (name : Text) : globHolds pattern name = .ok (items.accepts name) := by
  rw [globHolds, globMatch?, Glob.ofText?_eq_some_iff.2 h]
  rfl

theorem globHolds_of_malformed {pattern : Text} (h : Glob.ofText? pattern = none) (name : Text) :
    globHolds pattern name = .error (.pattern pattern) := by
  rw [globHolds, globMatch?, h]
  rfl

/-! ### Texts as patterns -/

/-- The text with a backslash before each of its characters. -/
def escapeAll (t : Text) : Text := t.flatMap fun c => ['\\', c]

theorem spells_escapeAll (t : Text) : Spells (escapeAll t) (t.map .literal) := by
  induction t with
  | nil => exact .nil
  | cons c t ih => exact .cons (.escaped c) ih

theorem Glob.accepts_map_literal (t n : Text) :
    Glob.accepts (t.map .literal) n = decide (n = t) := by
  induction t generalizing n with
  | nil => cases n <;> simp [accepts]
  | cons c t ih => cases n <;> simp [accepts, GlobItem.admits, ih]

/-- A text in which every character is escaped is a pattern for this text and no other. -/
theorem globHolds_escapeAll (t n : Text) : globHolds (escapeAll t) n = .ok (decide (n = t)) := by
  rw [globHolds_of_spells (spells_escapeAll t), Glob.accepts_map_literal]

/-! ### Names and patterns -/

/-- A well-formed pattern is never refused, and it matches a name exactly if the whole name can be
cut into pieces that its items take. -/
theorem globHolds_iff_pieces {pattern : Text} {items : Glob} (h : Spells pattern items)
    (name : Text) : ∃ b, globHolds pattern name = .ok b ∧
      (b = true ↔
        ∃ pieces : List Text, pieces.flatten = name ∧ List.Forall₂ GlobItem.Takes items pieces) := by
  refine ⟨items.accepts name, globHolds_of_spells h name, ?_⟩
  rw [Glob.accepts_iff_cuts, Glob.cuts_iff_exists_pieces]

/-- A star before a negated class whose only range is reversed, and an escaped star. -/
theorem globHolds_iff_pieces_reversed :
    let items : Glob := [.star, .oneOf ⟨true, [⟨'b', 'a'⟩]⟩, .literal '*']
    Spells ['*', '[', '^', 'b', '-', 'a', ']', '\\', '*'] items ∧
      ∃ b, globHolds ['*', '[', '^', 'b', '-', 'a', ']', '\\', '*'] ['x', '\n', '/', '*'] = .ok b ∧
        (b = true ↔ ∃ pieces : List Text,
          pieces.flatten = ['x', '\n', '/', '*'] ∧ List.Forall₂ GlobItem.Takes items pieces) := by
  have h : Glob.ofText? ['*', '[', '^', 'b', '-', 'a', ']', '\\', '*'] =
      some [.star, .oneOf ⟨true, [⟨'b', 'a'⟩]⟩, .literal '*'] := rfl
  rw [Glob.ofText?_eq_some_iff] at h
  exact ⟨h, globHolds_iff_pieces h ['x', '\n', '/', '*']⟩

/-! ### What is no pattern -/

/-- Matching fails exactly with a text that spells no items, whatever the name is, and then with a
fault that holds this text. With every other text it has an outcome for every name. -/
theorem globHolds_fails_iff (pattern name : Text) :
    (∀ f, globHolds pattern name = .error f ↔ f = .pattern pattern ∧ ¬ IsPattern pattern) ∧
      ((∃ b, globHolds pattern name = .ok b) ↔ IsPattern pattern) := by
  by_cases h : IsPattern pattern
  · obtain ⟨items, hitems⟩ := id h
    rw [globHolds_of_spells hitems name]
    simp [h]
  · rw [globHolds_of_malformed (Glob.ofText?_eq_none_iff.2 h) name]
    simp [h, eq_comm]

example : ¬ IsPattern ['[', 'a', '-', 'b', '-', 'c', ']'] :=
  Glob.ofText?_eq_none_iff.1 (by decide)

end FileSearch
