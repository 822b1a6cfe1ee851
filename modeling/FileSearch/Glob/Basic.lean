import FileSearch.Text.Basic

/-!
Glob patterns and what they match. A pattern is a list of items; it matches a name that can be cut
into consecutive pieces, one per item, each piece allowed by its item. The wildcards never take a
slash, a bracket class may.
Main statement: the matcher accepts exactly the names that can be cut in this way.
-/

namespace FileSearch

inductive GlobItem where
  /-- any run of characters other than a slash -/
  | star
  /-- one character other than a slash -/
  | one
  /-- exactly this character -/
  | literal (c : Char)
  /-- one character of the class -/
  | oneOf (k : CharClass)
  deriving DecidableEq, Repr

abbrev Glob := List GlobItem

namespace GlobItem

/-- Whether the item takes the character as its whole piece; a star takes runs instead. -/
def admits : GlobItem → Char → Bool
  | star, _ => false
  | one, c => c ≠ '/'
  | literal a, c => c = a
  | oneOf k, c => k.contains c

/-- The pieces an item allows. -/
def Allows : GlobItem → Text → Prop
  | star, u => '/' ∉ u
  | i, u => ∃ c, u = [c] ∧ i.admits c

end GlobItem

namespace Glob

/-- Whether dropping some run of characters other than slashes leaves a text that passes. -/
def afterRun (passes : Text → Bool) : Text → Bool
  | [] => passes []
  | c :: r => passes (c :: r) || (c ≠ '/' && afterRun passes r)

/-- Whether the whole name matches. -/
def accepts : Glob → Text → Bool
  | [], t => t.isEmpty
  | .star :: g, t => afterRun (accepts g) t
  | _ :: _, [] => false
  | i :: g, c :: r => i.admits c && accepts g r

/-- The name is cut into one piece per item, each allowed by its item. -/
inductive Cuts : Glob → Text → Prop where
  | nil : Cuts [] []
  | cons {i : GlobItem} {g : Glob} {u v : Text} : i.Allows u → Cuts g v → Cuts (i :: g) (u ++ v)

theorem afterRun_iff {passes : Text → Bool} {t : Text} :
    afterRun passes t ↔ ∃ u v, t = u ++ v ∧ '/' ∉ u ∧ passes v := by
  induction t with
  | nil =>
    constructor
    · intro h
      exact ⟨[], [], rfl, by simp, h⟩
    · rintro ⟨u, v, h, -, hv⟩
      obtain ⟨rfl, rfl⟩ := List.append_eq_nil_iff.1 h.symm
      exact hv
  | cons c r ih =>
    simp only [afterRun, Bool.or_eq_true, Bool.and_eq_true, decide_eq_true_eq, ih]
    constructor
    · rintro (h | ⟨hc, u, v, rfl, hu, hv⟩)
      · exact ⟨[], c :: r, rfl, by simp, h⟩
      · exact ⟨c :: u, v, rfl, by simp [hu, Ne.symm hc], hv⟩
    · rintro ⟨u, v, h, hu, hv⟩
      cases u with
      | nil => exact .inl (by simpa [h] using hv)
      | cons d u =>
        obtain ⟨rfl, rfl⟩ := List.cons_eq_cons.1 h
        simp only [List.mem_cons, not_or] at hu
        exact .inr ⟨Ne.symm hu.1, u, v, rfl, hu.2, hv⟩

theorem cuts_cons_iff {i : GlobItem} {g : Glob} {t : Text} :
    Cuts (i :: g) t ↔ ∃ u v, t = u ++ v ∧ i.Allows u ∧ Cuts g v := by
  constructor
  · rintro (_ | ⟨hu, hv⟩)
    exact ⟨_, _, rfl, hu, hv⟩
  · rintro ⟨u, v, rfl, hu, hv⟩
    exact .cons hu hv

theorem accepts_iff_cuts {g : Glob} {t : Text} : g.accepts t ↔ Cuts g t := by
  induction g generalizing t with
  | nil =>
    rw [accepts, List.isEmpty_iff]
    constructor
    · rintro rfl
      exact .nil
    · intro h
      cases h
      rfl
  | cons i g ih =>
    rw [cuts_cons_iff]
    by_cases hs : i = .star
    · subst hs
      simp only [accepts, afterRun_iff, ih, GlobItem.Allows]
    · have hallow : ∀ u, i.Allows u ↔ ∃ c, u = [c] ∧ i.admits c := by
        intro u; cases i <;> simp_all [GlobItem.Allows]
      cases t with
      | nil =>
        have : accepts (i :: g) [] = false := by cases i <;> simp_all [accepts]
        simp only [this, Bool.false_eq_true, hallow, false_iff]
        rintro ⟨u, v, h, ⟨c, rfl, -⟩, -⟩
        simp at h
      | cons c r =>
        have : accepts (i :: g) (c :: r) = (i.admits c && accepts g r) := by
          cases i <;> simp_all [accepts]
        rw [this, Bool.and_eq_true, ih]
        simp only [hallow]
        constructor
        · rintro ⟨hc, hr⟩
          exact ⟨[c], r, rfl, ⟨c, rfl, hc⟩, hr⟩
        · rintro ⟨u, v, h, ⟨d, rfl, hd⟩, hv⟩
          obtain ⟨rfl, rfl⟩ := List.cons_eq_cons.1 h
          exact ⟨hd, hv⟩

end Glob

end FileSearch
