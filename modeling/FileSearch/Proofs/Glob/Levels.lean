import FileSearch.Proofs.Glob.Matching
import FileSearch.Proofs.Query.Conjunction

/-!
Patterns and the levels of a path. The wildcards take no slash, nor does a class that is not negated
and has no range with the slash in it. If all classes of a pattern are so, the only items that take
a slash are those spelled as one, plain or escaped, and each of them takes one.
Main statement: what such a pattern matches has as many slashes as the pattern has outside classes,
and so has the shown path of every entry for which a query with such a pattern holds.
-/

namespace FileSearch

/-- The class takes characters of its ranges only, and the slash lies in none of them. -/
def CharClass.LacksSlash (k : CharClass) : Prop :=
  k.negated = false ∧ ∀ r ∈ k.ranges, ¬ r.Covers '/'

namespace Glob

variable {i : GlobItem} {g : Glob} {u n : Text}

theorem count_slash_of_literal (a : Char) :
    [a].count '/' = [GlobItem.literal a].count (.literal '/') := by
  by_cases h : a = '/'
  · subst h
    rfl
  · rw [List.count_singleton, List.count_singleton]
    simp [h]

/-- Of the items, only a slash takes a slash. -/
theorem slash_notMem_of_takes (h : i.Takes u) (hclass : ∀ k, i = .oneOf k → k.LacksSlash)
    (hliteral : ∀ a, i ≠ .literal a) : '/' ∉ u := by
  intro hslash
  cases i with
  | star => exact h '/' hslash rfl
  | one =>
    obtain ⟨c, rfl, hc⟩ := h
    exact hc (List.mem_singleton.1 hslash).symm
  | literal a => exact hliteral a rfl
  | oneOf k =>
    obtain ⟨negated, ranges⟩ := k
    obtain ⟨rfl, hranges⟩ := hclass _ rfl
    obtain ⟨c, rfl, r, hr, hcovers⟩ := h
    rw [← List.mem_singleton.1 hslash] at hcovers
    exact hranges r hr hcovers

theorem count_slash_of_takes (h : i.Takes u) (hclass : ∀ k, i = .oneOf k → k.LacksSlash) :
    u.count '/' = [i].count (.literal '/') := by
  by_cases hliteral : ∃ a, i = .literal a
  · obtain ⟨a, rfl⟩ := hliteral
    obtain rfl := h
    exact count_slash_of_literal a
  · rw [not_exists] at hliteral
    rw [List.count_eq_zero.2 (slash_notMem_of_takes h hclass hliteral),
      List.count_eq_zero.2 fun hi => hliteral '/' (List.mem_singleton.1 hi).symm]

/-- Each piece has as many slashes as its item, and so has the whole. -/
theorem count_slash_of_cuts (h : Cuts g n) (hclass : ∀ k, .oneOf k ∈ g → k.LacksSlash) :
    n.count '/' = g.count (.literal '/') := by
  induction h with
  | nil => rfl
  | @cons i g u v hu _ ih =>
    have hitem : u.count '/' = [i].count (.literal '/') :=
      count_slash_of_takes ((i.allows_iff_takes u).1 hu) fun k hk => hclass k (hk ▸ .head g)
    have hrest : v.count '/' = g.count (.literal '/') :=
      ih fun k hk => hclass k (List.mem_cons_of_mem i hk)
    rw [List.count_append, hitem, hrest, ← List.count_append, List.singleton_append]

end Glob

/-- If no class of a pattern is negated and no range of a class has the slash in it, every name that
the pattern matches has as many slashes as the pattern has as plain or escaped characters outside
classes, and with a query that has the pattern for the shown path, only entries are found whose
shown path has so many. -/
theorem slashes_of_globHolds {pattern : Text} {items : Glob} (h : Spells pattern items)
    (hclass : ∀ k, .oneOf k ∈ items → k.LacksSlash) :
    (∀ name, globHolds pattern name = .ok true →
      name.count '/' = items.count (.literal '/')) ∧
    ∀ (q : Query) (e : Entry) (probe : Probe) (now : Float) (depth : Int),
      q.pathPattern = some pattern → q.holds e probe now depth = .ok true →
        e.display.count '/' = items.count (.literal '/') := by
  have hcount (name : Text) (hname : globHolds pattern name = .ok true) :
      name.count '/' = items.count (.literal '/') := by
    rw [globHolds_of_spells h, Except.ok.injEq, Glob.accepts_iff_cuts] at hname
    exact Glob.count_slash_of_cuts hname hclass
  refine ⟨hcount, ?_⟩
  intro q e probe now depth hpath hholds
  exact hcount _ ((Query.holds_eq_ok_true_iff.1 hholds).path pattern hpath)

/-- A plain slash, an escaped one, and a class that ends right before the slash. -/
theorem slashes_of_globHolds_twoLevels :
    let pattern : Text := ['*', '/', '[', '!', '-', '.', ']', '\\', '/', '?']
    let items : Glob := [.star, .literal '/', .oneOf ⟨false, [⟨'!', '.'⟩]⟩, .literal '/', .one]
    let q : Query := { pathPattern := some pattern }
    let e : Entry := Entry.root ['r', '/', '+', '/', 'x'] none
    let probe : Probe := ⟨fun _ => .error .brokenPipe, fun _ => .error .brokenPipe⟩
    Spells pattern items ∧ (∀ k, .oneOf k ∈ items → k.LacksSlash) ∧
      globHolds pattern e.display = .ok true ∧ q.holds e probe 0 2 = .ok true ∧
      e.display.count '/' = items.count (.literal '/') := by
  intro pattern items q e probe
  have hspells : Spells pattern items := Glob.ofText?_eq_some_iff.1 rfl
  have hclass : ∀ k, .oneOf k ∈ items → k.LacksSlash := by
    simp [items, CharClass.LacksSlash, CharRange.Covers]
  have hpath : globHolds pattern e.display = .ok true := rfl
  have hholds : q.holds e probe 0 2 = .ok true := rfl
  exact ⟨hspells, hclass, hpath, hholds,
    (slashes_of_globHolds hspells hclass).2 q e probe 0 2 rfl hholds⟩

end FileSearch
