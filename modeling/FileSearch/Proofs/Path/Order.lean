import FileSearch.Text.Basic
import Mathlib.Data.List.Lex

/-!
The order of ways. Two ways are compared name by name from the first one on, and names by their code
points; a way comes after each of its beginnings. This is not the order of the paths that the ways
spell, in which the slash has a place of its own.
Main statements: the order is strict, a way and all that goes on from it come before whatever comes
after the way without going on from it, and what lies between two ways with a common beginning has
that beginning too.
-/

namespace FileSearch

/-- The first text comes strictly before the second one, by code points. -/
def CodeBefore : Text → Text → Prop := List.Lex fun c d => c.toNat < d.toNat

/-- The first way comes strictly before the second one. -/
def Precedes : List Text → List Text → Prop := List.Lex CodeBefore

theorem CodeBefore.irrefl (s : Text) : ¬ CodeBefore s s :=
  List.lex_irrefl (fun c => Nat.lt_irrefl c.toNat) s

theorem CodeBefore.trans {s t u : Text} (h : CodeBefore s t) (h' : CodeBefore t u) :
    CodeBefore s u := List.lex_trans Nat.lt_trans h h'

/-- What sorts before another text and is not the same comes strictly before it. -/
theorem codeBefore_of_sortsBefore {s t : Text} (h : sortsBefore s t = true) (hne : s ≠ t) :
    CodeBefore s t := by
  induction s generalizing t with
  | nil =>
    obtain ⟨d, t, rfl⟩ := List.exists_cons_of_ne_nil (Ne.symm hne)
    exact .nil
  | cons c s ih =>
    cases t with
    | nil => cases h
    | cons d t =>
      rcases sortsBefore_cons_iff.1 h with hlt | ⟨heq, hs⟩
      · exact .rel hlt
      · obtain rfl := Char.toNat_inj.1 heq
        exact .cons (ih hs fun hst => hne (by rw [hst]))

namespace Precedes

variable {a b c p : List Text} {m n : Text}

theorem irrefl (a : List Text) : ¬ Precedes a a := List.lex_irrefl CodeBefore.irrefl a

theorem trans (h : Precedes a b) (h' : Precedes b c) : Precedes a c :=
  List.lex_trans CodeBefore.trans h h'

theorem of_beginning (hpre : a <+: b) (hne : a ≠ b) : Precedes a b := by
  obtain ⟨more, rfl⟩ := hpre
  have hmore : more ≠ [] := by simpa using hne
  obtain ⟨k, ks, rfl⟩ := List.exists_cons_of_ne_nil hmore
  have hlex := List.Lex.append_left CodeBefore (@List.Lex.nil _ _ k ks) a
  rwa [List.append_nil] at hlex

/-- Nothing comes before its own beginnings. -/
theorem not_beginning (h : Precedes a b) : ¬ b <+: a := by
  intro hpre
  by_cases heq : b = a
  · exact irrefl a (heq ▸ h)
  · exact irrefl a (h.trans (of_beginning hpre heq))

theorem concat (p : List Text) (h : CodeBefore m n) : Precedes (p ++ [m]) (p ++ [n]) :=
  List.Lex.append_left CodeBefore (.rel h) p

/-- What goes on from a way comes before whatever comes after the way and does not go on from it. -/
theorem extend (h : Precedes a b) (hnot : ¬ a <+: b) (more : List Text) :
    Precedes (a ++ more) b := by
  induction h with
  | nil => exact absurd List.nil_prefix hnot
  | rel h => exact .rel h
  | cons h ih => exact .cons (ih fun hpre => hnot (List.cons_prefix_cons.2 ⟨rfl, hpre⟩))

/-- What lies between two ways with a common beginning has this beginning. -/
theorem beginning_between (h : Precedes a b) (h' : Precedes b c) (ha : p <+: a) (hc : p <+: c) :
    p <+: b := by
  by_contra hb
  have hpb : Precedes p b := by
    by_cases heq : p = a
    · exact heq ▸ h
    · exact (of_beginning ha heq).trans h
  obtain ⟨more, rfl⟩ := hc
  exact irrefl b (h'.trans (hpb.extend hb more))

end Precedes

end FileSearch
