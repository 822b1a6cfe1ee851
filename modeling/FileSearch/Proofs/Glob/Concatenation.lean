import FileSearch.Proofs.Glob.Matching

/-!
Patterns written one after the other. Where a pattern ends, the reader stands between items, so that
what follows is read as if it stood alone: no escape, range or class of the first part reaches into
the second. The items of the whole are those of the parts, and a name is cut between the parts in
any way in which both match.
Main statement: a pattern followed by a text is a pattern if and only if the text is one, and it
matches the names that can be cut into one the pattern matches and one the text matches.
-/

namespace FileSearch

namespace Glob

variable {g g' : Glob} {n t u : Text}

/-- What follows a pattern is read as if it stood alone. -/
theorem ofText?_append (h : Spells t g) (u : Text) :
    ofText? (t ++ u) = (ofText? u).map (g ++ ·) := by
  obtain ⟨ts, rfl, hb, hread⟩ := exists_of_spells h
  rw [ofText?, GlobToken.ofText?_spell_append hb, ofText?]
  cases GlobToken.ofText? u with
  | none => rfl
  | some us => exact hread us

/-- A name is cut by two patterns in turn at some place between them. -/
theorem cuts_append_iff :
    Cuts (g ++ g') n ↔ ∃ u v, n = u ++ v ∧ Cuts g u ∧ Cuts g' v := by
  induction g generalizing n with
  | nil =>
    constructor
    · intro h
      exact ⟨[], n, rfl, .nil, h⟩
    · rintro ⟨u, v, rfl, hu, hv⟩
      cases hu
      exact hv
  | cons i g ih =>
    rw [List.cons_append, cuts_cons_iff]
    constructor
    · rintro ⟨p, r, rfl, hp, hr⟩
      obtain ⟨u, v, rfl, hu, hv⟩ := ih.1 hr
      exact ⟨p ++ u, v, (List.append_assoc p u v).symm, .cons hp hu, hv⟩
    · rintro ⟨u, v, rfl, hu, hv⟩
      obtain ⟨p, r, rfl, hp, hr⟩ := cuts_cons_iff.1 hu
      exact ⟨p, r ++ v, List.append_assoc p r v, hp, ih.2 ⟨r, v, rfl, hr, hv⟩⟩

end Glob

/-- After a pattern, a text makes a pattern of the whole exactly if it is one itself. -/
theorem isPattern_append_iff {pattern more : Text} (h : IsPattern pattern) :
    IsPattern (pattern ++ more) ↔ IsPattern more := by
  obtain ⟨items, hitems⟩ := h
  have hread : Glob.ofText? (pattern ++ more) = none ↔ Glob.ofText? more = none := by
    rw [Glob.ofText?_append hitems, Option.map_eq_none_iff]
  rw [Glob.ofText?_eq_none_iff, Glob.ofText?_eq_none_iff] at hread
  exact not_iff_not.1 hread

/-- A pattern followed by a text is refused for a name if and only if the text is no pattern. If it
is one, the whole matches a name if and only if the name can be cut so that the pattern matches its
first part and the text its second. -/
theorem globHolds_append {pattern : Text} (h : IsPattern pattern) (more name : Text) :
    (globHolds (pattern ++ more) name = .error (.pattern (pattern ++ more)) ↔ ¬ IsPattern more) ∧
    (IsPattern more → ∃ b, globHolds (pattern ++ more) name = .ok b ∧
      (b = true ↔ ∃ u v, name = u ++ v ∧ globHolds pattern u = .ok true ∧
        globHolds more v = .ok true)) := by
  by_cases hmore : IsPattern more
  · obtain ⟨items, hitems⟩ := h
    obtain ⟨others, hothers⟩ := id hmore
    have hwhole : Spells (pattern ++ more) (items ++ others) := by
      rw [← Glob.ofText?_eq_some_iff, Glob.ofText?_append hitems, Glob.ofText?_of_spells hothers]
      rfl
    have hcut : (items ++ others).accepts name = true ↔ ∃ u v, name = u ++ v ∧
        globHolds pattern u = .ok true ∧ globHolds more v = .ok true := by
      simp only [globHolds_of_spells hitems, globHolds_of_spells hothers, Except.ok.injEq,
        Glob.accepts_iff_cuts, Glob.cuts_append_iff]
    exact ⟨by simp [globHolds_of_spells hwhole, hmore],
      fun _ => ⟨_, globHolds_of_spells hwhole name, hcut⟩⟩
  · have hwhole : Glob.ofText? (pattern ++ more) = none :=
      Glob.ofText?_eq_none_iff.2 (mt (isPattern_append_iff h).1 hmore)
    exact ⟨by simp [globHolds_of_malformed hwhole, hmore], fun hp => absurd hp hmore⟩

/-- A class at the end of the first part and a dash at the start of the second make no range. -/
theorem globHolds_append_dash :
    IsPattern ['*', '[', 'a', ']'] ∧ IsPattern ['-', '*', 'z'] ∧
      ∃ b, globHolds (['*', '[', 'a', ']'] ++ ['-', '*', 'z']) ['a', 'a', '-', 'z'] = .ok b ∧
        (b = true ↔ ∃ u v, ['a', 'a', '-', 'z'] = u ++ v ∧
          globHolds ['*', '[', 'a', ']'] u = .ok true ∧ globHolds ['-', '*', 'z'] v = .ok true) := by
  have hfirst : IsPattern ['*', '[', 'a', ']'] :=
    ⟨[.star, .oneOf ⟨false, [⟨'a', 'a'⟩]⟩], Glob.ofText?_eq_some_iff.1 rfl⟩
  have hsecond : IsPattern ['-', '*', 'z'] :=
    ⟨[.literal '-', .star, .literal 'z'], Glob.ofText?_eq_some_iff.1 rfl⟩
  exact ⟨hfirst, hsecond, (globHolds_append hfirst _ _).2 hsecond⟩

end FileSearch
