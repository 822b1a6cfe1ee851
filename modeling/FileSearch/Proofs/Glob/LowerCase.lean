import FileSearch.Proofs.Glob.Grammar
import FileSearch.Text.LowerCase
import Mathlib.Data.List.Forall2

/-!
Lower case and the form of a pattern. Whether a text is a pattern is decided by the characters that
have a meaning in patterns and by where the others stand: if the latter are changed, the text spells
the same items with the characters in them changed. Lower case keeps the former and makes no others,
but it makes two characters of the dotted capital I.
Main statements: texts of the same form spell items that differ in their characters only, and a text
without the dotted capital I is a pattern if and only if its lower case is.
-/

namespace FileSearch

/-- The characters that have a meaning in patterns. -/
def globMarks : List Char := ['*', '?', '[', '\\', ']', '-', '^']

/-- The characters have the same meaning, or both have none. -/
def SameRole (c d : Char) : Prop := c = d ∨ c ∉ globMarks ∧ d ∉ globMarks

/-- The texts have the same length, and at each place characters of the same role. -/
abbrev SameForm (t t' : Text) : Prop := List.Forall₂ SameRole t t'

/-- The ends of the ranges are related. -/
structure CharRange.Related (R : Char → Char → Prop) (r r' : CharRange) : Prop where
  lo : R r.lo r'.lo
  hi : R r.hi r'.hi

/-- The items are the same but for the characters in them, which are related. -/
inductive GlobItem.Related (R : Char → Char → Prop) : GlobItem → GlobItem → Prop
  | star : Related R .star .star
  | one : Related R .one .one
  | literal {c d : Char} : R c d → Related R (.literal c) (.literal d)
  | oneOf {negated : Bool} {rs rs' : List CharRange} :
      List.Forall₂ (CharRange.Related R) rs rs' →
        Related R (.oneOf ⟨negated, rs⟩) (.oneOf ⟨negated, rs'⟩)

section SameForm

variable {c d m : Char} {s t u : Text} {g : Glob} {R : Char → Char → Prop}

theorem SameRole.symm (h : SameRole c d) : SameRole d c := h.imp Eq.symm And.symm

theorem SameRole.eq_iff (h : SameRole c d) (hm : m ∈ globMarks) : c = m ↔ d = m := by
  rcases h with rfl | ⟨hc, hd⟩
  · rfl
  · constructor
    · rintro rfl
      exact absurd hm hc
    · rintro rfl
      exact absurd hm hd

theorem SameForm.symm (h : SameForm s t) : SameForm t s := by
  induction h with
  | nil => exact .nil
  | cons hc _ ih => exact .cons hc.symm ih

theorem related_singleton (h : List.Forall₂ R [c] t) : ∃ d, t = [d] ∧ R c d := by
  obtain ⟨d, r, hd, hr, rfl⟩ := List.forall₂_cons_left_iff.1 h
  obtain rfl := List.forall₂_nil_left_iff.1 hr
  exact ⟨d, rfl, hd⟩

theorem related_append (h : List.Forall₂ R (s ++ u) t) :
    ∃ s' u', t = s' ++ u' ∧ List.Forall₂ R s s' ∧ List.Forall₂ R u u' := by
  refine ⟨t.take s.length, t.drop s.length, (List.take_append_drop _ _).symm, ?_, ?_⟩
  · simpa using List.forall₂_take s.length h
  · simpa using List.forall₂_drop s.length h

/-- A character with a meaning stays where it is. -/
theorem related_mark_cons (hR : ∀ c d, R c d → SameRole c d) (hm : m ∈ globMarks)
    (h : List.Forall₂ R (m :: s) t) : ∃ r, t = m :: r ∧ List.Forall₂ R s r := by
  obtain ⟨d, r, hd, hr, rfl⟩ := List.forall₂_cons_left_iff.1 h
  obtain rfl := ((hR _ _ hd).eq_iff hm).1 rfl
  exact ⟨r, rfl, hr⟩

/-! ### What related texts spell -/

theorem SpellsMember.related (hR : ∀ c d, R c d → SameRole c d) (h : SpellsMember s c)
    (hst : List.Forall₂ R s t) : ∃ c', SpellsMember t c' ∧ R c c' := by
  cases h with
  | escaped c =>
    obtain ⟨r, rfl, hr⟩ := related_mark_cons hR (by decide) hst
    obtain ⟨d, rfl, hd⟩ := related_singleton hr
    exact ⟨d, .escaped d, hd⟩
  | plain hescape hdash hclose =>
    obtain ⟨d, rfl, hd⟩ := related_singleton hst
    have hne : ∀ m ∈ globMarks, c ≠ m → d ≠ m := fun m hm hc hdm =>
      hc (((hR _ _ hd).eq_iff hm).2 hdm)
    exact ⟨d, .plain (hne _ (by decide) hescape) (hne _ (by decide) hdash)
      (hne _ (by decide) hclose), hd⟩

theorem SpellsRange.related {r : CharRange} (hR : ∀ c d, R c d → SameRole c d)
    (h : SpellsRange s r) (hst : List.Forall₂ R s t) : ∃ r', SpellsRange t r' ∧ r.Related R r' := by
  cases h with
  | single hc =>
    obtain ⟨c', hc', hrel⟩ := hc.related hR hst
    exact ⟨_, .single hc', hrel, hrel⟩
  | span hlo hhi =>
    obtain ⟨s', u', rfl, hs, hu⟩ := related_append hst
    obtain ⟨v, rfl, hv⟩ := related_mark_cons hR (by decide) hu
    obtain ⟨lo', hlo', hlorel⟩ := hlo.related hR hs
    obtain ⟨hi', hhi', hhirel⟩ := hhi.related hR hv
    exact ⟨_, .span hlo' hhi', hlorel, hhirel⟩

theorem SpellsRanges.related {rs : List CharRange} (hR : ∀ c d, R c d → SameRole c d)
    (h : SpellsRanges s rs) (hst : List.Forall₂ R s t) :
    ∃ rs', SpellsRanges t rs' ∧ List.Forall₂ (CharRange.Related R) rs rs' := by
  induction h generalizing t with
  | nil =>
    obtain rfl := List.forall₂_nil_left_iff.1 hst
    exact ⟨[], .nil, .nil⟩
  | cons hr _ ih =>
    obtain ⟨s', u', rfl, hs, hu⟩ := related_append hst
    obtain ⟨r', hr', hrel⟩ := hr.related hR hs
    obtain ⟨rs', hrs', hrels⟩ := ih hu
    exact ⟨r' :: rs', .cons hr' hrs', .cons hrel hrels⟩

/-- A class in brackets that is spelled by a related text. -/
theorem exists_ranges_of_related {rs : List CharRange} (hR : ∀ c d, R c d → SameRole c d)
    (hrs : SpellsRanges s rs) (hne : rs ≠ []) (hst : List.Forall₂ R (s ++ [']']) t) :
    ∃ s' rs', t = s' ++ [']'] ∧ List.Forall₂ R s s' ∧ SpellsRanges s' rs' ∧ rs' ≠ [] ∧
      List.Forall₂ (CharRange.Related R) rs rs' := by
  obtain ⟨s', u', rfl, hs, hu⟩ := related_append hst
  obtain ⟨r, rfl, hr⟩ := related_mark_cons hR (by decide) hu
  obtain rfl := List.forall₂_nil_left_iff.1 hr
  obtain ⟨rs', hrs', hrels⟩ := hrs.related hR hs
  refine ⟨s', rs', rfl, hs, hrs', ?_, hrels⟩
  rintro rfl
  exact hne (List.forall₂_nil_right_iff.1 hrels)

theorem SpellsItem.related {i : GlobItem} (hR : ∀ c d, R c d → SameRole c d)
    (h : SpellsItem s i) (hst : List.Forall₂ R s t) : ∃ i', SpellsItem t i' ∧ i.Related R i' := by
  cases h with
  | star =>
    obtain ⟨r, rfl, hr⟩ := related_mark_cons hR (by decide) hst
    obtain rfl := List.forall₂_nil_left_iff.1 hr
    exact ⟨_, .star, .star⟩
  | one =>
    obtain ⟨r, rfl, hr⟩ := related_mark_cons hR (by decide) hst
    obtain rfl := List.forall₂_nil_left_iff.1 hr
    exact ⟨_, .one, .one⟩
  | escaped c =>
    obtain ⟨r, rfl, hr⟩ := related_mark_cons hR (by decide) hst
    obtain ⟨d, rfl, hd⟩ := related_singleton hr
    exact ⟨_, .escaped d, .literal hd⟩
  | @plain c hc =>
    obtain ⟨d, rfl, hd⟩ := related_singleton hst
    refine ⟨_, .plain fun hmem => hc ?_, .literal hd⟩
    have hmark : d ∈ globMarks := by
      revert hmem
      simp only [globMarks, List.mem_cons]
      tauto
    rwa [((hR _ _ hd).eq_iff hmark).2 rfl]
  | oneOf hrs hne hneg =>
    obtain ⟨r, rfl, hr⟩ := related_mark_cons hR (by decide) hst
    obtain ⟨s', rs', rfl, hs, hrs', hne', hrels⟩ := exists_ranges_of_related hR hrs hne hr
    refine ⟨_, .oneOf hrs' hne' fun hhead => hneg ?_, .oneOf hrels⟩
    obtain ⟨v, rfl⟩ := List.head?_eq_some_iff.1 hhead
    obtain ⟨c, v', hc, -, rfl⟩ := List.forall₂_cons_right_iff.1 hs
    rw [((hR _ _ hc).eq_iff (by decide)).2 rfl]
    rfl
  | noneOf hrs hne =>
    obtain ⟨r, rfl, hr⟩ := related_mark_cons hR (by decide) hst
    obtain ⟨r', rfl, hr'⟩ := related_mark_cons hR (by decide) hr
    obtain ⟨s', rs', rfl, -, hrs', hne', hrels⟩ := exists_ranges_of_related hR hrs hne hr'
    exact ⟨_, .noneOf hrs' hne', .oneOf hrels⟩

/-- Texts whose characters are related, and have the same roles, spell related items. -/
theorem Spells.related (hR : ∀ c d, R c d → SameRole c d) (h : Spells s g)
    (hst : List.Forall₂ R s t) : ∃ g', Spells t g' ∧ List.Forall₂ (GlobItem.Related R) g g' := by
  induction h generalizing t with
  | nil =>
    obtain rfl := List.forall₂_nil_left_iff.1 hst
    exact ⟨[], .nil, .nil⟩
  | cons hi _ ih =>
    obtain ⟨s', u', rfl, hs, hu⟩ := related_append hst
    obtain ⟨i', hi', hrel⟩ := hi.related hR hs
    obtain ⟨g', hg', hrels⟩ := ih hu
    exact ⟨i' :: g', .cons hi' hg', .cons hrel hrels⟩

/-- Texts of the same form are patterns, or neither of them is. -/
theorem ofText?_eq_none_iff_of_sameForm (h : SameForm s t) :
    Glob.ofText? s = none ↔ Glob.ofText? t = none := by
  have hmove {s t : Text} (h : SameForm s t) (hs : Glob.ofText? s ≠ none) :
      Glob.ofText? t ≠ none := by
    obtain ⟨g, hg⟩ := Option.ne_none_iff_exists'.1 hs
    obtain ⟨g', hg', -⟩ := (Glob.ofText?_eq_some_iff.1 hg).related (fun _ _ => id) h
    rw [Glob.ofText?_of_spells hg']
    exact Option.some_ne_none g'
  exact not_iff_not.1 ⟨hmove h, hmove h.symm⟩

end SameForm

/-! ### Lower case -/

theorem toNat_ofNat_or (n : Nat) : (Char.ofNat n).toNat = n ∨ Char.ofNat n = '\x00' := by
  by_cases hvalid : n.isValidChar
  · left
    rw [Char.ofNat, dif_pos hvalid]
    rfl
  · right
    rw [Char.ofNat, dif_neg hvalid]
    rfl

/-- No character with a meaning has a small letter, and none is one. -/
theorem sameRole_lowerChar (c : Char) : SameRole c (lowerChar c) := by
  -- no run has a mark, and the letters that the runs lead to come after all marks
  have hmarks : ∀ r ∈ caseRuns, globMarks.all (!r.contains ·.toNat) := by decide +kernel
  have hlow : ∀ r ∈ caseRuns, 97 ≤ r.first + r.shift := by decide +kernel
  have hhigh : ∀ m ∈ globMarks, m.toNat < 97 ∧ m ≠ '\x00' := by simp [globMarks]
  unfold lowerChar
  cases hrun : caseRuns.find? (·.contains c.toNat) with
  | none => exact .inl rfl
  | some r =>
    have hr := List.mem_of_find?_eq_some hrun
    have hcontains := List.find?_some hrun
    refine .inr ⟨?_, ?_⟩
    · intro hc
      have hnot := List.all_eq_true.1 (hmarks r hr) c hc
      simp [hcontains] at hnot
    · intro hd
      obtain ⟨hlt, hnul⟩ := hhigh _ hd
      simp only [CaseRun.contains, Bool.and_eq_true, decide_eq_true_eq] at hcontains
      have hshift := hlow r hr
      rcases toNat_ofNat_or (Int.toNat (c.toNat + r.shift)) with hnat | hzero
      · simp only [hnat] at hlt
        omega
      · exact hnul hzero

/-- But for the dotted capital I, lower case is a text of the same form. -/
theorem sameForm_lowerAfter {t : Text} (h : 'İ' ∉ t) (before : Text) :
    SameForm t (lowerAfter before t) := by
  induction t generalizing before with
  | nil => exact .nil
  | cons c r ih =>
    obtain ⟨hc, hr⟩ := not_or.1 (mt List.mem_cons.2 h)
    have hrest := ih hr (c :: before)
    rw [lowerAfter, lowerIn, if_neg (Ne.symm hc)]
    by_cases hsigma : c = 'Σ'
    · subst hsigma
      rw [if_pos rfl]
      split
      · exact .cons (.inr (by decide)) hrest
      · exact .cons (.inr (by decide)) hrest
    · rw [if_neg hsigma]
      exact .cons (sameRole_lowerChar c) hrest

/-- Lower case makes no pattern of what is none, and nothing else of a pattern. -/
theorem ofText?_lowerCase_eq_none_iff {t : Text} (h : 'İ' ∉ t) :
    Glob.ofText? (lowerCase t) = none ↔ Glob.ofText? t = none :=
  (ofText?_eq_none_iff_of_sameForm (sameForm_lowerAfter h [])).symm

end FileSearch
