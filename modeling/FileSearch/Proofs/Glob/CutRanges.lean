import FileSearch.Proofs.Glob.AnyCase
import FileSearch.Proofs.Glob.Concatenation

/-!
Ranges without regard to case. A range is taken in lower case by its ends. The small letters come
after the capitals and after what lies between the two, so that a range which has some capitals, and
ends among what lies between or among the small letters, is cut: it loses characters, or all of
them.
Main statement: without regard to case a pattern without negated classes matches all ASCII names
that it matches exactly if and only if its classes keep, in lower case, what they take, unless one
of them takes nothing at all. This is so if no range is cut, and not for a range from `Z` to `a`.
-/

namespace FileSearch

/-- Some range of the class has the character. -/
def CharClass.Lists (k : CharClass) (c : Char) : Prop := ∃ r ∈ k.ranges, r.Covers c

/-- In lower case the class has the lower case of every ASCII character that it has. -/
def CharClass.SurvivesLowerCase (k : CharClass) : Prop :=
  ∀ c, c.toNat < 128 → k.Lists c → k.lower.Lists (lowerAscii c)

/-- The range is empty, ends with the capitals or before, begins after them, or begins before the
letters and has them all. -/
def CharRange.IsUncut (r : CharRange) : Prop :=
  r.hi < r.lo ∨ r.hi ≤ 'Z' ∨ 'Z' < r.lo ∨ r.lo < 'A' ∧ 'z' ≤ r.hi

section Ranges

variable {r : CharRange} {k : CharClass}

theorem CharRange.isUncut_iff :
    r.IsUncut ↔ r.hi.toNat < r.lo.toNat ∨ r.hi.toNat ≤ 90 ∨ 90 < r.lo.toNat ∨
      r.lo.toNat < 65 ∧ 122 ≤ r.hi.toNat := by
  simp [IsUncut, Char.lt_def, Char.le_def, UInt32.lt_iff_toNat_lt, UInt32.le_iff_toNat_le]

/-- What a cut range loses is `Z` if it begins before the letters, and otherwise `[`. -/
theorem CharRange.isUncut_iff_covers :
    r.IsUncut ↔ ∀ c, c.toNat < 128 → r.Covers c → r.lower.Covers (lowerAscii c) := by
  rw [isUncut_iff]
  constructor
  · intro huncut c _ hc
    simp only [Covers, lower, toNat_lowerAscii] at hc ⊢
    split <;> split <;> split <;> omega
  · intro hkeeps
    by_contra hcut
    have hhi : (lowerAscii r.hi).toNat = r.hi.toNat := by
      rw [toNat_lowerAscii, if_neg (by omega)]
    have hbracket : '['.toNat = 91 := rfl
    have hlast : 'Z'.toNat = 90 ∧ 'z'.toNat = 122 := ⟨rfl, rfl⟩
    by_cases hlo : r.lo.toNat < 65
    · have hcovers : r.lower.Covers 'z' :=
        hkeeps 'Z' (by decide) ⟨by omega, by omega⟩
      have hle : 'z'.toNat ≤ (lowerAscii r.hi).toNat := hcovers.2
      omega
    · have hcovers : r.lower.Covers '[' :=
        hkeeps '[' (by decide) ⟨by omega, by omega⟩
      have hle : (lowerAscii r.lo).toNat ≤ '['.toNat := hcovers.1
      rw [toNat_lowerAscii, if_pos (by omega)] at hle
      omega

theorem CharClass.survives_of_isUncut (h : ∀ r ∈ k.ranges, r.IsUncut) : k.SurvivesLowerCase := by
  rintro c hc ⟨r, hr, hcovers⟩
  exact ⟨r.lower, List.mem_map_of_mem hr, CharRange.isUncut_iff_covers.1 (h r hr) c hc hcovers⟩

end Ranges

/-! ### What items in lower case take -/

section Items

variable {k : CharClass} {i : GlobItem} {g g' : Glob} {c : Char} {n t u v : Text}

theorem GlobItem.takes_oneOf_iff (hplain : k.negated = false) :
    (GlobItem.oneOf k).Takes u ↔ ∃ c, u = [c] ∧ k.Lists c := by
  obtain ⟨negated, ranges⟩ := k
  obtain rfl := hplain
  rfl

theorem GlobItem.takes_lower (h : i.Takes u) (hu : IsAscii u)
    (hclass : ∀ k, i = .oneOf k → k.negated = false ∧ k.SurvivesLowerCase) :
    i.lower.Takes (u.map lowerAscii) := by
  cases i with
  | star =>
    refine List.forall_mem_map.2 fun c hc hslash => h c hc ?_
    exact lowerAscii_eq_slash_iff.1 hslash
  | one =>
    obtain ⟨c, rfl, hc⟩ := h
    exact ⟨lowerAscii c, rfl, mt lowerAscii_eq_slash_iff.1 hc⟩
  | literal a =>
    obtain rfl := h
    rfl
  | oneOf k =>
    obtain ⟨hplain, hsurvives⟩ := hclass k rfl
    obtain ⟨c, rfl, hc⟩ := (takes_oneOf_iff hplain).1 h
    have hplain' : k.lower.negated = false := hplain
    exact (takes_oneOf_iff hplain').2 ⟨lowerAscii c, rfl, hsurvives c (hu c (.head _)) hc⟩

theorem Glob.cuts_lower (h : Cuts g n) (hn : IsAscii n)
    (hclass : ∀ k, .oneOf k ∈ g → k.negated = false ∧ k.SurvivesLowerCase) :
    Cuts (g.map .lower) (n.map lowerAscii) := by
  induction h with
  | nil => exact .nil
  | @cons i g u v hu _ ih =>
    obtain ⟨hascii, hrest⟩ := List.forall_mem_append.1 hn
    have hitem : i.lower.Takes (u.map lowerAscii) :=
      GlobItem.takes_lower ((i.allows_iff_takes u).1 hu) hascii fun k hk => hclass k (hk ▸ .head g)
    rw [List.map_cons, List.map_append]
    exact .cons ((i.lower.allows_iff_takes _).2 hitem)
      (ih hrest fun k hk => hclass k (List.mem_cons_of_mem i hk))

/-- What a pattern matches has a character of each of its classes. -/
theorem Glob.exists_mem_of_cuts (h : Cuts g n) (hk : .oneOf k ∈ g) (hplain : k.negated = false) :
    ∃ c ∈ n, k.Lists c := by
  induction h with
  | nil => cases hk
  | @cons i g u v hu _ ih =>
    rcases List.mem_cons.1 hk with rfl | hk
    · obtain ⟨c, rfl, hc⟩ :=
        (GlobItem.takes_oneOf_iff hplain).1 ((GlobItem.allows_iff_takes _ u).1 hu)
      exact ⟨c, List.mem_append_left v (.head _), hc⟩
    · obtain ⟨c, hc, hlists⟩ := ih hk
      exact ⟨c, List.mem_append_right u hc, hlists⟩

/-! ### Shortest names -/

/-- How many characters a pattern takes at least: one for each item but the stars. -/
def Glob.width : Glob → Nat
  | [] => 0
  | .star :: g => width g
  | _ :: g => width g + 1

theorem Glob.width_cons (hi : i ≠ .star) : width (i :: g) = width g + 1 := by
  cases i with
  | star => exact absurd rfl hi
  | one | literal | oneOf => rfl

theorem Glob.width_lower (g : Glob) : width (g.map .lower) = width g := by
  induction g with
  | nil => rfl
  | cons i g ih =>
    cases i with
    | star => exact ih
    | one | literal | oneOf => exact congrArg (· + 1) ih

theorem GlobItem.exists_of_takes (h : i.Takes u) (hi : i ≠ .star) : ∃ c, u = [c] := by
  rw [← allows_iff_takes] at h
  cases i with
  | star => exact absurd rfl hi
  | one | literal | oneOf =>
    obtain ⟨c, hc, -⟩ := h
    exact ⟨c, hc⟩

theorem Glob.width_le_of_cuts (h : Cuts g n) : width g ≤ n.length := by
  induction h with
  | nil => exact Nat.le_refl 0
  | @cons i g u v hu _ ih =>
    rw [List.length_append]
    by_cases hi : i = .star
    · subst hi
      exact Nat.le_add_left_of_le ih
    · obtain ⟨c, rfl⟩ := GlobItem.exists_of_takes ((i.allows_iff_takes u).1 hu) hi
      rw [width_cons hi, List.length_singleton]
      omega

/-- In a name that is as short as can be, each item but the stars takes the character at its place.
-/
theorem Glob.takes_of_shortest (h : Cuts (g ++ i :: g') (u ++ c :: v)) (hi : i ≠ .star)
    (hu : u.length = width g) (hv : v.length = width g') : i.Takes [c] := by
  obtain ⟨u', w, hsplit, hcut, hrest⟩ := cuts_append_iff.1 h
  obtain ⟨p, v', rfl, hp, hcut'⟩ := cuts_cons_iff.1 hrest
  have htakes : i.Takes p := (i.allows_iff_takes p).1 hp
  obtain ⟨d, rfl⟩ := GlobItem.exists_of_takes htakes hi
  have hlength := congrArg List.length hsplit
  simp only [List.length_append, List.length_cons, List.length_nil] at hlength
  have hle := width_le_of_cuts hcut
  have hle' := width_le_of_cuts hcut'
  obtain ⟨-, htail⟩ := List.append_inj hsplit (by omega)
  obtain ⟨rfl, -⟩ := List.cons_eq_cons.1 htail
  exact htakes

/-- If each class has an ASCII character, some ASCII name is as short as can be. -/
theorem Glob.exists_shortest (hliteral : ∀ a, .literal a ∈ g → a.toNat < 128)
    (hclass : ∀ k, .oneOf k ∈ g → k.negated = false ∧ ∃ c, c.toNat < 128 ∧ k.Lists c) :
    ∃ n, IsAscii n ∧ n.length = width g ∧ Cuts g n := by
  induction g with
  | nil => exact ⟨[], List.forall_mem_nil _, rfl, .nil⟩
  | cons i g ih =>
    obtain ⟨v, hv, hlength, hcut⟩ := ih (fun a ha => hliteral a (List.mem_cons_of_mem i ha))
      fun k hk => hclass k (List.mem_cons_of_mem i hk)
    by_cases hi : i = .star
    · subst hi
      have hnothing : GlobItem.star.Allows [] := List.not_mem_nil
      exact ⟨v, hv, hlength, .cons hnothing hcut⟩
    · obtain ⟨c, hc, htakes⟩ : ∃ c : Char, c.toNat < 128 ∧ i.Takes [c] := by
        cases i with
        | star => exact absurd rfl hi
        | one => exact ⟨'a', by decide, 'a', rfl, by decide⟩
        | literal a => exact ⟨a, hliteral a (.head g), rfl⟩
        | oneOf k =>
          obtain ⟨hplain, c, hc, hlists⟩ := hclass k (.head g)
          exact ⟨c, hc, (GlobItem.takes_oneOf_iff hplain).2 ⟨c, rfl, hlists⟩⟩
      refine ⟨[c] ++ v, List.forall_mem_cons.2 ⟨hc, hv⟩, ?_,
        .cons ((i.allows_iff_takes _).2 htakes) hcut⟩
      rw [width_cons hi, ← hlength]
      rfl

/-- A class that loses a character loses a name. -/
theorem Glob.survives_of_cuts_lower (hliteral : ∀ a, .literal a ∈ g → a.toNat < 128)
    (hclass : ∀ k, .oneOf k ∈ g → k.negated = false ∧ ∃ c, c.toNat < 128 ∧ k.Lists c)
    (hkeeps : ∀ n, IsAscii n → Cuts g n → Cuts (g.map .lower) (n.map lowerAscii))
    (hk : .oneOf k ∈ g) : k.SurvivesLowerCase := by
  intro c hc hlists
  obtain ⟨before, after, rfl⟩ := List.append_of_mem hk
  have hplain : k.negated = false := (hclass k hk).1
  obtain ⟨u, hu, hulength, hucut⟩ := exists_shortest
    (fun a ha => hliteral a (List.mem_append_left _ ha))
    fun k hk => hclass k (List.mem_append_left _ hk)
  obtain ⟨v, hv, hvlength, hvcut⟩ := exists_shortest
    (fun a ha => hliteral a (List.mem_append_right before (List.mem_cons_of_mem _ ha)))
    fun k' hk' => hclass k' (List.mem_append_right before (List.mem_cons_of_mem _ hk'))
  have htakes : (GlobItem.oneOf k).Allows [c] :=
    (GlobItem.allows_iff_takes _ _).2 ((GlobItem.takes_oneOf_iff hplain).2 ⟨c, rfl, hlists⟩)
  have hcut : Cuts (before ++ .oneOf k :: after) (u ++ c :: v) :=
    cuts_append_iff.2 ⟨u, c :: v, rfl, hucut, .cons htakes hvcut⟩
  have hascii : IsAscii (u ++ c :: v) :=
    List.forall_mem_append.2 ⟨hu, List.forall_mem_cons.2 ⟨hc, hv⟩⟩
  have hlower := hkeeps _ hascii hcut
  rw [List.map_append, List.map_append, List.map_cons, List.map_cons] at hlower
  have htakes' : (GlobItem.oneOf k.lower).Takes [lowerAscii c] := by
    refine takes_of_shortest hlower (by simp) ?_ ?_
    · rw [List.length_map, width_lower, hulength]
    · rw [List.length_map, width_lower, hvlength]
  have hplain' : k.lower.negated = false := hplain
  obtain ⟨d, hd, hlists'⟩ := (GlobItem.takes_oneOf_iff hplain').1 htakes'
  rwa [List.singleton_inj.1 hd]

theorem Glob.cuts_lower_iff_survives (hliteral : ∀ a, .literal a ∈ g → a.toNat < 128)
    (hplain : ∀ k, .oneOf k ∈ g → k.negated = false) :
    (∀ n, IsAscii n → Cuts g n → Cuts (g.map .lower) (n.map lowerAscii)) ↔
      (∀ k, .oneOf k ∈ g → k.SurvivesLowerCase) ∨
        ∃ k, .oneOf k ∈ g ∧ ∀ c, c.toNat < 128 → ¬ k.Lists c := by
  constructor
  · intro hkeeps
    by_cases hempty : ∃ k, .oneOf k ∈ g ∧ ∀ c, c.toNat < 128 → ¬ k.Lists c
    · exact .inr hempty
    · have hfilled : ∀ k, .oneOf k ∈ g → ∃ c, c.toNat < 128 ∧ k.Lists c := by
        intro k hk
        by_contra hnone
        exact hempty ⟨k, hk, fun c hc hlists => hnone ⟨c, hc, hlists⟩⟩
      exact .inl fun k hk => survives_of_cuts_lower hliteral
        (fun k hk => ⟨hplain k hk, hfilled k hk⟩) hkeeps hk
  · rintro (hsurvive | ⟨k, hk, hnone⟩) n hn hcut
    · exact cuts_lower hcut hn fun k hk => ⟨hplain k hk, hsurvive k hk⟩
    · obtain ⟨c, hc, hlists⟩ := exists_mem_of_cuts hcut hk (hplain k hk)
      exact absurd hlists (hnone c (hn c hc))

theorem SpellsItem.mem_of_literal {a : Char} (h : SpellsItem t (.literal a)) : a ∈ t := by
  cases h with
  | escaped => exact List.mem_cons_of_mem _ (.head _)
  | plain => exact .head _

/-- What stands for itself in a pattern stands in its text. -/
theorem Spells.mem_of_literal {a : Char} (h : Spells t g) (ha : .literal a ∈ g) : a ∈ t := by
  induction h with
  | nil => cases ha
  | @cons t u i g hi _ ih =>
    rcases List.mem_cons.1 ha with rfl | ha
    · exact List.mem_append_left u hi.mem_of_literal
    · exact List.mem_append_right t (ih ha)

end Items

/-! ### Base names -/

/-- Without regard to case an ASCII pattern without negated classes matches every ASCII name that it
matches, if none of its ranges is cut. This is so if and only if each of its classes keeps in lower
case what it takes, or one of them takes no ASCII character, so that there is no such name. -/
theorem nameHolds_anyCase_of_exact {pattern : Text} {items : Glob} (h : Spells pattern items)
    (hpattern : IsAscii pattern) (hplain : ∀ k, .oneOf k ∈ items → k.negated = false) :
    ∃ q q', compile ["-name".toList, pattern] = .ok q ∧
      compile ["-iname".toList, pattern] = .ok q' ∧
      ((∀ k, .oneOf k ∈ items → ∀ r ∈ k.ranges, r.IsUncut) → ∀ name, IsAscii name →
        q.nameHolds name = .ok true → q'.nameHolds name = .ok true) ∧
      ((∀ name, IsAscii name → q.nameHolds name = .ok true → q'.nameHolds name = .ok true) ↔
        (∀ k, .oneOf k ∈ items → k.SurvivesLowerCase) ∨
          ∃ k, .oneOf k ∈ items ∧ ∀ c, c.toNat < 128 → ¬ k.Lists c) := by
  have hliteral : ∀ a, .literal a ∈ items → a.toNat < 128 :=
    fun a ha => hpattern a (h.mem_of_literal ha)
  have hiff : (∀ name, IsAscii name → (Query.naming pattern false).nameHolds name = .ok true →
      (Query.naming pattern true).nameHolds name = .ok true) ↔
        (∀ k, .oneOf k ∈ items → k.SurvivesLowerCase) ∨
          ∃ k, .oneOf k ∈ items ∧ ∀ c, c.toNat < 128 → ¬ k.Lists c := by
    rw [← Glob.cuts_lower_iff_survives hliteral hplain]
    refine forall₂_congr fun name hname => ?_
    rw [nameHolds_exact h, nameHolds_anyCase h hpattern hname, Except.ok.injEq, Except.ok.injEq,
      Glob.accepts_iff_cuts, Glob.accepts_iff_cuts]
  refine ⟨_, _, compile_name pattern, compile_nameAnyCase pattern, fun huncut => ?_, hiff⟩
  exact hiff.2 (.inl fun k hk => CharClass.survives_of_isUncut (huncut k hk))

/-- Digits and capitals up to `F`, and then the range of all visible characters of ASCII. -/
theorem nameHolds_anyCase_of_exact_uncut :
    let pattern : Text := ['[', '0', '-', '9', 'A', '-', 'F', ']', '[', '!', '-', '~', ']']
    let items : Glob := [.oneOf ⟨false, [⟨'0', '9'⟩, ⟨'A', 'F'⟩]⟩, .oneOf ⟨false, [⟨'!', '~'⟩]⟩]
    Spells pattern items ∧ IsAscii pattern ∧ (∀ k, .oneOf k ∈ items → k.negated = false) ∧
      (∀ k, .oneOf k ∈ items → ∀ r ∈ k.ranges, r.IsUncut) ∧ IsAscii ['E', '_'] ∧
      ∃ q q', compile ["-name".toList, pattern] = .ok q ∧
        compile ["-iname".toList, pattern] = .ok q' ∧ q.nameHolds ['E', '_'] = .ok true ∧
        q'.nameHolds ['E', '_'] = .ok true := by
  intro pattern items
  have hspells : Spells pattern items := Glob.ofText?_eq_some_iff.1 rfl
  have hpattern : IsAscii pattern := by simp [pattern, IsAscii]
  have hplain : ∀ k, .oneOf k ∈ items → k.negated = false := by simp [items]
  have huncut : ∀ k, .oneOf k ∈ items → ∀ r ∈ k.ranges, r.IsUncut := by
    simp [items, CharRange.isUncut_iff]
  have hname : IsAscii ['E', '_'] := by simp [IsAscii]
  obtain ⟨q, q', hq, hq', hkeeps, -⟩ := nameHolds_anyCase_of_exact hspells hpattern hplain
  have hexact : q.nameHolds ['E', '_'] = .ok true := by
    rw [Except.ok.inj (hq.symm.trans (compile_name pattern))]
    rfl
  exact ⟨hspells, hpattern, hplain, huncut, hname, q, q', hq, hq', hexact,
    hkeeps huncut _ hname hexact⟩

/-- In lower case the range from `Z` to `a` is reversed, and what lies between the capitals and the
small letters is no longer matched. -/
theorem range_from_capital_to_small_cut :
    let pattern : Text := ['[', 'Z', '-', 'a', ']']
    Spells pattern [.oneOf ⟨false, [⟨'Z', 'a'⟩]⟩] ∧ IsAscii pattern ∧ IsAscii ['_'] ∧
      ∃ q q', compile ["-name".toList, pattern] = .ok q ∧
        compile ["-iname".toList, pattern] = .ok q' ∧ q.nameHolds ['_'] = .ok true ∧
        q'.nameHolds ['_'] = .ok false := by
  intro pattern
  exact ⟨Glob.ofText?_eq_some_iff.1 rfl, by simp [pattern, IsAscii], by simp [IsAscii],
    _, _, compile_name pattern, compile_nameAnyCase pattern, rfl, rfl⟩

end FileSearch
