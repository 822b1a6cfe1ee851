import FileSearch.Proofs.Glob.LowerCase
import FileSearch.Proofs.Glob.Matching
import FileSearch.Query.Compile

/-!
Patterns without regard to case. The text of the pattern is taken in lower case before it is read,
and so is the name. On ASCII text this changes no character that has a meaning in patterns, so that
the items are those of the pattern with their characters in lower case. Where the classes list
single characters, these items take a piece in lower case exactly if the items of the pattern take
it with all letters compared up to case.
Main statement: a pattern without ranges matches a name without regard to case if and only if the
name can be cut into pieces that its items take up to case, whatever the case of the letters in the
pattern and the name is.
-/

namespace FileSearch

/-! ### Letters -/

def IsAscii (t : Text) : Prop := ∀ c ∈ t, c.toNat < 128

/-- The first is a capital of ASCII and the second its small letter. -/
def IsCapitalOf (c d : Char) : Prop := ('A' ≤ c ∧ c ≤ 'Z') ∧ d.toNat = c.toNat + 32

/-- The characters are equal up to the case of a letter of ASCII. -/
def SameLetter (c d : Char) : Prop := c = d ∨ IsCapitalOf c d ∨ IsCapitalOf d c

section Letters

variable {c d : Char} {s t : Text}

theorem isCapital_iff : 'A' ≤ c ∧ c ≤ 'Z' ↔ 65 ≤ c.toNat ∧ c.toNat ≤ 90 := by
  simp [Char.le_def, UInt32.le_iff_toNat_le]

theorem toNat_lowerAscii (c : Char) :
    (lowerAscii c).toNat =
      if 65 ≤ c.toNat ∧ c.toNat ≤ 90 then c.toNat + 32 else c.toNat := by
  simp only [lowerAscii, Bool.and_eq_true, decide_eq_true_eq, isCapital_iff]
  split
  · rename_i h
    have hvalid : (c.toNat + 32).isValidChar := .inl (by omega)
    rw [Char.ofNat, dif_pos hvalid]
    rfl
  · rfl

theorem sameLetter_iff : SameLetter c d ↔ lowerAscii c = lowerAscii d := by
  rw [← Char.toNat_inj, toNat_lowerAscii, toNat_lowerAscii, SameLetter, IsCapitalOf, IsCapitalOf,
    isCapital_iff, isCapital_iff, ← Char.toNat_inj]
  split <;> split <;> omega

theorem lowerAscii_eq_slash_iff : lowerAscii c = '/' ↔ c = '/' := by
  rw [← Char.toNat_inj, ← Char.toNat_inj, toNat_lowerAscii]
  have hslash : '/'.toNat = 47 := rfl
  split <;> omega

/-- No character with a meaning in patterns is a letter. -/
theorem sameRole_lowerAscii (c : Char) : SameRole c (lowerAscii c) := by
  have hmarks : ∀ m ∈ globMarks, m.toNat < 65 ∨ 90 < m.toNat ∧ m.toNat < 97 := by
    simp [globMarks]
  by_cases hc : 65 ≤ c.toNat ∧ c.toNat ≤ 90
  · refine .inr ⟨fun hmem => ?_, fun hmem => ?_⟩
    · have := hmarks c hmem
      omega
    · have hlow := hmarks _ hmem
      rw [toNat_lowerAscii, if_pos hc] at hlow
      omega
  · refine .inl (Char.toNat_inj.1 ?_)
    rw [toNat_lowerAscii, if_neg hc]

theorem map_lowerAscii_eq_iff :
    s.map lowerAscii = t.map lowerAscii ↔ List.Forall₂ SameLetter s t := by
  have hletters : SameLetter = fun c d => lowerAscii c = lowerAscii d := by
    funext c d
    exact propext sameLetter_iff
  rw [← List.forall₂_eq_eq_eq, List.forall₂_map_left_iff, List.forall₂_map_right_iff, hletters]

theorem IsAscii.of_sameLetter (h : IsAscii s) (hst : List.Forall₂ SameLetter s t) : IsAscii t := by
  induction hst with
  | nil => exact h
  | cons hc _ ih =>
    rename_i c d s t
    obtain ⟨hascii, hs⟩ := List.forall_mem_cons.1 h
    refine List.forall_mem_cons.2 ⟨?_, ih hs⟩
    have heq := congrArg Char.toNat (sameLetter_iff.1 hc)
    rw [toNat_lowerAscii, toNat_lowerAscii] at heq
    split at heq <;> split at heq <;> omega

end Letters

/-! ### Items in lower case -/

def CharRange.lower (r : CharRange) : CharRange := ⟨lowerAscii r.lo, lowerAscii r.hi⟩

def CharClass.lower (k : CharClass) : CharClass := ⟨k.negated, k.ranges.map .lower⟩

def GlobItem.lower : GlobItem → GlobItem
  | star => star
  | one => one
  | literal c => literal (lowerAscii c)
  | oneOf k => oneOf k.lower

section Items

variable {i i' : GlobItem} {g : Glob} {t : Text}

theorem GlobItem.Related.eq_lower (h : i.Related (fun c d => d = lowerAscii c) i') :
    i' = i.lower := by
  cases h with
  | star | one => rfl
  | literal h => rw [h, lower]
  | @oneOf negated rs rs' h =>
    have hranges : rs' = rs.map .lower := by
      rw [← List.forall₂_eq_eq_eq, List.forall₂_map_right_iff]
      exact h.flip.imp fun r' r hr => by rw [CharRange.lower, ← hr.lo, ← hr.hi]
    rw [hranges]
    rfl

/-- The lower case of a pattern spells its items in lower case. -/
theorem Spells.lower (h : Spells t g) : Spells (t.map lowerAscii) (g.map .lower) := by
  have hchars : List.Forall₂ (fun c d => d = lowerAscii c) t (t.map lowerAscii) := by
    rw [List.forall₂_map_right_iff, List.forall₂_same]
    exact fun _ _ => rfl
  have hrole : ∀ c d, d = lowerAscii c → SameRole c d := by
    rintro c d rfl
    exact sameRole_lowerAscii c
  obtain ⟨g', hg', hrel⟩ := h.related hrole hchars
  have hitems : g' = g.map .lower := by
    rw [← List.forall₂_eq_eq_eq, List.forall₂_map_right_iff]
    exact hrel.flip.imp fun _ _ => GlobItem.Related.eq_lower
  rwa [hitems] at hg'

end Items

/-! ### What items take up to case -/

/-- The character is equal up to case to one that lies between the ends. -/
def CharRange.CoversAnyCase (r : CharRange) (c : Char) : Prop := ∃ d, r.Covers d ∧ SameLetter c d

/-- The pieces an item takes with letters compared up to case. -/
def GlobItem.TakesAnyCase : GlobItem → Text → Prop
  | star, u => ∀ c ∈ u, c ≠ '/'
  | one, u => ∃ c, u = [c] ∧ c ≠ '/'
  | literal a, u => ∃ c, u = [c] ∧ SameLetter c a
  | oneOf ⟨false, ranges⟩, u => ∃ c, u = [c] ∧ ∃ r ∈ ranges, r.CoversAnyCase c
  | oneOf ⟨true, ranges⟩, u => ∃ c, u = [c] ∧ ∀ r ∈ ranges, ¬ r.CoversAnyCase c

/-- The class lists characters one by one. -/
def CharClass.IsEnumerated (k : CharClass) : Prop := ∀ r ∈ k.ranges, r.lo = r.hi

section Pieces

variable {r : CharRange} {i : GlobItem} {g : Glob} {c : Char} {n u : Text}

theorem CharRange.covers_iff_of_single (h : r.lo = r.hi) : r.Covers c ↔ c = r.lo := by
  rw [Covers, ← h, ← Char.toNat_inj]
  omega

theorem CharRange.covers_lower_iff (h : r.lo = r.hi) :
    r.lower.Covers (lowerAscii c) ↔ r.CoversAnyCase c := by
  have hlower : r.lower.lo = r.lower.hi := congrArg lowerAscii h
  rw [covers_iff_of_single hlower]
  constructor
  · intro hc
    exact ⟨r.lo, (covers_iff_of_single h).2 rfl, sameLetter_iff.2 hc⟩
  · rintro ⟨d, hd, hcd⟩
    obtain rfl := (covers_iff_of_single h).1 hd
    exact sameLetter_iff.1 hcd

theorem exists_singleton_map_iff {f : Char → Char} {p : Char → Prop} :
    (∃ c, u.map f = [c] ∧ p c) ↔ ∃ c, u = [c] ∧ p (f c) := by
  constructor
  · rintro ⟨c, hc, hp⟩
    obtain ⟨d, rfl, rfl⟩ := List.map_eq_singleton_iff.1 hc
    exact ⟨d, rfl, hp⟩
  · rintro ⟨c, rfl, hp⟩
    exact ⟨f c, rfl, hp⟩

/-- An item in lower case takes the lower case of what the item takes up to case. -/
theorem GlobItem.takes_lower_iff (hlist : ∀ k, i = .oneOf k → k.IsEnumerated) :
    i.lower.Takes (u.map lowerAscii) ↔ i.TakesAnyCase u := by
  cases i with
  | star =>
    simp only [lower, Takes, TakesAnyCase, List.forall_mem_map, ne_eq, lowerAscii_eq_slash_iff]
  | one =>
    simp only [lower, Takes, TakesAnyCase, exists_singleton_map_iff, ne_eq,
      lowerAscii_eq_slash_iff]
  | literal a =>
    simp only [lower, Takes, TakesAnyCase, List.map_eq_singleton_iff, sameLetter_iff]
  | oneOf k =>
    obtain ⟨negated, ranges⟩ := k
    have hcovers (c : Char) : ∀ r ∈ ranges, r.lower.Covers (lowerAscii c) ↔ r.CoversAnyCase c :=
      fun r hr => CharRange.covers_lower_iff (hlist _ rfl r hr)
    cases negated with
    | false =>
      simp only [lower, CharClass.lower, Takes, TakesAnyCase, exists_singleton_map_iff,
        List.mem_map, exists_exists_and_eq_and]
      exact exists_congr fun c => and_congr_right fun _ =>
        exists_congr fun r => and_congr_right (hcovers c r)
    | true =>
      simp only [lower, CharClass.lower, Takes, TakesAnyCase, exists_singleton_map_iff,
        List.forall_mem_map]
      exact exists_congr fun c => and_congr_right fun _ =>
        forall₂_congr fun r hr => not_congr (hcovers c r hr)

/-- What a changed text is cut into is what the text is cut into, changed. -/
theorem exists_pieces_of_map {f : Char → Char} {pieces : List Text}
    (h : pieces.flatten = n.map f) :
    ∃ parts : List Text, parts.flatten = n ∧ pieces = parts.map (List.map f) := by
  induction pieces generalizing n with
  | nil =>
    obtain rfl := List.map_eq_nil_iff.1 h.symm
    exact ⟨[], rfl, rfl⟩
  | cons u pieces ih =>
    rw [List.flatten_cons] at h
    obtain ⟨u', n', rfl, rfl, hrest⟩ := List.map_eq_append_iff.1 h.symm
    obtain ⟨parts, rfl, rfl⟩ := ih hrest.symm
    exact ⟨u' :: parts, rfl, rfl⟩

theorem Glob.cuts_lower_iff (hlist : ∀ k, .oneOf k ∈ g → k.IsEnumerated) :
    Cuts (g.map .lower) (n.map lowerAscii) ↔
      ∃ pieces : List Text, pieces.flatten = n ∧ List.Forall₂ GlobItem.TakesAnyCase g pieces := by
  have htakes (pieces : List Text) :
      List.Forall₂ GlobItem.Takes (g.map .lower) (pieces.map (List.map lowerAscii)) ↔
        List.Forall₂ GlobItem.TakesAnyCase g pieces := by
    rw [List.forall₂_map_left_iff, List.forall₂_map_right_iff]
    induction g generalizing pieces with
    | nil => rw [List.forall₂_nil_left_iff, List.forall₂_nil_left_iff]
    | cons i g ih =>
      have hitem (u : Text) : i.lower.Takes (u.map lowerAscii) ↔ i.TakesAnyCase u :=
        GlobItem.takes_lower_iff fun k hk => hlist k (hk ▸ List.mem_cons_self)
      have hrest := ih fun k hk => hlist k (List.mem_cons_of_mem i hk)
      simp only [List.forall₂_cons_left_iff, hitem, hrest]
  rw [cuts_iff_exists_pieces]
  constructor
  · rintro ⟨pieces, hflat, hpieces⟩
    obtain ⟨parts, rfl, rfl⟩ := exists_pieces_of_map hflat
    exact ⟨parts, rfl, (htakes parts).1 hpieces⟩
  · rintro ⟨parts, rfl, hparts⟩
    exact ⟨parts.map (List.map lowerAscii), List.map_flatten.symm, (htakes parts).2 hparts⟩

end Pieces

/-! ### Base names -/

/-- The query for the base names that match the pattern. -/
def Query.naming (pattern : Text) (anyCase : Bool) : Query :=
  { namePattern := some pattern, ignoreCase := anyCase }

theorem compile_name (pattern : Text) :
    compile [Operator.name.spelling, pattern] = .ok (.naming pattern false) := rfl

theorem compile_nameAnyCase (pattern : Text) :
    compile [Operator.nameAnyCase.spelling, pattern] = .ok (.naming pattern true) := rfl

/-- The query looks at nothing but the base name. -/
theorem Query.holds_naming (pattern : Text) (anyCase : Bool) (e : Entry) (probe : Probe)
    (now : Float) (depth : Int) :
    (Query.naming pattern anyCase).holds e probe now depth =
      (Query.naming pattern anyCase).nameHolds e.name := by
  have hshape : (Query.naming pattern anyCase).shapeHolds depth e.kind = true := rfl
  have hpath : (Query.naming pattern anyCase).pathHolds e.display = .ok true := rfl
  have hempty : (Query.naming pattern anyCase).emptyHolds e.kind probe = .ok true := rfl
  have hstatus : (Query.naming pattern anyCase).statusHolds now probe = .ok true := rfl
  rw [holds, hshape, hpath, hempty, hstatus]
  rcases (Query.naming pattern anyCase).nameHolds e.name with f | b
  · rfl
  · cases b <;> rfl

section Names

variable {pattern name : Text} {items : Glob}

theorem nameHolds_exact (h : Spells pattern items) (name : Text) :
    (Query.naming pattern false).nameHolds name = .ok (items.accepts name) :=
  globHolds_of_spells h name

theorem nameHolds_anyCase (h : Spells pattern items) (hpattern : IsAscii pattern)
    (hname : IsAscii name) :
    (Query.naming pattern true).nameHolds name =
      .ok (Glob.accepts (items.map .lower) (name.map lowerAscii)) := by
  have hlower : (Query.naming pattern true).nameHolds name =
      globHolds (lowerCase pattern) (lowerCase name) := rfl
  rw [hlower, lowerCase_of_ascii hpattern, lowerCase_of_ascii hname,
    globHolds_of_spells h.lower]

/-- The case of letters makes no difference, neither in the pattern nor in the name. -/
theorem nameHolds_anyCase_congr {pattern' name' : Text} (hpattern : IsAscii pattern)
    (hname : IsAscii name) (hpattern' : List.Forall₂ SameLetter pattern pattern')
    (hname' : List.Forall₂ SameLetter name name') :
    (Query.naming pattern' true).nameHolds name' = (Query.naming pattern true).nameHolds name := by
  have hlower (p n : Text) : (Query.naming p true).nameHolds n =
      globHolds (lowerCase p) (lowerCase n) := rfl
  rw [hlower, hlower, lowerCase_of_ascii hpattern, lowerCase_of_ascii hname,
    lowerCase_of_ascii (hpattern.of_sameLetter hpattern'),
    lowerCase_of_ascii (hname.of_sameLetter hname'), map_lowerAscii_eq_iff.2 hpattern',
    map_lowerAscii_eq_iff.2 hname']

/-- An ASCII pattern whose classes list single characters is never refused without regard to case,
and it matches an ASCII name exactly if the name can be cut into pieces that its items take up to
case. A change of case in the pattern or the name changes nothing. -/
theorem nameHolds_anyCase_iff_pieces (h : Spells pattern items) (hpattern : IsAscii pattern)
    (hlist : ∀ k, .oneOf k ∈ items → k.IsEnumerated) (hname : IsAscii name) :
    ∃ q b, compile ["-iname".toList, pattern] = .ok q ∧ q.nameHolds name = .ok b ∧
      (b = true ↔ ∃ pieces : List Text,
        pieces.flatten = name ∧ List.Forall₂ GlobItem.TakesAnyCase items pieces) ∧
      (∀ e probe now depth, e.name = name → q.holds e probe now depth = .ok b) ∧
      ∀ pattern' name', List.Forall₂ SameLetter pattern pattern' →
        List.Forall₂ SameLetter name name' →
          ∃ q', compile ["-iname".toList, pattern'] = .ok q' ∧ q'.nameHolds name' = .ok b := by
  have hholds := nameHolds_anyCase h hpattern hname
  refine ⟨.naming pattern true, _, compile_nameAnyCase pattern, hholds, ?_, ?_, ?_⟩
  · rw [Glob.accepts_iff_cuts, Glob.cuts_lower_iff hlist]
  · rintro e probe now depth rfl
    rw [Query.holds_naming, hholds]
  · intro pattern' name' hpattern' hname'
    refine ⟨.naming pattern' true, compile_nameAnyCase pattern', ?_⟩
    rw [nameHolds_anyCase_congr hpattern hname hpattern' hname', hholds]

/-- A negated class of two letters, an escaped capital and a star. -/
theorem nameHolds_anyCase_iff_pieces_letters :
    let pattern : Text := ['[', '^', 'a', 'B', ']', '\\', 'Q', '*']
    let items : Glob := [.oneOf ⟨true, [⟨'a', 'a'⟩, ⟨'B', 'B'⟩]⟩, .literal 'Q', .star]
    Spells pattern items ∧ IsAscii pattern ∧ (∀ k, .oneOf k ∈ items → k.IsEnumerated) ∧
      IsAscii ['C', 'q', '.'] ∧ List.Forall₂ SameLetter ['C', 'q', '.'] ['c', 'Q', '.'] ∧
      ∃ q, compile ["-iname".toList, pattern] = .ok q ∧ q.nameHolds ['C', 'q', '.'] = .ok true ∧
        (∃ pieces : List Text,
          pieces.flatten = ['C', 'q', '.'] ∧ List.Forall₂ GlobItem.TakesAnyCase items pieces) ∧
        q.nameHolds ['c', 'Q', '.'] = .ok true := by
  intro pattern items
  have hspells : Spells pattern items := Glob.ofText?_eq_some_iff.1 rfl
  have hpattern : IsAscii pattern := by simp [pattern, IsAscii]
  have hlist : ∀ k, .oneOf k ∈ items → k.IsEnumerated := by
    simp [items, CharClass.IsEnumerated]
  have hname : IsAscii ['C', 'q', '.'] := by simp [IsAscii]
  have hletters : List.Forall₂ SameLetter ['C', 'q', '.'] ['c', 'Q', '.'] :=
    map_lowerAscii_eq_iff.1 rfl
  have hsame : List.Forall₂ SameLetter pattern pattern := map_lowerAscii_eq_iff.1 rfl
  obtain ⟨q, b, hq, hb, hiff, -, hcase⟩ :=
    nameHolds_anyCase_iff_pieces hspells hpattern hlist hname
  obtain ⟨q', hq', hb'⟩ := hcase pattern _ hsame hletters
  obtain rfl := Except.ok.inj (hq.symm.trans hq')
  have htrue : q.nameHolds ['C', 'q', '.'] = .ok true := by
    rw [Except.ok.inj (hq.symm.trans (compile_nameAnyCase pattern))]
    rfl
  obtain rfl := Except.ok.inj (hb.symm.trans htrue)
  exact ⟨hspells, hpattern, hlist, hname, hletters, q, hq, hb, hiff.1 rfl, hb'⟩

end Names

end FileSearch
