import FileSearch.Glob.Parse

/-!
How a pattern is spelled. Every item has its own spelling, a pattern is spelled by its items one
after the other, and a class by a sequence of ranges between brackets that is not empty. A `^` right
after the bracket is always the mark of negation.
Main statement: a text has items exactly if it spells them, so reading refuses a text only if it
spells no sequence of items, and no text spells two.
-/

namespace FileSearch

/-- An end of a range: any character after a backslash, or one that has no meaning in a class. -/
inductive SpellsMember : Text → Char → Prop where
  | escaped (c : Char) : SpellsMember ['\\', c] c
  | plain {c : Char} : c ≠ '\\' → c ≠ '-' → c ≠ ']' → SpellsMember [c] c

/-- A range is one member, or two with a dash between them. -/
inductive SpellsRange : Text → CharRange → Prop where
  | single {t : Text} {c : Char} : SpellsMember t c → SpellsRange t ⟨c, c⟩
  | span {t u : Text} {lo hi : Char} : SpellsMember t lo → SpellsMember u hi →
      SpellsRange (t ++ '-' :: u) ⟨lo, hi⟩

inductive SpellsRanges : Text → List CharRange → Prop where
  | nil : SpellsRanges [] []
  | cons {t u : Text} {r : CharRange} {rs : List CharRange} : SpellsRange t r →
      SpellsRanges u rs → SpellsRanges (t ++ u) (r :: rs)

inductive SpellsItem : Text → GlobItem → Prop where
  | star : SpellsItem ['*'] .star
  | one : SpellsItem ['?'] .one
  | escaped (c : Char) : SpellsItem ['\\', c] (.literal c)
  | plain {c : Char} : c ∉ ['*', '?', '[', '\\'] → SpellsItem [c] (.literal c)
  | oneOf {t : Text} {rs : List CharRange} : SpellsRanges t rs → rs ≠ [] → t.head? ≠ some '^' →
      SpellsItem ('[' :: t ++ [']']) (.oneOf ⟨false, rs⟩)
  | noneOf {t : Text} {rs : List CharRange} : SpellsRanges t rs → rs ≠ [] →
      SpellsItem ('[' :: '^' :: t ++ [']']) (.oneOf ⟨true, rs⟩)

/-- The text is the items of the pattern, spelled one after the other. -/
inductive Spells : Text → Glob → Prop where
  | nil : Spells [] []
  | cons {t u : Text} {i : GlobItem} {g : Glob} : SpellsItem t i → Spells u g →
      Spells (t ++ u) (i :: g)

/-- The text spells a sequence of items. -/
def IsPattern (t : Text) : Prop := ∃ g, Spells t g

/-! ### Tokens -/

namespace GlobToken

def spelling : GlobToken → Text
  | plain c => [c]
  | escaped c => ['\\', c]

/-- The text that tokens come from. -/
def spell (ts : List GlobToken) : Text := ts.flatMap spelling

@[simp] theorem spell_nil : spell [] = [] := rfl

@[simp] theorem spell_cons (t : GlobToken) (ts : List GlobToken) :
    spell (t :: ts) = t.spelling ++ spell ts := rfl

@[simp] theorem spell_append (ts us : List GlobToken) :
    spell (ts ++ us) = spell ts ++ spell us := List.flatMap_append

/-- Tokens that spell the beginning of a text are its first tokens. -/
theorem ofText?_spell_append {ts : List GlobToken} (hb : plain '\\' ∉ ts) (u : Text) :
    ofText? (spell ts ++ u) = (ofText? u).map (ts ++ ·) := by
  induction ts with
  | nil => simp
  | cons t ts ih =>
    obtain ⟨ht, hts⟩ := not_or.1 (mt List.mem_cons.2 hb)
    cases t with
    | escaped c =>
      rw [spell_cons, spelling, List.append_assoc, List.cons_append, List.singleton_append,
        ofText?, ih hts, Option.map_map]
      rfl
    | plain c =>
      have hc : c ≠ '\\' := fun h => ht (by rw [h])
      rw [spell_cons, spelling, List.append_assoc, List.singleton_append,
        ofText?.eq_4 _ _ (by simp [hc]) (by simp [hc]), ih hts, Option.map_map]
      rfl

/-- The tokens of a text spell it, and a backslash is never a token of its own. -/
theorem ofText?_eq_some_iff {t : Text} {ts : List GlobToken} :
    ofText? t = some ts ↔ t = spell ts ∧ plain '\\' ∉ ts := by
  constructor
  · intro h
    induction t using ofText?.induct generalizing ts with
    | case1 => cases h; simp
    | case2 => cases h
    | case3 c r ih =>
      obtain ⟨us, hu, rfl⟩ := Option.map_eq_some_iff.1 h
      obtain ⟨rfl, hb⟩ := ih hu
      exact ⟨rfl, by simpa using hb⟩
    | case4 c r hlast hesc ih =>
      rw [ofText?.eq_4 c r hlast hesc] at h
      obtain ⟨us, hu, rfl⟩ := Option.map_eq_some_iff.1 h
      obtain ⟨rfl, hb⟩ := ih hu
      refine ⟨rfl, ?_⟩
      have hc : c ≠ '\\' := by
        rintro rfl
        cases hr : spell us with
        | nil => exact hlast rfl hr
        | cons d r => exact hesc d r rfl hr
      simpa [Ne.symm hc] using hb
  · rintro ⟨rfl, hb⟩
    simpa [ofText?] using ofText?_spell_append hb []

theorem member?_eq_some_iff {t : GlobToken} {c : Char} (hb : t ≠ plain '\\') :
    t.member? = some c ↔ SpellsMember t.spelling c := by
  cases t with
  | escaped d =>
    constructor
    · rintro ⟨⟩
      exact .escaped c
    · rintro ⟨⟩
      rfl
  | plain d =>
    have hd : d ≠ '\\' := fun h => hb (by rw [h])
    constructor
    · intro h
      simp only [member?] at h
      split at h
      · cases h
      · rename_i hn
        cases h
        rw [not_or] at hn
        exact .plain hd hn.1 hn.2
    · rintro (_ | ⟨-, h1, h2⟩)
      simp [member?, h1, h2]

/-- What spells a member is one token. -/
theorem exists_of_spellsMember {t : Text} {c : Char} (h : SpellsMember t c) :
    ∃ k : GlobToken, t = k.spelling ∧ k.member? = some c ∧ k ≠ plain '\\' ∧ k ≠ plain '-' ∧
      k ≠ plain ']' := by
  cases h with
  | escaped => exact ⟨escaped c, rfl, rfl, by simp, by simp, by simp⟩
  | plain h1 h2 h3 => exact ⟨plain c, rfl, by simp [member?, h2, h3], by simp [h1, h2, h3]⟩

end GlobToken

/-! ### What is spelled is read -/

namespace Glob

open GlobToken

theorem ofTokens?_close {before : List CharRange} (negated : Bool) (rest : List GlobToken)
    (hne : before ≠ []) :
    ofTokens? (.inClass negated before) (.plain ']' :: rest) =
      (ofTokens? .between rest).map (.oneOf ⟨negated, before⟩ :: ·) := by
  rw [ofTokens?.eq_9, if_pos ⟨rfl, hne⟩]

theorem ofTokens?_single {k : GlobToken} {c : Char} {rest : List GlobToken} (negated : Bool)
    (before : List CharRange) (hk : k.member? = some c) (hrest : rest.head? ≠ some (.plain '-')) :
    ofTokens? (.inClass negated before) (k :: rest) =
      ofTokens? (.inClass negated (before ++ [⟨c, c⟩])) rest := by
  have hclose : ¬ (k = .plain ']' ∧ before ≠ []) := by
    rintro ⟨rfl, -⟩
    simp [member?] at hk
  rw [ofTokens?.eq_9, if_neg hclose, hk]
  simp only
  split
  · simp at hrest
  · simp at hrest
  · rfl

theorem ofTokens?_span {k l : GlobToken} {lo hi : Char} (negated : Bool) (before : List CharRange)
    (rest : List GlobToken) (hk : k.member? = some lo) (hl : l.member? = some hi) :
    ofTokens? (.inClass negated before) (k :: .plain '-' :: l :: rest) =
      ofTokens? (.inClass negated (before ++ [⟨lo, hi⟩])) rest := by
  have hclose : ¬ (k = .plain ']' ∧ before ≠ []) := by
    rintro ⟨rfl, -⟩
    simp [member?] at hk
  rw [ofTokens?.eq_9, if_neg hclose, hk]
  simp only [hl]

/-- The ranges of a class are read up to its end, after those that were read before. -/
theorem exists_of_spellsRanges {t : Text} {rs : List CharRange} (h : SpellsRanges t rs) :
    ∃ ts, t = spell ts ∧ .plain '\\' ∉ ts ∧ ts.head? ≠ some (.plain '-') ∧
      ∀ negated before rest, before ++ rs ≠ [] →
        ofTokens? (.inClass negated before) (ts ++ .plain ']' :: rest) =
          (ofTokens? .between rest).map (.oneOf ⟨negated, before ++ rs⟩ :: ·) := by
  induction h with
  | nil =>
    refine ⟨[], rfl, by simp, by simp, fun negated before rest hne => ?_⟩
    rw [List.append_nil] at hne ⊢
    exact ofTokens?_close negated rest hne
  | cons hr _ ih =>
    obtain ⟨us, rfl, hb, hdash, hus⟩ := ih
    cases hr with
    | single hc =>
      obtain ⟨k, rfl, hk, h1, h2, -⟩ := exists_of_spellsMember hc
      refine ⟨k :: us, rfl, by simp [Ne.symm h1, hb], by simpa using h2, ?_⟩
      intro negated before rest _
      rw [List.cons_append, ofTokens?_single negated before hk (by cases us <;> simp_all),
        hus _ _ _ (by simp), List.append_assoc, List.singleton_append]
    | span hlo hhi =>
      obtain ⟨k, rfl, hk, h1, h2, -⟩ := exists_of_spellsMember hlo
      obtain ⟨l, rfl, hl, h3, -, -⟩ := exists_of_spellsMember hhi
      refine ⟨k :: .plain '-' :: l :: us, by simp [spelling], ?_, by simpa using h2, ?_⟩
      · simp [Ne.symm h1, Ne.symm h3, hb]
      · intro negated before rest _
        rw [List.cons_append, List.cons_append, List.cons_append,
          ofTokens?_span negated before _ hk hl, hus _ _ _ (by simp), List.append_assoc,
          List.singleton_append]

/-- An item that is spelled is read, and reading goes on after it. -/
theorem exists_of_spellsItem {t : Text} {i : GlobItem} (h : SpellsItem t i) :
    ∃ ts, t = spell ts ∧ .plain '\\' ∉ ts ∧
      ∀ rest, ofTokens? .between (ts ++ rest) = (ofTokens? .between rest).map (i :: ·) := by
  cases h with
  | star => exact ⟨[.plain '*'], rfl, by simp, fun rest => rfl⟩
  | one => exact ⟨[.plain '?'], rfl, by simp, fun rest => rfl⟩
  | escaped c => exact ⟨[.escaped c], rfl, by simp, fun rest => rfl⟩
  | @plain c hc =>
    simp only [List.mem_cons, List.not_mem_nil, or_false, not_or] at hc
    obtain ⟨hstar, hone, hopen, hescape⟩ := hc
    exact ⟨[.plain c], rfl, by simp [Ne.symm hescape], fun rest =>
      ofTokens?.eq_6 rest c hopen hstar hone (by simp [hopen])⟩
  | @oneOf t rs hrs hne hneg =>
    obtain ⟨ts, rfl, hb, -, hts⟩ := exists_of_spellsRanges hrs
    refine ⟨.plain '[' :: ts ++ [.plain ']'], by simp [spelling], by simp [hb], fun rest => ?_⟩
    have hhead : ∀ us, ts ++ .plain ']' :: rest ≠ .plain '^' :: us := by
      intro us h
      cases ts with
      | nil => simp at h
      | cons k ts =>
        cases h
        exact hneg rfl
    rw [List.append_assoc, List.cons_append, List.singleton_append,
      ofTokens?.eq_3 _ fun us _ => hhead us, hts false [] rest hne]
    rfl
  | noneOf hrs hne =>
    obtain ⟨ts, rfl, hb, -, hts⟩ := exists_of_spellsRanges hrs
    refine ⟨.plain '[' :: .plain '^' :: ts ++ [.plain ']'], by simp [spelling], by simp [hb], ?_⟩
    intro rest
    rw [List.append_assoc, List.cons_append, List.cons_append, List.singleton_append, ofTokens?,
      hts true [] rest hne]
    rfl

/-- A pattern that is spelled is read, and reading goes on after it. -/
theorem exists_of_spells {t : Text} {g : Glob} (h : Spells t g) :
    ∃ ts, t = spell ts ∧ .plain '\\' ∉ ts ∧
      ∀ rest, ofTokens? .between (ts ++ rest) = (ofTokens? .between rest).map (g ++ ·) := by
  induction h with
  | nil => exact ⟨[], rfl, by simp, fun rest => by simp⟩
  | @cons _ _ i g hi _ ih =>
    obtain ⟨us, rfl, hus, hu⟩ := ih
    obtain ⟨ts, rfl, hts, ht⟩ := exists_of_spellsItem hi
    refine ⟨ts ++ us, by simp, by simp [hts, hus], fun rest => ?_⟩
    rw [List.append_assoc, ht, hu, Option.map_map]
    rfl

theorem ofText?_of_spells {t : Text} {g : Glob} (h : Spells t g) : ofText? t = some g := by
  obtain ⟨ts, hspell, hb, hts⟩ := exists_of_spells h
  rw [ofText?, GlobToken.ofText?_eq_some_iff.2 ⟨hspell, hb⟩]
  simpa [ofTokens?] using hts []

/-! ### What is read is spelled -/

/-- What a text spells for a reader in a mode: in a class, first the rest of the class. -/
def SpellsFrom : Mode → Text → Glob → Prop
  | .between, t, g => Spells t g
  | .inClass negated before, t, g => ∃ rs u v g',
      t = u ++ ']' :: v ∧ g = .oneOf ⟨negated, before ++ rs⟩ :: g' ∧ before ++ rs ≠ [] ∧
        SpellsRanges u rs ∧ Spells v g'

/-- One more range at the start of the rest of a class. -/
theorem spellsFrom_inClass_cons {negated : Bool} {before : List CharRange} {r : CharRange}
    {t u : Text} {g : Glob} (hr : SpellsRange t r)
    (h : SpellsFrom (.inClass negated (before ++ [r])) u g) :
    SpellsFrom (.inClass negated before) (t ++ u) g := by
  obtain ⟨rs, v, w, g', rfl, rfl, -, hrs, hg⟩ := h
  exact ⟨r :: rs, t ++ v, w, g', by simp, by simp, by simp, .cons hr hrs, hg⟩

/-- One more item, spelled by a single token, at the start of a pattern. -/
theorem spells_cons_of_map {k : GlobToken} {i : GlobItem} {r : List GlobToken} {g : Glob}
    (hi : SpellsItem k.spelling i) (hr : ∀ {g}, ofTokens? .between r = some g → Spells (spell r) g)
    (h : (ofTokens? .between r).map (i :: ·) = some g) : Spells (spell (k :: r)) g := by
  obtain ⟨g', hg, rfl⟩ := Option.map_eq_some_iff.1 h
  exact .cons hi (hr hg)

theorem spellsFrom_of_ofTokens? {mode : Mode} {ts : List GlobToken} {g : Glob}
    (hb : .plain '\\' ∉ ts) (h : ofTokens? mode ts = some g) : SpellsFrom mode (spell ts) g := by
  induction mode, ts using ofTokens?.induct generalizing g with
  | case1 => cases h; exact .nil
  | case2 r ih =>
    simp only [List.mem_cons, not_or] at hb
    obtain ⟨rs, u, v, g', hr, rfl, hne, hrs, hg⟩ := ih hb.2.2 (by rwa [ofTokens?.eq_2] at h)
    change Spells ('[' :: '^' :: spell r) _
    simpa [hr] using Spells.cons (.noneOf hrs hne) hg
  | case3 r hneg ih =>
    simp only [List.mem_cons, not_or] at hb
    obtain ⟨rs, u, v, g', hr, rfl, hne, hrs, hg⟩ := ih hb.2 (by rwa [ofTokens?.eq_3 r hneg] at h)
    have hhead : u.head? ≠ some '^' := by
      intro hu
      obtain ⟨u', rfl⟩ : ∃ u', u = '^' :: u' := by
        cases u <;> simp_all
      cases r with
      | nil => simp at hr
      | cons k r =>
        cases k with
        | plain c =>
          simp only [spell_cons, spelling, List.cons_append, List.cons.injEq] at hr
          exact hneg r rfl (by rw [hr.1])
        | escaped c => simp [spelling] at hr
    change Spells ('[' :: spell r) _
    simpa [hr] using Spells.cons (.oneOf hrs hne hhead) hg
  | case4 r _ ih =>
    simp only [List.mem_cons, not_or] at hb
    exact spells_cons_of_map .star (ih hb.2) (by rwa [ofTokens?.eq_4] at h)
  | case5 r _ ih =>
    simp only [List.mem_cons, not_or] at hb
    exact spells_cons_of_map .one (ih hb.2) (by rwa [ofTokens?.eq_5] at h)
  | case6 r c hopen hstar hone hneg ih =>
    simp only [List.mem_cons, not_or] at hb
    have hescape : c ≠ '\\' := fun hc => hb.1 (by rw [hc])
    have hplain : c ∉ ['*', '?', '[', '\\'] := by
      simpa using ⟨hstar, hone, hopen, hescape⟩
    exact spells_cons_of_map (.plain hplain) (ih hb.2)
      (by rwa [ofTokens?.eq_6 r c hopen hstar hone hneg] at h)
  | case7 r c _ ih =>
    simp only [List.mem_cons, not_or] at hb
    exact spells_cons_of_map (.escaped c) (ih hb.2) (by rwa [ofTokens?.eq_7] at h)
  | case8 => cases h
  | case9 negated before t r hclose ih =>
    obtain ⟨rfl, hne⟩ := hclose
    simp only [List.mem_cons, not_or] at hb
    rw [ofTokens?_close negated r hne] at h
    obtain ⟨g', hg, rfl⟩ := Option.map_eq_some_iff.1 h
    exact ⟨[], [], spell r, g', rfl, by simp, by simpa using hne, .nil, ih hb.2 hg⟩
  | case10 negated before t r hclose hm =>
    rw [ofTokens?.eq_9, if_neg hclose, hm] at h
    cases h
  | case11 negated before t hclose lo hlo =>
    rw [ofTokens?.eq_9, if_neg hclose, hlo] at h
    cases h
  | case12 negated before t hclose lo hlo u r hu =>
    rw [ofTokens?.eq_9, if_neg hclose, hlo] at h
    simp only [hu] at h
    cases h
  | case13 negated before t hclose lo hlo u r hi hhi ih =>
    simp only [List.mem_cons, not_or] at hb
    rw [ofTokens?_span negated before r hlo hhi] at h
    have hr : SpellsRange (t.spelling ++ '-' :: u.spelling) ⟨lo, hi⟩ :=
      .span ((member?_eq_some_iff (Ne.symm hb.1)).1 hlo)
        ((member?_eq_some_iff (Ne.symm hb.2.2.1)).1 hhi)
    simpa [spelling] using spellsFrom_inClass_cons hr (ih hb.2.2.2 h)
  | case14 negated before t hclose lo hlo r hlast hspan ih =>
    simp only [List.mem_cons, not_or] at hb
    have hdash : r.head? ≠ some (.plain '-') := by
      intro hr
      match r with
      | [] => simp at hr
      | [k] => exact hlast (by simpa using hr)
      | k :: l :: r => exact hspan l r (by simpa using hr)
    rw [ofTokens?_single negated before hlo hdash] at h
    exact spellsFrom_inClass_cons (.single ((member?_eq_some_iff (Ne.symm hb.1)).1 hlo))
      (ih hb.2 h)

/-- A text has items exactly if it spells them. -/
theorem ofText?_eq_some_iff {t : Text} {g : Glob} : ofText? t = some g ↔ Spells t g := by
  refine ⟨?_, ofText?_of_spells⟩
  intro h
  obtain ⟨ts, hts, hg⟩ := Option.bind_eq_some_iff.1 h
  obtain ⟨rfl, hb⟩ := GlobToken.ofText?_eq_some_iff.1 hts
  exact spellsFrom_of_ofTokens? hb hg

/-- Only a text that spells no sequence of items is refused. -/
theorem ofText?_eq_none_iff {t : Text} : ofText? t = none ↔ ¬ IsPattern t := by
  rw [Option.eq_none_iff_forall_ne_some, IsPattern, not_exists]
  exact forall_congr' fun g => not_congr ofText?_eq_some_iff

end Glob

end FileSearch
