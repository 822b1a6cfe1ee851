import FileSearch.Proofs.Search.Locality

/-!
Searches of two plain roots neither of which lies at or below the other. What is removed below the
one leaves the other as it was, but for the times of the directories above.
Main statement: it makes no difference to the count, to the lines of each root and to the files that
are left which of the two is searched first.
-/

namespace FileSearch

open FileSystem Walk

/-! ### Locations apart -/

/-- Neither of the locations lies at or below the other. -/
def Apart (l m : Location) : Prop := ¬ l <:+ m ∧ ¬ m <:+ l

instance {l m : Location} : Decidable (Apart l m) := inferInstanceAs (Decidable (_ ∧ _))

theorem Apart.symm {l m : Location} (h : Apart l m) : Apart m l := And.symm h

/-- No location lies below both. -/
theorem Apart.not_below {l m k : Location} (h : Apart l m) (hk : m <:+ k) : ¬ l <:+ k := by
  intro hl
  exact (List.suffix_or_suffix_of_suffix hl hk).elim h.1 h.2

/-! ### The root that is searched later -/

variable {s : Setting} {q : Query} {e : Errand} {absolute₁ absolute₂ : Bool}
  {names₁ names₂ : List Name} {r₁ r₂ : Text} {top : Location} {n : Nat} {w w₁ w₂ : World}

/-- A search of one root leaves all at or below the other as it was. -/
theorem Searched.agreeBelow (hsearchable : Searchable e w.files top) (h : Searched e top w w₁)
    {other : Location} (hapart : Apart top other) : AgreeBelow w.files w₁.files other := by
  intro l hl
  refine h.lost.kept l (fun hgone => ?_) fun k hgone => ?_
  · exact hapart.not_below hl (hsearchable.suffix_of_doomed hgone)
  · exact hapart.not_below (hl.trans (List.suffix_cons k l))
      (hsearchable.suffix_of_doomed hgone)

/-- The other root is as plain as before. -/
theorem Searched.isPlain (hsearchable : Searchable e w.files top) (h : Searched e top w w₁)
    {cwd : Location} (hplain₂ : IsPlain w.files cwd absolute₂ names₂ r₂)
    (hapart : Apart top (names₂.reverse ++ baseOf absolute₂ cwd)) :
    IsPlain w₁.files cwd absolute₂ names₂ r₂ := by
  refine isPlain_of_lost hplain₂ h.lost fun before hpre _ hgone => ?_
  have habove : before.reverse ++ baseOf absolute₂ cwd <:+ names₂.reverse ++ baseOf absolute₂ cwd :=
    List.suffix_append_self_iff.2 (List.reverse_suffix.2 hpre)
  exact hapart.1 ((hsearchable.suffix_of_doomed hgone).trans habove)

/-- A search of two roots, in terms of what there was before it. -/
structure SearchedPair (s : Setting) (q : Query) (r₁ r₂ : Text) (top₁ top₂ : Location)
    (w w₁ w₂ : World) : Prop where
  first : find s q none [r₁] w = .ok (foundIn ⟨s, q, none, r₁⟩ w.files top₁).length w₁
  both : find s q none [r₁, r₂] w = .ok ((foundIn ⟨s, q, none, r₁⟩ w.files top₁).length +
    (foundIn ⟨s, q, none, r₂⟩ w.files top₂).length) w₂
  writtenFirst : w₁.written = w.written ++ printed q (foundIn ⟨s, q, none, r₁⟩ w.files top₁)
  written : w₂.written = w₁.written ++ printed q (foundIn ⟨s, q, none, r₂⟩ w.files top₂)
  lost : Lost s.stamp w.files w₂.files fun l =>
    Doomed ⟨s, q, none, r₁⟩ w.files top₁ l ∨ Doomed ⟨s, q, none, r₂⟩ w.files top₂ l

/-- Two roots that are searched one after the other are both searchable at the beginning. -/
theorem searchable_of_find_pair (hquiet : s.Quiet)
    (hplain₁ : IsPlain w.files s.cwd absolute₁ names₁ r₁)
    (hplain₂ : IsPlain w.files s.cwd absolute₂ names₂ r₂)
    (hapart : Apart (names₁.reverse ++ baseOf absolute₁ s.cwd)
      (names₂.reverse ++ baseOf absolute₂ s.cwd))
    (h : find s q none [r₁, r₂] w = .ok n w₂) :
    ∃ top₁ top₂, Searchable ⟨s, q, none, r₁⟩ w.files top₁ ∧
      Searchable ⟨s, q, none, r₂⟩ w.files top₂ ∧
      Fits s w (printed q (foundIn ⟨s, q, none, r₁⟩ w.files top₁) ++
        printed q (foundIn ⟨s, q, none, r₂⟩ w.files top₂)) := by
  obtain ⟨n₁, w₁, n₂, h₁, h₂, -⟩ := find_cons_ok_iff.1 h
  rw [find_singleton] at h₂
  obtain ⟨top₁, -, -, hsearchable₁, hroom₁, -, hsearched₁⟩ :=
    searched_of_findRoot hquiet hplain₁ h₁
  obtain ⟨rfl, -⟩ := locate_of_isPlain hplain₁ hsearchable₁.root
  have hafter₂ := hsearched₁.isPlain hsearchable₁ hplain₂ hapart
  obtain ⟨top₂, -, -, hsearchable₂, hroom₂, -, -⟩ := searched_of_findRoot hquiet hafter₂ h₂
  obtain ⟨rfl, hsome₂⟩ := locate_of_isPlain hafter₂ hsearchable₂.root
  have hsame : SameBelow w₁.files w.files s.cwd absolute₂ names₂ r₂ _ :=
    ⟨hafter₂, rfl, (hsearched₁.agreeBelow hsearchable₁ hapart).symm⟩
  refine ⟨_, _, hsearchable₁, hsearchable₂.congr rfl hsame, ?_⟩
  rw [foundIn_congr (e := ⟨s, q, none, r₂⟩) hsame hsome₂]
  exact (fits_append hsearched₁.written).2 ⟨hroom₁, hroom₂⟩

/-- Two searchable roots that are apart are searched one after the other, if the lines fit. -/
theorem exists_searchedPair (hquiet : s.Quiet)
    (hplain₁ : IsPlain w.files s.cwd absolute₁ names₁ r₁)
    (hplain₂ : IsPlain w.files s.cwd absolute₂ names₂ r₂)
    (hapart : Apart (names₁.reverse ++ baseOf absolute₁ s.cwd)
      (names₂.reverse ++ baseOf absolute₂ s.cwd)) {top₁ top₂ : Location}
    (h₁ : Searchable ⟨s, q, none, r₁⟩ w.files top₁) (h₂ : Searchable ⟨s, q, none, r₂⟩ w.files top₂)
    (hroom : Fits s w (printed q (foundIn ⟨s, q, none, r₁⟩ w.files top₁) ++
      printed q (foundIn ⟨s, q, none, r₂⟩ w.files top₂))) :
    ∃ w₁ w₂, SearchedPair s q r₁ r₂ top₁ top₂ w w₁ w₂ := by
  obtain ⟨rfl, -⟩ := locate_of_isPlain hplain₁ h₁.root
  obtain ⟨rfl, hsome₂⟩ := locate_of_isPlain hplain₂ h₂.root
  obtain ⟨w₁, hfirst, hsearched₁⟩ := findRoot_of_searchable hquiet hplain₁ h₁ hroom.left
  -- the second root is as it was
  have hafter₂ := hsearched₁.isPlain h₁ hplain₂ hapart
  have hsame : SameBelow w.files w₁.files s.cwd absolute₂ names₂ r₂ _ :=
    ⟨hplain₂, rfl, hsearched₁.agreeBelow h₁ hapart⟩
  have hfound := foundIn_congr (e := ⟨s, q, none, r₂⟩) hsame hsome₂
  have hroom₂ := hroom.right hsearched₁.written
  rw [← hfound] at hroom₂
  obtain ⟨w₂, hsecond, hsearched₂⟩ :=
    findRoot_of_searchable hquiet hafter₂ (h₂.congr rfl hsame) hroom₂
  have hwritten := hsearched₂.written
  rw [hfound] at hsecond hwritten
  refine ⟨w₁, w₂, by rw [find_singleton, hfirst], ?_, hsearched₁.written, hwritten, ?_⟩
  · exact find_cons_ok_iff.2 ⟨_, w₁, _, hfirst, by rw [find_singleton, hsecond], rfl⟩
  · refine (hsearched₁.lost.trans hsearched₂.lost).congr fun l => ?_
    rw [doomed_congr hsame hsome₂]

/-- With nobody else at work, a search without a filter of two plain roots that are apart may take
them in either order. If it ends normally in one order, it does in the other, with the same count,
the same lines for each root, which are those of a search of that root alone, and the same files.
-/
theorem find_pair_comm (hquiet : s.Quiet) (hplain₁ : IsPlain w.files s.cwd absolute₁ names₁ r₁)
    (hplain₂ : IsPlain w.files s.cwd absolute₂ names₂ r₂)
    (hapart : Apart (names₁.reverse ++ baseOf absolute₁ s.cwd)
      (names₂.reverse ++ baseOf absolute₂ s.cwd))
    (h : find s q none [r₁, r₂] w = .ok n w₂) :
    ∃ n₁ n₂ lines₁ lines₂ w₁ w₁' w₂',
      find s q none [r₁] w = .ok n₁ w₁ ∧ w₁.written = w.written ++ lines₁ ∧
      find s q none [r₂] w = .ok n₂ w₁' ∧ w₁'.written = w.written ++ lines₂ ∧
      n = n₁ + n₂ ∧ w₂.written = w.written ++ lines₁ ++ lines₂ ∧
      find s q none [r₂, r₁] w = .ok n w₂' ∧ w₂'.written = w.written ++ lines₂ ++ lines₁ ∧
      ∀ l, w₂'.files.get? l = w₂.files.get? l := by
  obtain ⟨top₁, top₂, h₁, h₂, hroom⟩ := searchable_of_find_pair hquiet hplain₁ hplain₂ hapart h
  obtain ⟨w₁, v, hpair⟩ := exists_searchedPair hquiet hplain₁ hplain₂ hapart h₁ h₂ hroom
  obtain ⟨w₁', w₂', hswapped⟩ :=
    exists_searchedPair hquiet hplain₂ hplain₁ hapart.symm h₂ h₁ (fits_comm.1 hroom)
  cases hpair.both.symm.trans h
  have hlost := hswapped.lost.congr fun l => or_comm
  exact ⟨_, _, _, _, w₁, w₁', w₂', hpair.first, hpair.writtenFirst, hswapped.first,
    hswapped.writtenFirst, rfl, by rw [hpair.written, hpair.writtenFirst],
    by rw [Nat.add_comm, hswapped.both], by rw [hswapped.written, hswapped.writtenFirst],
    hlost.unique hpair.lost⟩

/-- Of a directory and a link to it, in either order, the link is removed. -/
theorem find_pair_comm_smallTree :
    ∃ w₂ w₂',
      find smallErrand.setting { kind := some .symlink, delete := true } none
        [['r', '/', 'a'], ['r', '/', 'l']] ⟨smallTree, [], []⟩ = .ok 1 w₂ ∧
      find smallErrand.setting { kind := some .symlink, delete := true } none
        [['r', '/', 'l'], ['r', '/', 'a']] ⟨smallTree, [], []⟩ = .ok 1 w₂' ∧
      ∀ l, w₂'.files.get? l = w₂.files.get? l := by
  let s : Setting := smallErrand.setting
  let q : Query := { kind := some .symlink, delete := true }
  have hfirst : ∃ v, walk ⟨s, q, none, ['r', '/', 'a']⟩ ⟨smallTree, [], []⟩ = .ok [] v ∧
      v.files = smallTree := by
    rw [walk_eq_run (e := ⟨s, q, none, ['r', '/', 'a']⟩) rfl, run_of_turns_done (n := 2) rfl rfl]
    exact ⟨_, rfl, rfl⟩
  have hsecond (v : World) (hv : v.files = smallTree) :
      ∃ w₂, findRoot s q none ['r', '/', 'l'] v = .ok 1 w₂ := by
    obtain ⟨files, written, log⟩ := v
    subst hv
    have hfound : ∃ m u, walk ⟨s, q, none, ['r', '/', 'l']⟩ ⟨smallTree, written, log⟩ = .ok [m] u ∧
        ∃ w₂, dispose s q [m] u = .ok 1 w₂ := by
      rw [walk_eq_run (e := ⟨s, q, none, ['r', '/', 'l']⟩) rfl, run_of_turns_done (n := 1) rfl rfl]
      exact ⟨_, _, rfl, _, rfl⟩
    obtain ⟨m, u, hwalk, w₂, hdispose⟩ := hfound
    exact ⟨w₂, findRoot_ok_iff.2 ⟨_, u, hwalk, hdispose⟩⟩
  obtain ⟨v, hwalk, hv⟩ := hfirst
  obtain ⟨w₂, hlast⟩ := hsecond v hv
  have hfind : find s q none [['r', '/', 'a'], ['r', '/', 'l']] ⟨smallTree, [], []⟩ = .ok 1 w₂ := by
    have hnone := findRoot_ok_iff.2 ⟨[], v, hwalk, rfl⟩
    exact find_cons_ok_iff.2 ⟨0, v, 1, hnone, by rwa [find_singleton], rfl⟩
  let r : Name := ⟨['r'], rfl, by decide⟩
  have ha : IsPlain smallTree [] false [r, ⟨['a'], rfl, by decide⟩] ['r', '/', 'a'] := by decide
  have hl : IsPlain smallTree [] false [r, ⟨['l'], rfl, by decide⟩] ['r', '/', 'l'] := by decide
  obtain ⟨-, -, -, -, -, -, w₂', -, -, -, -, -, -, hswapped, -, hsame⟩ :=
    find_pair_comm (s := s) (fun _ _ _ => rfl) ha hl (by decide) hfind
  exact ⟨w₂, w₂', hfind, hswapped, hsame⟩

end FileSearch
