import FileSearch.Proofs.Walk.Listing
import Mathlib.Logic.Relation

/-!
The states that a walk goes through, with others at work. A walk knows of each entry what it was
when its directory was listed; what others have made of it since then it does not know.
Main statements: whatever is on the stack or was found lies, from the root, on a way of real
directories, each of which was one when it was listed, and a directory that is none any more was
changed by others when a line was written.
-/

namespace FileSearch.Walk

open Relation (ReflTransGen)

variable {e : Errand} {first st st' last : WalkState} {item : Item} {below : List Item}
  {path : Text} {found : List Entry} {w : World}

/-- A turn leads from one state to the other. -/
def Goes (e : Errand) (st st' : WalkState) : Prop := turn e st = .next st'

theorem Goes.turned (h : Goes e st st') : Turned e st (.next st') := turned_of_eq h

/-- A run that ends normally goes through turns until the stack is empty. -/
theorem reaches_of_run (h : run e st = .ok found w) :
    ∃ last, ReflTransGen (Goes e) st last ∧ last.matched = found ∧ last.world = w := by
  induction st using run.induct e with
  | case1 st hturn =>
    rw [run_of_done hturn] at h
    cases h
    exact ⟨st, .refl, rfl, rfl⟩
  | case2 st f w' hturn =>
    rw [run_of_failed hturn] at h
    cases h
  | case3 st st' hturn ih =>
    rw [run_of_next hturn] at h
    obtain ⟨last, hreach, hmatched, hworld⟩ := ih h
    exact ⟨last, .head hturn hreach, hmatched, hworld⟩

/-- A turn leaves the files alone, or writes a line that others react to. -/
theorem Goes.files (h : Goes e st st') :
    st'.world.files = st.world.files ∨
      ∃ text, st'.world.written = st.world.written ++ [text] ∧
        st'.world.files = e.setting.others st.world.written.length text st.world.files := by
  cases h.turned with
  | next hstack hstep hbelow hmatched =>
    cases hstep with
    | deep hdeep hlog => exact .inl hlog.files
    | checked hdeep hverdict hreport hexpand hlog =>
      cases hreport with
      | silent hprint => exact .inl hlog.files
      | line hprint hroom => exact .inr ⟨_, hlog.written, hlog.files⟩

/-! ### Real directories on the way -/

/-- At some time between the two states the path named a directory, and not a link to one. -/
def WasReal (e : Errand) (first st : WalkState) (path : Text) : Prop :=
  ∃ mid, ReflTransGen (Goes e) first mid ∧ ReflTransGen (Goes e) mid st ∧
    mid.world.files.IsRealDirectory e.setting.cwd path

/-- Between the two states, when a line was written, others made something else of the directory
that the path named. -/
def Overtaken (e : Errand) (first last : WalkState) (path : Text) : Prop :=
  ∃ st st' text, ReflTransGen (Goes e) first st ∧ Goes e st st' ∧ ReflTransGen (Goes e) st' last ∧
    st.world.files.IsRealDirectory e.setting.cwd path ∧
    st'.world.written = st.world.written ++ [text] ∧
    st'.world.files = e.setting.others st.world.written.length text st.world.files ∧
    ¬ st'.world.files.IsRealDirectory e.setting.cwd path

theorem WasReal.goes (h : WasReal e first st path) (hgoes : Goes e st st') :
    WasReal e first st' path := by
  obtain ⟨mid, hfirst, hmid, hreal⟩ := h
  exact ⟨mid, hfirst, hmid.tail hgoes, hreal⟩

/-- What was a real directory still is one, or was overtaken. -/
theorem WasReal.now_or_overtaken (h : WasReal e first last path) :
    last.world.files.IsRealDirectory e.setting.cwd path ∨ Overtaken e first last path := by
  obtain ⟨mid, hfirst, hmid, hreal⟩ := h
  induction hmid with
  | refl => exact .inl hreal
  | @tail st st' hreach hgoes ih =>
    rcases ih with hreal | ⟨u, u', text, hu, hgo, hu', hreal, hchange⟩
    · by_cases hnow : st'.world.files.IsRealDirectory e.setting.cwd path
      · exact .inl hnow
      · rcases hgoes.files with hsame | ⟨text, hwritten, hfiles⟩
        · rw [hsame] at hnow
          exact absurd hreal hnow
        · exact .inr ⟨st, st', text, hfirst.trans hreach, hgoes, .refl, hreal, hwritten, hfiles,
            hnow⟩
    · exact .inr ⟨u, u', text, hu, hgo, hu'.tail hgoes, hreal, hchange⟩

/-- The item stands below the root under some names; what lies before the last of them were real
directories, and so was the item itself if it is one. -/
def Tracked (e : Errand) (first st : WalkState) (item : Item) : Prop :=
  ∃ names kind, item = itemAt e.root names kind ∧
    (∀ before, before <+: names → before ≠ [] → before ≠ names →
      WasReal e first st (pathAt e.root before)) ∧
    (names ≠ [] → kind = some .directory →
      FileSystem.checkPath (pathAt e.root names) = .ok () →
        WasReal e first st (pathAt e.root names))

theorem Tracked.goes (h : Tracked e first st item) (hgoes : Goes e st st') :
    Tracked e first st' item := by
  obtain ⟨names, kind, hitem, hbefore, hself⟩ := h
  exact ⟨names, kind, hitem,
    fun before hpre hne hproper => (hbefore before hpre hne hproper).goes hgoes,
    fun hne hkind hcheck => (hself hne hkind hcheck).goes hgoes⟩

/-- A directory that is listed puts items on the stack that lie in real directories. -/
theorem Tracked.child (hroot : e.root ≠ []) (hfirst : ReflTransGen (Goes e) first st)
    (h : Tracked e first st item) (hexp : Expands e st.world.files item below) :
    ∀ i ∈ below, Tracked e first st i := by
  obtain ⟨names, kind, rfl, hbefore, hself⟩ := h
  cases hexp with
  | leaf hdir => exact nofun
  | @listed entries hdir hlist hfilter =>
    intro i hi
    obtain ⟨dir, hlead, rfl⟩ := FileSystem.list_eq_ok_iff.1 hlist
    have hlead : st.world.files.LeadsTo e.setting.cwd (pathAt e.root names) dir := hlead
    have hkind : kind = some .directory := of_decide_eq_true hdir
    obtain ⟨⟨n, node⟩, hmem, rfl⟩ := List.mem_map.1 (List.mem_filter.1 hi).1
    have hnode := FileSystem.mem_entries_iff.1 (mem_sortByName.1 hmem)
    refine ⟨names ++ [n], node.body.kind, child_itemAt hroot names kind n node, ?_, ?_⟩
    · intro before hpre hne hproper
      have hpre : before <+: names :=
        (List.prefix_concat_iff.1 (by simpa using hpre)).resolve_left (by simpa using hproper)
      by_cases heq : before = names
      · subst heq
        exact hself hne hkind (checkPath_of_leadsTo hlead)
      · exact hbefore before hpre hne heq
    · intro _ hdirectory hcheck
      rw [pathAt_concat hroot] at hcheck ⊢
      have hloc := (FileSystem.locate_joinPath_eq_ok_iff (pathAt_ne_nil hroot names)).2
        ⟨hcheck, dir, hlead, by simp [hnode], rfl⟩
      refine ⟨st, hfirst, .refl, n :: dir, hloc, ?_⟩
      rw [FileSystem.nodeAt_of_get? hnode]
      exact Body.kind_eq_directory_iff.1 hdirectory

/-! ### Whole walks -/

/-- All that is on the stack, and all that was found. -/
structure AllTracked (e : Errand) (first st : WalkState) : Prop where
  stack : ∀ item ∈ st.stack, Tracked e first st item
  matched : ∀ m ∈ st.matched, ∃ item, item.entry = m ∧ Tracked e first st item

theorem allTracked_start (top : Location) :
    AllTracked e (start e w top) (start e w top) := by
  refine ⟨?_, nofun⟩
  intro item hitem
  obtain rfl := List.mem_singleton.1 hitem
  refine ⟨[], _, rfl, ?_, ?_⟩
  · intro before hpre hne
    exact absurd (List.prefix_nil.1 hpre) hne
  · intro hne
    exact absurd rfl hne

theorem AllTracked.goes (hroot : e.root ≠ []) (hfirst : ReflTransGen (Goes e) first st)
    (h : AllTracked e first st) (hgoes : Goes e st st') : AllTracked e first st' := by
  cases hgoes.turned with
  | @next item rest below found _ hstack hstep hbelow hmatched =>
    have hitem := (h.stack item (by simp [hstack])).goes hgoes
    have hnew : ∀ i ∈ below, Tracked e first st' i := by
      cases hstep with
      | deep => exact nofun
      | checked hdeep hverdict hreport hexpand hlog =>
        rw [← hlog.files] at hexpand
        exact hitem.child hroot (hfirst.tail hgoes) hexpand
    refine ⟨?_, ?_⟩
    · intro i hi
      rw [hbelow] at hi
      rcases List.mem_append.1 hi with hi | hi
      · exact hnew i hi
      · exact (h.stack i (by simp [hstack, hi])).goes hgoes
    · intro m hm
      have hold : m ∈ st.matched → ∃ item, item.entry = m ∧ Tracked e first st' item := by
        intro hm
        obtain ⟨i, hi, htracked⟩ := h.matched m hm
        exact ⟨i, hi, htracked.goes hgoes⟩
      rw [hmatched, addMatch] at hm
      split at hm
      · rcases List.mem_append.1 hm with hm | hm
        · exact hold hm
        · exact ⟨item, (List.mem_singleton.1 hm).symm, hitem⟩
      · exact hold hm

theorem allTracked_of_reaches (hroot : e.root ≠ []) (h : AllTracked e first first)
    (hreach : ReflTransGen (Goes e) first st) : AllTracked e first st := by
  induction hreach with
  | refl => exact h
  | tail hreach hgoes ih => exact ih.goes hroot hreach hgoes

end FileSearch.Walk
