import FileSearch.Proofs.Glob.LowerCase
import FileSearch.Proofs.Glob.Matching
import FileSearch.Proofs.Query.Conjunction
import FileSearch.Proofs.Search.Failure

/-!
Searches with a malformed pattern. A pattern is parsed when an entry reaches its condition, so that
such a search may go through many entries, and it may end normally. But no entry meets a condition
with a malformed pattern, so that nothing is ever found.
Main statement: a search for a query with a malformed pattern finds nothing, writes nothing and
changes no file, whatever its roots, its filter and its other conditions are.
-/

namespace FileSearch

variable {s : Setting} {q : Query} {source : Option FilterSource} {root : Text} {w w' : World}

/-! ### Malformed patterns -/

/-- A pattern of the query is no glob, in the form in which it is compared. -/
inductive Query.Malformed (q : Query) : Prop
  | name {glob : Text × Bool} (hname : q.nameGlob = some glob)
      (hbad : Glob.ofText? (foldCase glob.2 glob.1) = none)
  | path {pattern : Text} (hpath : q.pathPattern = some pattern)
      (hbad : Glob.ofText? pattern = none)

/-- No entry meets a condition with a malformed pattern. -/
theorem Query.Malformed.not_meets (h : q.Malformed) {e : Entry} {probe : Probe} {now : Float}
    {depth : Int} : ¬ q.Meets e probe now depth := by
  intro hmeets
  cases h with
  | name hname hbad =>
    have htrue := hmeets.name _ hname
    rw [globHolds_of_malformed hbad] at htrue
    cases htrue
  | path hpath hbad =>
    have htrue := hmeets.path _ hpath
    rw [globHolds_of_malformed hbad] at htrue
    cases htrue

theorem Query.Malformed.verdict_ne {e : Errand} (h : e.query.Malformed) (files : FileSystem)
    (item : Item) : Walk.verdict e files item ≠ .ok true := by
  intro htrue
  exact h.not_meets (Query.holds_eq_ok_true_iff.1 htrue)

/-- A pattern is malformed as it is compared if it is malformed as it was given, unless a dotted
capital I is put into lower case. -/
theorem Query.malformed_iff
    (h : q.ignoreCase = true → ∀ pattern, q.namePattern = some pattern → 'İ' ∉ pattern) :
    q.Malformed ↔ (∃ pattern, q.namePattern = some pattern ∧ Glob.ofText? pattern = none) ∨
      ∃ pattern, q.pathPattern = some pattern ∧ Glob.ofText? pattern = none := by
  have hfold {pattern : Text} (hname : q.namePattern = some pattern) :
      Glob.ofText? (foldCase q.ignoreCase pattern) = none ↔ Glob.ofText? pattern = none := by
    unfold foldCase
    split
    · rename_i hcase
      exact ofText?_lowerCase_eq_none_iff (h hcase _ hname)
    · rfl
  constructor
  · rintro (⟨hname, hbad⟩ | ⟨hpath, hbad⟩)
    · obtain ⟨pattern, hpattern, rfl⟩ := Option.map_eq_some_iff.1 hname
      exact .inl ⟨pattern, hpattern, (hfold hpattern).1 hbad⟩
    · exact .inr ⟨_, hpath, hbad⟩
  · rintro (⟨pattern, hname, hbad⟩ | ⟨pattern, hpath, hbad⟩)
    · exact .name (Option.map_eq_some_iff.2 ⟨pattern, hname, rfl⟩) ((hfold hname).2 hbad)
    · exact .path hpath hbad

/-! ### Idle searches -/

namespace Search

variable {α β : Type} {x : Search α} {f : α → Search β} {p : α → Prop} {r : β → Prop}

/-- A search that touches nothing but the log, whether or not it fails, and whose answer is as told
if it has one. -/
def Idle (x : Search α) (p : α → Prop) : Prop :=
  ∀ w, OnlyLogs w (worldAfter (x w)) ∧ ∀ a v, x w = .ok a v → p a

theorem Idle.pure {a : α} (h : p a) : Idle (Pure.pure a) p := by
  intro w
  refine ⟨.refl w, fun b v hb => ?_⟩
  obtain ⟨rfl, -⟩ := pure_eq_ok_iff.1 hb
  exact h

theorem Idle.throw (f : Fault) (p : α → Prop) : Idle (MonadExcept.throw f) p :=
  fun w => ⟨.refl w, fun _ _ => nofun⟩

theorem Idle.bind (hx : Idle x p) (hf : ∀ a, p a → Idle (f a) r) : Idle (x >>= f) r := by
  intro w
  obtain ⟨hlog, hanswer⟩ := hx w
  cases hrun : x w with
  | error g v =>
    rw [hrun] at hlog
    rw [bind_error hrun]
    refine ⟨hlog, ?_⟩
    rintro _ _ ⟨⟩
  | ok a v =>
    rw [hrun] at hlog
    rw [bind_ok hrun]
    obtain ⟨hmore, hresult⟩ := hf a (hanswer a v hrun) v
    exact ⟨hlog.trans hmore, hresult⟩

end Search

open Search (Idle)

theorem idle_filterFor (source : Option FilterSource) (root : Text) :
    Idle (filterFor source root) fun _ => True :=
  fun w => ⟨onlyLogs_filterFor source root w, fun _ _ _ => trivial⟩

namespace Walk

variable {e : Errand} {st : WalkState} {item : Item} {found : Bool} {below : List Item}

/-- What is not found is not reported. -/
theorem Reports.eq_of_false {v : World} (h : Reports e item w false v) : v = w := by
  cases h
  rfl

/-- A turn does not find its item. -/
theorem Step.idle (hbad : e.query.Malformed) (h : Step e item w found below w') :
    found = false ∧ OnlyLogs w w' := by
  cases h with
  | deep _ hlog => exact ⟨rfl, hlog⟩
  | checked _ hverdict hreport _ hlog =>
    cases found with
    | true => exact absurd hverdict (hbad.verdict_ne _ _)
    | false =>
      rw [hreport.eq_of_false] at hlog
      exact ⟨rfl, hlog⟩

theorem Stuck.idle (hbad : e.query.Malformed) {f : Fault} (h : Stuck e item w f w') :
    OnlyLogs w w' := by
  cases h with
  | check => exact .refl w
  | write _ hverdict => exact absurd hverdict (hbad.verdict_ne _ _)
  | @expand found _ _ _ hverdict hreport _ hlog =>
    cases found with
    | true => exact absurd hverdict (hbad.verdict_ne _ _)
    | false =>
      rw [hreport.eq_of_false] at hlog
      exact hlog

/-- However many entries a run goes through, it finds none more. -/
theorem run_idle (hbad : e.query.Malformed) (st : WalkState) :
    OnlyLogs st.world (Search.worldAfter (run e st)) ∧
      ∀ found v, run e st = .ok found v → found = st.matched := by
  induction st using run.induct e with
  | case1 st hturn =>
    rw [run_of_done hturn]
    refine ⟨.refl _, ?_⟩
    rintro _ _ ⟨⟩
    rfl
  | case2 st f w hturn =>
    rw [run_of_failed hturn]
    cases turned_of_eq hturn with
    | failed _ hstuck =>
      refine ⟨hstuck.idle hbad, ?_⟩
      rintro _ _ ⟨⟩
  | case3 st st' hturn ih =>
    rw [run_of_next hturn]
    cases turned_of_eq hturn with
    | next _ hstep _ hmatched =>
      obtain ⟨rfl, hlog⟩ := hstep.idle hbad
      have hsame : st'.matched = st.matched := hmatched
      rw [hsame] at ih
      exact ⟨hlog.trans ih.1, ih.2⟩

theorem idle_walk (hbad : e.query.Malformed) : Idle (walk e) (· = []) := by
  intro w
  cases hroot : w.files.locate e.setting.cwd false e.root with
  | error f =>
    rw [walk_of_error hroot]
    refine ⟨.refl w, ?_⟩
    rintro _ _ ⟨⟩
  | ok top =>
    rw [walk_eq_run hroot]
    exact run_idle hbad (start e w top)

end Walk

theorem idle_dispose_nil (s : Setting) (q : Query) : Idle (dispose s q []) (· = 0) := by
  cases hdelete : q.delete with
  | false =>
    rw [dispose, hdelete]
    exact .pure rfl
  | true =>
    rw [dispose, hdelete]
    exact .pure rfl

theorem idle_findRoot (hbad : q.Malformed) (source : Option FilterSource) (root : Text) :
    Idle (findRoot s q source root) (· = 0) := by
  have hdiscover : Idle (discover s q source root) (· = []) :=
    (idle_filterFor source root).bind fun _ _ => Walk.idle_walk hbad
  rw [findRoot_eq]
  refine hdiscover.bind ?_
  rintro _ rfl
  exact idle_dispose_nil s q

/-- A search for a query with a malformed pattern finds nothing under any roots. -/
theorem idle_find (hbad : q.Malformed) (source : Option FilterSource) (roots : List Text) :
    Idle (find s q source roots) (· = 0) := by
  induction roots with
  | nil => exact .pure rfl
  | cons root roots ih =>
    refine (idle_findRoot hbad source root).bind ?_
    rintro _ rfl
    refine ih.bind ?_
    rintro _ rfl
    exact .pure rfl

end FileSearch
