import FileSearch.Proofs.Deletion.Interference
import FileSearch.Proofs.Search.Failure

/-!
An account of what a search takes away, with nobody else at work. A search only takes files away, in
each of its parts, and what it takes away in two parts is taken away by one of them.
Main statement: what a search takes away, whether or not it fails, is what its removals take away.
-/

namespace FileSearch

open FileSystem

/-! ### What is taken away -/

/-- Something stands at the location before, and nothing does after. -/
structure Takes (before after : FileSystem) (l : Location) : Prop where
  present : (before.get? l).isSome
  absent : after.get? l = none

namespace Takes

variable {fs middle fs' : FileSystem} {l : Location}

theorem irrefl (fs : FileSystem) (l : Location) : ¬ Takes fs fs l := by
  rintro ⟨hpresent, habsent⟩
  rw [habsent] at hpresent
  cases hpresent

theorem split (middle : FileSystem) (h : Takes fs fs' l) :
    Takes fs middle l ∨ Takes middle fs' l := by
  cases hmiddle : middle.get? l with
  | none => exact .inl ⟨h.present, hmiddle⟩
  | some node => exact .inr ⟨by simp [hmiddle], h.absent⟩

theorem mono {before after : FileSystem} (hbefore : Within before fs) (hafter : Within fs' after)
    (h : Takes before after l) : Takes fs fs' l := by
  constructor
  · obtain ⟨node, hnode⟩ := Option.isSome_iff_exists.1 h.present
    obtain ⟨old, hold, -⟩ := hbefore l node hnode
    simp [hold]
  · rw [Option.eq_none_iff_forall_ne_some]
    intro node hnode
    obtain ⟨old, hold, -⟩ := hafter l node hnode
    rw [h.absent] at hold
    cases hold

end Takes

namespace Search

variable {α β : Type} {x : Search α} {f : α → Search β} {w v : World} {l : Location}

/-- What a search with two parts takes away is taken away by one of them. -/
theorem takes_bind (h : Takes w.files (worldAfter ((x >>= f) w)).files l) :
    Takes w.files (worldAfter (x w)).files l ∨
      ∃ a v, x w = .ok a v ∧ Takes v.files (worldAfter (f a v)).files l := by
  cases hrun : x w with
  | error g v =>
    rw [bind_error hrun] at h
    exact .inl h
  | ok a v =>
    rw [bind_ok hrun] at h
    rcases h.split v.files with htakes | htakes
    · exact .inl htakes
    · exact .inr ⟨a, v, rfl, htakes⟩

/-- A search that at most takes files away, whether or not it fails. -/
def OnlyTakes (x : Search α) : Prop := ∀ w, Within (worldAfter (x w)).files w.files

theorem ReadOnly.onlyTakes (h : ReadOnly x) : OnlyTakes x := fun w => h w ▸ Within.refl _

theorem ReadOnly.not_takes (h : ReadOnly x) : ¬ Takes w.files (worldAfter (x w)).files l := by
  rw [h w]
  exact Takes.irrefl _ _

theorem within_bind (hf : ∀ a, OnlyTakes (f a)) (w : World) :
    Within (worldAfter ((x >>= f) w)).files (worldAfter (x w)).files := by
  cases hrun : x w with
  | error g v =>
    rw [bind_error hrun]
    exact Within.refl _
  | ok a v =>
    rw [bind_ok hrun]
    exact hf a v

theorem OnlyTakes.bind (hx : OnlyTakes x) (hf : ∀ a, OnlyTakes (f a)) : OnlyTakes (x >>= f) :=
  fun w => (within_bind hf w).trans (hx w)

end Search

namespace Delete

open Search (OnlyTakes)

variable {s : Setting} {files : FileSystem} {path : Text} {paths : List Text} {w : World}
  {l : Location}

theorem onlyTakes_removePath (s : Setting) (path : Text) : OnlyTakes (removePath s path) := by
  intro w
  cases hremove : removeNode s w.files path with
  | error f =>
    obtain ⟨v, hv, hfiles⟩ := removePath_of_error hremove
    rw [hv]
    exact hfiles ▸ Within.refl _
  | ok files =>
    obtain ⟨v, hv, rfl⟩ := removePath_of_ok hremove
    rw [hv]
    exact within_removeNode hremove

theorem onlyTakes_removePaths (s : Setting) (paths : List Text) :
    OnlyTakes (removePaths s paths) := by
  induction paths with
  | nil => exact fun w => Within.refl _
  | cons path paths ih => exact (onlyTakes_removePath s path).bind fun _ => ih

/-- What a removal by a path takes away. -/
theorem removePath_takes (h : Takes w.files (Search.worldAfter (removePath s path w)).files l) :
    ∃ files, removeNode s w.files path = .ok files ∧ Takes w.files files l := by
  cases hremove : removeNode s w.files path with
  | error f =>
    obtain ⟨v, hv, hfiles⟩ := removePath_of_error hremove
    rw [hv] at h
    exact absurd (hfiles ▸ h) (Takes.irrefl _ _)
  | ok files =>
    obtain ⟨v, hv, rfl⟩ := removePath_of_ok hremove
    rw [hv] at h
    exact ⟨v.files, rfl, h⟩

/-- What removals take away is taken away by one of them, once those before it are done. -/
theorem removePaths_takes (h : Takes w.files (Search.worldAfter (removePaths s paths w)).files l) :
    ∃ earlier path later v files, paths = earlier ++ path :: later ∧
      removePaths s earlier w = .ok () v ∧ removeNode s v.files path = .ok files ∧
        Takes v.files files l := by
  induction paths generalizing w with
  | nil => exact absurd h (Takes.irrefl _ _)
  | cons path paths ih =>
    rcases Search.takes_bind h with hpath | ⟨_, v, hpath, hrest⟩
    · obtain ⟨files, hremove, htakes⟩ := removePath_takes hpath
      exact ⟨[], path, paths, w, files, rfl, rfl, hremove, htakes⟩
    · obtain ⟨earlier, next, later, u, files, rfl, hearlier, htakes⟩ := ih hrest
      exact ⟨path :: earlier, next, later, u, files, rfl, (Search.bind_ok hpath).trans hearlier,
        htakes⟩

/-- What is left after removals is within what one of them has left. -/
theorem within_removePaths_of_removeNode {earlier later : List Text} {v : World}
    (hearlier : removePaths s earlier w = .ok () v)
    (hremove : removeNode s v.files path = .ok files) :
    Within (Search.worldAfter (removePaths s (earlier ++ path :: later) w)).files files := by
  induction earlier generalizing w with
  | nil =>
    cases hearlier
    obtain ⟨u, hu, rfl⟩ := removePath_of_ok hremove
    rw [List.nil_append, removePaths, Search.bind_ok hu]
    exact onlyTakes_removePaths s later u
  | cons first earlier ih =>
    obtain ⟨_, u, hfirst, hearlier⟩ := Search.bind_eq_ok_iff.1 hearlier
    rw [List.cons_append, removePaths, Search.bind_ok hfirst]
    exact ih hearlier

end Delete

/-! ### Searches -/

open Search (OnlyTakes worldAfter)

variable {s : Setting} {q : Query} {source : Option FilterSource} {roots : List Text} {w : World}
  {found : List Entry} {r : Removal} {root : Text} {l : Location}

theorem onlyTakes_dispose (s : Setting) (q : Query) (found : List Entry) :
    OnlyTakes (dispose s q found) := by
  cases hdelete : q.delete with
  | false => exact (dispose_readOnly hdelete found).onlyTakes
  | true =>
    rw [dispose, hdelete, if_pos rfl]
    exact (Delete.onlyTakes_removePaths s _).bind fun _ => (Search.ReadOnly.pure _).onlyTakes

theorem onlyTakes_findRoot (hquiet : s.Quiet) (q : Query) (source : Option FilterSource)
    (root : Text) : OnlyTakes (findRoot s q source root) := by
  rw [findRoot_eq]
  exact (discover_readOnly hquiet source root).onlyTakes.bind (onlyTakes_dispose s q)

theorem onlyTakes_find (hquiet : s.Quiet) (q : Query) (source : Option FilterSource)
    (roots : List Text) : OnlyTakes (find s q source roots) := by
  induction roots with
  | nil => exact (Search.ReadOnly.pure 0).onlyTakes
  | cons root roots ih =>
    exact (onlyTakes_findRoot hquiet q source root).bind fun here =>
      ih.bind fun there => (Search.ReadOnly.pure (here + there)).onlyTakes

/-- What disposing of entries takes away is taken away by the removal of one of them. -/
theorem dispose_takes (h : Takes w.files (worldAfter (dispose s q found w)).files l) :
    q.delete = true ∧ ∃ earlier m later v files, found = earlier ++ m :: later ∧
      deleteFound s (later.map Entry.path) w = .ok () v ∧
        Delete.removeNode s v.files m.path = .ok files ∧ Takes v.files files l := by
  cases hdelete : q.delete with
  | false => exact absurd h (dispose_readOnly hdelete found).not_takes
  | true =>
    rw [dispose, hdelete, if_pos rfl] at h
    rcases Search.takes_bind h with h | ⟨_, v, -, h⟩
    · obtain ⟨done, path, left, v, files, hpaths, hdone, hremove, htakes⟩ :=
        Delete.removePaths_takes h
      rw [List.reverse_eq_iff, List.reverse_append, List.reverse_cons, List.append_assoc,
        List.singleton_append, List.map_eq_append_iff] at hpaths
      obtain ⟨earlier, rest, rfl, -, hrest⟩ := hpaths
      obtain ⟨m, later, rfl, rfl, hlater⟩ := List.map_eq_cons_iff.1 hrest
      refine ⟨rfl, earlier, m, later, v, files, rfl, ?_, hremove, htakes⟩
      rw [deleteFound, hlater, List.reverse_reverse]
      exact hdone
    · exact absurd h (Takes.irrefl _ _)

theorem findRoot_takes (hquiet : s.Quiet)
    (h : Takes w.files (worldAfter (findRoot s q source root w)).files l) :
    ∃ r, Removes s q source (root :: roots) w r ∧ Takes r.before r.after l := by
  rw [findRoot_eq] at h
  rcases Search.takes_bind h with h | ⟨found, w₁, hdiscover, h⟩
  · exact absurd h (discover_readOnly hquiet source root).not_takes
  · obtain ⟨filter, w₀, hfilter, hwalk⟩ := Search.bind_eq_ok_iff.1 hdiscover
    obtain ⟨hdelete, earlier, m, later, v, files, hfound, hlater, hremove, htakes⟩ :=
      dispose_takes h
    exact ⟨_, .here hdelete hfilter hwalk hfound hlater hremove, htakes⟩

/-- What a removal meets was there at the start, and what it leaves is all that can be there in the
end. -/
theorem Removes.within (hquiet : s.Quiet) (h : Removes s q source roots w r) :
    Within r.before w.files ∧ Within (worldAfter (find s q source roots w)).files r.after := by
  induction h with
  | @here root roots w w₀ w₁ v filter found earlier later m files hdelete hfilter hwalk hfound
      hlater hremove =>
    have hdiscover : discover s q source root w = .ok found w₁ :=
      (Search.bind_ok hfilter).trans hwalk
    have hfiles := discover_readOnly (q := q) hquiet source root w
    rw [hdiscover] at hfiles
    have hbefore : Within v.files w₁.files := Delete.within_removePaths hlater
    refine ⟨hfiles ▸ hbefore, ?_⟩
    have hdeleted : Within (worldAfter (deleteFound s (found.map Entry.path) w₁)).files files := by
      rw [hfound, deleteFound, List.map_append, List.map_cons, List.reverse_append,
        List.reverse_cons, List.append_assoc]
      exact Delete.within_removePaths_of_removeNode hlater hremove
    have hroot : Within (worldAfter (findRoot s q source root w)).files files := by
      rw [findRoot_eq, Search.bind_ok hdiscover, dispose, hdelete, if_pos rfl]
      exact (Search.within_bind (fun _ => (Search.ReadOnly.pure _).onlyTakes) w₁).trans hdeleted
    have hrest (here : Nat) := (onlyTakes_find hquiet q source roots).bind fun there =>
      (Search.ReadOnly.pure (here + there)).onlyTakes
    exact (Search.within_bind hrest w).trans hroot
  | @there root roots w v n r hroot h ih =>
    have hfirst := onlyTakes_findRoot hquiet q source root w
    rw [hroot] at hfirst
    refine ⟨ih.1.trans hfirst, ?_⟩
    rw [find, Search.bind_ok hroot]
    exact (Search.within_bind (fun there => (Search.ReadOnly.pure (n + there)).onlyTakes) v).trans
      ih.2

/-- With nobody else at work, a search takes away what its removals take away, and nothing else. -/
theorem find_takes_iff (hquiet : s.Quiet) :
    Takes w.files (worldAfter (find s q source roots w)).files l ↔
      ∃ r, Removes s q source roots w r ∧ Takes r.before r.after l := by
  constructor
  · intro h
    induction roots generalizing w with
    | nil => exact absurd h (Takes.irrefl _ _)
    | cons root roots ih =>
      rcases Search.takes_bind h with h | ⟨n, v, hroot, h⟩
      · exact findRoot_takes hquiet h
      · rcases Search.takes_bind h with h | ⟨there, u, -, h⟩
        · obtain ⟨r, hr, htakes⟩ := ih h
          exact ⟨r, .there hroot hr, htakes⟩
        · exact absurd h (Takes.irrefl _ _)
  · rintro ⟨r, hr, htakes⟩
    obtain ⟨hbefore, hafter⟩ := hr.within hquiet
    exact htakes.mono hbefore hafter

end FileSearch
