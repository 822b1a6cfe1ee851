import FileSearch.Proofs.Path.Resolution
import FileSearch.Proofs.Walk.Items

/-!
Paths below a root. Whatever the root is, a link on the way to it or dots in it included, the paths
of what stands below it lead down the tree, because no link stands between a directory and what it
lists.
Main statements: such a path names what stands under its names below the root, and what holds it is
what stands under all names but the last.
-/

namespace FileSearch.FileSystem

open Walk (pathAt)

variable {fs : FileSystem} {cwd top dir : Location} {root : Text} {names : List Name} {n : Name}

/-- What holds an entry is there. -/
theorem isSome_of_cons (h : (fs.get? (n :: dir)).isSome) : (fs.get? dir).isSome := by
  obtain ⟨node, hnode⟩ := Option.isSome_iff_exists.1 h
  obtain ⟨parent, hparent, -⟩ := isDirectory_iff.1 (isDirectory_of_get? hnode)
  simp [hparent]

/-- A path that can be asked for names what stands under its names below the root. -/
theorem locate_below (hroot : root ≠ []) (htop : fs.locate cwd false root = .ok top)
    (hstands : names ≠ [] → (fs.get? (names.reverse ++ top)).isSome)
    (hcheck : checkPath (pathAt root names) = .ok ()) :
    fs.locate cwd false (pathAt root names) = .ok (names.reverse ++ top) := by
  induction names using List.reverseRecOn with
  | nil => exact htop
  | append_singleton names n ih =>
    have hne := Walk.pathAt_ne_nil hroot names
    have hlast : (fs.get? (n :: (names.reverse ++ top))).isSome := by
      simpa using hstands (by simp)
    rw [Walk.pathAt_concat hroot] at hcheck ⊢
    have hparent := ih (fun _ => isSome_of_cons hlast) (checkPath_of_joinPath hne hcheck)
    have hlead := leadsTo_of_locate hparent (nodeAt_directory_of_isSome hlast)
    exact (locate_joinPath_eq_ok_iff hne).2 ⟨hcheck, _, hlead, hlast, by simp⟩

/-- What holds the entry that a path names is what stands under all names but the last. -/
theorem locateParent_below (hroot : root ≠ []) (htop : fs.locate cwd false root = .ok top)
    (hstands : (fs.get? (n :: (names.reverse ++ top))).isSome)
    (hcheck : checkPath (pathAt root (names ++ [n])) = .ok ()) :
    fs.locateParent cwd (pathAt root (names ++ [n])) = .ok (names.reverse ++ top, some n.text) := by
  have hne := Walk.pathAt_ne_nil hroot names
  rw [Walk.pathAt_concat hroot] at hcheck ⊢
  have hparent := locate_below hroot htop (fun _ => isSome_of_cons hstands)
    (checkPath_of_joinPath hne hcheck)
  have hlead := leadsTo_of_locate hparent (nodeAt_directory_of_isSome hstands)
  exact (locateParent_joinPath_eq_ok_iff hne).2 ⟨hcheck, hlead, rfl⟩

end FileSearch.FileSystem
