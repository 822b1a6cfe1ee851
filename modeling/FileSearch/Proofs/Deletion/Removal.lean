import FileSearch.Proofs.Path.Plain
import FileSearch.Search.Delete

/-!
Removing one node and then another. What a removal takes away is told by the locations that are
gone; everything else stands as it stood, but for the time at which a directory was last modified.
Main statements: taking out a node with nothing below it adds its location to those that are gone,
and removing what a plain path names takes it out, unless it is a directory with entries.
-/

namespace FileSearch

namespace FileSystem

variable {fs fs' : FileSystem} {stamp : Stamp} {gone : Location → Prop} {n : Name}
  {dir l : Location}

theorem get?_takeOut (fs : FileSystem) (stamp : Stamp) (n : Name) (dir m : Location) :
    (fs.takeOut stamp n dir).get? m =
      if n :: dir <:+ m then none
      else if m = dir then (fs.get? m).map ({ · with modified := stamp })
      else fs.get? m := by
  rw [takeOut, get?_touch, get?_remove (by simp)]
  by_cases hsuf : n :: dir <:+ m <;> simp [hsuf]

/-- The second file system is what is left of the first when the locations are gone. -/
structure Lost (stamp : Stamp) (fs fs' : FileSystem) (gone : Location → Prop) : Prop where
  absent : ∀ l, gone l → fs'.get? l = none
  touched : ∀ n l, ¬ gone l → gone (n :: l) →
    fs'.get? l = (fs.get? l).map ({ · with modified := stamp })
  kept : ∀ l, ¬ gone l → (∀ n, ¬ gone (n :: l)) → fs'.get? l = fs.get? l

namespace Lost

theorem refl (stamp : Stamp) (fs : FileSystem) : Lost stamp fs fs fun _ => False :=
  ⟨nofun, nofun, fun _ _ _ => rfl⟩

theorem congr {gone' : Location → Prop} (h : Lost stamp fs fs' gone)
    (hiff : ∀ l, gone l ↔ gone' l) : Lost stamp fs fs' gone' := by
  obtain rfl : gone = gone' := funext fun l => propext (hiff l)
  exact h

/-- What is not gone is of the same kind and has the same content. -/
theorem map_body (h : Lost stamp fs fs' gone) (hl : ¬ gone l) :
    (fs'.get? l).map Node.body = (fs.get? l).map Node.body := by
  by_cases hchild : ∃ n, gone (n :: l)
  · obtain ⟨n, hn⟩ := hchild
    rw [h.touched n l hl hn, Option.map_map]
    rfl
  · rw [h.kept l hl (not_exists.1 hchild)]

theorem isSome_iff (h : Lost stamp fs fs' gone) :
    (fs'.get? l).isSome ↔ (fs.get? l).isSome ∧ ¬ gone l := by
  by_cases hl : gone l
  · simp [h.absent l hl, hl]
  · have hbody := congrArg Option.isSome (h.map_body hl)
    simp only [Option.isSome_map] at hbody
    simp [hbody, hl]

theorem body_nodeAt (h : Lost stamp fs fs' gone) (hl : ¬ gone l) :
    (fs'.nodeAt l).body = (fs.nodeAt l).body := by
  have hsame := h.map_body hl
  unfold nodeAt
  cases hn : fs.get? l <;> cases hn' : fs'.get? l <;> simp_all

theorem isDirectory (h : Lost stamp fs fs' gone) (hl : ¬ gone l) (hdir : fs.isDirectory l) :
    fs'.isDirectory l := by
  obtain ⟨node, hnode, hbody⟩ := isDirectory_iff.1 hdir
  have hsame := h.map_body hl
  rw [hnode, Option.map_some, hbody, Option.map_eq_some_iff] at hsame
  exact isDirectory_iff.2 hsame

/-- What is lost first and what is lost then are lost together. -/
theorem trans {fs'' : FileSystem} {gone' : Location → Prop} (h : Lost stamp fs fs' gone)
    (h' : Lost stamp fs' fs'' gone') : Lost stamp fs fs'' fun l => gone l ∨ gone' l := by
  refine ⟨?_, ?_, ?_⟩
  · rintro l hl
    by_cases hl' : gone' l
    · exact h'.absent l hl'
    · have hnone := congrArg Option.isSome (h'.map_body hl')
      simpa [h.absent l (hl.resolve_right hl')] using hnone
  · intro n l hl hn
    obtain ⟨hl, hl'⟩ := not_or.1 hl
    by_cases hfirst : ∃ k, gone (k :: l)
    · obtain ⟨k, hk⟩ := hfirst
      by_cases hthen : ∃ k, gone' (k :: l)
      · -- the stamp is the same however often it is set
        obtain ⟨j, hj⟩ := hthen
        rw [h'.touched j l hl' hj, h.touched k l hl hk, Option.map_map]
        rfl
      · rw [h'.kept l hl' (not_exists.1 hthen), h.touched k l hl hk]
    · have hn := hn.resolve_left (not_exists.1 hfirst n)
      rw [h'.touched n l hl' hn, h.kept l hl (not_exists.1 hfirst)]
  · intro l hl hbelow
    obtain ⟨hl, hl'⟩ := not_or.1 hl
    rw [h'.kept l hl' fun n hn => hbelow n (.inr hn), h.kept l hl fun n hn => hbelow n (.inl hn)]

/-- What is left is told by what is gone. -/
theorem unique {fs'' : FileSystem} (h : Lost stamp fs fs' gone) (h' : Lost stamp fs fs'' gone)
    (l : Location) : fs'.get? l = fs''.get? l := by
  by_cases hl : gone l
  · rw [h.absent l hl, h'.absent l hl]
  · by_cases hchild : ∃ n, gone (n :: l)
    · obtain ⟨n, hn⟩ := hchild
      rw [h.touched n l hl hn, h'.touched n l hl hn]
    · rw [h.kept l hl (not_exists.1 hchild), h'.kept l hl (not_exists.1 hchild)]

/-- A node with nothing below it can be taken out as well. -/
theorem takeOut (h : Lost stamp fs fs' gone) (hbelow : ∀ k, fs'.get? (k :: n :: dir) = none) :
    Lost stamp fs (fs'.takeOut stamp n dir) fun l => l = n :: dir ∨ gone l := by
  have hnone : ∀ m, n :: dir <:+ m → m ≠ n :: dir → fs'.get? m = none := by
    rintro m ⟨more, rfl⟩ hne
    rcases List.eq_nil_or_concat more with rfl | ⟨ks, k, rfl⟩
    · exact absurd rfl hne
    · rw [List.concat_eq_append, List.append_assoc, List.singleton_append]
      by_cases hks : ks = []
      · simpa [hks] using hbelow k
      · by_contra hsome
        have hdir := isDirectory_of_get?_append hks (Option.isSome_iff_ne_none.2 hsome)
        obtain ⟨node, hnode, -⟩ := isDirectory_iff.1 hdir
        rw [hbelow k] at hnode
        cases hnode
  have hout : ∀ m, m ≠ n :: dir → m ≠ dir → (fs'.takeOut stamp n dir).get? m = fs'.get? m := by
    intro m hm hd
    rw [get?_takeOut, if_neg hd]
    split
    · rename_i hsuf
      exact (hnone m hsuf hm).symm
    · rfl
  have hself : ¬ n :: dir <:+ dir := by
    intro hsuf
    have := hsuf.length_le
    rw [List.length_cons] at this
    omega
  have hdir : (fs'.takeOut stamp n dir).get? dir =
      (fs'.get? dir).map ({ · with modified := stamp }) := by
    rw [get?_takeOut, if_neg hself, if_pos rfl]
  refine ⟨?_, ?_, ?_⟩
  · rintro m (rfl | hm)
    · rw [get?_takeOut, if_pos (List.suffix_refl _)]
    · have := h.absent m hm
      rw [get?_takeOut]
      split
      · rfl
      · simp [this]
  · intro k m hout' hk
    obtain ⟨hne, hm⟩ := not_or.1 hout'
    by_cases hmd : m = dir
    · subst hmd
      -- the stamp is the same however often it is set
      rw [hdir]
      by_cases hchild : ∃ j, gone (j :: m)
      · obtain ⟨j, hj⟩ := hchild
        rw [h.touched j m hm hj, Option.map_map]
        rfl
      · rw [h.kept m hm (not_exists.1 hchild)]
    · rw [hout m hne hmd]
      rcases hk with hk | hk
      · exact absurd (List.cons_eq_cons.1 hk).2 hmd
      · exact h.touched k m hm hk
  · intro m hout' hk
    obtain ⟨hne, hm⟩ := not_or.1 hout'
    have hmd : m ≠ dir := by
      rintro rfl
      exact hk n (.inl rfl)
    rw [hout m hne hmd]
    exact h.kept m hm fun k hgone => hk k (.inr hgone)

end Lost

/-- A path stays plain if nothing on the way to its last name is gone. -/
theorem isPlain_of_lost {cwd : Location} {absolute : Bool} {names : List Name} {path : Text}
    (hplain : IsPlain fs cwd absolute names path) (h : Lost stamp fs fs' gone)
    (hway : ∀ before, before <+: names → before ≠ names →
      ¬ gone (before.reverse ++ baseOf absolute cwd)) : IsPlain fs' cwd absolute names path :=
  ⟨hplain.ne_nil, hplain.text, fun before hpre hne =>
    h.isDirectory (hway before hpre hne) (hplain.straight before hpre hne)⟩

end FileSystem

namespace Delete

open FileSystem

variable {s : Setting} {absolute : Bool} {names : List Name} {n : Name}

/-- Removing what the path names takes it out of its directory, unless it is itself a directory with
entries. -/
def Addresses (s : Setting) (path : Text) (l : Location) : Prop :=
  ∃ n dir, l = n :: dir ∧ ∀ (files : FileSystem) (node : Node), files.get? l = some node →
    removeNode s files path =
      if node.body = .directory ∧ files.entries l ≠ [] then .error (.system .notEmpty path)
      else .ok (files.takeOut s.stamp n dir)

section Requests

variable {files files' : FileSystem} {cwd dir : Location} {now : Stamp} {path : Text} {node : Node}

theorem lookupIn_text (hnode : files.get? (n :: dir) = some node) :
    files.lookupIn dir n.text = .ok (n, node) := by
  simp [lookupIn, hnode]

theorem removeDirectory_eq (hparent : files.locateParent cwd path = .ok (dir, some n.text))
    (hnode : files.get? (n :: dir) = some node) :
    files.removeDirectory cwd now path =
      if node.body ≠ .directory then .error (.system .notDirectory path)
      else if files.entries (n :: dir) ≠ [] then .error (.system .notEmpty path)
      else .ok (files.takeOut now n dir) := by
  unfold removeDirectory
  simp only [hparent, bind, Except.bind]
  split
  · rename_i hstep
    cases hstep
  · rename_i hstep
    exact absurd (Option.some.inj hstep) n.ne_dot
  · rename_i hstep
    exact absurd (Option.some.inj hstep) n.ne_dotDot
  · rename_i step _ _ hstep
    obtain rfl := Option.some.inj hstep
    rw [lookupIn_text hnode]
    simp

theorem removeFile_eq (hparent : files.locateParent cwd path = .ok (dir, some n.text))
    (hnode : files.get? (n :: dir) = some node) :
    files.removeFile cwd now path =
      if node.body = .directory then .error (.system .isDirectory path)
      else if endsWith path '/' then .error (.system .notDirectory path)
      else .ok (files.takeOut now n dir) := by
  unfold removeFile
  simp only [hparent, bind, Except.bind]
  split
  · rename_i hstep
    cases hstep
  · rename_i hstep
    exact absurd (Option.some.inj hstep) n.ne_dot
  · rename_i hstep
    exact absurd (Option.some.inj hstep) n.ne_dotDot
  · rename_i step _ _ hstep
    obtain rfl := Option.some.inj hstep
    rw [lookupIn_text hnode]

theorem removeDirectory_inv (h : files.removeDirectory cwd now path = .ok files') :
    ∃ dir step n node, files.locateParent cwd path = .ok (dir, some step) ∧
      files.lookupIn dir step = .ok (n, node) ∧ files' = files.takeOut now n dir := by
  unfold removeDirectory at h
  cases hparent : files.locateParent cwd path with
  | error f => simp [hparent, bind, Except.bind] at h
  | ok p =>
    obtain ⟨dir, last⟩ := p
    simp only [hparent, bind, Except.bind] at h
    split at h
    · cases h
    · cases h
    · cases h
    · rename_i step _ _
      split at h
      · cases h
      · rename_i n node hlookup
        split at h
        · cases h
        split at h
        · cases h
        cases h
        exact ⟨dir, step, n, node, rfl, hlookup, rfl⟩

theorem removeFile_inv (h : files.removeFile cwd now path = .ok files') :
    ∃ dir step n node, files.locateParent cwd path = .ok (dir, some step) ∧
      files.lookupIn dir step = .ok (n, node) ∧ files' = files.takeOut now n dir := by
  unfold removeFile at h
  cases hparent : files.locateParent cwd path with
  | error f => simp [hparent, bind, Except.bind] at h
  | ok p =>
    obtain ⟨dir, last⟩ := p
    simp only [hparent, bind, Except.bind] at h
    split at h
    · cases h
    · cases h
    · cases h
    · rename_i step _ _
      split at h
      · cases h
      · rename_i n node hlookup
        split at h
        · cases h
        split at h
        · cases h
        cases h
        exact ⟨dir, step, n, node, rfl, hlookup, rfl⟩

/-- What a path names under a name in a directory can be removed by the path, unless it is itself a
directory with entries. -/
theorem removeNode_eq (hnode : files.get? (n :: dir) = some node)
    (hparent : files.locateParent s.cwd path = .ok (dir, some n.text))
    (hplace : files.locate s.cwd false path = .ok (n :: dir)) (hend : endsWith path '/' = false) :
    removeNode s files path =
      if node.body = .directory ∧ files.entries (n :: dir) ≠ [] then
        .error (.system .notEmpty path)
      else .ok (files.takeOut s.stamp n dir) := by
  have hnodeAt := nodeAt_of_get? hnode
  have hlink : files.isLink s.cwd path = decide (node.body.kind = some .symlink) := by
    rw [isLink, status, hplace, Except.map, hnodeAt]
  have hleads (hkind : node.body.kind ≠ some .symlink) :
      files.leadsToDirectory s.cwd path = decide (node.body = .directory) := by
    rw [leadsToDirectory, locate_true_of_false hplace (by rwa [hnodeAt])]
    simp only [hnodeAt]
  unfold removeNode
  by_cases hbody : node.body = .directory
  · have hkind : node.body.kind ≠ some .symlink := by simp [hbody, Body.kind]
    rw [hleads hkind, hlink, decide_eq_true hbody, decide_eq_false hkind, if_pos (by rfl),
      removeDirectory_eq hparent hnode]
    simp [hbody]
  · have hskip : (files.leadsToDirectory s.cwd path && !files.isLink s.cwd path) = false := by
      rw [hlink]
      by_cases hkind : node.body.kind = some .symlink
      · simp [hkind]
      · simp [hleads hkind, hbody]
    rw [hskip, if_neg Bool.false_ne_true, if_neg (fun h => hbody h.1), removeFile_eq hparent hnode,
      if_neg hbody, hend, if_neg Bool.false_ne_true]

/-- A removal takes the last step of the path out of the directory that the path leads to. -/
theorem removeNode_inv (h : removeNode s files path = .ok files') :
    ∃ dir step n node, files.locateParent s.cwd path = .ok (dir, some step) ∧
      files.lookupIn dir step = .ok (n, node) ∧ files' = files.takeOut s.stamp n dir := by
  unfold removeNode at h
  split at h
  · exact removeDirectory_inv h
  · exact removeFile_inv h

/-- Nothing is removed by a path that cannot be asked for. -/
theorem checkPath_of_removeNode (h : removeNode s files path = .ok files') :
    checkPath path = .ok () := by
  obtain ⟨dir, step, n, node, hparent, -, -⟩ := removeNode_inv h
  unfold locateParent at hparent
  cases hcheck : checkPath path with
  | ok u => rfl
  | error f => simp [hcheck, bind, Except.bind] at hparent

end Requests

/-- A path of plain names addresses the location it spells. -/
theorem addresses_spell (hne : names ≠ [])
    (hcheck : checkPath (spell absolute names) = .ok ()) :
    Addresses s (spell absolute names) (names.reverse ++ baseOf absolute s.cwd) := by
  obtain ⟨init, n, rfl⟩ := (List.eq_nil_or_concat names).resolve_left hne
  rw [List.concat_eq_append] at *
  refine ⟨n, init.reverse ++ baseOf absolute s.cwd, by simp, ?_⟩
  intro files node hnode
  have hnode' : files.get? (n :: (init.reverse ++ baseOf absolute s.cwd)) = some node := by
    simpa using hnode
  have hplace := locate_spell hne hcheck hnode (.inl rfl)
  simp only [List.reverse_append, List.reverse_singleton, List.cons_append] at hplace ⊢
  exact removeNode_eq hnode' (locateParent_spell hcheck hnode') hplace (endsWith_spell hne)

end Delete

end FileSearch
