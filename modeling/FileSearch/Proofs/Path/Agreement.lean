import FileSearch.Proofs.Path.Resolution

/-!
Paths in a file system that has lost nodes. A path may lead nowhere any more, but if it still leads
somewhere, it leads where it led before.
Main statements: two file systems of which one lies within the other agree on every path that both
can follow, and a path that still leads to a directory names a real one if it did so before.
-/

namespace FileSearch.FileSystem

variable {fs fs' fs'' : FileSystem} {cwd l l' dir here : Location} {path : Text} {n : Name}
  {followLast : Bool} {way tail : List Text} {links : Nat}

/-- What stands in the first file system stands in the second one, with the same content. -/
def Within (fs' fs : FileSystem) : Prop :=
  ∀ l node', fs'.get? l = some node' → ∃ node, fs.get? l = some node ∧ node.body = node'.body

theorem Within.refl (fs : FileSystem) : Within fs fs := fun _ node' h => ⟨node', h, rfl⟩

theorem Within.trans (h : Within fs'' fs') (h' : Within fs' fs) : Within fs'' fs := by
  intro l node'' hnode''
  obtain ⟨node', hnode', hbody'⟩ := h l node'' hnode''
  obtain ⟨node, hnode, hbody⟩ := h' l node' hnode'
  exact ⟨node, hnode, hbody.trans hbody'⟩

/-! ### Walks that both can take -/

theorem walkTo_agree (hwithin : Within fs' fs) {a a' : Arrival}
    (h : fs.walkTo followLast here way = .ok a) (h' : fs'.walkTo followLast here way = .ok a') :
    a = a' := by
  induction way generalizing here with
  | nil =>
    rw [walkTo] at h h'
    cases h
    cases h'
    rfl
  | cons step rest ih =>
    rw [walkTo_cons] at h h'
    split at h
    · cases h
    split at h'
    · cases h'
    by_cases hdot : step = ['.']
    · rw [if_pos hdot] at h h'
      exact ih h h'
    by_cases hdots : step = ['.', '.']
    · rw [if_neg hdot, if_pos hdots] at h h'
      exact ih h h'
    rw [if_neg hdot, if_neg hdots] at h h'
    cases hname : Name.ofText? step with
    | none => simp [hname] at h
    | some name =>
      simp only [hname] at h h'
      cases hn' : fs'.get? (name :: here) with
      | none => simp [hn'] at h'
      | some node' =>
        obtain ⟨⟨body, modified⟩, hn, hbody⟩ := hwithin _ _ hn'
        obtain ⟨body', modified'⟩ := node'
        obtain rfl : body = body' := hbody
        cases body with
        | symlink target =>
          simp only [hn, hn'] at h h'
          exact Except.ok.inj (h.symm.trans h')
        | file | directory | special =>
          simp only [hn, hn'] at h h'
          exact ih h h'

theorem walkThrough_agree (hwithin : Within fs' fs)
    (h : fs.walkThrough followLast links here way = .ok l)
    (h' : fs'.walkThrough followLast links here way = .ok l') : l = l' := by
  induction links generalizing here way with
  | zero =>
    rw [walkThrough] at h h'
    cases hw : fs.walkTo followLast here way with
    | error f => simp [hw] at h
    | ok a =>
      cases hw' : fs'.walkTo followLast here way with
      | error f => simp [hw'] at h'
      | ok a' =>
        obtain rfl := walkTo_agree hwithin hw hw'
        cases a with
        | reached m =>
          simp only [hw, hw', Except.ok.injEq] at h h'
          exact h.symm.trans h'
        | atLink target dir rest => simp [hw] at h
  | succ links ih =>
    rw [walkThrough] at h h'
    cases hw : fs.walkTo followLast here way with
    | error f => simp [hw] at h
    | ok a =>
      cases hw' : fs'.walkTo followLast here way with
      | error f => simp [hw'] at h'
      | ok a' =>
        obtain rfl := walkTo_agree hwithin hw hw'
        cases a with
        | reached m =>
          simp only [hw, hw', Except.ok.injEq] at h h'
          exact h.symm.trans h'
        | atLink target dir rest =>
          simp only [hw, hw'] at h h'
          split at h
          · cases h
          · rw [if_neg ‹_›] at h'
            exact ih h h'

theorem locate_agree (hwithin : Within fs' fs) (h : fs.locate cwd followLast path = .ok l)
    (h' : fs'.locate cwd followLast path = .ok l') : l = l' := by
  unfold locate at h h'
  cases hc : checkPath path with
  | error f => simp [hc, bind, Except.bind] at h
  | ok u =>
    simp only [hc, bind, Except.bind] at h h'
    split at h
    · cases h
    split at h'
    · cases h'
    rename_i hw _ _ hw'
    cases h
    cases h'
    exact walkThrough_agree hwithin hw hw'

/-! ### The way to a directory -/

/-- Before the last part of a walk comes the first. -/
theorem walkThrough_of_append (htail : tail ≠ [])
    (h : fs.walkThrough followLast links here (way ++ tail) = .ok l) :
    ∃ mid left, fs.walkThrough true links here way = .ok mid ∧
      fs.walkThrough followLast left mid tail = .ok l := by
  induction links generalizing here way with
  | zero =>
    rw [walkThrough, walkTo_append fs followLast here way htail] at h
    cases hw : fs.walkTo true here way with
    | error f => simp [hw] at h
    | ok a =>
      cases a with
      | reached mid =>
        refine ⟨mid, 0, by rw [walkThrough, hw], ?_⟩
        rw [walkThrough]
        simpa [hw] using h
      | atLink target dir rest => simp [hw] at h
  | succ links ih =>
    rw [walkThrough, walkTo_append fs followLast here way htail] at h
    cases hw : fs.walkTo true here way with
    | error f => simp [hw] at h
    | ok a =>
      cases a with
      | reached mid =>
        refine ⟨mid, links + 1, by rw [walkThrough, hw], ?_⟩
        rw [walkThrough]
        simpa [hw] using h
      | atLink target dir rest =>
        simp only [hw] at h
        split at h
        · cases h
        · rw [← List.append_assoc] at h
          obtain ⟨mid, left, hmid, hrest⟩ := ih h
          refine ⟨mid, left, ?_, hrest⟩
          rw [walkThrough, hw]
          simp only
          rw [if_neg ‹_›, hmid]

/-- Whoever can take a name as a step stands in a directory that lists it. -/
theorem of_walkThrough_name (h : fs.walkThrough true links here [n.text] = .ok l) :
    (fs.nodeAt here).body = .directory ∧ (fs.get? (n :: here)).isSome := by
  have hstep : ∃ a, fs.walkTo true here [n.text] = .ok a := by
    cases hw : fs.walkTo true here [n.text] with
    | ok a => exact ⟨a, rfl⟩
    | error f =>
      rw [walkThrough, hw] at h
      cases h
  obtain ⟨a, ha⟩ := hstep
  rw [walkTo_cons] at ha
  simp only [n.ne_dot, n.ne_dotDot, if_false, Name.ofText?_text] at ha
  split at ha
  · cases ha
  · rename_i hdir
    refine ⟨by simpa using hdir, ?_⟩
    cases hn : fs.get? (n :: here) with
    | none => simp [hn] at ha
    | some node => rfl

/-- What leads to a directory leads through directories. -/
theorem leadsTo_of_joinPath (hpath : path ≠ []) (h : fs.LeadsTo cwd (joinPath path n.text) l) :
    ∃ dir, fs.LeadsTo cwd path dir ∧ (fs.get? (n :: dir)).isSome := by
  obtain ⟨hcheck, hsteps, -⟩ := leadsTo_iff.1 h
  rw [startOf_joinPath hpath, components_joinPath, locateSteps] at hsteps
  obtain ⟨dir, left, hdir, hlast⟩ := walkThrough_of_append (List.cons_ne_nil _ _) hsteps
  obtain ⟨hbody, hsome⟩ := of_walkThrough_name hlast
  exact ⟨dir, leadsTo_iff.2 ⟨checkPath_of_joinPath hpath hcheck, hdir, hbody⟩, hsome⟩

/-- What named a directory, and no link to one, still does if it still leads to a directory. -/
theorem isRealDirectory_of_within (hpath : path ≠ []) (hwithin : Within fs' fs)
    (h : fs.IsRealDirectory cwd (joinPath path n.text))
    (hlead : fs'.LeadsTo cwd (joinPath path n.text) l) :
    fs'.IsRealDirectory cwd (joinPath path n.text) := by
  obtain ⟨dir, hdir, hsome⟩ := leadsTo_of_joinPath hpath hlead
  have hcheck := (leadsTo_iff.1 hlead).1
  have hthere := (locate_joinPath_eq_ok_iff hpath).2 ⟨hcheck, dir, hdir, hsome, rfl⟩
  obtain ⟨m, hbefore, hbody⟩ := h
  obtain rfl := locate_agree hwithin hbefore hthere
  obtain ⟨node', hnode'⟩ := Option.isSome_iff_exists.1 hsome
  obtain ⟨node, hnode, hsame⟩ := hwithin _ _ hnode'
  refine ⟨_, hthere, ?_⟩
  rw [nodeAt_of_get? hnode', ← hsame, ← nodeAt_of_get? hnode]
  exact hbody

end FileSearch.FileSystem
