import FileSearch.Proofs.Path.Resolution
import FileSearch.Proofs.Walk.Items
import Mathlib.Data.List.Induction
import Mathlib.Data.List.Infix

/-!
Paths of plain names: no dots, no empty segment, no slash at the end, and no link before the last
name. Such a path spells the location it names, and it does so as long as something stands there.
Main statements: where such a path is looked up, and that the paths of a walk are of this kind when
its root is.
-/

namespace FileSearch

/-- The path that the names spell, from the top or from the current directory. -/
def spell (absolute : Bool) (names : List Name) : Text :=
  (if absolute then ['/'] else []) ++ joinSegments (names.map Name.text)

/-- The location that a spelled path starts from. -/
def baseOf (absolute : Bool) (cwd : Location) : Location := if absolute then [] else cwd

/-- A path of plain names such that every proper prefix of it is a directory, and no link to one. -/
structure IsPlain (fs : FileSystem) (cwd : Location) (absolute : Bool) (names : List Name)
    (path : Text) : Prop where
  ne_nil : names ≠ []
  text : path = spell absolute names
  straight : ∀ before, before <+: names → before ≠ names →
    fs.isDirectory (before.reverse ++ baseOf absolute cwd)

variable {fs : FileSystem} {cwd : Location} {absolute : Bool} {names : List Name} {n : Name}

theorem isPlain_iff {path : Text} :
    IsPlain fs cwd absolute names path ↔ names ≠ [] ∧ path = spell absolute names ∧
      ∀ before ∈ names.inits, before ≠ names →
        fs.isDirectory (before.reverse ++ baseOf absolute cwd) := by
  simp only [List.mem_inits]
  exact ⟨fun ⟨hne, htext, hstraight⟩ => ⟨hne, htext, hstraight⟩,
    fun ⟨hne, htext, hstraight⟩ => ⟨hne, htext, hstraight⟩⟩

instance {path : Text} : Decidable (IsPlain fs cwd absolute names path) :=
  decidable_of_iff _ isPlain_iff.symm

theorem spell_eq (absolute : Bool) (names : List Name) :
    spell absolute names = (if absolute then ['/'] else []) ++ Walk.relAt names := rfl

theorem segments_relAt {names : List Name} (hne : names ≠ []) :
    segments (Walk.relAt names) = names.map Name.text := by
  induction names using List.reverseRecOn with
  | nil => exact absurd rfl hne
  | append_singleton ms m ih =>
    by_cases hms : ms = []
    · simp [hms, Walk.relAt, joinSegments, segments_text]
    · rw [Walk.relAt_concat_of_ne_nil m hms, segments_append_slash, ih hms, segments_text]
      simp

theorem components_relAt (names : List Name) :
    components (Walk.relAt names) = names.map Name.text := by
  by_cases hne : names = []
  · subst hne
    rfl
  · rw [components, segments_relAt hne, List.filter_eq_self]
    intro t ht
    obtain ⟨n, -, rfl⟩ := List.mem_map.1 ht
    simpa using n.text_ne_nil

/-- Different relative paths are shown differently. -/
theorem displayPath_injective {root rel rel' : Text}
    (h : displayPath root rel = displayPath root rel') : rel = rel' := by
  unfold displayPath at h
  by_cases hrel : rel = [] <;> by_cases hrel' : rel' = [] <;>
    by_cases hend : endsWith root '/' <;> simp_all

/-- Different names below a root make different paths. -/
theorem pathAt_injective {root : Text} {ms ns : List Name}
    (h : Walk.pathAt root ms = Walk.pathAt root ns) : ms = ns := by
  have htexts := congrArg components (displayPath_injective h)
  rw [components_relAt, components_relAt] at htexts
  exact (List.map_inj_right fun _ _ => Name.text_injective).1 htexts

theorem components_spell (absolute : Bool) (names : List Name) :
    components (spell absolute names) = names.map Name.text := by
  rw [spell_eq]
  cases absolute with
  | false => exact components_relAt names
  | true =>
    rw [if_pos rfl, List.singleton_append, ← List.nil_append ('/' :: _), components_append_slash,
      components_relAt]
    rfl

theorem spell_ne_nil (hne : names ≠ []) : spell absolute names ≠ [] := by
  rw [spell_eq]
  simp [Walk.relAt_ne_nil hne]

theorem endsWith_spell (hne : names ≠ []) : endsWith (spell absolute names) '/' = false := by
  have hend := Walk.endsWith_relAt names
  have hlast := List.getLast?_eq_some_getLast (Walk.relAt_ne_nil hne)
  rw [endsWith] at hend
  rwa [spell_eq, endsWith, List.getLast?_append, hlast, Option.some_or, ← hlast]

theorem steps_spell (hne : names ≠ []) : steps (spell absolute names) = names.map Name.text := by
  rw [steps_eq, components_spell, endsWith_spell hne, if_neg Bool.false_ne_true, List.append_nil]

theorem startOf_spell (hne : names ≠ []) :
    startOf cwd (spell absolute names) = baseOf absolute cwd := by
  cases absolute with
  | true => rfl
  | false =>
    obtain ⟨m, ms, rfl⟩ := List.exists_cons_of_ne_nil hne
    obtain ⟨c, r, hc⟩ := List.exists_cons_of_ne_nil m.text_ne_nil
    have hslash : c ≠ '/' := by
      rintro rfl
      exact m.slash_not_mem (by simp [hc])
    have hfirst : ∃ r', spell false (m :: ms) = c :: r' := by
      cases ms with
      | nil => exact ⟨r, by simp [spell, joinSegments, hc]⟩
      | cons k ks =>
        refine ⟨r ++ '/' :: joinSegments (k.text :: ks.map Name.text), ?_⟩
        simp [spell, joinSegments, hc]
    obtain ⟨r', hr'⟩ := hfirst
    rw [hr']
    simp [startOf, hslash, baseOf]

/-- A path and the names below it spell one longer path. -/
theorem pathAt_spell (hne : names ≠ []) (more : List Name) :
    Walk.pathAt (spell absolute names) more = spell absolute (names ++ more) := by
  induction more using List.reverseRecOn with
  | nil => simp
  | append_singleton ms m ih =>
    have hlong : names ++ ms ≠ [] := by simp [hne]
    rw [Walk.pathAt_concat (spell_ne_nil hne), ih, joinPath, endsWith_spell hlong,
      if_neg (by simp [spell_ne_nil hlong]), ← List.append_assoc, spell_eq, spell_eq,
      Walk.relAt_concat_of_ne_nil m hlong, List.append_assoc]

theorem nul_not_mem_spell (absolute : Bool) (names : List Name) :
    '\x00' ∉ spell absolute names := by
  have hrel := Walk.nul_not_mem_relAt names
  rw [spell_eq]
  cases absolute <;> simp [hrel]

namespace FileSystem

/-- Only its length can keep a path of plain names from being asked for. -/
theorem checkPath_spell (hne : names ≠ [])
    (hlen : byteLength (spell absolute names) < maxPathBytes) :
    checkPath (spell absolute names) = .ok () :=
  checkPath_eq_ok_iff.2 ⟨nul_not_mem_spell absolute names, spell_ne_nil hne, hlen⟩

/-- What stands where a path spells it is found there. -/
theorem locate_spell (hne : names ≠ []) (hcheck : checkPath (spell absolute names) = .ok ())
    {followLast : Bool} {node : Node}
    (hnode : fs.get? (names.reverse ++ baseOf absolute cwd) = some node)
    (hlink : followLast = false ∨ node.body.kind ≠ some .symlink) :
    fs.locate cwd followLast (spell absolute names) =
      .ok (names.reverse ++ baseOf absolute cwd) := by
  have hwalk : fs.walkThrough followLast maxLinks (startOf cwd (spell absolute names))
      (steps (spell absolute names)) = .ok (names.reverse ++ baseOf absolute cwd) := by
    rw [startOf_spell hne, steps_spell hne, walkThrough, walkTo_plain hnode hlink]
  unfold locate
  simp only [hcheck, hwalk, bind, Except.bind]

theorem locateParent_spell (hcheck : checkPath (spell absolute (names ++ [n])) = .ok ())
    {node : Node} (hnode : fs.get? (n :: (names.reverse ++ baseOf absolute cwd)) = some node) :
    fs.locateParent cwd (spell absolute (names ++ [n])) =
      .ok (names.reverse ++ baseOf absolute cwd, some n.text) := by
  obtain ⟨parent, hparent, hbody⟩ := isDirectory_iff.1 (isDirectory_of_get? hnode)
  have hcomp : (segments (spell absolute (names ++ [n]))).filter (!·.isEmpty) =
      names.map Name.text ++ [n.text] := by
    have := components_spell absolute (names ++ [n])
    rwa [components, List.map_append] at this
  have hwalk : fs.locateSteps (startOf cwd (spell absolute (names ++ [n]))) (names.map Name.text) =
      .ok (names.reverse ++ baseOf absolute cwd) := by
    rw [startOf_spell (by simp), locateSteps, walkThrough,
      walkTo_plain hparent (.inr (by simp [hbody, Body.kind]))]
  unfold locateParent
  simp only [hcheck, hcomp, List.dropLast_concat, List.getLast?_concat, hwalk, bind, Except.bind]
  rw [if_pos (by rw [nodeAt_of_get? hparent, hbody])]

/-- A walk along directories stays on the way that is spelled. -/
theorem walkTo_straight {here : Location} (hne : names ≠ [])
    (hstraight : ∀ before, before <+: names → before ≠ names →
      fs.isDirectory (before.reverse ++ here))
    {a : Arrival} (h : fs.walkTo false here (names.map Name.text) = .ok a) :
    a = .reached (names.reverse ++ here) ∧ (fs.get? (names.reverse ++ here)).isSome := by
  induction names generalizing here with
  | nil => exact absurd rfl hne
  | cons m ms ih =>
    rw [List.map_cons, walkTo_cons] at h
    simp only [m.ne_dot, m.ne_dotDot, if_false, Name.ofText?_text] at h
    split at h
    · cases h
    cases hm : fs.get? (m :: here) with
    | none => simp [hm] at h
    | some node =>
      by_cases hms : ms = []
      · subst hms
        obtain ⟨body, modified⟩ := node
        cases body <;> simp_all [walkTo]
      · have hdir : fs.isDirectory (m :: here) := by
          have := hstraight [m] (by simp) (by simpa using Ne.symm hms)
          simpa using this
        obtain ⟨node', hnode', hbody⟩ := isDirectory_iff.1 hdir
        obtain rfl := Option.some.inj (hm.symm.trans hnode')
        obtain ⟨body, modified⟩ := node
        simp only at hbody
        subst hbody
        simp only [hm] at h
        have := ih hms (fun before hpre hbefore => by
          have := hstraight (m :: before) (List.cons_prefix_cons.2 ⟨rfl, hpre⟩)
            (by simpa using hbefore)
          simpa using this) h
        simpa using this

/-- A plain path names the location it spells, and something stands there. -/
theorem locate_of_isPlain {path : Text} {l : Location} (hplain : IsPlain fs cwd absolute names path)
    (h : fs.locate cwd false path = .ok l) :
    l = names.reverse ++ baseOf absolute cwd ∧ (fs.get? l).isSome := by
  obtain ⟨hne, rfl, hstraight⟩ := hplain
  unfold locate at h
  cases hcheck : checkPath (spell absolute names) with
  | error f => simp [hcheck, bind, Except.bind] at h
  | ok u =>
    simp only [hcheck, bind, Except.bind, startOf_spell hne, steps_spell hne] at h
    rw [walkThrough] at h
    cases hwalk : fs.walkTo false (baseOf absolute cwd) (names.map Name.text) with
    | error f => simp [hwalk] at h
    | ok a =>
      obtain ⟨rfl, hsome⟩ := walkTo_straight hne hstraight hwalk
      simp only [hwalk] at h
      cases h
      exact ⟨rfl, hsome⟩

/-- What stands below a plain path is found under its names, whatever has become of the rest. -/
theorem locate_pathAt {fs' : FileSystem} {path : Text} {below : List Name} {node : Node}
    {followLast : Bool} (hplain : IsPlain fs cwd absolute names path)
    (hcheck : checkPath (Walk.pathAt path below) = .ok ())
    (hnode : fs'.get? (below.reverse ++ (names.reverse ++ baseOf absolute cwd)) = some node)
    (hlink : followLast = false ∨ node.body.kind ≠ some .symlink) :
    fs'.locate cwd followLast (Walk.pathAt path below) =
      .ok (below.reverse ++ (names.reverse ++ baseOf absolute cwd)) := by
  rw [← List.append_assoc, ← List.reverse_append] at hnode ⊢
  rw [hplain.text, pathAt_spell hplain.ne_nil] at hcheck ⊢
  exact locate_spell (by simp [hplain.ne_nil]) hcheck hnode hlink

/-- A plain path to a place where nothing stands leads to a directory that does not list its last
name. -/
theorem locate_of_absent {path : Text} (hplain : IsPlain fs cwd absolute names path)
    (hcheck : checkPath path = .ok ())
    (hnone : fs.get? (names.reverse ++ baseOf absolute cwd) = none) :
    fs.locate cwd false path = .error (.system .noEntry path) := by
  obtain ⟨hne, rfl, hstraight⟩ := hplain
  obtain ⟨init, n, rfl⟩ := (List.eq_nil_or_concat names).resolve_left hne
  rw [List.concat_eq_append] at *
  obtain ⟨dir, hdir, hbody⟩ :=
    isDirectory_iff.1 (hstraight init (List.prefix_append _ _) (by simp))
  have hway : fs.walkThrough true maxLinks (baseOf absolute cwd) (init.map Name.text) =
      .ok (init.reverse ++ baseOf absolute cwd) := by
    rw [walkThrough, walkTo_plain hdir (.inr (by simp [hbody, Body.kind]))]
  have hlast : fs.findName (init.reverse ++ baseOf absolute cwd) n = .error .noEntry := by
    rw [findName, nodeAt_of_get? hdir, if_neg (by simp [hbody]), if_pos (by simpa using hnone)]
  unfold locate
  simp only [hcheck, bind, Except.bind, startOf_spell hne, steps_spell hne, List.map_append,
    List.map_singleton, walkThrough_append (List.cons_ne_nil _ _) (walkThrough_name fs n), hway,
    hlast]

end FileSystem

end FileSearch
