import FileSearch.Entry
import FileSearch.FileSystem.Lookup
import Mathlib.Data.List.Induction

/-!
The steps that a path spells. A path and a name joined to it spell the steps of the path and then
the name, whatever slashes stand at the end of the path.
Main statements: the steps of a joined path, where its walk starts, and that the base name is the
last component.
-/

namespace FileSearch

/-- The segments of a path that are not empty. -/
def components (path : Text) : List Text := (segments path).filter (!·.isEmpty)

theorem steps_eq (path : Text) :
    steps path = components path ++ if endsWith path '/' then [['.']] else [] := rfl

theorem segments_append_slash (s t : Text) :
    segments (s ++ '/' :: t) = segments s ++ segments t := by
  simp only [segments]
  induction s with
  | nil => simp [splitWhere]
  | cons c r ih =>
    obtain ⟨u, us, hu⟩ := List.exists_cons_of_ne_nil (splitWhere_ne_nil (· == '/') r)
    rw [hu] at ih
    by_cases hc : c = '/'
    · simp [splitWhere, hc, hu, ih]
    · simp [splitWhere, hc, hu, ih]

theorem components_append_slash (s t : Text) :
    components (s ++ '/' :: t) = components s ++ components t := by
  rw [components, segments_append_slash, List.filter_append]
  rfl

theorem segments_of_slash_not_mem {t : Text} (h : '/' ∉ t) : segments t = [t] := by
  simp only [segments]
  induction t with
  | nil => rfl
  | cons c r ih =>
    simp only [List.mem_cons, not_or] at h
    simp [splitWhere, ih h.2, Ne.symm h.1]

theorem segments_text (n : Name) : segments n.text = [n.text] :=
  segments_of_slash_not_mem n.slash_not_mem

@[simp] theorem components_text (n : Name) : components n.text = [n.text] := by
  simp [components, segments_text, n.text_ne_nil]

theorem endsWith_iff {t : Text} {c : Char} : endsWith t c ↔ ∃ s, t = s ++ [c] := by
  rw [endsWith, beq_iff_eq, List.getLast?_eq_some_iff]

@[simp] theorem endsWith_text (n : Name) : endsWith n.text '/' = false := by
  rw [Bool.eq_false_iff]
  intro h
  obtain ⟨s, hs⟩ := endsWith_iff.1 h
  exact n.slash_not_mem (by simp [hs])

/-- A path that ends in a name does not end in a slash. -/
@[simp] theorem endsWith_append_text (t : Text) (n : Name) :
    endsWith (t ++ n.text) '/' = false := by
  have h := endsWith_text n
  rw [endsWith] at h ⊢
  rwa [List.getLast?_append, List.getLast?_eq_some_getLast n.text_ne_nil, Option.some_or,
    ← List.getLast?_eq_some_getLast]

/-! ### Joined paths -/

theorem joinPath_eq_or (path : Text) (n : Name) :
    joinPath path n.text = path ++ n.text ∨ joinPath path n.text = path ++ '/' :: n.text := by
  unfold joinPath
  split
  · exact .inl rfl
  · exact .inr rfl

theorem nul_not_mem_joinPath {path name : Text} (hpath : '\x00' ∉ path) (hname : '\x00' ∉ name) :
    '\x00' ∉ joinPath path name := by
  unfold joinPath
  split <;> simp [hpath, hname]

theorem components_joinPath (path : Text) (n : Name) :
    components (joinPath path n.text) = components path ++ [n.text] := by
  unfold joinPath
  split
  · rename_i h
    rcases Bool.or_eq_true _ _ ▸ h with h | h
    · simp [List.isEmpty_iff.1 h, components, segments, splitWhere, n.text_ne_nil,
        show splitWhere (· == '/') n.text = [n.text] from segments_text n]
    · obtain ⟨s, rfl⟩ := endsWith_iff.1 h
      rw [List.append_assoc, List.singleton_append, components_append_slash,
        components_append_slash, components_text]
      simp [components, segments, splitWhere]
  · rw [components_append_slash, components_text]

@[simp] theorem endsWith_joinPath (path : Text) (n : Name) :
    endsWith (joinPath path n.text) '/' = false := by
  rcases joinPath_eq_or path n with h | h <;> rw [h]
  · exact endsWith_append_text path n
  · have := endsWith_append_text (path ++ ['/']) n
    rwa [List.append_assoc, List.singleton_append] at this

theorem steps_joinPath (path : Text) (n : Name) :
    steps (joinPath path n.text) = components path ++ [n.text] := by
  simp [steps_eq, components_joinPath]

/-- The walk of a joined path starts where that of the path does. -/
theorem startOf_joinPath {path : Text} (hpath : path ≠ []) (dir : Location) (n : Name) :
    startOf dir (joinPath path n.text) = startOf dir path := by
  obtain ⟨c, r, rfl⟩ := List.exists_cons_of_ne_nil hpath
  rcases joinPath_eq_or (c :: r) n with h | h <;> rw [h, List.cons_append]
  · by_cases hc : c = '/' <;> simp [startOf, hc]
  · by_cases hc : c = '/' <;> simp [startOf, hc]

/-! ### Base names -/

theorem dropTrailing_concat (p : Char → Bool) (t : Text) (c : Char) :
    dropTrailing p (t ++ [c]) = if p c then dropTrailing p t else t ++ [c] := by
  simp only [dropTrailing, List.reverse_append, List.reverse_singleton, List.singleton_append,
    List.dropWhile_cons]
  split <;> simp

/-- The last segment of a path that does not end in a slash. -/
theorem segments_concat {c : Char} (hc : c ≠ '/') (t : Text) :
    ∃ init last, segments (t ++ [c]) = init ++ [last ++ [c]] := by
  simp only [segments]
  induction t with
  | nil => exact ⟨[], [], by simp [splitWhere, hc]⟩
  | cons d t ih =>
    obtain ⟨init, last, heq⟩ := ih
    by_cases hd : d = '/'
    · exact ⟨[] :: init, last, by simp [splitWhere, hd, heq]⟩
    · cases init with
      | nil => exact ⟨[], d :: last, by simp_all [splitWhere]⟩
      | cons s init => exact ⟨(d :: s) :: init, last, by simp [splitWhere, hd, heq]⟩

theorem components_concat_slash (t : Text) : components (t ++ ['/']) = components t := by
  rw [components_append_slash, show components [] = [] from rfl, List.append_nil]

/-- The base name is the last component; a path without one is its own base name. -/
theorem baseName_eq (path : Text) : baseName path = (components path).getLast?.getD path := by
  have hlast (t : Text) : (components t).getLast? =
      (segments (dropTrailing (· == '/') t)).getLast?.filter (!·.isEmpty) := by
    induction t using List.reverseRecOn with
    | nil => rfl
    | append_singleton t c ih =>
      rw [dropTrailing_concat]
      by_cases hc : c = '/'
      · subst hc
        rw [components_concat_slash, ih]
        rfl
      · obtain ⟨init, last, heq⟩ := segments_concat hc t
        have hcomp : components (t ++ [c]) = init.filter (!·.isEmpty) ++ [last ++ [c]] := by
          rw [components, heq, List.filter_append]
          simp
        rw [if_neg (by simpa using hc), hcomp, heq, List.getLast?_concat, List.getLast?_concat]
        cases last <;> rfl
  rw [hlast, baseName]
  cases (segments (dropTrailing (· == '/') path)).getLast? with
  | none => rfl
  | some last => cases last <;> rfl

namespace FileSystem

theorem checkPath_eq_ok_iff {path : Text} :
    checkPath path = .ok () ↔ '\x00' ∉ path ∧ path ≠ [] ∧ byteLength path < maxPathBytes := by
  unfold checkPath
  split
  · simp_all
  · split
    · simp_all
    · split
      · simp_all
      · simp_all

/-- What can be asked of an entry of a directory can be asked of the directory. -/
theorem checkPath_of_joinPath {path : Text} (hpath : path ≠ []) {n : Name}
    (h : checkPath (joinPath path n.text) = .ok ()) : checkPath path = .ok () := by
  rw [checkPath_eq_ok_iff] at h ⊢
  rcases joinPath_eq_or path n with hj | hj <;> rw [hj] at h
  · obtain ⟨hnul, -, hlen⟩ := h
    simp only [List.mem_append, not_or] at hnul
    rw [byteLength_append] at hlen
    exact ⟨hnul.1, hpath, by omega⟩
  · obtain ⟨hnul, -, hlen⟩ := h
    simp only [List.mem_append, not_or] at hnul
    rw [byteLength_append] at hlen
    exact ⟨hnul.1, hpath, by omega⟩

end FileSystem

end FileSearch
