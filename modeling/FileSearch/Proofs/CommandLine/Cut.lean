import FileSearch.Proofs.CommandLine.Execution

/-!
The parts of an argument list. Put one after the other they are the list again, with two dashes
between the options and the rest, or without.
Main statement: what options, paths and an expression look like leaves one way to cut a list, and
this is the way it is cut. Nothing that begins with a dash becomes a root, and what begins with two
dashes and comes after the options belongs to the expression.
-/

namespace FileSearch

namespace Arguments

variable {args options sep rest paths expression before after : List Text} {arg : Text}
  {cut : Arguments}

/-- The argument begins with a dash, or is an exclamation mark or a parenthesis. -/
def OpensExpression (arg : Text) : Prop :=
  ['-'] <+: arg ∨ arg = ['!'] ∨ arg = ['('] ∨ arg = [')']

/-- The list starts with options and perhaps the dashes that end them, and the rest follows. -/
structure EndsOptions (args options sep rest : List Text) : Prop where
  whole : args = options ++ sep ++ rest
  separator : sep = [] ∨ sep = [['-', '-']]
  options : ∀ arg ∈ options, ['-', '-'] <+: arg ∧ arg ≠ ['-', '-']
  unseparated : sep = [] → ∀ arg ∈ rest.head?, ¬ ['-', '-'] <+: arg

/-- The list is made of the parts, with the separator after the options. -/
structure IsCut (args sep : List Text) (cut : Arguments) : Prop where
  whole : args = cut.options ++ sep ++ cut.paths ++ cut.expression
  separator : sep = [] ∨ sep = [['-', '-']]
  options : ∀ arg ∈ cut.options, ['-', '-'] <+: arg ∧ arg ≠ ['-', '-']
  separated : args[cut.options.length]? = some ['-', '-'] → sep = [['-', '-']]
  unseparated : sep = [] → ∀ arg ∈ (cut.paths ++ cut.expression).head?, ¬ ['-', '-'] <+: arg
  paths : ∀ arg ∈ cut.paths, ¬ OpensExpression arg
  expression : ∀ arg ∈ cut.expression.head?, OpensExpression arg

theorem isLongOption_iff : isLongOption arg = true ↔ ['-', '-'] <+: arg :=
  List.isPrefixOf_iff_prefix

theorem startsExpression_iff : startsExpression arg = true ↔ OpensExpression arg := by
  have hdash : arg.head? = some '-' ↔ ['-'] <+: arg := by
    cases arg with
    | nil => simp
    | cons c cs => simp [eq_comm]
  simp only [startsExpression, OpensExpression, Bool.or_eq_true, beq_iff_eq, hdash]
  tauto

/-- What could be an option could start an expression. -/
theorem opensExpression_of_dashes (h : ['-', '-'] <+: arg) : OpensExpression arg :=
  .inl ((List.prefix_append ['-'] ['-']).trans h)

/-! ### Options -/

/-- Two dashes right after the options are the separator. -/
theorem EndsOptions.separated (h : EndsOptions args options sep rest)
    (hnext : args[options.length]? = some ['-', '-']) : sep = [['-', '-']] := by
  refine h.separator.resolve_left fun hnone => ?_
  rw [h.whole, hnone, List.append_nil, List.getElem?_append_right (Nat.le_refl _), Nat.sub_self,
    ← List.head?_eq_getElem?] at hnext
  exact h.unseparated hnone _ hnext List.prefix_rfl

/-- Options are taken off until the first argument that is none. -/
theorem splitOptions_of_endsOptions (h : EndsOptions args options sep rest) :
    splitOptions args = (options, rest) := by
  obtain ⟨rfl, hseparator, hoptions, hunseparated⟩ := h
  induction options with
  | nil =>
    rcases hseparator with rfl | rfl
    · cases rest with
      | nil => rfl
      | cons arg rest =>
        have hno : ¬ ['-', '-'] <+: arg := hunseparated rfl arg rfl
        have hdashes : arg ≠ ['-', '-'] := by
          rintro rfl
          exact hno List.prefix_rfl
        rw [List.append_nil, List.nil_append, splitOptions, if_neg hdashes,
          if_neg (mt isLongOption_iff.1 hno)]
    · rfl
  | cons arg options ih =>
    obtain ⟨⟨hlong, hdashes⟩, hoptions⟩ := List.forall_mem_cons.1 hoptions
    rw [List.cons_append, List.cons_append, splitOptions, if_neg hdashes,
      if_pos (isLongOption_iff.2 hlong), ih hoptions]

theorem exists_endsOptions (args : List Text) :
    ∃ sep, EndsOptions args (splitOptions args).1 sep (splitOptions args).2 := by
  induction args with
  | nil => exact ⟨[], rfl, .inl rfl, List.forall_mem_nil _, fun _ => nofun⟩
  | cons arg args ih =>
    rw [splitOptions]
    split
    · rename_i hdashes
      exact ⟨[['-', '-']], by rw [hdashes]; rfl, .inr rfl, List.forall_mem_nil _, nofun⟩
    · rename_i hdashes
      split
      · rename_i hlong
        obtain ⟨sep, hwhole, hseparator, hoptions, hunseparated⟩ := ih
        exact ⟨sep, congrArg (arg :: ·) hwhole, hseparator,
          List.forall_mem_cons.2 ⟨⟨isLongOption_iff.1 hlong, hdashes⟩, hoptions⟩, hunseparated⟩
      · rename_i hlong
        refine ⟨[], rfl, .inl rfl, List.forall_mem_nil _, fun _ first hfirst => ?_⟩
        obtain rfl : arg = first := Option.some.inj hfirst
        exact mt isLongOption_iff.2 hlong

/-! ### Paths -/

theorem splitPaths_append (hpaths : ∀ arg ∈ paths, ¬ OpensExpression arg)
    (hexpression : ∀ arg ∈ expression.head?, OpensExpression arg) :
    splitPaths (paths ++ expression) = (paths, expression) := by
  have hall : ∀ arg ∈ paths, (!startsExpression arg) = true := by
    intro arg harg
    simpa using mt startsExpression_iff.1 (hpaths arg harg)
  rw [splitPaths, List.span_eq_takeWhile_dropWhile, List.takeWhile_append_of_pos hall,
    List.dropWhile_append_of_pos hall]
  cases expression with
  | nil => simp
  | cons first rest =>
    have hstarts : startsExpression first = true := startsExpression_iff.2 (hexpression first rfl)
    simp [hstarts]

theorem splitPaths_result (args : List Text) :
    (splitPaths args).1 ++ (splitPaths args).2 = args ∧
      (∀ arg ∈ (splitPaths args).1, ¬ OpensExpression arg) ∧
      ∀ arg ∈ (splitPaths args).2.head?, OpensExpression arg := by
  rw [splitPaths, List.span_eq_takeWhile_dropWhile]
  refine ⟨List.takeWhile_append_dropWhile, fun arg harg => ?_, fun arg harg => ?_⟩
  · have hall := List.all_takeWhile (p := fun arg => !startsExpression arg) (l := args)
    have hno := List.all_eq_true.1 hall arg harg
    rw [← startsExpression_iff]
    simpa using hno
  · have hstop := List.head?_dropWhile_not (fun arg => !startsExpression arg) args
    rw [harg] at hstop
    rw [← startsExpression_iff]
    simpa using hstop

/-! ### The whole list -/

theorem IsCut.endsOptions (h : IsCut args sep cut) :
    EndsOptions args cut.options sep (cut.paths ++ cut.expression) :=
  ⟨by rw [h.whole, List.append_assoc _ cut.paths], h.separator, h.options, h.unseparated⟩

/-- There is one way to cut a list. -/
theorem IsCut.eq_ofList (h : IsCut args sep cut) : cut = ofList args := by
  simp only [ofList, splitOptions_of_endsOptions h.endsOptions,
    splitPaths_append h.paths h.expression]

theorem EndsOptions.isCut
    (h : EndsOptions args cut.options sep (cut.paths ++ cut.expression))
    (hpaths : ∀ arg ∈ cut.paths, ¬ OpensExpression arg)
    (hexpression : ∀ arg ∈ cut.expression.head?, OpensExpression arg) : IsCut args sep cut where
  whole := by rw [h.whole, List.append_assoc _ cut.paths]
  separator := h.separator
  options := h.options
  separated := h.separated
  unseparated := h.unseparated
  paths := hpaths
  expression := hexpression

theorem exists_isCut_ofList (args : List Text) : ∃ sep, IsCut args sep (ofList args) := by
  obtain ⟨sep, hends⟩ := exists_endsOptions args
  obtain ⟨hrest, hpaths, hexpression⟩ := splitPaths_result (splitOptions args).2
  rw [← hrest] at hends
  have hcut : IsCut args sep (ofList args) := hends.isCut hpaths hexpression
  exact ⟨sep, hcut⟩

/-- The paths are among the arguments. -/
theorem mem_of_mem_paths (h : arg ∈ (ofList args).paths) : arg ∈ args := by
  obtain ⟨sep, hcut⟩ := exists_isCut_ofList args
  rw [hcut.whole]
  simp [h]

/-- After the options, what cannot be a path belongs to the expression. -/
theorem IsCut.suffix_expression (h : IsCut args sep cut) (hargs : args = before ++ arg :: after)
    (harg : OpensExpression arg) (hbefore : ¬ before <+: cut.options) :
    arg :: after <:+ cut.expression := by
  have hrest : ∃ before', cut.paths ++ cut.expression = before' ++ arg :: after := by
    have hwhole := h.endsOptions.whole.symm.trans hargs
    rw [List.append_assoc] at hwhole
    rcases List.append_eq_append_iff.1 hwhole with ⟨before', rfl, hrest⟩ | ⟨more, hoptions, -⟩
    · rcases h.separator with rfl | rfl
      · exact ⟨before', hrest⟩
      · rcases List.cons_eq_append_iff.1 hrest with ⟨rfl, -⟩ | ⟨before'', rfl, hrest⟩
        · exact absurd (by simp) hbefore
        · exact ⟨before'', (List.cons_eq_cons.1 hrest).2⟩
    · exact absurd ⟨more, hoptions.symm⟩ hbefore
  obtain ⟨before', hrest⟩ := hrest
  rcases List.append_eq_append_iff.1 hrest with ⟨before'', rfl, hexpression⟩ | ⟨more, hpaths, hmore⟩
  · exact ⟨before'', hexpression.symm⟩
  · cases more with
    | nil => exact ⟨[], hmore⟩
    | cons first more =>
      obtain ⟨rfl, -⟩ := List.cons_eq_cons.1 hmore
      exact absurd harg (h.paths arg (by simp [hpaths]))

end Arguments

open Arguments in
/-- A list is cut into its options, its paths and its expression in the one way that there is. Hence
no root begins with a dash. What begins with two dashes belongs to the expression with all that
follows, if two dashes or something that is no option come before it. -/
theorem arguments_cut_uniquely (args : List Text) :
    (∀ cut, (∃ sep, IsCut args sep cut) ↔ cut = ofList args) ∧
    (∀ root ∈ CommandLine.rootsOf (ofList args).paths, ¬ ['-'] <+: root) ∧
    ∀ before arg after, args = before ++ arg :: after → ['-', '-'] <+: arg →
      (∃ earlier ∈ before, earlier = ['-', '-'] ∨ ¬ ['-', '-'] <+: earlier) →
      arg :: after <:+ (ofList args).expression := by
  obtain ⟨sep, hcut⟩ := exists_isCut_ofList args
  refine ⟨fun cut => ⟨?_, ?_⟩, ?_, ?_⟩
  · rintro ⟨sep', hcut'⟩
    exact hcut'.eq_ofList
  · rintro rfl
    exact ⟨sep, hcut⟩
  · intro root hroot hdash
    unfold CommandLine.rootsOf at hroot
    split at hroot
    · obtain rfl := List.mem_singleton.1 hroot
      simp at hdash
    · exact hcut.paths root hroot (.inl hdash)
  · rintro before arg after hargs harg ⟨earlier, hmem, hearlier⟩
    refine hcut.suffix_expression hargs (opensExpression_of_dashes harg) fun hbefore => ?_
    obtain ⟨hlong, hdashes⟩ := hcut.options earlier (hbefore.subset hmem)
    exact hearlier.elim hdashes fun hnot => hnot hlong

/-- The second dashes are no separator. -/
theorem arguments_cut_uniquely_secondDashes :
    [['-', '-'], ['-', '-', 'x']] <:+
      (Arguments.ofList [['-', '-'], ['a'], ['-', 'd'], ['-', '-'], ['-', '-', 'x']]).expression :=
  (arguments_cut_uniquely _).2.2 [['-', '-'], ['a'], ['-', 'd']] ['-', '-'] [['-', '-', 'x']] rfl
    List.prefix_rfl ⟨['-', '-'], List.mem_cons_self, .inl rfl⟩

end FileSearch
