import FileSearch.Proofs.Query.Conjunction

/-!
The order of clauses. A query is told by the last value for each of its conditions and by which
switches occur. If no condition is set twice, the last value for it is the only one, wherever it
stands; and although deletion looks for an earlier wish to print, printing is on in the end if it is
asked for anywhere or nothing is deleted.
Main statement: an expression that sets no condition twice compiles to the same query with its
clauses in any other order.
-/

namespace FileSearch

/-- No condition is set by two of the clauses; switches may occur any number of times. -/
def SetOnce (clauses : List Clause) : Prop :=
  ∀ o : Operator, (clauses.filterMap (Clause.valueFor o.rivals)).length ≤ 1

variable {as bs : List Clause} {os : List Operator} {tokens tokens' : List Text} {q : Query}

/-- Tokens are made of clauses in one way only. -/
theorem flatMap_tokens_inj (h : as.flatMap Clause.tokens = bs.flatMap Clause.tokens) : as = bs := by
  have hnil {cs more : List Clause}
      (hmore : cs.flatMap Clause.tokens ++ more.flatMap Clause.tokens =
        cs.flatMap Clause.tokens ++ []) : more = [] := by
    cases more with
    | nil => rfl
    | cons c more =>
      exact absurd (List.append_eq_nil_iff.1 (List.append_cancel_left hmore)).1 c.tokens_ne_nil
  rcases readings_agree (congrArg (· ++ []) h) with ⟨more, rfl⟩ | ⟨more, rfl⟩
  · rw [List.flatMap_append] at h
    rw [hnil (h.symm.trans (List.append_nil _).symm), List.append_nil]
  · rw [List.flatMap_append] at h
    rw [hnil (h.trans (List.append_nil _).symm), List.append_nil]

/-- An expression made of clauses compiles if and only if they are valid. -/
theorem compile_flatMap_iff :
    compile (as.flatMap Clause.tokens) = .ok q ↔ (∀ c ∈ as, c.IsValid) ∧ q = .ofClauses as := by
  constructor
  · intro h
    obtain ⟨clauses, ⟨htokens, hvalid⟩, rfl⟩ := exists_reading_of_compile h
    rw [List.append_nil] at htokens
    obtain rfl := flatMap_tokens_inj htokens
    exact ⟨hvalid, rfl⟩
  · rintro ⟨hvalid, rfl⟩
    exact Reading.compile_eq_ok ⟨(List.append_nil _).symm, hvalid⟩

/-- Of at most one value, the last one is the same in every order. -/
theorem getLast?_eq_of_perm {α : Type} {l l' : List α} (h : l.Perm l') (hlength : l.length ≤ 1) :
    l.getLast? = l'.getLast? := by
  match l with
  | [] => rw [List.nil_perm.1 h]
  | [a] => rw [List.singleton_perm.1 h]
  | a :: b :: r => simp at hlength

theorem lastValue_perm {o : Operator} (hperm : as.Perm bs) (honce : SetOnce as)
    (hos : os ⊆ o.rivals) : lastValue os as = lastValue os bs := by
  have hfewer (c : Clause) (h : (c.valueFor os).isSome) : (c.valueFor o.rivals).isSome := by
    cases c with
    | switch s => exact h
    | valued o' value =>
      rw [Clause.valueFor] at h ⊢
      split at h
      · rename_i ho
        rw [if_pos (hos ho)]
        rfl
      · cases h
  refine getLast?_eq_of_perm (hperm.filterMap _) ?_
  calc (as.filterMap (Clause.valueFor os)).length
      = as.countP fun c => (c.valueFor os).isSome := List.length_filterMap_eq_countP
    _ ≤ as.countP fun c => (c.valueFor o.rivals).isSome :=
        List.countP_mono_left fun c _ => hfewer c
    _ = (as.filterMap (Clause.valueFor o.rivals)).length := List.length_filterMap_eq_countP.symm
    _ ≤ 1 := honce o

/-- Clauses that set no condition twice describe the same query in every order. -/
theorem Query.ofClauses_perm (hperm : as.Perm bs) (honce : SetOnce as) :
    Query.ofClauses as = .ofClauses bs := by
  have hname : lastValue [.name, .nameAnyCase] as = lastValue [.name, .nameAnyCase] bs :=
    lastValue_perm hperm honce (o := .name) (List.Subset.refl _)
  have hlast (o : Operator) : lastValue [o] as = lastValue [o] bs :=
    lastValue_perm hperm honce (o := o) (by cases o <;> simp [Operator.rivals])
  simp only [ofClauses, hperm.mem_iff, hname, hlast]

/-- Two expressions that are made of the same clauses in different orders, and set no condition
twice, compile to the same query, or neither of them compiles. -/
theorem compile_perm (htokens : tokens = as.flatMap Clause.tokens)
    (htokens' : tokens' = bs.flatMap Clause.tokens) (hperm : as.Perm bs) (honce : SetOnce as)
    (q : Query) : compile tokens = .ok q ↔ compile tokens' = .ok q := by
  rw [htokens, htokens', compile_flatMap_iff, compile_flatMap_iff,
    Query.ofClauses_perm hperm honce]
  simp only [hperm.mem_iff]

/-- Deletion before and after the wish to print, with a name between them and after both. -/
theorem compile_perm_printAndDelete :
    let as : List Clause :=
      [.switch .delete, .valued .nameAnyCase ['a'], .switch .print, .switch .delete]
    let bs : List Clause :=
      [.switch .print, .switch .delete, .switch .delete, .valued .nameAnyCase ['a']]
    let q : Query :=
      { namePattern := some ['a'], ignoreCase := true, explicitPrint := true, delete := true }
    as.Perm bs ∧ SetOnce as ∧
      compile ["-delete".toList, "-iname".toList, ['a'], "-print".toList, "-delete".toList] =
        .ok q ∧
      compile ["-print".toList, "-delete".toList, "-delete".toList, "-iname".toList, ['a']] =
        .ok q := by
  intro as bs q
  have hperm : as.Perm bs := by decide
  have honce : SetOnce as := by
    intro o
    cases o <;> decide
  have hfirst : compile (as.flatMap Clause.tokens) = .ok q := rfl
  exact ⟨hperm, honce, hfirst, (compile_perm rfl rfl hperm honce _).1 hfirst⟩

end FileSearch
