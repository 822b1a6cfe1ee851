import FileSearch.Query.Compile

/-!
The grammar of expressions. An expression is a row of clauses: a switch alone, or an operator with
the token after it as its value, whatever that token is. A query is told by the clauses alone: each
of its conditions is that of the last clause of its kind.
Main statements: two readings of the same tokens agree, an expression compiles if and only if it is
made of clauses with values that their operators take, and any other expression is refused at the
first place where no such clause can be read.
-/

namespace FileSearch

/-- A part of an expression that is read in one piece. -/
inductive Clause where
  | switch (s : Switch)
  | valued (o : Operator) (value : Text)
  deriving DecidableEq, Repr

def Clause.tokens : Clause → List Text
  | .switch s => [s.spelling]
  | .valued o value => [o.spelling, value]

/-- The operator takes the value. -/
def Operator.Accepts (o : Operator) (value : Text) : Prop :=
  match o with
  | .name | .nameAnyCase | .path => True
  | .kind => value = ['f'] ∨ value = ['d'] ∨ value = ['l']
  | .maxDepth | .minDepth => ∃ n, readNumeral value = .ok n
  | .size => ∃ c, readSize value = .ok c
  | .age => ∃ c, readAge value = some c

/-- What is said of a value that the operator does not take. Of a size, the number is judged before
the unit. -/
inductive Operator.Refuses : Operator → Text → CompileError → Prop
  | value {o : Operator} {value : Text} (hvalue : ¬ o.Accepts value)
      (hnumber : o = .size → readSize value = .error .badNumber) : Refuses o value (.badValue o)
  | unit {value : Text} (hunit : readSize value = .error .badUnit) : Refuses .size value .badUnit

def Clause.IsValid : Clause → Prop
  | .switch _ => True
  | .valued o value => o.Accepts value

/-- No valid clause can be read at the beginning of the tokens. -/
inductive Unreadable : List Text → CompileError → Prop
  | missingValue (o : Operator) : Unreadable [o.spelling] (.missingValue o)
  | badValue {o : Operator} {value : Text} {rest : List Text} {e : CompileError}
      (hvalue : o.Refuses value e) : Unreadable (o.spelling :: value :: rest) e
  | emptyToken (rest : List Text) : Unreadable ([] :: rest) .emptyToken
  | unsupported {token : Text} {rest : List Text} (hne : token ≠ [])
      (hoperator : ∀ o : Operator, token ≠ o.spelling)
      (hswitch : ∀ s : Switch, token ≠ s.spelling) :
      Unreadable (token :: rest) (.unsupported token)

/-! ### The query of some clauses -/

/-- The value in the clause, if its operator is one of the given ones. -/
def Clause.valueFor (os : List Operator) : Clause → Option Text
  | .switch _ => none
  | .valued o value => if o ∈ os then some value else none

/-- The value in the last clause with one of the operators. -/
def lastValue (os : List Operator) (clauses : List Clause) : Option Text :=
  (clauses.filterMap (Clause.valueFor os)).getLast?

/-- The query that the clauses describe. -/
def Query.ofClauses (clauses : List Clause) : Query where
  namePattern := lastValue [.name, .nameAnyCase] clauses
  ignoreCase := (lastValue [.nameAnyCase] clauses).isSome
  pathPattern := lastValue [.path] clauses
  kind := (lastValue [.kind] clauses).bind Kind.ofLetter?
  emptyOnly := decide (.switch .empty ∈ clauses)
  maxDepth := (lastValue [.maxDepth] clauses).bind fun value => (readNumeral value).toOption
  minDepth := (lastValue [.minDepth] clauses).bind fun value => (readNumeral value).toOption
  size := (lastValue [.size] clauses).bind fun value => (readSize value).toOption
  age := (lastValue [.age] clauses).bind readAge
  print := decide (.switch .delete ∉ clauses ∨ .switch .print ∈ clauses)
  explicitPrint := decide (.switch .print ∈ clauses)
  delete := decide (.switch .delete ∈ clauses)

section Queries

variable {clauses : List Clause} {os : List Operator} {o : Operator} {s : Switch} {value : Text}

@[simp] theorem lastValue_concat_switch (os : List Operator) (clauses : List Clause) (s : Switch) :
    lastValue os (clauses ++ [.switch s]) = lastValue os clauses := by
  simp [lastValue, Clause.valueFor]

@[simp] theorem lastValue_concat_valued (os : List Operator) (clauses : List Clause) (o : Operator)
    (value : Text) :
    lastValue os (clauses ++ [.valued o value]) =
      if o ∈ os then some value else lastValue os clauses := by
  by_cases h : o ∈ os <;> simp [lastValue, Clause.valueFor, h]

theorem Switch.apply_ofClauses (s : Switch) (clauses : List Clause) :
    s.apply (.ofClauses clauses) = .ofClauses (clauses ++ [.switch s]) := by
  cases s <;> simp [Switch.apply, Query.ofClauses]

theorem Kind.exists_ofLetter?_iff :
    (∃ k, Kind.ofLetter? value = some k) ↔ value = ['f'] ∨ value = ['d'] ∨ value = ['l'] := by
  constructor
  · rintro ⟨k, hk⟩
    unfold Kind.ofLetter? at hk
    split at hk <;> simp_all
  · rintro (rfl | rfl | rfl) <;> exact ⟨_, rfl⟩

/-- An operator that takes the value adds its clause to the query. -/
theorem Operator.apply_eq_ok_iff {q : Query} :
    o.apply value (.ofClauses clauses) = .ok q ↔
      o.Accepts value ∧ q = .ofClauses (clauses ++ [.valued o value]) := by
  cases o with
  | name | nameAnyCase | path => simp [apply, Accepts, Query.ofClauses, eq_comm]
  | kind =>
    cases h : Kind.ofLetter? value <;>
      simp [apply, Accepts, Query.ofClauses, ← Kind.exists_ofLetter?_iff, h, eq_comm]
  | maxDepth | minDepth =>
    cases h : readNumeral value <;>
      simp [apply, Accepts, Query.ofClauses, h, eq_comm, Except.toOption]
  | size =>
    rcases h : readSize value with (_ | _) | c <;>
      simp [apply, Accepts, Query.ofClauses, h, eq_comm, Except.toOption]
  | age =>
    cases h : readAge value <;> simp [apply, Accepts, Query.ofClauses, h, eq_comm]

/-- What is said of a value depends on the value alone. -/
theorem Operator.apply_eq_error_iff {q : Query} {e : CompileError} :
    o.apply value q = .error e ↔ o.Refuses value e := by
  have hvalue (hsize : o ≠ .size) : o.Refuses value e ↔ ¬ o.Accepts value ∧ e = .badValue o := by
    constructor
    · rintro (⟨h, -⟩ | h)
      · exact ⟨h, rfl⟩
      · exact absurd rfl hsize
    · rintro ⟨h, rfl⟩
      exact .value h fun ho => absurd ho hsize
  cases o with
  | name | nameAnyCase | path => simp [hvalue, apply, Accepts]
  | kind =>
    cases h : Kind.ofLetter? value <;>
      simp [hvalue, apply, Accepts, ← Kind.exists_ofLetter?_iff, h, eq_comm]
  | maxDepth | minDepth => cases h : readNumeral value <;> simp [hvalue, apply, Accepts, h, eq_comm]
  | age => cases h : readAge value <;> simp [hvalue, apply, Accepts, h, eq_comm]
  | size =>
    constructor
    · intro he
      rcases h : readSize value with (_ | _) | c <;> simp only [apply, h] at he <;> cases he
      · exact .value (by simp [Accepts, h]) fun _ => h
      · exact .unit h
    · rintro (⟨-, h⟩ | h)
      · simp [apply, h rfl]
      · simp [apply, h]

theorem Operator.Refuses.not_accepts {e : CompileError} (h : o.Refuses value e) :
    ¬ o.Accepts value := by
  intro haccepts
  have hok : o.apply value (.ofClauses []) = .ok (.ofClauses [.valued o value]) :=
    apply_eq_ok_iff.2 ⟨haccepts, rfl⟩
  rw [apply_eq_error_iff.2 h] at hok
  cases hok

end Queries

/-! ### Reading -/

variable {tokens rest rest' : List Text} {clauses done as bs : List Clause} {c a b : Clause}
  {q : Query} {e : CompileError}

@[simp] theorem Operator.spelling_inj {o o' : Operator} : o.spelling = o'.spelling ↔ o = o' := by
  refine ⟨fun h => ?_, congrArg _⟩
  simpa only [Word.ofText_operator, Word.operator.injEq] using congrArg Word.ofText h

@[simp] theorem Switch.spelling_inj {s s' : Switch} : s.spelling = s'.spelling ↔ s = s' := by
  refine ⟨fun h => ?_, congrArg _⟩
  simpa only [Word.ofText_switch, Word.switch.injEq] using congrArg Word.ofText h

@[simp] theorem Operator.spelling_ne_switch (o : Operator) (s : Switch) :
    o.spelling ≠ s.spelling := by
  intro h
  have := congrArg Word.ofText h
  rw [Word.ofText_operator, Word.ofText_switch] at this
  cases this

theorem Switch.spelling_ne_operator (s : Switch) (o : Operator) : s.spelling ≠ o.spelling :=
  (o.spelling_ne_switch s).symm

@[simp] theorem Operator.spelling_ne_nil (o : Operator) : o.spelling ≠ [] := by
  cases o <;> decide

@[simp] theorem Switch.spelling_ne_nil (s : Switch) : s.spelling ≠ [] := by
  cases s <;> decide

theorem Clause.tokens_ne_nil (c : Clause) : c.tokens ≠ [] := by
  cases c <;> simp [Clause.tokens]

/-- The first token tells whether a value follows. -/
theorem Clause.tokens_append_inj (h : a.tokens ++ rest = b.tokens ++ rest') :
    a = b ∧ rest = rest' := by
  cases a <;> cases b <;> simp_all [Clause.tokens, Switch.spelling_ne_operator]

/-- Two readings of the same tokens agree as far as both go. -/
theorem readings_agree
    (h : as.flatMap Clause.tokens ++ rest = bs.flatMap Clause.tokens ++ rest') :
    as <+: bs ∨ bs <+: as := by
  induction as generalizing bs with
  | nil => exact .inl List.nil_prefix
  | cons a as ih =>
    cases bs with
    | nil => exact .inr List.nil_prefix
    | cons b bs =>
      rw [List.flatMap_cons, List.flatMap_cons, List.append_assoc, List.append_assoc] at h
      obtain ⟨rfl, htail⟩ := Clause.tokens_append_inj h
      exact (ih htail).imp (List.cons_prefix_cons.2 ⟨rfl, ·⟩) (List.cons_prefix_cons.2 ⟨rfl, ·⟩)

theorem compileOnto_clause (hvalid : c.IsValid) (done : List Clause) (rest : List Text) :
    compileOnto (.ofClauses done) (c.tokens ++ rest) =
      compileOnto (.ofClauses (done ++ [c])) rest := by
  cases c with
  | switch s =>
    rw [Clause.tokens, List.singleton_append, compileOnto, Word.ofText_switch,
      ← Switch.apply_ofClauses]
  | valued o value =>
    have happly : o.apply value (.ofClauses done) = .ok (.ofClauses (done ++ [.valued o value])) :=
      Operator.apply_eq_ok_iff.2 ⟨hvalid, rfl⟩
    simp only [Clause.tokens, List.cons_append, List.nil_append, compileOnto, Word.ofText_operator,
      happly]

/-- Valid clauses are read one after the other. -/
theorem compileOnto_clauses (hvalid : ∀ c ∈ clauses, c.IsValid) (done : List Clause)
    (rest : List Text) :
    compileOnto (.ofClauses done) (clauses.flatMap Clause.tokens ++ rest) =
      compileOnto (.ofClauses (done ++ clauses)) rest := by
  induction clauses generalizing done with
  | nil => simp
  | cons c clauses ih =>
    obtain ⟨hc, hclauses⟩ := List.forall_mem_cons.1 hvalid
    rw [List.flatMap_cons, List.append_assoc, compileOnto_clause hc, ih hclauses, List.append_assoc,
      List.singleton_append]

theorem Word.ofText_eq_unknown_iff {t : Text} :
    Word.ofText t = .unknown ↔
      (∀ o : Operator, t ≠ o.spelling) ∧ ∀ s : Switch, t ≠ s.spelling := by
  constructor
  · intro h
    refine ⟨?_, ?_⟩
    · rintro o rfl
      rw [Word.ofText_operator] at h
      cases h
    · rintro s rfl
      rw [Word.ofText_switch] at h
      cases h
  · rintro ⟨hoperator, hswitch⟩
    cases h : Word.ofText t with
    | operator o => exact absurd (Word.ofText_eq_operator h) (hoperator o)
    | switch s => exact absurd (Word.ofText_eq_switch h) (hswitch s)
    | unknown => rfl

theorem compileOnto_unreadable (h : Unreadable tokens e) (q : Query) :
    compileOnto q tokens = .error e := by
  cases h with
  | missingValue o => simp only [compileOnto, Word.ofText_operator]
  | badValue hvalue =>
    simp only [compileOnto, Word.ofText_operator, Operator.apply_eq_error_iff.2 hvalue]
  | emptyToken rest => rfl
  | unsupported hne hoperator hswitch =>
    rw [compileOnto, Word.ofText_eq_unknown_iff.2 ⟨hoperator, hswitch⟩]
    simp [hne]

/-- A valid clause can be read at the beginning of the tokens, or there is a reason why not. -/
theorem exists_clause_or_unreadable (hne : tokens ≠ []) :
    (∃ (c : Clause) (rest : List Text), tokens = c.tokens ++ rest ∧ c.IsValid) ∨
      ∃ e, Unreadable tokens e := by
  obtain ⟨token, rest, rfl⟩ := List.exists_cons_of_ne_nil hne
  cases hword : Word.ofText token with
  | switch s =>
    obtain rfl := Word.ofText_eq_switch hword
    exact .inl ⟨.switch s, rest, rfl, trivial⟩
  | operator o =>
    obtain rfl := Word.ofText_eq_operator hword
    cases rest with
    | nil => exact .inr ⟨_, .missingValue o⟩
    | cons value rest =>
      cases happly : o.apply value (.ofClauses []) with
      | ok q => exact .inl ⟨.valued o value, rest, rfl, (Operator.apply_eq_ok_iff.1 happly).1⟩
      | error e => exact .inr ⟨e, .badValue (Operator.apply_eq_error_iff.1 happly)⟩
  | unknown =>
    obtain ⟨hoperator, hswitch⟩ := Word.ofText_eq_unknown_iff.1 hword
    cases token with
    | nil => exact .inr ⟨_, .emptyToken rest⟩
    | cons ch t => exact .inr ⟨_, .unsupported (by simp) hoperator hswitch⟩

/-- The tokens are read as valid clauses until the rest. -/
structure Reading (tokens : List Text) (clauses : List Clause) (rest : List Text) : Prop where
  tokens_eq : tokens = clauses.flatMap Clause.tokens ++ rest
  valid : ∀ c ∈ clauses, c.IsValid

/-- Reading goes on to the end or to the first place where no valid clause can be read. -/
theorem exists_reading (tokens : List Text) :
    ∃ clauses rest, Reading tokens clauses rest ∧ (rest = [] ∨ ∃ e, Unreadable rest e) := by
  by_cases hne : tokens = []
  · exact ⟨[], [], ⟨hne, nofun⟩, .inl rfl⟩
  rcases exists_clause_or_unreadable hne with ⟨c, rest, htokens, hc⟩ | hstop
  · have hshorter : rest.length < tokens.length := by
      rw [htokens, List.length_append]
      exact Nat.lt_add_of_pos_left (List.length_pos_iff.2 c.tokens_ne_nil)
    obtain ⟨clauses, rest', ⟨rfl, hclauses⟩, hstop⟩ := exists_reading rest
    exact ⟨c :: clauses, rest', ⟨by simp [htokens], List.forall_mem_cons.2 ⟨hc, hclauses⟩⟩, hstop⟩
  · exact ⟨[], tokens, ⟨rfl, nofun⟩, .inr hstop⟩
termination_by tokens.length

theorem Reading.compile_eq (h : Reading tokens clauses rest) :
    compile tokens = compileOnto (.ofClauses clauses) rest := by
  rw [h.tokens_eq]
  exact compileOnto_clauses h.valid [] rest

theorem Reading.compile_eq_ok (h : Reading tokens clauses []) :
    compile tokens = .ok (.ofClauses clauses) := h.compile_eq

theorem exists_reading_of_compile (h : compile tokens = .ok q) :
    ∃ clauses, Reading tokens clauses [] ∧ q = .ofClauses clauses := by
  obtain ⟨clauses, rest, hread, rfl | ⟨e, hstop⟩⟩ := exists_reading tokens
  · rw [hread.compile_eq_ok] at h
    exact ⟨clauses, hread, (Except.ok.inj h).symm⟩
  · rw [hread.compile_eq, compileOnto_unreadable hstop] at h
    cases h

/-- What comes after an expression is read into its query. -/
theorem compile_append (h : compile tokens = .ok q) (more : List Text) :
    compile (tokens ++ more) = compileOnto q more := by
  obtain ⟨clauses, hread, rfl⟩ := exists_reading_of_compile h
  have htokens := hread.tokens_eq
  rw [List.append_nil] at htokens
  rw [htokens]
  exact compileOnto_clauses hread.valid [] more

/-- An expression that does not delete prints. -/
theorem print_of_compile (h : compile tokens = .ok q) (hkeep : q.delete = false) :
    q.print = true := by
  obtain ⟨clauses, -, rfl⟩ := exists_reading_of_compile h
  simp only [Query.ofClauses, decide_eq_false_iff_not] at hkeep
  simp [Query.ofClauses, hkeep]

/-- What cannot be read does not begin with a valid clause. -/
theorem Unreadable.not_isValid (h : Unreadable (c.tokens ++ rest) e) : ¬ c.IsValid := by
  intro hvalid
  generalize htokens : c.tokens ++ rest = tokens at h
  cases h with
  | missingValue o => cases c <;> simp [Clause.tokens, Switch.spelling_ne_operator] at htokens
  | badValue hvalue =>
    cases c with
    | switch s => simp [Clause.tokens, Switch.spelling_ne_operator] at htokens
    | valued o value =>
      simp only [Clause.tokens, List.cons_append, List.nil_append, List.cons.injEq,
        Operator.spelling_inj] at htokens
      obtain ⟨rfl, rfl, -⟩ := htokens
      exact hvalue.not_accepts hvalid
  | emptyToken rest => cases c <;> simp [Clause.tokens] at htokens
  | unsupported hne hoperator hswitch =>
    cases c with
    | switch s => exact hswitch s (List.cons_eq_cons.1 htokens).1.symm
    | valued o value => exact hoperator o (List.cons_eq_cons.1 htokens).1.symm

/-- Before what cannot be read stands the longest row of valid clauses. -/
theorem Reading.longest_of_unreadable (h : Reading tokens clauses rest) (hstop : Unreadable rest e)
    (h' : Reading tokens done rest') : done <+: clauses := by
  have htokens := h'.tokens_eq.symm.trans h.tokens_eq
  rcases readings_agree htokens with hpre | ⟨more, rfl⟩
  · exact hpre
  · cases more with
    | nil => simp
    | cons c more =>
      rw [List.flatMap_append, List.append_assoc, List.flatMap_cons, List.append_assoc] at htokens
      rw [← List.append_cancel_left htokens] at hstop
      exact absurd (h'.valid c (by simp)) hstop.not_isValid

/-- An expression compiles if and only if it is made of valid clauses, and then its query is the one
that the clauses describe. Any other expression is refused for what stands after the longest row of
valid clauses. What is read as a value in one reading is a value in all of them. -/
theorem compile_reads_clauses (tokens : List Text) :
    (∀ q, compile tokens = .ok q ↔ ∃ clauses, Reading tokens clauses [] ∧ q = .ofClauses clauses) ∧
    (∀ e, compile tokens = .error e ↔ ∃ clauses rest, Reading tokens clauses rest ∧
      Unreadable rest e ∧
        ∀ others rest', Reading tokens others rest' → others <+: clauses) ∧
    ∀ (as bs : List Clause) (rest rest' : List Text),
      tokens = as.flatMap Clause.tokens ++ rest → tokens = bs.flatMap Clause.tokens ++ rest' →
        as <+: bs ∨ bs <+: as := by
  refine ⟨fun q => ⟨?_, ?_⟩, fun e => ⟨?_, ?_⟩, fun as bs rest rest' has hbs => ?_⟩
  · intro hq
    obtain ⟨clauses, rest, hread, rfl | ⟨e, hstop⟩⟩ := exists_reading tokens
    · rw [hread.compile_eq] at hq
      exact ⟨clauses, hread, (Except.ok.inj hq).symm⟩
    · rw [hread.compile_eq, compileOnto_unreadable hstop] at hq
      cases hq
  · rintro ⟨clauses, hread, rfl⟩
    exact hread.compile_eq
  · intro he
    obtain ⟨clauses, rest, hread, rfl | ⟨e', hstop⟩⟩ := exists_reading tokens
    · cases hread.compile_eq.symm.trans he
    · rw [hread.compile_eq, compileOnto_unreadable hstop] at he
      obtain rfl := Except.error.inj he
      exact ⟨clauses, rest, hread, hstop, fun _ _ => hread.longest_of_unreadable hstop⟩
  · rintro ⟨clauses, rest, hread, hstop, -⟩
    rw [hread.compile_eq, compileOnto_unreadable hstop]
  · exact readings_agree (has.symm.trans hbs)

/-- A value that looks like a switch is a value all the same. -/
theorem compile_reads_clauses_switchAsValue :
    compile ["-name".toList, "-delete".toList] = .ok { namePattern := some "-delete".toList } ∧
      ∀ clauses : List Clause,
        ["-name".toList, "-delete".toList] = clauses.flatMap Clause.tokens ++ [] →
          clauses <+: [.valued .name "-delete".toList] ∨
            [.valued .name "-delete".toList] <+: clauses := by
  have h := compile_reads_clauses ["-name".toList, "-delete".toList]
  have hread : Reading ["-name".toList, "-delete".toList] [.valued .name "-delete".toList] [] :=
    ⟨rfl, by simp [Clause.IsValid, Operator.Accepts]⟩
  exact ⟨(h.1 _).2 ⟨_, hread, rfl⟩, fun clauses hclauses => h.2.2 _ _ _ _ hclauses hread.tokens_eq⟩

end FileSearch
