import FileSearch.Proofs.Query.Clauses
import FileSearch.Query.Holds

/-!
Expressions as conjunctions. A query has one place for each condition, so that of several clauses
that set the same condition only the last one counts; the two operators for the base name set the
same condition.
Main statements: a query holds for an entry if and only if the entry meets all conditions, and an
expression of two parts holds if and only if the second part does and what is left of the first part
without the clauses that the second part replaces. If it replaces none, both parts hold.
-/

namespace FileSearch

/-! ### Conditions -/

/-- The glob for the base name, and whether case is disregarded. -/
def Query.nameGlob (q : Query) : Option (Text × Bool) := q.namePattern.map (·, q.ignoreCase)

/-- The text as it is compared, with or without regard to case. -/
def foldCase (anyCase : Bool) (t : Text) : Text := if anyCase then lowerCase t else t

/-- The entry meets the conditions of the query, and what they ask for can be looked up. -/
structure Query.Meets (q : Query) (e : Entry) (probe : Probe) (now : Float) (depth : Int) :
    Prop where
  depth : ∀ least, q.minDepth = some least → (least : Int) ≤ depth
  kind : ∀ k, q.kind = some k → e.kind = some k
  name : ∀ glob, q.nameGlob = some glob →
    globHolds (foldCase glob.2 glob.1) (foldCase glob.2 e.name) = .ok true
  path : ∀ pattern, q.pathPattern = some pattern → globHolds pattern e.display = .ok true
  empty : q.emptyOnly = true →
    if e.kind = some .directory then probe.vacant () = .ok true
    else ∃ status, probe.status () = .ok status ∧ status.size = 0
  size : ∀ c, q.size = some c → ∃ status, probe.status () = .ok status ∧ c.test status.size = true
  age : ∀ c, q.age = some c → ∃ status days, probe.status () = .ok status ∧
    ageInDays status.modified now = some days ∧ c.test days = true

section Conditions

variable {q q₁ q₂ : Query} {e : Entry} {probe : Probe} {now : Float} {depth : Int}

theorem check_then_eq_ok_true_iff {x y : Except Fault Bool} :
    (do if !(← x) then return false
        y) = .ok true ↔ x = .ok true ∧ y = .ok true := by
  rcases x with f | b
  · simp [bind, Except.bind]
  · cases b <;> simp [bind, Except.bind, pure, Except.pure]

theorem Query.shapeHolds_iff {kind : Option Kind} :
    q.shapeHolds depth kind = true ↔
      (∀ least, q.minDepth = some least → (least : Int) ≤ depth) ∧
        ∀ k, q.kind = some k → kind = some k := by
  unfold shapeHolds
  cases q.minDepth <;> cases q.kind <;> simp

theorem Query.nameHolds_iff {name : Text} :
    q.nameHolds name = .ok true ↔ ∀ glob, q.nameGlob = some glob →
      globHolds (foldCase glob.2 glob.1) (foldCase glob.2 name) = .ok true := by
  unfold nameHolds nameGlob foldCase
  cases q.namePattern <;> cases q.ignoreCase <;> simp

theorem Query.pathHolds_iff {display : Text} :
    q.pathHolds display = .ok true ↔
      ∀ pattern, q.pathPattern = some pattern → globHolds pattern display = .ok true := by
  unfold pathHolds
  cases q.pathPattern <;> simp

theorem Query.emptyHolds_iff {kind : Option Kind} :
    q.emptyHolds kind probe = .ok true ↔ (q.emptyOnly = true →
      if kind = some .directory then probe.vacant () = .ok true
      else ∃ status, probe.status () = .ok status ∧ status.size = 0) := by
  unfold emptyHolds
  cases q.emptyOnly with
  | false => simp
  | true =>
    by_cases hkind : kind = some .directory
    · simp [hkind]
    · cases probe.status () <;> simp [hkind, Except.map]

theorem Query.ageHolds_iff {status : Status} :
    q.ageHolds now status = .ok true ↔ ∀ c, q.age = some c →
      ∃ days, ageInDays status.modified now = some days ∧ c.test days = true := by
  unfold ageHolds
  cases q.age with
  | none => simp
  | some c => cases ageInDays status.modified now <;> simp

theorem Query.statusHolds_iff :
    q.statusHolds now probe = .ok true ↔
      (∀ c, q.size = some c → ∃ status, probe.status () = .ok status ∧ c.test status.size = true) ∧
        ∀ c, q.age = some c → ∃ status days, probe.status () = .ok status ∧
          ageInDays status.modified now = some days ∧ c.test days = true := by
  unfold statusHolds
  cases probe.status () with
  | error f => cases hsize : q.size <;> cases hage : q.age <;> simp [bind, Except.bind]
  | ok status =>
    have hsize : q.sizeHolds status = true ↔ ∀ c, q.size = some c → c.test status.size = true := by
      unfold sizeHolds
      cases q.size <;> simp
    have hage : q.ageHolds now status = .ok true ↔ ∀ c, q.age = some c →
        ∃ days, ageInDays status.modified now = some days ∧ c.test days = true :=
      Query.ageHolds_iff
    simp only [bind, Except.bind, Except.ok.injEq, exists_and_left, exists_eq_left', ← hsize,
      ← hage]
    by_cases hnone : (q.size.isNone && q.age.isNone) = true
    · have hnone' : q.size = none ∧ q.age = none := by simpa using hnone
      simp [hsize, hage, hnone']
    · by_cases htest : q.sizeHolds status = true <;> simp [hnone, htest]

theorem Query.holds_eq_ok_true_iff :
    q.holds e probe now depth = .ok true ↔ q.Meets e probe now depth := by
  have hparts : q.holds e probe now depth = .ok true ↔
      q.shapeHolds depth e.kind = true ∧ q.nameHolds e.name = .ok true ∧
        q.pathHolds e.display = .ok true ∧ q.emptyHolds e.kind probe = .ok true ∧
          q.statusHolds now probe = .ok true := by
    unfold holds
    cases q.shapeHolds depth e.kind with
    | false => simp
    | true => simp only [check_then_eq_ok_true_iff, Bool.not_true, Bool.false_eq_true, if_false,
        true_and]
  rw [hparts, shapeHolds_iff, nameHolds_iff, pathHolds_iff, emptyHolds_iff, statusHolds_iff]
  constructor
  · rintro ⟨⟨hdepth, hkind⟩, hname, hpath, hempty, hsize, hage⟩
    exact ⟨hdepth, hkind, hname, hpath, hempty, hsize, hage⟩
  · rintro ⟨hdepth, hkind, hname, hpath, hempty, hsize, hage⟩
    exact ⟨⟨hdepth, hkind⟩, hname, hpath, hempty, hsize, hage⟩

/-! ### Conditions of two queries -/

/-- Of two places at least one is empty, and the whole is what stands in the other. -/
def IsSplit {α : Type} (whole first second : Option α) : Prop :=
  whole = first ∧ second = none ∨ whole = second ∧ first = none

theorem IsSplit.forall_iff {α : Type} {whole first second : Option α} {p : α → Prop}
    (h : IsSplit whole first second) :
    (∀ a, whole = some a → p a) ↔
      (∀ a, first = some a → p a) ∧ ∀ a, second = some a → p a := by
  rcases h with ⟨rfl, rfl⟩ | ⟨rfl, rfl⟩ <;> simp

/-- Each condition of the query is one of the first or of the second, and never of both; only the
condition to be empty may be of both. -/
structure Query.Splits (q q₁ q₂ : Query) : Prop where
  depth : IsSplit q.minDepth q₁.minDepth q₂.minDepth
  kind : IsSplit q.kind q₁.kind q₂.kind
  name : IsSplit q.nameGlob q₁.nameGlob q₂.nameGlob
  path : IsSplit q.pathPattern q₁.pathPattern q₂.pathPattern
  empty : q.emptyOnly = true ↔ q₁.emptyOnly = true ∨ q₂.emptyOnly = true
  size : IsSplit q.size q₁.size q₂.size
  age : IsSplit q.age q₁.age q₂.age

theorem Query.Splits.meets_iff (h : q.Splits q₁ q₂) :
    q.Meets e probe now depth ↔ q₁.Meets e probe now depth ∧ q₂.Meets e probe now depth := by
  constructor
  · intro hmeets
    obtain ⟨hdepth₁, hdepth₂⟩ := h.depth.forall_iff.1 hmeets.depth
    obtain ⟨hkind₁, hkind₂⟩ := h.kind.forall_iff.1 hmeets.kind
    obtain ⟨hname₁, hname₂⟩ := h.name.forall_iff.1 hmeets.name
    obtain ⟨hpath₁, hpath₂⟩ := h.path.forall_iff.1 hmeets.path
    obtain ⟨hsize₁, hsize₂⟩ := h.size.forall_iff.1 hmeets.size
    obtain ⟨hage₁, hage₂⟩ := h.age.forall_iff.1 hmeets.age
    exact ⟨⟨hdepth₁, hkind₁, hname₁, hpath₁, fun he => hmeets.empty (h.empty.2 (.inl he)), hsize₁,
      hage₁⟩, hdepth₂, hkind₂, hname₂, hpath₂, fun he => hmeets.empty (h.empty.2 (.inr he)), hsize₂,
      hage₂⟩
  · rintro ⟨h₁, h₂⟩
    exact ⟨h.depth.forall_iff.2 ⟨h₁.depth, h₂.depth⟩, h.kind.forall_iff.2 ⟨h₁.kind, h₂.kind⟩,
      h.name.forall_iff.2 ⟨h₁.name, h₂.name⟩, h.path.forall_iff.2 ⟨h₁.path, h₂.path⟩,
      fun he => (h.empty.1 he).elim h₁.empty h₂.empty,
      h.size.forall_iff.2 ⟨h₁.size, h₂.size⟩, h.age.forall_iff.2 ⟨h₁.age, h₂.age⟩⟩

end Conditions

/-! ### Clauses that are replaced -/

/-- The operators that set the same condition. -/
def Operator.rivals : Operator → List Operator
  | .name | .nameAnyCase => [.name, .nameAnyCase]
  | o => [o]

/-- Whether later clauses set the condition of the clause again. -/
def Clause.isReplaced (later : List Clause) : Clause → Bool
  | .switch _ => false
  | .valued o _ => (lastValue o.rivals later).isSome

/-- What is left of some clauses once later ones are read. -/
def unreplaced (earlier later : List Clause) : List Clause :=
  earlier.filter fun c => !c.isReplaced later

section Replaced

variable {as bs : List Clause} {os rs : List Operator}

theorem lastValue_append (os : List Operator) (as bs : List Clause) :
    lastValue os (as ++ bs) = (lastValue os bs).or (lastValue os as) := by
  rw [lastValue, List.filterMap_append, List.getLast?_append]
  rfl

theorem lastValue_unreplaced (hos : ∀ o ∈ os, o.rivals = rs) :
    lastValue os (unreplaced as bs) =
      if (lastValue rs bs).isSome then none else lastValue os as := by
  have hkeep (c : Clause) :
      (if !c.isReplaced bs then c.valueFor os else none) =
        if (lastValue rs bs).isSome then none else c.valueFor os := by
    cases c with
    | switch s => simp [Clause.valueFor]
    | valued o value =>
      by_cases ho : o ∈ os
      · rw [Clause.isReplaced, hos o ho]
        cases (lastValue rs bs).isSome <;> rfl
      · simp [Clause.valueFor, ho]
  rw [lastValue, unreplaced, List.filterMap_filter]
  simp only [hkeep]
  split
  · simp
  · rfl

/-- The value of a condition is that of the last clauses, or else what is left of the first. -/
theorem isSplit_lastValue {α : Type} (hos : ∀ o ∈ os, o.rivals = os) (f : Text → Option α) :
    IsSplit ((lastValue os (as ++ bs)).bind f) ((lastValue os (unreplaced as bs)).bind f)
      ((lastValue os bs).bind f) := by
  rw [lastValue_append, lastValue_unreplaced hos]
  cases lastValue os bs with
  | none => exact .inl ⟨rfl, rfl⟩
  | some value => exact .inr ⟨rfl, rfl⟩

/-- Who gives no pattern for the base name disregards no case. -/
theorem lastValue_nameAnyCase (h : lastValue [.name, .nameAnyCase] bs = none) :
    lastValue [.nameAnyCase] bs = none := by
  simp only [lastValue, List.getLast?_eq_none_iff, List.filterMap_eq_nil_iff] at h ⊢
  intro c hc
  have hnone := h c hc
  cases c with
  | switch s => rfl
  | valued o value => cases o <;> simp_all [Clause.valueFor]

theorem isSplit_nameGlob
    (hcase : (Query.ofClauses as).ignoreCase = true →
      (Query.ofClauses bs).namePattern.isSome = true → (Query.ofClauses bs).ignoreCase = true) :
    IsSplit (Query.ofClauses (as ++ bs)).nameGlob (Query.ofClauses (unreplaced as bs)).nameGlob
      (Query.ofClauses bs).nameGlob := by
  have hname : ∀ o ∈ [Operator.name, .nameAnyCase], o.rivals = [.name, .nameAnyCase] := by
    simp [Operator.rivals]
  have hany : ∀ o ∈ [Operator.nameAnyCase], o.rivals = [.name, .nameAnyCase] := by
    simp [Operator.rivals]
  simp only [Query.ofClauses, Query.nameGlob] at hcase ⊢
  rw [lastValue_append, lastValue_append, lastValue_unreplaced hname, lastValue_unreplaced hany]
  cases hbs : lastValue [.name, .nameAnyCase] bs with
  | none =>
    rw [lastValue_nameAnyCase hbs]
    exact .inl ⟨rfl, rfl⟩
  | some pattern =>
    rw [hbs] at hcase
    refine .inr ⟨?_, rfl⟩
    have hsame : ((lastValue [.nameAnyCase] bs).or (lastValue [.nameAnyCase] as)).isSome =
        (lastValue [.nameAnyCase] bs).isSome := by
      cases has : (lastValue [.nameAnyCase] as).isSome with
      | false => simp [has]
      | true => simp [hcase has rfl]
    rw [hsame]
    rfl

theorem splits_ofClauses
    (hcase : (Query.ofClauses as).ignoreCase = true →
      (Query.ofClauses bs).namePattern.isSome = true → (Query.ofClauses bs).ignoreCase = true) :
    (Query.ofClauses (as ++ bs)).Splits (.ofClauses (unreplaced as bs)) (.ofClauses bs) where
  depth := isSplit_lastValue (by simp [Operator.rivals]) _
  kind := isSplit_lastValue (by simp [Operator.rivals]) _
  name := isSplit_nameGlob hcase
  path := by
    have hpath : ∀ o ∈ [Operator.path], o.rivals = [.path] := by simp [Operator.rivals]
    simpa [Query.ofClauses] using isSplit_lastValue hpath some
  empty := by simp [Query.ofClauses, unreplaced, Clause.isReplaced]
  size := isSplit_lastValue (by simp [Operator.rivals]) _
  age := isSplit_lastValue (by simp [Operator.rivals]) _

end Replaced

/-! ### Expressions in two parts -/

/-- An expression of two parts holds if and only if the second part does, and what is left of the
first without the clauses that the second replaces. If it replaces none, it is the conjunction of
the parts. In the first part case may only be disregarded if the second part does so for its own
pattern, or gives none. -/
theorem holds_append_iff {tokens more : List Text} {q₁ q₂ : Query} (h₁ : compile tokens = .ok q₁)
    (h₂ : compile more = .ok q₂)
    (hcase : q₁.ignoreCase = true → q₂.namePattern.isSome = true → q₂.ignoreCase = true) :
    ∃ as bs q kept, Reading tokens as [] ∧ Reading more bs [] ∧
      compile (tokens ++ more) = .ok q ∧
      compile ((unreplaced as bs).flatMap Clause.tokens) = .ok kept ∧
      (∀ e probe now depth, q.holds e probe now depth = .ok true ↔
        kept.holds e probe now depth = .ok true ∧ q₂.holds e probe now depth = .ok true) ∧
      ((∀ c ∈ as, c.isReplaced bs = false) → ∀ e probe now depth,
        q.holds e probe now depth = .ok true ↔
          q₁.holds e probe now depth = .ok true ∧ q₂.holds e probe now depth = .ok true) := by
  obtain ⟨as, has, rfl⟩ := exists_reading_of_compile h₁
  obtain ⟨bs, hbs, rfl⟩ := exists_reading_of_compile h₂
  have hboth : Reading (tokens ++ more) (as ++ bs) [] := by
    refine ⟨by simp [has.tokens_eq, hbs.tokens_eq], fun c hc => ?_⟩
    exact (List.mem_append.1 hc).elim (has.valid c) (hbs.valid c)
  have hleft : Reading ((unreplaced as bs).flatMap Clause.tokens) (unreplaced as bs) [] :=
    ⟨by simp, fun c hc => has.valid c (List.mem_filter.1 hc).1⟩
  have hsplit (e : Entry) (probe : Probe) (now : Float) (depth : Int) :
      (Query.ofClauses (as ++ bs)).holds e probe now depth = .ok true ↔
        (Query.ofClauses (unreplaced as bs)).holds e probe now depth = .ok true ∧
          (Query.ofClauses bs).holds e probe now depth = .ok true := by
    simp only [Query.holds_eq_ok_true_iff]
    exact (splits_ofClauses hcase).meets_iff
  refine ⟨as, bs, _, _, has, hbs, hboth.compile_eq_ok, hleft.compile_eq_ok, hsplit, ?_⟩
  intro hnone
  have hall : unreplaced as bs = as := by
    rw [unreplaced, List.filter_eq_self]
    intro c hc
    rw [hnone c hc]
    rfl
  rwa [hall] at hsplit

/-- The pattern in the first part is replaced by that in the second, and its kind of file is not. -/
theorem holds_append_iff_twoNames :
    ∃ as bs q kept, Reading ["-name".toList, ['a'], "-type".toList, ['f']] as [] ∧
      Reading ["-iname".toList, ['B']] bs [] ∧
      compile (["-name".toList, ['a'], "-type".toList, ['f']] ++ ["-iname".toList, ['B']]) = .ok q ∧
      compile ((unreplaced as bs).flatMap Clause.tokens) = .ok kept ∧
      ∀ e probe now depth, q.holds e probe now depth = .ok true ↔
        kept.holds e probe now depth = .ok true ∧
          Query.holds { namePattern := some ['B'], ignoreCase := true } e probe now depth =
            .ok true := by
  have hfirst : compile ["-name".toList, ['a'], "-type".toList, ['f']] =
      .ok { namePattern := some ['a'], kind := some .regular } := rfl
  have hsecond : compile ["-iname".toList, ['B']] =
      .ok { namePattern := some ['B'], ignoreCase := true } := rfl
  obtain ⟨as, bs, q, kept, has, hbs, hq, hkept, hiff, -⟩ :=
    holds_append_iff hfirst hsecond fun _ _ => rfl
  exact ⟨as, bs, q, kept, has, hbs, hq, hkept, hiff⟩

/-- A file whose name matches the second pattern is found by both parts together, though the first
part alone does not find it. -/
theorem earlier_name_not_required :
    compile ["-name".toList, ['a']] = .ok { namePattern := some ['a'] } ∧
      compile ["-name".toList, ['b']] = .ok { namePattern := some ['b'] } ∧
      compile (["-name".toList, ['a']] ++ ["-name".toList, ['b']]) =
        .ok { namePattern := some ['b'] } ∧
      Query.holds { namePattern := some ['b'] } (.root ['b'] (some .regular))
        ⟨fun _ => .ok ⟨0, 0⟩, fun _ => .ok true⟩ 0 0 = .ok true ∧
      ¬ (Query.holds { namePattern := some ['a'] } (.root ['b'] (some .regular))
          ⟨fun _ => .ok ⟨0, 0⟩, fun _ => .ok true⟩ 0 0 = .ok true ∧
        Query.holds { namePattern := some ['b'] } (.root ['b'] (some .regular))
          ⟨fun _ => .ok ⟨0, 0⟩, fun _ => .ok true⟩ 0 0 = .ok true) := by
  have hfirst : Query.holds { namePattern := some ['a'] } (.root ['b'] (some .regular))
      ⟨fun _ => .ok ⟨0, 0⟩, fun _ => .ok true⟩ 0 0 = .ok false := rfl
  refine ⟨rfl, rfl, rfl, rfl, fun h => ?_⟩
  rw [hfirst] at h
  cases h.1

end FileSearch
