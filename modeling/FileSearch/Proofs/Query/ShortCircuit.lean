import FileSearch.Proofs.Query.Conjunction

/-!
Conditions one after the other. The conditions that a query sets are checked in a fixed order; the
first one whose check fails or gives false decides, and those after it are not checked. Size and age
share one look at the entry, which counts as that of the first condition that needs it.
Main statement: whether a query holds is the outcome of the first condition that does not give true,
and true if there is none. Nothing that is looked up matters once a condition on the depth, the
kind, the name or the path is not met.
-/

namespace FileSearch

inductive Condition where
  | depth | kind | name | path | empty | size | age
  deriving DecidableEq, Repr

namespace Condition

/-- The conditions that need no look at the entry. -/
def unaided : List Condition := [.depth, .kind, .name, .path]

/-- The conditions in the order in which they are checked. -/
def order : List Condition := unaided ++ [.empty, .size, .age]

theorem mem_order (c : Condition) : c ∈ order := by
  cases c <;> decide

end Condition

/-- What the check of a condition gives on its own; absent if the query does not set it. -/
def Query.outcome? (q : Query) (e : Entry) (probe : Probe) (now : Float) (depth : Int) :
    Condition → Option (Except Fault Bool)
  | .depth => q.minDepth.map fun least => .ok (least ≤ depth)
  | .kind => q.kind.map fun k => .ok (e.kind = some k)
  | .name => q.nameGlob.map fun glob =>
      globHolds (foldCase glob.2 glob.1) (foldCase glob.2 e.name)
  | .path => q.pathPattern.map fun pattern => globHolds pattern e.display
  | .empty =>
    if !q.emptyOnly then none
    else if e.kind = some .directory then some (probe.vacant ())
    else some ((probe.status ()).map fun status => status.size = 0)
  | .size => q.size.map fun c => (probe.status ()).map fun status => c.test status.size
  | .age => q.age.map fun c => (probe.status ()).bind fun status =>
      (ageInDays status.modified now).elim (.error .noAge) fun days => .ok (c.test days)

/-! ### Checks in a row -/

/-- The second check counts only if the first gives true. -/
def andAlso (first second : Except Fault Bool) : Except Fault Bool := do
  if !(← first) then return false
  second

/-- Checks the conditions that are set, up to the first that does not give true. -/
def inOrder (outcome? : Condition → Option (Except Fault Bool)) :
    List Condition → Except Fault Bool
  | [] => .ok true
  | c :: cs => andAlso ((outcome? c).getD (.ok true)) (inOrder outcome? cs)

/-- The condition is not set, or its check gives true. -/
def Passes (outcome? : Condition → Option (Except Fault Bool)) (c : Condition) : Prop :=
  ∀ x, outcome? c = some x → x = .ok true

/-- A condition has this outcome, and all before it pass. -/
def StopsWith (outcome? : Condition → Option (Except Fault Bool)) (cs : List Condition)
    (x : Except Fault Bool) : Prop :=
  ∃ before c after, cs = before ++ c :: after ∧ outcome? c = some x ∧
    ∀ d ∈ before, Passes outcome? d

section Checks

variable {x y : Except Fault Bool} {outcome? other? : Condition → Option (Except Fault Bool)}
  {c : Condition} {cs : List Condition}

@[simp] theorem andAlso_ok_true (y : Except Fault Bool) : andAlso (.ok true) y = y := rfl

@[simp] theorem andAlso_ok (b c : Bool) : andAlso (.ok b) (.ok c) = .ok (b && c) := by
  cases b <;> rfl

theorem andAlso_ok_right (x : Except Fault Bool) : andAlso x (.ok true) = x := by
  rcases x with f | (_ | _) <;> rfl

theorem andAlso_of_ne (h : x ≠ .ok true) (y : Except Fault Bool) : andAlso x y = x := by
  rcases x with f | (_ | _)
  · rfl
  · rfl
  · exact absurd rfl h

theorem andAlso_eq_ok_true_iff : andAlso x y = .ok true ↔ x = .ok true ∧ y = .ok true :=
  check_then_eq_ok_true_iff

theorem andAlso_assoc (x y z : Except Fault Bool) :
    andAlso (andAlso x y) z = andAlso x (andAlso y z) := by
  by_cases hx : x = .ok true
  · rw [hx, andAlso_ok_true, andAlso_ok_true]
  · rw [andAlso_of_ne hx, andAlso_of_ne hx, andAlso_of_ne hx]

theorem inOrder_singleton : inOrder outcome? [c] = (outcome? c).getD (.ok true) := by
  rw [inOrder, inOrder, andAlso_ok_right]

theorem passes_iff : Passes outcome? c ↔ (outcome? c).getD (.ok true) = .ok true := by
  unfold Passes
  cases outcome? c <;> simp

theorem inOrder_cons_of_passes (h : Passes outcome? c) :
    inOrder outcome? (c :: cs) = inOrder outcome? cs := by
  rw [inOrder, passes_iff.1 h, andAlso_ok_true]

theorem inOrder_cons_of_ne (h : outcome? c = some x) (hx : x ≠ .ok true) :
    inOrder outcome? (c :: cs) = x := by
  rw [inOrder, h]
  exact andAlso_of_ne hx _

theorem exists_of_not_passes (h : ¬ Passes outcome? c) :
    ∃ x, outcome? c = some x ∧ x ≠ .ok true := by
  simpa [Passes] using h

theorem inOrder_append (cs ds : List Condition) :
    inOrder outcome? (cs ++ ds) = andAlso (inOrder outcome? cs) (inOrder outcome? ds) := by
  induction cs with
  | nil => rfl
  | cons c cs ih => rw [List.cons_append, inOrder, inOrder, ih, andAlso_assoc]

theorem inOrder_congr (h : ∀ c ∈ cs, outcome? c = other? c) :
    inOrder outcome? cs = inOrder other? cs := by
  induction cs with
  | nil => rfl
  | cons c cs ih =>
    rw [inOrder, inOrder, h c List.mem_cons_self, ih fun d hd => h d (List.mem_cons_of_mem _ hd)]

/-- The checks come to true if all conditions pass. -/
theorem inOrder_eq_ok_true_iff :
    inOrder outcome? cs = .ok true ↔ ∀ c ∈ cs, Passes outcome? c := by
  induction cs with
  | nil => simp [inOrder]
  | cons c cs ih => rw [inOrder, andAlso_eq_ok_true_iff, List.forall_mem_cons, passes_iff, ih]

/-- The checks come to anything else if the first condition that does not pass does. -/
theorem inOrder_eq_iff_stopsWith (hx : x ≠ .ok true) :
    inOrder outcome? cs = x ↔ StopsWith outcome? cs x := by
  constructor
  · intro h
    -- a condition that passes joins those before, the first that does not is the one sought
    induction cs with
    | nil => exact absurd h.symm hx
    | cons c cs ih =>
      by_cases hc : Passes outcome? c
      · rw [inOrder_cons_of_passes hc] at h
        obtain ⟨before, d, after, rfl, hd, hbefore⟩ := ih h
        exact ⟨c :: before, d, after, rfl, hd, List.forall_mem_cons.2 ⟨hc, hbefore⟩⟩
      · obtain ⟨y, hy, hne⟩ := exists_of_not_passes hc
        rw [inOrder_cons_of_ne hy hne] at h
        exact ⟨[], c, cs, rfl, by rw [hy, h], List.forall_mem_nil _⟩
  · rintro ⟨before, c, after, rfl, hc, hbefore⟩
    rw [inOrder_append, inOrder_eq_ok_true_iff.2 hbefore, andAlso_ok_true,
      inOrder_cons_of_ne hc hx]

end Checks

/-! ### The conditions of a query -/

namespace Query

variable (q : Query) (e : Entry) (probe : Probe) (now : Float) (depth : Int)

theorem inOrder_shape :
    inOrder (q.outcome? e probe now depth) [.depth, .kind] = .ok (q.shapeHolds depth e.kind) := by
  rw [inOrder, inOrder_singleton]
  unfold shapeHolds outcome?
  cases q.minDepth <;> cases q.kind <;> simp

theorem inOrder_name :
    inOrder (q.outcome? e probe now depth) [.name] = q.nameHolds e.name := by
  rw [inOrder_singleton]
  unfold outcome? nameGlob nameHolds foldCase
  cases q.namePattern <;> cases q.ignoreCase <;> rfl

theorem inOrder_path :
    inOrder (q.outcome? e probe now depth) [.path] = q.pathHolds e.display := by
  rw [inOrder_singleton]
  unfold outcome? pathHolds
  cases q.pathPattern <;> rfl

theorem inOrder_empty :
    inOrder (q.outcome? e probe now depth) [.empty] = q.emptyHolds e.kind probe := by
  rw [inOrder_singleton]
  unfold outcome? emptyHolds
  cases q.emptyOnly with
  | false => rfl
  | true => by_cases hkind : e.kind = some .directory <;> simp [hkind]

/-- Once the look at the entry has an answer, the size is compared first and then the age. -/
theorem statusHolds_of_ok {status : Status} (h : probe.status () = .ok status) :
    q.statusHolds now probe = andAlso (.ok (q.sizeHolds status)) (q.ageHolds now status) := by
  unfold statusHolds
  by_cases hnone : (q.size.isNone && q.age.isNone) = true
  · have hunset : q.size = none ∧ q.age = none := by simpa using hnone
    rw [if_pos hnone]
    simp [sizeHolds, ageHolds, hunset]
  · rw [if_neg hnone, h]
    change (if q.sizeHolds status then q.ageHolds now status else .ok false) = _
    cases q.sizeHolds status <;> rfl

/-- The look that size and age share fails for the first of them that is set. -/
theorem inOrder_status :
    inOrder (q.outcome? e probe now depth) [.size, .age] = q.statusHolds now probe := by
  rw [inOrder, inOrder_singleton]
  cases hstatus : probe.status () with
  | error f =>
    unfold outcome? statusHolds
    rw [hstatus]
    cases q.size <;> cases q.age <;> rfl
  | ok status =>
    have hsize : (q.outcome? e probe now depth .size).getD (.ok true) =
        .ok (q.sizeHolds status) := by
      unfold outcome? sizeHolds
      rw [hstatus]
      cases q.size <;> rfl
    have hage : (q.outcome? e probe now depth .age).getD (.ok true) =
        q.ageHolds now status := by
      unfold outcome? ageHolds
      rw [hstatus]
      cases q.age with
      | none => rfl
      | some c =>
        change (ageInDays status.modified now).elim _ _ = _
        cases ageInDays status.modified now <;> rfl
    rw [hsize, hage, q.statusHolds_of_ok probe now hstatus]

theorem holds_eq_inOrder :
    q.holds e probe now depth = inOrder (q.outcome? e probe now depth) Condition.order := by
  -- the row is cut where the query goes from one of its parts to the next
  have hparts : Condition.order =
      [.depth, .kind] ++ ([.name] ++ ([.path] ++ ([.empty] ++ [.size, .age]))) := rfl
  simp only [hparts, inOrder_append, inOrder_shape, inOrder_name, inOrder_path, inOrder_empty,
    inOrder_status]
  unfold holds
  cases q.shapeHolds depth e.kind <;> rfl

/-- The conditions that need no look at the entry read its name, its shown path and its kind. -/
theorem outcome?_congr {e e' : Entry} (hname : e'.name = e.name) (hdisplay : e'.display = e.display)
    (hkind : e'.kind = e.kind) (probe probe' : Probe) (now now' : Float) :
    ∀ c ∈ Condition.unaided, q.outcome? e' probe' now' depth c = q.outcome? e probe now depth c := by
  simp [Condition.unaided, outcome?, hname, hdisplay, hkind]

end Query

/-- A query holds if all conditions that are set give true. It does not hold, or the check fails, if
a condition that is set gives false, or fails in this way, and all that are set before it in the
order of the conditions give true. Once a condition that needs no look at the entry is false or
fails, the outcome is the same for every entry of the same name, shown path and kind, whatever is
found at a look at either. -/
theorem holds_short_circuits (q : Query) (e : Entry) (probe : Probe) (now : Float) (depth : Int) :
    (q.holds e probe now depth = .ok true ↔ ∀ c, Passes (q.outcome? e probe now depth) c) ∧
    (q.holds e probe now depth = .ok false ↔
      StopsWith (q.outcome? e probe now depth) Condition.order (.ok false)) ∧
    (∀ f, q.holds e probe now depth = .error f ↔
      StopsWith (q.outcome? e probe now depth) Condition.order (.error f)) ∧
    ∀ c ∈ Condition.unaided, ∀ x, q.outcome? e probe now depth c = some x → x ≠ .ok true →
      ∀ (e' : Entry) (probe' : Probe) (now' : Float),
        e'.name = e.name → e'.display = e.display → e'.kind = e.kind →
          q.holds e' probe' now' depth = q.holds e probe now depth := by
  refine ⟨?_, ?_, fun f => ?_, ?_⟩
  · rw [q.holds_eq_inOrder, inOrder_eq_ok_true_iff]
    exact ⟨fun h c => h c c.mem_order, fun h c _ => h c⟩
  · rw [q.holds_eq_inOrder]
    exact inOrder_eq_iff_stopsWith (by simp)
  · rw [q.holds_eq_inOrder]
    exact inOrder_eq_iff_stopsWith (by simp)
  · intro c hc x hx hne e' probe' now' hname hdisplay hkind
    have hsame := inOrder_congr
      (q.outcome?_congr depth hname hdisplay hkind probe probe' now now')
    have hstop : inOrder (q.outcome? e probe now depth) Condition.unaided ≠ .ok true :=
      fun h => hne (inOrder_eq_ok_true_iff.1 h c hc x hx)
    rw [q.holds_eq_inOrder, q.holds_eq_inOrder, Condition.order, inOrder_append, inOrder_append,
      hsame, andAlso_of_ne hstop, andAlso_of_ne hstop]

/-- The name does not match, so that it does not matter whether the size can be looked up. -/
theorem holds_short_circuits_otherName :
    let q : Query := { namePattern := some ['a'], size := some ⟨.exact, 0⟩ }
    let e : Entry := Entry.root ['b'] (some .regular)
    let seen : Probe := ⟨fun _ => .ok ⟨0, 0⟩, fun _ => .ok true⟩
    let gone : Probe := ⟨fun _ => .error (.system .noEntry ['b']), fun _ => .error .brokenPipe⟩
    q.outcome? e seen 0 1 .name = some (.ok false) ∧
      q.holds e gone 0 1 = q.holds e seen 0 1 := by
  intro q e seen gone
  have hname : q.outcome? e seen 0 1 .name = some (.ok false) := rfl
  exact ⟨hname, (holds_short_circuits q e seen 0 1).2.2.2 .name (by decide) _ hname (by simp) e gone
    0 rfl rfl rfl⟩

end FileSearch
