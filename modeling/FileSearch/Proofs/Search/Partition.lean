import FileSearch.Proofs.Query.SizeSpelling
import FileSearch.Proofs.Search.Outcome

/-!
A number in three searches: for exactly this size or age, for more and for less. Each entry that the
other conditions let pass has one size and one age, and one of the three comparisons accepts it.
Main statement: what a search finds is divided among the three searches that compare its size, or
its age, with the same number, and each of them keeps the order.
-/

namespace FileSearch

open Walk

/-! ### Comparisons -/

/-- What the numbers of an entry are that an expression can compare. -/
inductive Quantity where
  | size | age
  deriving DecidableEq, Repr

def Quantity.operator : Quantity → Operator
  | .size => .size
  | .age => .age

/-- The number of an entry. -/
def Quantity.ofProbe (m : Quantity) (probe : Probe) (now : Float) : Except Fault Int := do
  let status ← probe.status ()
  match m with
  | .size => .ok status.size
  | .age =>
    match ageInDays status.modified now with
    | none => .error .noAge
    | some days => .ok days

/-- The query with a comparison of the quantity. -/
def Query.comparing (q : Query) (m : Quantity) (c : Comparison) : Query :=
  match m with
  | .size => { q with size := some c }
  | .age => { q with age := some c }

section Comparing

variable {q : Query} {m : Quantity} {c : Comparison} {value : Text} {tokens : List Text}

@[simp] theorem Query.delete_comparing : (q.comparing m c).delete = q.delete := by
  cases m <;> rfl

@[simp] theorem Query.print_comparing : (q.comparing m c).print = q.print := by
  cases m <;> rfl

/-- Of the three ways of comparing a number with another, one accepts it. -/
theorem Comparison.existsUnique_test (number : Nat) (actual : Int) :
    ∃! op, Comparison.test ⟨op, number⟩ actual = true := by
  simp only [Comparison.test_iff]
  exact ⟨_, rfl, fun _ h => h⟩

/-- After an expression, a number with each of the signs adds a comparison with the same number. -/
theorem exists_compile_comparing (hq : compile tokens = .ok q) (hunsigned : IsUnsigned value)
    (haccepts : m.operator.Accepts value) :
    ∃ number, ∀ op : CompareOp, compile (tokens ++ [m.operator.spelling, op.sign ++ value]) =
      .ok (q.comparing m ⟨op, number⟩) := by
  have happly : ∃ number, ∀ op : CompareOp, m.operator.apply (op.sign ++ value) q =
      .ok (q.comparing m ⟨op, number⟩) := by
    cases m with
    | size =>
      obtain ⟨c, hc⟩ := haccepts
      refine ⟨c.value, fun op => ?_⟩
      simp only [Quantity.operator, Operator.apply, readSize_sign hunsigned, hc, Except.map]
      rfl
    | age =>
      obtain ⟨c, hc⟩ := haccepts
      refine ⟨c.value, fun op => ?_⟩
      simp only [Quantity.operator, Operator.apply, readAge_sign hunsigned, hc, Option.map_some]
      rfl
  obtain ⟨number, happly⟩ := happly
  refine ⟨number, fun op => ?_⟩
  rw [compile_append hq]
  simp only [compileOnto, Word.ofText_operator, happly]

theorem Query.statusHolds_comparing (hsize : q.size = none) (hage : q.age = none) (now : Float)
    (probe : Probe) :
    (q.comparing m c).statusHolds now probe = (m.ofProbe probe now).map c.test := by
  cases hstatus : probe.status () with
  | error f =>
    cases m <;> simp [statusHolds, comparing, Quantity.ofProbe, hstatus, bind, Except.bind,
      Except.map]
  | ok status =>
    cases m with
    | size =>
      cases htest : c.test status.size <;>
        simp [statusHolds, comparing, Quantity.ofProbe, hstatus, bind, Except.bind, Except.map,
          sizeHolds, ageHolds, hage, htest]
    | age =>
      cases hdays : ageInDays status.modified now <;>
        simp [statusHolds, comparing, Quantity.ofProbe, hstatus, bind, Except.bind, Except.map,
          sizeHolds, ageHolds, hsize, hdays]

/-- A comparison is made last, and only of an entry that meets all other conditions. -/
theorem Query.holds_comparing (hsize : q.size = none) (hage : q.age = none) (e : Entry)
    (probe : Probe) (now : Float) (depth : Int) :
    (q.comparing m c).holds e probe now depth =
      (q.holds e probe now depth).bind fun met =>
        if met then (m.ofProbe probe now).map c.test else .ok false := by
  have hshape : (q.comparing m c).shapeHolds depth e.kind = q.shapeHolds depth e.kind := by
    cases m <;> rfl
  have hname : (q.comparing m c).nameHolds e.name = q.nameHolds e.name := by cases m <;> rfl
  have hpath : (q.comparing m c).pathHolds e.display = q.pathHolds e.display := by
    cases m <;> rfl
  have hempty : (q.comparing m c).emptyHolds e.kind probe = q.emptyHolds e.kind probe := by
    cases m <;> rfl
  have hstatus : q.statusHolds now probe = .ok true := by simp [statusHolds, hsize, hage]
  rw [holds, holds, hshape, hname, hpath, hempty, hstatus, statusHolds_comparing hsize hage]
  cases q.shapeHolds depth e.kind
  · rfl
  rcases q.nameHolds e.name with f | (_ | _)
  · rfl
  · rfl
  rcases q.pathHolds e.display with f | (_ | _)
  · rfl
  · rfl
  rcases q.emptyHolds e.kind probe with f | (_ | _) <;> rfl

end Comparing

namespace Walk

variable {e : Errand} {fs : FileSystem} {top : Location} {item : Item} {m : Quantity}
  {c : Comparison} {number : Nat}

/-- The same walk with a comparison of the quantity. -/
def comparing (e : Errand) (m : Quantity) (c : Comparison) : Errand :=
  { e with query := e.query.comparing m c }

/-- A comparison hides nothing from the walk. -/
theorem listing_comparing : listing (comparing e m c) fs top = listing e fs top := by
  cases m <;> rfl

theorem verdict_comparing (hsize : e.query.size = none) (hage : e.query.age = none) :
    verdict (comparing e m c) fs item = (verdict e fs item).bind fun met =>
      if met then
        (m.ofProbe (probe e.setting fs item.entry.path) e.setting.now).map c.test
      else .ok false :=
  Query.holds_comparing hsize hage ..

theorem isFound_iff : isFound e fs item = true ↔ verdict e fs item = .ok true := by
  rw [isFound]
  rcases verdict e fs item with f | b <;> simp

/-- What a comparison lets pass is found without it. -/
theorem isFound_of_comparing (hsize : e.query.size = none) (hage : e.query.age = none)
    (h : isFound (comparing e m c) fs item = true) : isFound e fs item = true := by
  rw [isFound_iff, verdict_comparing hsize hage] at h
  rw [isFound_iff]
  rcases hverdict : verdict e fs item with f | (_ | _)
  · simp [hverdict, Except.bind] at h
  · simp [hverdict, Except.bind] at h
  · rfl

/-- What is found passes one of the three comparisons with a number. -/
theorem existsUnique_isFound (hsize : e.query.size = none) (hage : e.query.age = none)
    (hfound : isFound e fs item = true) (hanswer : Answers (comparing e m ⟨.exact, number⟩) fs item) :
    ∃! op, isFound (comparing e m ⟨op, number⟩) fs item = true := by
  have hverdict (op : CompareOp) : verdict (comparing e m ⟨op, number⟩) fs item = _ :=
    verdict_comparing hsize hage
  simp only [isFound_iff.1 hfound, Except.bind, if_true] at hverdict
  obtain ⟨b, hb⟩ := hanswer.verdict
  rw [hverdict] at hb
  cases hnumber : m.ofProbe (probe e.setting fs item.entry.path) e.setting.now with
  | error f => simp [hnumber, Except.map] at hb
  | ok actual =>
    simp only [isFound_iff, hverdict, hnumber, Except.map, Except.ok.injEq]
    exact Comparison.existsUnique_test number actual

theorem sublist_foundIn_comparing (hsize : e.query.size = none) (hage : e.query.age = none) :
    (foundIn (comparing e m c) fs top).Sublist (foundIn e fs top) := by
  rw [foundIn, foundIn, listing_comparing]
  exact (List.monotone_filter_right _ fun _ => isFound_of_comparing hsize hage).map _

/-- The line of what is found is written by one of the three searches. -/
theorem existsUnique_mem_lines (hsize : e.query.size = none) (hage : e.query.age = none)
    (hanswers : ∀ item ∈ listing e fs top, Answers (comparing e m ⟨.exact, number⟩) fs item) :
    ∀ line ∈ (foundIn e fs top).map lineOf,
      ∃! op, line ∈ (foundIn (comparing e m ⟨op, number⟩) fs top).map lineOf := by
  intro line hline
  obtain ⟨_, hentry, rfl⟩ := List.mem_map.1 hline
  obtain ⟨item, hitem, rfl⟩ := List.mem_map.1 hentry
  obtain ⟨hmem, hfound⟩ := List.mem_filter.1 hitem
  have hiff (op : CompareOp) :
      lineOf item.entry ∈ (foundIn (comparing e m ⟨op, number⟩) fs top).map lineOf ↔
        isFound (comparing e m ⟨op, number⟩) fs item = true := by
    rw [foundIn, listing_comparing, List.map_map]
    constructor
    · intro h
      obtain ⟨other, hother, hsame⟩ := List.mem_map.1 h
      obtain ⟨hlisted, hpasses⟩ := List.mem_filter.1 hother
      -- no other item has this line
      obtain rfl := List.inj_on_of_nodup_map (nodup_lines e fs top) hlisted hmem hsame
      exact hpasses
    · exact fun h => List.mem_map.2 ⟨item, List.mem_filter.2 ⟨hmem, h⟩, rfl⟩
  simp only [hiff]
  exact existsUnique_isFound hsize hage hfound (hanswers item hmem)

end Walk

variable {s : Setting} {q : Query} {source : Option FilterSource} {root : Text} {w : World}

/-- The lines of a search that compares neither sizes nor ages are divided among the three searches
that compare the same quantity with the same number, if all of them end normally. Each line is
written by one of the three, which write no other lines, and each of them keeps the order. The three
expressions compile whenever the first one does and the operator takes the number. -/
theorem comparisons_divide_lines (hquiet : s.Quiet) {tokens : List Text} {value : Text}
    (m : Quantity) (hq : compile tokens = .ok q) (hsize : q.size = none) (hage : q.age = none)
    (hkeep : q.delete = false) (hunsigned : IsUnsigned value)
    (haccepts : m.operator.Accepts value) :
    ∃ number, (∀ op : CompareOp, compile (tokens ++ [m.operator.spelling, op.sign ++ value]) =
        .ok (q.comparing m ⟨op, number⟩)) ∧
      ∀ n w' (counts : CompareOp → Nat) (worlds : CompareOp → World),
        find s q source [root] w = .ok n w' →
        (∀ op, find s (q.comparing m ⟨op, number⟩) source [root] w =
          .ok (counts op) (worlds op)) →
        ∃ (lines : List Text) (parts : CompareOp → List Text),
          w'.written = w.written ++ lines ∧ n = lines.length ∧ lines.Nodup ∧
          (∀ op, (worlds op).written = w.written ++ parts op ∧
            counts op = (parts op).length ∧ (parts op).Sublist lines) ∧
          ∀ line ∈ lines, ∃! op, line ∈ parts op := by
  obtain ⟨number, hcompile⟩ := exists_compile_comparing hq hunsigned haccepts
  refine ⟨number, hcompile, fun n w' counts worlds hfind hfinds => ?_⟩
  obtain ⟨filter, v, top, hstart⟩ := exists_departs_of_find hkeep hfind
  let e : Errand := ⟨s, q, filter, root⟩
  have hprint : q.print = true := print_of_compile hq hkeep
  have hkeeps (op : CompareOp) : (q.comparing m ⟨op, number⟩).delete = false := by
    rw [Query.delete_comparing, hkeep]
  have hprints (op : CompareOp) : (q.comparing m ⟨op, number⟩).print = true := by
    rw [Query.print_comparing, hprint]
  obtain ⟨hwritten, hcount⟩ := hstart.lines_of_find hquiet hkeep hprint hfind
  refine ⟨(foundIn e v.files top).map lineOf,
    fun op => (foundIn (comparing e m ⟨op, number⟩) v.files top).map lineOf, hwritten, hcount,
    nodup_lines_foundIn e v.files top, fun op => ?_, ?_⟩
  · obtain ⟨hwritten, hcount⟩ := hstart.lines_of_find hquiet (hkeeps op) (hprints op) (hfinds op)
    exact ⟨hwritten, hcount, (sublist_foundIn_comparing (e := e) hsize hage).map _⟩
  · -- that one search with a comparison ended normally says that all entries have the number
    obtain ⟨hcompletes, -⟩ := hstart.completes_of_find hquiet (hkeeps .exact) (hfinds .exact)
    have hanswers : ∀ item ∈ listing (comparing e m ⟨.exact, number⟩) v.files top,
        Answers (comparing e m ⟨.exact, number⟩) v.files item := hcompletes.answers
    rw [listing_comparing] at hanswers
    exact existsUnique_mem_lines hsize hage hanswers

/-- A directory with three files, of no byte, of one byte and of two bytes. -/
def sizedTree : FileSystem :=
  ChangeSite.applyAll ⟨[], ⟨0, 0⟩, none⟩ (.empty ⟨0, 0⟩)
    [.add ['r', '/', 'a'] ⟨.file {}, ⟨0, 0⟩⟩, .add ['r', '/', 'b'] ⟨.file { zeros := 1 }, ⟨0, 0⟩⟩,
      .add ['r', '/', 'c'] ⟨.file { zeros := 2 }, ⟨0, 0⟩⟩]

/-- Nothing is smaller than zero bytes, so that the three files are of this size or larger. -/
theorem comparisons_divide_lines_zero :
    ∃ (w' : World) (counts : CompareOp → Nat) (worlds : CompareOp → World),
      find smallErrand.setting { kind := some .regular } none [['r']] ⟨sizedTree, [], []⟩ =
        .ok 3 w' ∧
      (∀ op, find smallErrand.setting { kind := some .regular, size := some ⟨op, 0⟩ } none [['r']]
        ⟨sizedTree, [], []⟩ = .ok (counts op) (worlds op)) ∧
      ∃ (lines : List Text) (parts : CompareOp → List Text), w'.written = lines ∧
        lines.length = 3 ∧ (∀ op, (worlds op).written = parts op) ∧ parts .less = [] ∧
        ∀ line ∈ lines, ∃! op, line ∈ parts op := by
  let s : Setting := smallErrand.setting
  let q : Query := { kind := some .regular }
  let w : World := ⟨sizedTree, [], []⟩
  have htop : sizedTree.locate s.cwd false ['r'] = .ok [⟨['r'], rfl, by decide⟩] := rfl
  have hall : ∃ found w', walk ⟨s, q, none, ['r']⟩ w = .ok found w' ∧ 3 = found.length := by
    rw [walk_eq_run (e := ⟨s, q, none, ['r']⟩) htop, run_of_turns_done (n := 4) rfl rfl]
    exact ⟨_, _, rfl, rfl⟩
  have hparts : ∀ op, ∃ n u, find s { q with size := some ⟨op, 0⟩ } none [['r']] w = .ok n u ∧
      (op = .less → n = 0) := by
    intro op
    have hwalk : ∃ found u, walk ⟨s, { q with size := some ⟨op, 0⟩ }, none, ['r']⟩ w =
        .ok found u ∧ (op = .less → found.length = 0) := by
      rw [walk_eq_run (e := ⟨s, { q with size := some ⟨op, 0⟩ }, none, ['r']⟩) htop]
      cases op with
      | less =>
        rw [run_of_turns_done (n := 4) rfl rfl]
        exact ⟨_, _, rfl, fun _ => rfl⟩
      | exact | greater =>
        rw [run_of_turns_done (n := 4) rfl rfl]
        exact ⟨_, _, rfl, (absurd · (by decide))⟩
    obtain ⟨found, u, hwalk, hnone⟩ := hwalk
    exact ⟨_, u, (find_singleton_ok_iff rfl).2 ⟨none, w, found, rfl, hwalk, rfl⟩, hnone⟩
  obtain ⟨found, w', hall, hthree⟩ := hall
  choose counts worlds hparts hnone using hparts
  have hfind : find s q none [['r']] w = .ok 3 w' :=
    (find_singleton_ok_iff rfl).2 ⟨none, w, found, rfl, hall, hthree⟩
  obtain ⟨number, hcompile, hdivide⟩ := comparisons_divide_lines (s := s) (q := q) (w := w)
    (fun _ _ _ => rfl) .size (rfl : compile ["-type".toList, ['f']] = .ok q) rfl rfl rfl
    (by simp [IsUnsigned]) (⟨_, rfl⟩ : ∃ c, readSize ['0'] = .ok c)
  obtain rfl : number = 0 := by
    have hzero := hcompile .exact
    injection hzero with hzero
    injection congrArg Query.size hzero with hzero
    injection hzero with _ hzero
    exact hzero.symm
  obtain ⟨lines, parts, hlines, hcount, -, hworlds, hone⟩ := hdivide 3 w' counts worlds hfind hparts
  refine ⟨w', counts, worlds, hfind, hparts, lines, parts, hlines, hcount.symm,
    fun op => (hworlds op).1, ?_, hone⟩
  exact List.length_eq_zero_iff.1 ((hworlds .less).2.1.symm.trans (hnone .less rfl))

end FileSearch
